import IdtNtb.Device.Registers
import Mathlib.Tactic.FinCases

/-! The packed memory layout of the shared storage, in 32-bit words. Every word
of the block is one register, one half of a 64-bit register or one field of a
BAR table entry; `at` and `index` translate between names and word offsets.
A pointer expression such as `peer_bar_config[i].limit` denotes a word offset
for every `i`, also for those past the end of the table. -/
namespace IdtNtb.Device

def half (x : BitVec 64) (h : Fin 2) : BitVec 32 := x.extractLsb' (32 * h) 32

def join (high low : BitVec 32) : BitVec 64 := low.setWidth 64 ||| high.setWidth 64 <<< 32

def setHalf (x : BitVec 64) (h : Fin 2) (v : BitVec 32) : BitVec 64 :=
  if h = 0 then join (half x 1) v else join v (half x 0)

theorem half_join_low (high low : BitVec 32) : half (join high low) 0 = low := by
  apply BitVec.eq_of_getLsbD_eq
  intro i bound
  have inside : i < 64 := by omega
  simp [half, join, bound, inside]

theorem half_join_high (high low : BitVec 32) : half (join high low) 1 = high := by
  apply BitVec.eq_of_getLsbD_eq
  intro i bound
  have inside : 32 + i < 64 := by omega
  simp [half, join, bound, inside]

theorem join_halves (x : BitVec 64) : join (half x 1) (half x 0) = x := by
  apply BitVec.eq_of_getLsbD_eq
  intro i bound
  by_cases low : i < 32
  · simp [half, join, low, bound]
  · have high : i - 32 < 32 := by omega
    have back : 32 + (i - 32) = i := by omega
    simp [half, join, low, high, bound, back]

theorem half_setHalf (x : BitVec 64) (h k : Fin 2) (v : BitVec 32) :
    half (setHalf x h v) k = if k = h then v else half x k := by
  fin_cases h <;> fin_cases k <;> simp [setHalf, half_join_low, half_join_high]

theorem half_ext {x y : BitVec 64} (same : ∀ h, half x h = half y h) : x = y := by
  rw [← join_halves x, ← join_halves y, same 0, same 1]

inductive RegWord where
  | db
  | dbMask
  | inboundMwPart
  | ntctl (h : Fin 2)
  | msgsts (h : Fin 2)
  | msgstsMask (h : Fin 2)
  | msg (i : Fin 4) (h : Fin 2)
  | intsts (h : Fin 2)
  | part0MsgControl (i : Fin 4) (h : Fin 2)
  | inbMsgSrc (i : Fin 4) (h : Fin 2)
  deriving DecidableEq

inductive VmWord where
  | id
  | reg (w : RegWord)
  | bar (i : Fin 6) (field : BarField)
  deriving DecidableEq

/-- The words of `idt_ivshmem_shm_storage` and of the memory behind it. -/
inductive Word where
  | greg (i : Fin 4)
  | vm (r : Role) (w : VmWord)
  | beyond (k : Nat)
  deriving DecidableEq

def SharedRegisters.get (g : SharedRegisters) : RegWord → BitVec 32
  | .db => g.db
  | .dbMask => g.dbMask
  | .inboundMwPart => g.inboundMwPart
  | .ntctl h => half g.ntctl h
  | .msgsts h => half g.msgsts h
  | .msgstsMask h => half g.msgstsMask h
  | .msg i h => half (g.msg i) h
  | .intsts h => half g.intsts h
  | .part0MsgControl i h => half (g.part0MsgControl i) h
  | .inbMsgSrc i h => half (g.inbMsgSrc i) h

def SharedRegisters.set (g : SharedRegisters) (v : BitVec 32) : RegWord → SharedRegisters
  | .db => { g with db := v }
  | .dbMask => { g with dbMask := v }
  | .inboundMwPart => { g with inboundMwPart := v }
  | .ntctl h => { g with ntctl := setHalf g.ntctl h v }
  | .msgsts h => { g with msgsts := setHalf g.msgsts h v }
  | .msgstsMask h => { g with msgstsMask := setHalf g.msgstsMask h v }
  | .msg i h => { g with msg := Function.update g.msg i (setHalf (g.msg i) h v) }
  | .intsts h => { g with intsts := setHalf g.intsts h v }
  | .part0MsgControl i h =>
      { g with
        part0MsgControl := Function.update g.part0MsgControl i (setHalf (g.part0MsgControl i) h v) }
  | .inbMsgSrc i h =>
      { g with inbMsgSrc := Function.update g.inbMsgSrc i (setHalf (g.inbMsgSrc i) h v) }

def VmStorage.get (s : VmStorage) : VmWord → BitVec 32
  | .id => s.id
  | .reg w => s.regs.get w
  | .bar i field => (s.barConfig i).get field

def VmStorage.set (s : VmStorage) (v : BitVec 32) : VmWord → VmStorage
  | .id => { s with id := v }
  | .reg w => { s with regs := s.regs.set v w }
  | .bar i field =>
      { s with barConfig := Function.update s.barConfig i ((s.barConfig i).set v field) }

def GlobalRegisters.get (g : GlobalRegisters) : Fin 4 → BitVec 32
  | 0 => g.segsigsts
  | 1 => g.segsigmsk
  | 2 => g.ntIntMask
  | 3 => g.ntmtbl0

def GlobalRegisters.set (g : GlobalRegisters) (v : BitVec 32) : Fin 4 → GlobalRegisters
  | 0 => { g with segsigsts := v }
  | 1 => { g with segsigmsk := v }
  | 2 => { g with ntIntMask := v }
  | 3 => { g with ntmtbl0 := v }

def SharedMemory.get (m : SharedMemory) : Word → BitVec 32
  | .greg i => m.gregs.get i
  | .vm r w => (m.vm r).get w
  | .beyond k => m.beyond k

def SharedMemory.set (m : SharedMemory) (v : BitVec 32) : Word → SharedMemory
  | .greg i => { m with gregs := m.gregs.set v i }
  | .vm r w => m.mapVm r (·.set v w)
  | .beyond k => { m with beyond := Function.update m.beyond k v }

def RegWord.at : Nat → RegWord
  | 0 => .db
  | 1 => .dbMask
  | 2 => .inboundMwPart
  | n + 3 =>
      let i := Fin.ofNat 2 n
      match n / 2 with
      | 0 => .ntctl i
      | 1 => .msgsts i
      | 2 => .msgstsMask i
      | k + 3 =>
          if k < 4 then .msg (Fin.ofNat 4 k) i
          else if k = 4 then .intsts i
          else if k < 9 then .part0MsgControl (Fin.ofNat 4 (k - 5)) i
          else .inbMsgSrc (Fin.ofNat 4 (k - 9)) i

def RegWord.index : RegWord → Nat
  | .db => 0
  | .dbMask => 1
  | .inboundMwPart => 2
  | .ntctl h => 3 + h
  | .msgsts h => 5 + h
  | .msgstsMask h => 7 + h
  | .msg i h => 9 + 2 * i + h
  | .intsts h => 17 + h
  | .part0MsgControl i h => 19 + 2 * i + h
  | .inbMsgSrc i h => 27 + 2 * i + h

def BarField.at : Nat → BarField
  | 0 => .setup
  | 1 => .limit
  | 2 => .ltbase
  | _ => .utbase

def BarField.index : BarField → Nat
  | .setup => 0
  | .limit => 1
  | .ltbase => 2
  | .utbase => 3

def VmWord.at (n : Nat) : VmWord :=
  if n = 0 then .id
  else if n < 36 then .reg (.at (n - 1))
  else .bar (Fin.ofNat 6 ((n - 36) / 4)) (.at ((n - 36) % 4))

def VmWord.index : VmWord → Nat
  | .id => 0
  | .reg w => 1 + w.index
  | .bar i field => 36 + 4 * i + field.index

/-- `vm1` follows the four global registers; each VM block has 60 words. -/
def vmBase : Role → Nat
  | .vm1 => 4
  | .vm2 => 64

def storageWords : Nat := 124

def Word.at (k : Nat) : Word :=
  if k < 4 then .greg (Fin.ofNat 4 k)
  else if k < 64 then .vm .vm1 (.at (k - 4))
  else if k < storageWords then .vm .vm2 (.at (k - 64))
  else .beyond (k - storageWords)

def Word.index : Word → Nat
  | .greg i => i
  | .vm r w => vmBase r + w.index
  | .beyond k => storageWords + k

/-- The word at an offset of the shared block, and a store to it. -/
def SharedMemory.word (m : SharedMemory) (k : Nat) : BitVec 32 := m.get (.at k)

def SharedMemory.store (m : SharedMemory) (k : Nat) (v : BitVec 32) : SharedMemory :=
  m.set v (.at k)

theorem index_at (k : Nat) : (Word.at k).index = k := by
  by_cases inside : k < storageWords
  · have packed : ∀ k : Fin 124, (Word.at k).index = k := by decide +kernel
    exact packed ⟨k, inside⟩
  · have bound : 124 ≤ k := by simpa [storageWords] using inside
    rw [Word.at, if_neg (by omega), if_neg (by omega), if_neg inside]
    simp only [Word.index, storageWords]
    omega

theorem at_injective : Function.Injective Word.at := by
  intro j k same
  rw [← index_at j, same, index_at]

theorem SharedRegisters.get_set (g : SharedRegisters) (v : BitVec 32) (w u : RegWord) :
    (g.set v w).get u = if u = w then v else g.get u := by
  cases w <;> cases u <;> simp only [SharedRegisters.get, SharedRegisters.set, half_setHalf,
    reduceCtorEq, if_false, if_true, RegWord.ntctl.injEq, RegWord.msgsts.injEq,
    RegWord.msgstsMask.injEq, RegWord.intsts.injEq]
  all_goals
    rename_i i h j k
    by_cases same : j = i
    · subst same
      simp [half_setHalf]
    · simp [same]

theorem VmStorage.get_set (s : VmStorage) (v : BitVec 32) (w u : VmWord) :
    (s.set v w).get u = if u = w then v else s.get u := by
  cases w with
  | id => cases u <;> simp [VmStorage.get, VmStorage.set]
  | reg w => cases u <;> simp [VmStorage.get, VmStorage.set, SharedRegisters.get_set]
  | bar i field =>
    cases u with
    | id | reg => simp [VmStorage.get, VmStorage.set]
    | bar j other =>
      by_cases same : j = i
      · subst same
        cases field <;> cases other <;> simp [VmStorage.get, VmStorage.set, BARConfig.get,
          BARConfig.set]
      · simp [VmStorage.get, VmStorage.set, same]

theorem SharedMemory.get_set (m : SharedMemory) (v : BitVec 32) (w u : Word) :
    (m.set v w).get u = if u = w then v else m.get u := by
  cases w with
  | greg i =>
    cases u with
    | greg j => fin_cases i <;> fin_cases j <;> rfl
    | vm | beyond => rfl
  | vm r w =>
    cases u with
    | greg | beyond => rfl
    | vm q u =>
      by_cases same : q = r
      · subst same
        simp [SharedMemory.get, SharedMemory.set, VmStorage.get_set]
      · simp [SharedMemory.get, SharedMemory.set, mapVm_other _ _ same, same]
  | beyond k =>
    cases u with
    | greg | vm => rfl
    | beyond j =>
      simp only [SharedMemory.get, SharedMemory.set, Function.update_apply, Word.beyond.injEq]

theorem BARConfig.ext_get {c c' : BARConfig} (same : ∀ field, c.get field = c'.get field) :
    c = c' := by
  obtain ⟨setup, limit, ltbase, utbase⟩ := c
  obtain ⟨setup', limit', ltbase', utbase'⟩ := c'
  rw [BARConfig.mk.injEq]
  exact ⟨same .setup, same .limit, same .ltbase, same .utbase⟩

/-- Registers that agree word by word are the same. -/
theorem SharedRegisters.ext_get {g g' : SharedRegisters} (same : ∀ w, g.get w = g'.get w) :
    g = g' := by
  obtain ⟨db, dbMask, part, ntctl, msgsts, msgstsMask, msg, intsts, control, source⟩ := g
  obtain ⟨db', dbMask', part', ntctl', msgsts', msgstsMask', msg', intsts', control', source'⟩ := g'
  rw [SharedRegisters.mk.injEq]
  exact ⟨same .db, same .dbMask, same .inboundMwPart, half_ext fun h => same (.ntctl h),
    half_ext fun h => same (.msgsts h), half_ext fun h => same (.msgstsMask h),
    funext fun i => half_ext fun h => same (.msg i h), half_ext fun h => same (.intsts h),
    funext fun i => half_ext fun h => same (.part0MsgControl i h),
    funext fun i => half_ext fun h => same (.inbMsgSrc i h)⟩

theorem VmStorage.ext_get {v v' : VmStorage} (same : ∀ w, v.get w = v'.get w) : v = v' := by
  obtain ⟨id, regs, bars⟩ := v
  obtain ⟨id', regs', bars'⟩ := v'
  rw [VmStorage.mk.injEq]
  refine ⟨same .id, SharedRegisters.ext_get fun w => same (.reg w), ?_⟩
  exact funext fun i => BARConfig.ext_get fun field => same (.bar i field)

/-- The packed block is a memory: a store changes the word it addresses and no
other word, whichever register the address falls in. -/
theorem word_store (m : SharedMemory) (k j : Nat) (v : BitVec 32) :
    (m.store k v).word j = if j = k then v else m.word j := by
  simp only [SharedMemory.word, SharedMemory.store, SharedMemory.get_set, at_injective.eq_iff]

/-- `&vm.bar_config[i].field`, for every index the C expression can take. -/
def barWord (r : Role) (i : Nat) (field : BarField) : Nat := vmBase r + 36 + 4 * i + field.index

def SharedMemory.storeBar (m : SharedMemory) (r : Role) (i : BitVec 32) (field : BarField)
    (v : BitVec 32) : SharedMemory :=
  m.store (barWord r i.toNat field) v

theorem at_barWord (r : Role) (i : Fin 6) (field : BarField) :
    Word.at (barWord r i field) = .vm r (.bar i field) := by
  cases r <;> cases field <;> revert i <;> decide +kernel

/-- An index inside the table reaches that entry and nothing else. -/
theorem storeBar_inside (m : SharedMemory) (r : Role) (i : BitVec 32) (field : BarField)
    (v : BitVec 32) (inside : i.toNat < 6) :
    m.storeBar r i field v = m.setBar r ⟨i.toNat, inside⟩ field v := by
  have named := at_barWord r ⟨i.toNat, inside⟩ field
  simp only [SharedMemory.storeBar, SharedMemory.store, named, SharedMemory.set, VmStorage.set,
    SharedMemory.setBar]

end IdtNtb.Device
