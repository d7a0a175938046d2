import IdtNtb.Ring.Geometry
import IdtNtb.Ring.Invariant

/-! Where `run_tx` stores, whatever the header in the window says. Its start-up checks
cover the number of slots and their size. The offsets of the slots come from two more
fields, and all four are read again for every slot. -/
namespace IdtNtb.Ring
open Bytes Transition

structure Shape where
  headerSize : Nat
  slotHeaderSize : Nat
  slotCount : Nat
  slotSize : Nat
  deriving DecidableEq

def shapeOf (m : Memory) : Shape :=
  ⟨get m .headerSize, get m .slotHeaderSize, get m .slotCount, get m .slotSize⟩

namespace Shape

def stride (h : Shape) : Nat := h.slotHeaderSize + h.slotSize

def slot (h : Shape) (i : Nat) : Nat := u64 (h.headerSize + i % h.slotCount * h.stride)

/-- The start-up check of `run_tx` lets the ring pass. -/
def Admitted (h : Shape) (o : Options) : Prop :=
  h.slotCount ≠ 0 ∧ h.slotSize ≠ 0 ∧ o.txChunk ≤ h.slotSize

instance (h : Shape) (o : Options) : Decidable (h.Admitted o) := inferInstanceAs (Decidable (_ ∧ _))

/-- The bytes of a slot header that are stored, and the payload of the largest frame. -/
def reach (h : Shape) (o : Options) : Nat :=
  max (SlotField.flags.offset + SlotField.flags.width) (h.slotHeaderSize + min o.txChunk o.total)

/-- The last slot ends in a mapping of `N` bytes. -/
def Fits (h : Shape) (o : Options) (N : Nat) : Prop :=
  0 < o.total → h.Admitted o → h.headerSize + (h.slotCount - 1) * h.stride + h.reach o ≤ N

end Shape

/-- `run_tx` over a window that the other VM can write. -/
structure Sender where
  mem : Memory
  tx : Tx

def Sender.start (m : Memory) : Sender := ⟨m, ⟨0, 0, 0, .waitMagic⟩⟩

inductive SenderLabel where
  | tx (fails : Bool) (elapsed : Nat)
  | peer (addr width value : Nat)
  deriving DecidableEq

/-- A store of the sender, or the divisor of `ntb_ring_slot`. -/
inductive TxAccess where
  | stored (addr width : Nat)
  | divided (slotCount : Nat)
  deriving DecidableEq

def TxAccess.Within (N : Nat) : TxAccess → Prop
  | .stored addr width => addr + width ≤ N
  | .divided slotCount => slotCount ≠ 0

def Event.access : Event → Option TxAccess
  | .stored addr width _ _ => some (.stored addr width)
  | _ => none

def Sender.divides (s : Sender) : List TxAccess :=
  match s.tx.pc with
  | .slotPtr _ => [.divided (get s.mem .slotCount)]
  | _ => []

def Sender.step (o : Options) (s : Sender) : SenderLabel → Option (Sender × List TxAccess)
  | .tx fails elapsed =>
      (stepTx o s.mem s.tx fails elapsed).map fun (m, tx, es) =>
        (⟨m, tx⟩, s.divides ++ es.filterMap Event.access)
  | .peer addr width value => some ({ s with mem := store s.mem addr width value }, [])

def TxPc.looks : TxPc → Bool
  | .loadSlotCount | .loadSlotSize | .slotPtr _ => true
  | _ => false

/-- The sender finds the same geometry each time it looks. -/
def Steady (h : Shape) (s : Sender) : SenderLabel → Prop
  | .tx .. => s.tx.pc.looks = true → shapeOf s.mem = h
  | .peer .. => True

instance (h : Shape) (s : Sender) : DecidablePred (Steady h s)
  | .tx .. => inferInstanceAs (Decidable (_ → _))
  | .peer .. => .isTrue trivial

/-- The last look of the handshake does not find what it waits for. -/
def Unanswered (s : Sender) : SenderLabel → Prop
  | .tx .. => s.tx.pc = .waitTail → get s.mem .tail ≠ 0
  | .peer .. => True

/-- What `run_tx` can do in a window with the geometry of `m`. -/
def Does (o : Options) (m : Memory) (es : List TxAccess) : Prop :=
  ∃ ls t, Along (Sender.step o) (Steady (shapeOf m)) (.start m) ls ∧
    run (Sender.step o) (.start m) ls = some (t, es)

/-- Everything it does stays inside a mapping of `N` bytes. -/
def Inside (o : Options) (m : Memory) (N : Nat) : Prop := ∀ es, Does o m es → ∀ e ∈ es, e.Within N

/-! ## The slot being filled -/

/-- A slot of the ring `h`, as the sender has computed it. -/
structure Shape.Fills (h : Shape) (o : Options) (filling : Filling) : Prop where
  nonempty : 0 < o.total
  slot : filling.slot = h.slot filling.head
  dest : filling.dest = u64 (filling.slot + h.slotHeaderSize)
  payload : filling.payload ≤ min o.txChunk o.total

theorem u64_le (n : Nat) : u64 n ≤ n := Nat.mod_le _ _

theorem slot_le (h : Shape) (i : Nat) (counted : h.slotCount ≠ 0) :
    h.slot i ≤ h.headerSize + (h.slotCount - 1) * h.stride := by
  have index : i % h.slotCount ≤ h.slotCount - 1 :=
    Nat.le_pred_of_lt (Nat.mod_lt i (Nat.pos_of_ne_zero counted))
  have scaled := Nat.mul_le_mul_right h.stride index
  have exact := u64_le (h.headerSize + i % h.slotCount * h.stride)
  unfold Shape.slot
  omega

/-- A ring that fits keeps the slot header and the payload inside. -/
theorem Shape.Fills.inside {h : Shape} {filling : Filling} (fills : h.Fills o filling)
    (admitted : h.Admitted o) (fits : h.Fits o N) :
    filling.slot + (SlotField.flags.offset + SlotField.flags.width) ≤ N ∧
    filling.dest + filling.payload ≤ N := by
  have last := slot_le h filling.head admitted.1
  have room := fits fills.nonempty admitted
  have dest := u64_le (filling.slot + h.slotHeaderSize)
  have payload := fills.payload
  rw [← fills.slot] at last
  rw [← fills.dest] at dest
  unfold Shape.reach at room
  omega

/-- What is left to send is the difference. -/
theorem left_exact (o : Options) (less : sent < o.total ∨ sent = 0) :
    u64 (o.total + 2 ^ 64 - sent) = o.total - sent := by
  have total := o.total_lt
  unfold u64
  omega

theorem nextPayload_le (more : sent < o.total) : nextPayload o sent ≤ min o.txChunk o.total := by
  unfold nextPayload
  rw [left_exact o (Or.inl more)]
  split <;> omega

/-- What the sender knows at each point, for a window whose geometry is `h`. -/
def SenderAt (o : Options) (h : Shape) (tx : Tx) : Prop :=
  match tx.pc with
  | .waitMagic | .waitVersion | .waitFlags | .waitHead | .waitTail | .waitTimeout | .loadSlotCount
  | .done _ => True
  | .loadSlotSize => tx.slotCount = h.slotCount
  | .loadTail _ | .slotPtr _ => h.Admitted o ∧ tx.sent < o.total
  | .copy slot _ | .storeTotal slot | .storeFlags slot | .storeLen slot | .barrier slot
  | .storeSeq slot
  | .storeHead slot => h.Admitted o ∧ h.Fills o slot
  | .allocate | .loop | .checkTimeout | .drainHead | .drainTail _ | .drainTimeout | .storeTotalBytes
  | .storeElapsed | .finalBarrier | .storeDone => h.Admitted o

def Reports (o : Options) (h : Shape) (N : Nat) (e : TxAccess) : Prop :=
  h.Admitted o ∧ (h.Fits o N → e.Within N)

theorem goto_at {o : Options} {h : Shape} {tx : Tx} (stepped : tx.goto m pc = some (n, tx', es))
    (held : SenderAt o h { tx with pc }) :
    SenderAt o h tx' ∧ ∀ e ∈ es.filterMap Event.access, Reports o h N e := by
  cases stepped
  exact ⟨held, nofun⟩

theorem write_at {o : Options} {h : Shape} {tx : Tx}
    (stepped : tx.write m addr width value pc = some (n, tx', es))
    (held : SenderAt o h { tx with pc })
    (admitted : h.Admitted o) (inside : h.Fits o N → addr + width ≤ N) :
    SenderAt o h tx' ∧ ∀ e ∈ es.filterMap Event.access, Reports o h N e := by
  cases stepped
  refine ⟨held, ?_⟩
  intro e access
  cases List.mem_singleton.mp access
  exact ⟨admitted, inside⟩

theorem writeSlot_at {o : Options} {h : Shape} {tx : Tx} {slot : Filling} (f : SlotField)
    (stepped : tx.writeSlot m slot f value pc = some (n, tx', es))
    (held : SenderAt o h { tx with pc })
    (admitted : h.Admitted o) (fills : h.Fills o slot) :
    SenderAt o h tx' ∧ ∀ e ∈ es.filterMap Event.access, Reports o h N e := by
  refine write_at stepped held admitted ?_
  intro fits
  have room := (fills.inside admitted fits).1
  have field : f.offset + f.width ≤ SlotField.flags.offset + SlotField.flags.width := by
    cases f <;> decide
  omega

theorem writeHeader_at {o : Options} {h : Shape} {tx : Tx} (f : Field) (header : sizeofHeader ≤ N)
    (stepped : tx.writeHeader m f value pc = some (n, tx', es)) (held : SenderAt o h { tx with pc })
    (admitted : h.Admitted o) :
    SenderAt o h tx' ∧ ∀ e ∈ es.filterMap Event.access, Reports o h N e :=
  write_at stepped held admitted fun _ => Nat.le_trans (field_inside f) header

theorem stepTx_at (header : sizeofHeader ≤ N) (held : SenderAt o h tx)
    (steady : tx.pc.looks = true → shapeOf m = h)
    (stepped : stepTx o m tx fails elapsed = some (n, tx', es)) :
    SenderAt o h tx' ∧ ∀ e ∈ es.filterMap Event.access, Reports o h N e := by
  obtain ⟨sent, slotCount, slotSize, pc⟩ := tx
  cases pc with
  | waitMagic | waitVersion | waitFlags | waitHead | waitTail =>
    simp only [stepTx, Tx.await] at stepped
    split at stepped
    · exact goto_at stepped trivial
    · exact goto_at stepped trivial
  | waitTimeout =>
    simp only [stepTx] at stepped
    split at stepped
    · exact goto_at stepped trivial
    · exact goto_at stepped trivial
  | loadSlotCount =>
    cases stepped
    exact ⟨congrArg Shape.slotCount (steady rfl), nofun⟩
  | loadSlotSize =>
    have size : get m .slotSize = h.slotSize := congrArg Shape.slotSize (steady rfl)
    have count : slotCount = h.slotCount := held
    simp only [stepTx, Option.some.injEq, Prod.mk.injEq] at stepped
    obtain ⟨rfl, rfl, rfl⟩ := stepped
    refine ⟨?_, nofun⟩
    rw [size, count]
    split
    · trivial
    · rename_i usable
      simp only [not_or, Nat.not_lt] at usable
      exact usable
  | allocate | checkTimeout | drainTimeout | finalBarrier =>
    simp only [stepTx] at stepped
    split at stepped
    · exact goto_at stepped trivial
    · exact goto_at stepped held
  | loop =>
    simp only [stepTx] at stepped
    split at stepped
    · rename_i more
      exact goto_at stepped ⟨held, more⟩
    · exact goto_at stepped held
  | loadTail head =>
    simp only [stepTx] at stepped
    split at stepped
    · exact goto_at stepped held.1
    · exact goto_at stepped held
  | slotPtr head =>
    obtain rfl := steady rfl
    obtain ⟨admitted, more⟩ := held
    refine goto_at stepped ⟨admitted, ?_⟩
    exact ⟨Nat.lt_of_le_of_lt (Nat.zero_le _) more, rfl, rfl, nextPayload_le more⟩
  | copy slot k =>
    obtain ⟨admitted, fills⟩ := held
    simp only [stepTx] at stepped
    split at stepped
    · rename_i below
      refine write_at stepped ⟨admitted, fills⟩ admitted ?_
      intro fits
      have room := (fills.inside admitted fits).2
      omega
    · exact goto_at stepped ⟨admitted, fills⟩
  | storeTotal slot | storeFlags slot | storeLen slot | storeSeq slot =>
    exact writeSlot_at _ stepped held held.1 held.2
  | barrier slot =>
    simp only [stepTx] at stepped
    split at stepped
    · exact goto_at stepped trivial
    · exact goto_at stepped held
  | storeHead slot =>
    simp only [stepTx, Tx.writeHeader, Tx.write, Option.map_some, Option.some.injEq,
      Prod.mk.injEq] at stepped
    obtain ⟨rfl, rfl, rfl⟩ := stepped
    refine ⟨held.1, ?_⟩
    intro e access
    cases List.mem_singleton.mp access
    exact ⟨held.1, fun _ => Nat.le_trans (field_inside .head) header⟩
  | drainHead => exact goto_at stepped held
  | drainTail head =>
    simp only [stepTx] at stepped
    split at stepped
    · exact goto_at stepped held
    · exact goto_at stepped held
  | storeTotalBytes | storeElapsed => exact writeHeader_at _ header stepped held held
  | storeDone => exact writeHeader_at _ header stepped trivial held
  | done result => cases stepped

theorem step_at (header : sizeofHeader ≤ N) (held : SenderAt o h s.tx) (steady : Steady h s l)
    (stepped : s.step o l = some (t, es)) : SenderAt o h t.tx ∧ ∀ e ∈ es, Reports o h N e := by
  cases l with
  | peer addr width value =>
    cases stepped
    exact ⟨held, nofun⟩
  | tx fails elapsed =>
    obtain ⟨⟨m, tx, fs⟩, moved, same⟩ := Option.map_eq_some_iff.mp stepped
    cases same
    obtain ⟨kept, reported⟩ := stepTx_at header held steady moved
    refine ⟨kept, List.forall_mem_append.mpr ⟨?_, reported⟩⟩
    intro e access
    unfold Sender.divides at access
    split at access
    · rename_i head here
      cases List.mem_singleton.mp access
      have looks : s.tx.pc.looks = true := by rw [here]; rfl
      have admitted : h.Admitted o := by
        simp only [SenderAt, here] at held
        exact held.1
      have count : get s.mem .slotCount = h.slotCount := congrArg Shape.slotCount (steady looks)
      refine ⟨admitted, fun _ => ?_⟩
      rw [count]
      exact admitted.1
    · cases access

theorem does_reports (header : sizeofHeader ≤ N) (does : Does o m es) :
    ∀ e ∈ es, Reports o (shapeOf m) N e := by
  obtain ⟨ls, t, steady, path⟩ := does
  exact (run_reports (P := fun s => SenderAt o (shapeOf m) s.tx)
    (fun held steady stepped => step_at header held steady stepped)
    (show SenderAt o (shapeOf m) (Sender.start m).tx from trivial) steady path).2

/-! ## The handshake -/

def TxPc.idle : TxPc → Bool
  | .waitMagic | .waitVersion | .waitFlags | .waitHead | .waitTail | .waitTimeout | .done _ => true
  | _ => false

theorem step_idle {s t : Sender} (idle : s.tx.pc.idle = true) (unanswered : Unanswered s l)
    (stepped : s.step o l = some (t, es)) : t.tx.pc.idle = true ∧ es = [] := by
  cases l with
  | peer addr width value =>
    cases stepped
    exact ⟨idle, rfl⟩
  | tx fails elapsed =>
    obtain ⟨⟨m, tx, fs⟩, moved, same⟩ := Option.map_eq_some_iff.mp stepped
    cases same
    obtain ⟨n, ⟨sent, slotCount, slotSize, pc⟩⟩ := s
    cases pc with
    | waitMagic | waitVersion | waitFlags | waitHead =>
      simp only [stepTx, Tx.await] at moved
      split at moved <;> cases moved <;> exact ⟨rfl, rfl⟩
    | waitTail =>
      simp only [stepTx, Tx.await, if_neg (unanswered rfl)] at moved
      cases moved
      exact ⟨rfl, rfl⟩
    | waitTimeout =>
      simp only [stepTx] at moved
      split at moved <;> cases moved <;> exact ⟨rfl, rfl⟩
    | done result => cases moved
    | _ => cases idle

/-- A run whose handshake never passes stores nothing. -/
theorem unanswered_silent (unanswered : Along (Sender.step o) Unanswered (.start m) ls)
    (path : run (Sender.step o) (.start m) ls = some (t, es)) : es = [] := by
  have reported := (run_reports (P := fun s : Sender => s.tx.pc.idle = true) (Q := fun _ => False)
    (fun idle unanswered stepped => by
      obtain ⟨kept, rfl⟩ := step_idle idle unanswered stepped
      exact ⟨kept, List.forall_mem_nil _⟩) rfl unanswered path).2
  exact List.eq_nil_iff_forall_not_mem.mpr reported

/-! ## A run that fills any slot -/

/-- A point of `run_tx` that the window lets it come to. -/
def Reached (o : Options) (m : Memory) : Sender → Prop :=
  Reaches (Sender.step o) (Steady (shapeOf m)) (.start m)

theorem Reached.sends (reached : Reached o m ⟨n, tx⟩)
    (steady : tx.pc.looks = true → shapeOf n = shapeOf m)
    (moved : ∃ es, stepTx o n tx false 0 = some (n', tx', es)) : Reached o m ⟨n', tx'⟩ := by
  obtain ⟨es, moved⟩ := moved
  exact Reaches.next (l := SenderLabel.tx false 0) reached steady (congrArg (Option.map _) moved)

/-- A step that does not look at the geometry. -/
theorem Reached.moves (reached : Reached o m ⟨n, tx⟩) (plain : tx.pc.looks = false)
    (moved : ∃ es, stepTx o n tx false 0 = some (n', tx', es)) : Reached o m ⟨n', tx'⟩ :=
  reached.sends (fun looks => absurd (plain.symm.trans looks) Bool.false_ne_true) moved

/-- The other VM stores into the header. -/
theorem Reached.fill (reached : Reached o m ⟨n, tx⟩) (stores : List (Field × Nat)) :
    Reached o m ⟨fillIn n stores, tx⟩ := by
  induction stores generalizing n with
  | nil => exact reached
  | cons first rest ih =>
    apply ih
    exact Reaches.next (l := SenderLabel.peer first.1.offset first.1.width first.2)
      reached trivial rfl

theorem shape_put (m : Memory) (value : Nat) (changes : f.Mutable) :
    shapeOf (put m f value) = shapeOf m := by
  obtain ⟨first, second, third, fourth⟩ := changes
  simp only [shapeOf, get_put_ne _ _ first.symm, get_put_ne _ _ second.symm,
    get_put_ne _ _ third.symm, get_put_ne _ _ fourth.symm]

theorem shape_fillIn (m : Memory) (stores : List (Field × Nat))
    (changes : ∀ x ∈ stores, x.1.Mutable) :
    shapeOf (fillIn m stores) = shapeOf m := by
  induction stores generalizing m with
  | nil => rfl
  | cons first rest ih =>
    have later :=
      ih (put m first.1 first.2) fun x member => changes x (List.mem_cons_of_mem _ member)
    exact later.trans (shape_put m first.2 (changes first List.mem_cons_self))

def handshake : List (Field × Nat) :=
  [(.magic, ringMagic), (.version, ringVersion), (.flags, 0), (.head, 0), (.tail, 0)]

theorem await_passes (tx : Tx) (pc : TxPc) (found : get m f = value) :
    tx.await m f value pc = some (m, { tx with pc }, []) := by
  rw [Tx.await, if_pos found]
  rfl

/-- An admitted ring is adopted. -/
theorem loop_reached (admitted : (shapeOf m).Admitted o) :
    ∃ n, shapeOf n = shapeOf m ∧
      Reached o m ⟨n, ⟨0, get m .slotCount, get m .slotSize, .loop⟩⟩ := by
  let n := fillIn m handshake
  have shape : shapeOf n = shapeOf m := shape_fillIn m handshake (by decide)
  have found : get n .magic = ringMagic ∧ get n .version = ringVersion ∧ get n .flags = 0 ∧
      get n .head = 0 ∧ get n .tail = 0 := by
    refine ⟨?_, ?_, ?_, ?_, ?_⟩
    all_goals
      simp (disch := decide) only [n, fillIn, handshake, List.foldl_cons, List.foldl_nil,
        get_put_ne, get_put_same]
  obtain ⟨magic, version, flags, head, tail⟩ := found
  have count : get n .slotCount = get m .slotCount := congrArg Shape.slotCount shape
  have size : get n .slotSize = get m .slotSize := congrArg Shape.slotSize shape
  have start : Reached o m ⟨n, ⟨0, 0, 0, .waitMagic⟩⟩ := Reached.fill (Reaches.refl _) handshake
  have passed : Reached o m ⟨n, ⟨0, 0, 0, .loadSlotCount⟩⟩ := by
    have first := start.moves rfl ⟨_, await_passes _ .waitVersion magic⟩
    have second := first.moves rfl ⟨_, await_passes _ .waitFlags version⟩
    have third := second.moves rfl ⟨_, await_passes _ .waitHead flags⟩
    have fourth := third.moves rfl ⟨_, await_passes _ .waitTail head⟩
    exact fourth.moves rfl ⟨_, await_passes _ .loadSlotCount tail⟩
  have counted := passed.sends (fun _ => shape) ⟨_, rfl⟩
  have usable : ¬(get n .slotCount = 0 ∨ get n .slotSize = 0 ∨ get n .slotSize < o.txChunk) := by
    rw [count, size]
    obtain ⟨some, sized, holds⟩ := admitted
    exact not_or.mpr ⟨some, not_or.mpr ⟨sized, Nat.not_lt.mpr holds⟩⟩
  have sized : Reached o m ⟨n, ⟨0, get n .slotCount, get n .slotSize, .allocate⟩⟩ := by
    refine counted.sends (fun _ => shape) ⟨[], ?_⟩
    simp only [stepTx, if_neg usable]
  refine ⟨n, shape, ?_⟩
  rw [← count, ← size]
  exact sized.moves rfl ⟨_, rfl⟩

/-- The slot of any index can be the next one to fill. -/
theorem slot_reached (nonempty : 0 < o.total) (admitted : (shapeOf m).Admitted o)
    (index : i < 2 ^ 64) :
    ∃ n tx, tx.pc = .slotPtr i ∧ tx.sent = 0 ∧ shapeOf n = shapeOf m ∧ Reached o m ⟨n, tx⟩ := by
  obtain ⟨m', shape, ready⟩ := loop_reached admitted
  let n := put (put m' .head i) .tail i
  have small : i < 256 ^ 8 := Nat.lt_of_lt_of_eq index (by decide)
  have head : get n .head = i :=
    (get_put_ne (f := .head) (k := .tail) _ i (by decide)).trans (get_put_same _ .head small)
  have tail : get n .tail = i := get_put_same _ .tail small
  have moved : Reached o m ⟨n, _⟩ := ready.fill [(.head, i), (.tail, i)]
  have looked : Reached o m ⟨n, ⟨0, get m .slotCount, get m .slotSize, .loadTail i⟩⟩ := by
    refine moved.moves rfl ⟨[], ?_⟩
    simp only [stepTx, if_pos nonempty, head]
    rfl
  have room : ¬get m .slotCount ≤ u64 (i + 2 ^ 64 - get n .tail) := by
    rw [tail, Nat.add_sub_cancel_left]
    exact Nat.not_le.mpr (Nat.pos_of_ne_zero admitted.1)
  refine ⟨n, ⟨0, get m .slotCount, get m .slotSize, .slotPtr i⟩, rfl, rfl, ?_, ?_⟩
  · calc
      shapeOf n = shapeOf (put m' .head i) := shape_put (f := .tail) _ i (by decide)
      _ = shapeOf m' := shape_put (f := .head) _ i (by decide)
      _ = shapeOf m := shape
  · refine looked.moves rfl ⟨[], ?_⟩
    simp only [stepTx, if_neg room]
    rfl

/-- Slot `i` with the first payload. -/
def Shape.filling (h : Shape) (o : Options) (i : Nat) : Filling :=
  ⟨i, h.slot i, u64 (h.slot i + h.slotHeaderSize), nextPayload o 0⟩

theorem nextPayload_zero (o : Options) : nextPayload o 0 = min o.txChunk o.total := by
  unfold nextPayload
  rw [left_exact o (Or.inr rfl)]
  split <;> omega

theorem copy_reached (nonempty : 0 < o.total) (admitted : (shapeOf m).Admitted o)
    (index : i < 2 ^ 64) (within : k ≤ nextPayload o 0) :
    ∃ n tx, tx.pc = .copy ((shapeOf m).filling o i) k ∧ Reached o m ⟨n, tx⟩ := by
  induction k with
  | zero =>
    obtain ⟨n, ⟨sent, slotCount, slotSize, pc⟩, rfl, rfl, shape, reached⟩ :=
      slot_reached nonempty admitted index
    refine ⟨n, ⟨0, slotCount, slotSize, _⟩, rfl, reached.sends (fun _ => shape) ⟨[], ?_⟩⟩
    rw [← shape]
    rfl
  | succ k ih =>
    obtain ⟨n, ⟨sent, slotCount, slotSize, pc⟩, rfl, reached⟩ := ih (Nat.le_of_succ_le within)
    have below : k < ((shapeOf m).filling o i).payload := within
    have copied := reached.moves rfl ⟨_, if_pos below⟩
    exact ⟨_, _, rfl, copied⟩

/-- What a step stores from a point that the sender comes to. -/
theorem Inside.stores (inside : Inside o m N) (reached : Reached o m ⟨n, tx⟩)
    (plain : tx.pc.looks = false)
    (moved : stepTx o n tx false 0 = some (n', tx', es)) :
    ∀ e ∈ es.filterMap Event.access, e.Within N := by
  have steady : Steady (shapeOf m) ⟨n, tx⟩ (.tx false 0) :=
    fun looks => absurd (plain.symm.trans looks) nofun
  obtain ⟨ls, before, met, path⟩ := Reaches.reports reached steady (congrArg (Option.map _) moved)
  intro e access
  exact inside _ ⟨ls, _, met, path⟩ e (List.mem_append_right _ (List.mem_append_right _ access))

/-- A sender that stays inside has every slot inside. -/
theorem Inside.slot (inside : Inside o m N) (nonempty : 0 < o.total)
    (admitted : (shapeOf m).Admitted o) (index : i < 2 ^ 64) :
    (shapeOf m).slot i + (SlotField.flags.offset + SlotField.flags.width) ≤ N ∧
      u64 ((shapeOf m).slot i + (shapeOf m).slotHeaderSize) + min o.txChunk o.total ≤ N := by
  have chunk := o.txChunk_pos
  have payload := nextPayload_zero o
  constructor
  · obtain ⟨n, ⟨sent, slotCount, slotSize, pc⟩, rfl, reached⟩ :=
      copy_reached nonempty admitted index (Nat.le_refl _)
    have copied := reached.moves rfl ⟨_, if_neg (Nat.lt_irrefl _)⟩
    have total := copied.moves rfl ⟨_, rfl⟩
    exact inside.stores total rfl rfl _ List.mem_cons_self
  · obtain ⟨n, ⟨sent, slotCount, slotSize, pc⟩, rfl, reached⟩ :=
      copy_reached nonempty admitted index (k := nextPayload o 0 - 1) (Nat.sub_le _ _)
    have below : nextPayload o 0 - 1 < ((shapeOf m).filling o i).payload := by
      change nextPayload o 0 - 1 < nextPayload o 0
      omega
    have last : u64 ((shapeOf m).slot i + (shapeOf m).slotHeaderSize) + (nextPayload o 0 - 1) + 1 ≤
        N :=
      inside.stores reached rfl (if_pos below) _ List.mem_cons_self
    omega

/-- The four fields are 32 bits wide. -/
theorem shape_lt (m : Memory) :
    (shapeOf m).headerSize < 2 ^ 32 ∧ (shapeOf m).slotHeaderSize < 2 ^ 32 ∧
      (shapeOf m).slotCount < 2 ^ 32 ∧ (shapeOf m).slotSize < 2 ^ 32 :=
  ⟨load_lt m 8 4, load_lt m 12 4, load_lt m 16 4, load_lt m 20 4⟩

/-- No slot of a mapping that an address space can hold wraps around. -/
theorem Inside.exact (inside : Inside o m N) (nonempty : 0 < o.total)
    (admitted : (shapeOf m).Admitted o)
    (addressable : N ≤ 2 ^ 63) (counted : r < (shapeOf m).slotCount) :
    (shapeOf m).slot r = (shapeOf m).headerSize + r * (shapeOf m).stride ∧
      (shapeOf m).headerSize + r * (shapeOf m).stride ≤ N := by
  obtain ⟨first, second, count, third⟩ := shape_lt m
  have place (r : Nat) (counted : r < (shapeOf m).slotCount)
      (small : (shapeOf m).headerSize + r * (shapeOf m).stride < 2 ^ 64) :
      (shapeOf m).slot r = (shapeOf m).headerSize + r * (shapeOf m).stride ∧
        (shapeOf m).headerSize + r * (shapeOf m).stride ≤ N := by
    have slot : (shapeOf m).slot r = (shapeOf m).headerSize + r * (shapeOf m).stride := by
      rw [Shape.slot, Nat.mod_eq_of_lt counted]
      exact Nat.mod_eq_of_lt small
    have room := (inside.slot nonempty admitted (i := r) (by omega)).1
    rw [slot] at room
    exact ⟨slot, Nat.le_of_add_right_le room⟩
  induction r with
  | zero =>
    apply place 0 counted
    omega
  | succ r ih =>
    -- The next slot is less than two 32-bit lengths further.
    obtain ⟨-, previous⟩ := ih (Nat.lt_of_succ_lt counted)
    apply place (r + 1) counted
    rw [Nat.add_mul, Nat.one_mul]
    unfold Shape.stride at *
    omega

theorem Inside.fits (inside : Inside o m N) (addressable : N ≤ 2 ^ 63) : (shapeOf m).Fits o N := by
  intro nonempty admitted
  obtain ⟨-, second, count, -⟩ := shape_lt m
  have counted : (shapeOf m).slotCount - 1 < (shapeOf m).slotCount :=
    Nat.sub_lt (Nat.pos_of_ne_zero admitted.1) Nat.one_pos
  obtain ⟨slot, below⟩ := inside.exact nonempty admitted addressable counted
  obtain ⟨head, payload⟩ :=
    inside.slot nonempty admitted (i := (shapeOf m).slotCount - 1) (by omega)
  have exact : u64 ((shapeOf m).slot ((shapeOf m).slotCount - 1) + (shapeOf m).slotHeaderSize) =
      (shapeOf m).slot ((shapeOf m).slotCount - 1) + (shapeOf m).slotHeaderSize :=
    Nat.mod_eq_of_lt (by omega)
  rw [exact] at payload
  rw [← slot]
  unfold Shape.reach
  omega

/-- The sender stays inside the mapping exactly if the last slot that the header describes
does; a header that fails the checks is never written to, and nor is one whose handshake
never passes. -/
theorem sender_inside (o : Options) (m : Memory) (header : sizeofHeader ≤ N) :
    ((shapeOf m).Fits o N → Inside o m N) ∧ (N ≤ 2 ^ 63 → Inside o m N → (shapeOf m).Fits o N) ∧
      (¬(shapeOf m).Admitted o → ∀ es, Does o m es → es = []) ∧
      ∀ ls t es, Along (Sender.step o) Unanswered (.start m) ls →
        run (Sender.step o) (.start m) ls = some (t, es) → es = [] := by
  refine ⟨?_, fun addressable inside => inside.fits addressable, ?_, fun _ _ _ => unanswered_silent⟩
  · intro fits es does e access
    exact (does_reports header does e access).2 fits
  · intro refused es does
    rw [List.eq_nil_iff_forall_not_mem]
    intro e access
    exact refused (does_reports header does e access).1

/-- A ring that `run_rx` lays out fits its own mapping. -/
theorem published_fits (published : publishRing o m = some n) : (shapeOf n).Fits o' o.capacity := by
  intro _ admitted
  obtain ⟨roomy, nonzero⟩ := publishRing_roomy published
  obtain ⟨ring, laid, tiles⟩ := publishRing_tiles o m roomy nonzero
  obtain rfl : ring = n := Option.some.inj (laid.symm.trans published)
  obtain ⟨g, empty⟩ := publishRing_geometry o published
  have headerSize : (shapeOf ring).headerSize = sizeofHeader := empty.published.headerSize
  have slotHeaderSize : (shapeOf ring).slotHeaderSize = sizeofSlot := empty.published.slotHeaderSize
  have last := (tiles.inside (get ring .slotCount - 1)).2
  have counted := tiles.nonempty
  rw [tiles.exact, Nat.mod_eq_of_lt (by omega)] at last
  have stride : (shapeOf ring).stride = slotLength ring := by rw [Shape.stride, slotHeaderSize]; rfl
  have reach : (shapeOf ring).reach o' ≤ slotLength ring := by
    obtain ⟨-, -, holds⟩ := admitted
    have size : slotLength ring = sizeofSlot + (shapeOf ring).slotSize := rfl
    rw [Shape.reach, slotHeaderSize, size]
    simp only [SlotField.offset, SlotField.width, sizeofSlot]
    omega
  rw [headerSize, stride]
  exact Nat.le_trans (Nat.add_le_add_left reach _) last

theorem sender_inside_documented :
    ∃ n, publishRing documentedRing (fun _ => 0) = some n ∧ Inside documentedRing n 0x400000 := by
  obtain ⟨n, published, _⟩ := publishRing_tiles documentedRing (fun _ => 0) (by decide) (by decide)
  exact ⟨n, published, (sender_inside documentedRing n (by decide)).1 (published_fits published)⟩

/-- A ring of one slot that starts where the mapping ends. -/
def displaced : Memory := put (writeHeader 1 100 fun _ => 0) .headerSize 0x1000

/-- The other VM takes the slots away between the checks and the first slot. -/
def emptied : List SenderLabel :=
  List.replicate 8 (SenderLabel.tx false 0) ++ [.peer 16 4 0] ++
    List.replicate 3 (SenderLabel.tx false 0)

/-- The checks pass a ring behind the mapping, and the divisor is not the count they saw. -/
theorem sender_leaves_mapping :
    (shapeOf displaced).Admitted hundredRing ∧
      Does hundredRing displaced [.divided 1, .stored 0x1040 1] ∧
      ¬Inside hundredRing displaced 0x1000 ∧
      ∃ n t, publishRing hundredRing (fun _ => 0) = some n ∧
        run (Sender.step hundredRing) (.start n) emptied = some (t, [.divided 0]) := by
  have does : Does hundredRing displaced [.divided 1, .stored 0x1040 1] := by
    have outcome : (run (Sender.step hundredRing) (.start displaced)
        (List.replicate 12 (.tx false 0))).map (·.2) =
        some [.divided 1, .stored 0x1040 1] := by decide +kernel
    obtain ⟨⟨t, es⟩, path, rfl⟩ := Option.map_eq_some_iff.mp outcome
    exact ⟨_, t, by decide +kernel, path⟩
  have divided :
      (run (Sender.step hundredRing) (.start (writeHeader 24 100 fun _ => 0)) emptied).map (·.2) =
      some [.divided 0] := by decide +kernel
  obtain ⟨⟨t, es⟩, path, rfl⟩ := Option.map_eq_some_iff.mp divided
  refine ⟨by decide +kernel, does, ?_, _, t, ?_, path⟩
  · intro inside
    have within : 0x1040 + 1 ≤ 0x1000 := inside _ does (.stored 0x1040 1) (by decide)
    exact absurd within (by decide)
  · rw [publishRing]
    rfl

end IdtNtb.Ring
