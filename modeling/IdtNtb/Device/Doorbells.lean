import IdtNtb.Device.Handlers
import IdtNtb.Lib.History

/-! The doorbell word of one direction. A store to OUTDBELLSET replaces the
receiver's word, and the receiver's stores to INDBELLSTS clear the bits they
name. What the receiver reads is compared with the bits that the history of
both guests' stores leaves set. -/
namespace IdtNtb.Device
open Transition History

/-- The sender's store to OUTDBELLSET, or the receiver's to INDBELLSTS. -/
inductive Doorbell where
  | ring (val : BitVec 32)
  | clear (val : BitVec 32)
  deriving DecidableEq

def Doorbell.Rings (k : Nat) : Doorbell → Prop
  | .ring val => val.getLsbD k
  | .clear _ => False

def Doorbell.Clears (k : Nat) : Doorbell → Prop
  | .ring _ => False
  | .clear val => val.getLsbD k

instance (k : Nat) : DecidablePred (Doorbell.Rings k) := fun access => by
  cases access <;> unfold Doorbell.Rings <;> infer_instance

instance (k : Nat) : DecidablePred (Doorbell.Clears k) := fun access => by
  cases access <;> unfold Doorbell.Clears <;> infer_instance

/-- A store of the direction from `r` to its peer, reported as it is made. -/
def Switch.doorbell (r : Role) (w : Switch) (access : Doorbell) : Option (Switch × List Doorbell) :=
  (match access with
    | .ring val => w.writeReg .absent r .outdbellset val
    | .clear val => w.writeReg .absent r.peer .indbellsts val).map fun t => (t, [access])

/-- The receiver reads exactly the bits rung and not cleared since. -/
def DoorbellsKept (r : Role) (es : List Doorbell) (w : Switch) : Prop :=
  ∀ k, (w.readReg r.peer .indbellsts).getLsbD k = true ↔
    Outstanding (Doorbell.Rings k) (Doorbell.Clears k) es

/-- A ring names every bit that is still set. -/
def RingsPending (r : Role) (w : Switch) : Doorbell → Prop
  | .ring val => w.readReg r.peer .indbellsts &&& ~~~val = 0
  | .clear _ => True

instance (r : Role) (w : Switch) : DecidablePred (RingsPending r w) := fun access => by
  cases access <;> unfold RingsPending <;> infer_instance

theorem read_indbellsts (w : Switch) (r : Role) :
    w.readReg r .indbellsts = (w.shm.vm r).regs.db := by
  simp [Switch.readReg, Switch.read, ivshmemIoRead, decode_addr]

theorem write_outdbellset (w : Switch) (file : PeerRamFile) (r : Role) (val : BitVec 32) :
    ∃ next, w.writeReg file r .outdbellset val = some next ∧
      next.readReg r.peer .indbellsts = val := by
  simp only [Switch.writeReg, Switch.write, ivshmemIoWrite, decode_addr, read_indbellsts]
  split <;> refine ⟨_, rfl, ?_⟩ <;> simp [raise_eq, SharedMemory.pend]

theorem write_indbellsts (w : Switch) (file : PeerRamFile) (r : Role) (val : BitVec 32) :
    ∃ next, w.writeReg file r .indbellsts val = some next ∧
      next.readReg r .indbellsts = w.readReg r .indbellsts &&& ~~~val := by
  simp only [Switch.writeReg, Switch.write, ivshmemIoWrite, decode_addr, read_indbellsts]
  refine ⟨_, rfl, ?_⟩
  simp

/-- Bits without those of `y` are none exactly when all of them are bits of `y`. -/
theorem and_not_eq_zero_iff (x y : BitVec n) :
    x &&& ~~~y = 0 ↔ ∀ k, x.getLsbD k = true → y.getLsbD k = true := by
  constructor
  · intro none k bit
    have inside : k < n := BitVec.lt_of_getLsbD bit
    have dropped : (x &&& ~~~y).getLsbD k = false := by simp [none]
    simpa [bit, inside] using dropped
  · intro contained
    apply BitVec.eq_of_getLsbD_eq
    intro k inside
    cases bit : x.getLsbD k with
    | false => simp [bit]
    | true => simp [bit, inside, contained k bit]

theorem ring_keeps (kept : DoorbellsKept r es w) (read : t.readReg r.peer .indbellsts = val) :
    DoorbellsKept r (es ++ [.ring val]) t ↔ RingsPending r w (.ring val) := by
  rw [RingsPending, and_not_eq_zero_iff]
  simp only [DoorbellsKept, read, outstanding_append_one, Doorbell.Rings, Doorbell.Clears,
    not_false_eq_true, and_true, ← kept _]
  constructor
  · intro exact k pending
    exact (exact k).mpr (Or.inr pending)
  · intro contained k
    exact ⟨Or.inl, fun rung => rung.elim id (contained k)⟩

theorem clear_keeps (kept : DoorbellsKept r es w)
    (read : t.readReg r.peer .indbellsts = w.readReg r.peer .indbellsts &&& ~~~val) :
    DoorbellsKept r (es ++ [.clear val]) t := by
  intro k
  rw [outstanding_append_one, ← kept k, read]
  have bound := BitVec.lt_of_getLsbD (x := w.readReg r.peer .indbellsts) (i := k)
  simp only [BitVec.getLsbD_and, BitVec.getLsbD_not, Bool.and_eq_true, decide_eq_true_eq,
    Bool.not_eq_true', Doorbell.Rings, Doorbell.Clears, false_or, Bool.not_eq_true]
  constructor
  · rintro ⟨pending, _, kept⟩
    exact ⟨pending, kept⟩
  · rintro ⟨pending, kept⟩
    exact ⟨pending, bound pending, kept⟩

theorem doorbell_step (kept : DoorbellsKept r es w)
    (stepped : w.doorbell r access = some (t, fs)) :
    DoorbellsKept r (es ++ fs) t ↔ RingsPending r w access := by
  obtain ⟨next, written, same⟩ := Option.map_eq_some_iff.mp stepped
  cases same
  cases access with
  | ring val =>
    obtain ⟨next', written', read⟩ := write_outdbellset w .absent r val
    cases written.symm.trans written'
    exact ring_keeps kept read
  | clear val =>
    obtain ⟨next', written', read⟩ := write_indbellsts w .absent r.peer val
    cases written.symm.trans written'
    exact iff_of_true (clear_keeps kept read) trivial

/-- Over any interleaving from a clear word: the receiver's reads are the bits
rung and not cleared since, throughout, exactly when no ring drops a pending bit. -/
theorem doorbells_kept_iff (r : Role) (w : Switch) (ls : List Doorbell)
    (clear : w.readReg r.peer .indbellsts = 0)
    (path : run (Switch.doorbell r) w ls = some (t, es)) :
    (∀ front u fs, front <+: ls → run (Switch.doorbell r) w front = some (u, fs) →
      DoorbellsKept r fs u) ↔
      Along (Switch.doorbell r) (RingsPending r) w ls := by
  have initial : DoorbellsKept r [] w := by
    intro k
    simp [clear, not_outstanding_nil]
  have exact := run_exact (P := DoorbellsKept r) (fun kept _ => doorbell_step kept) initial
    (fun _ _ => trivial) path
  simpa only [List.nil_append] using exact

theorem doorbells_kept_iff_twice :
    Along (Switch.doorbell .vm1)
      (RingsPending .vm1) .realized [.ring 1, .clear 1, .ring 2, .ring 6] ∧
      ∀ front u fs, front <+: [.ring 1, .clear 1, .ring 2, .ring 6] →
        run (Switch.doorbell .vm1) .realized front = some (u, fs) → DoorbellsKept .vm1 fs u := by
  have meets : Along (Switch.doorbell .vm1) (RingsPending .vm1) .realized
      [.ring 1, .clear 1, .ring 2, .ring 6] := by decide +kernel
  have runs : (run (Switch.doorbell .vm1) .realized
      [.ring 1, .clear 1, .ring 2, .ring 6]).isSome := by decide +kernel
  obtain ⟨reached, path⟩ := Option.isSome_iff_exists.mp runs
  exact ⟨meets, (doorbells_kept_iff .vm1 .realized _ (by decide +kernel) path).mpr meets⟩

/-- Bit 1 is rung while bit 0 is pending, and bit 0 is gone. -/
theorem doorbell_overwritten :
    ∃ t es, run (Switch.doorbell .vm1) .realized [.ring 1, .ring 2] = some (t, es) ∧
      t.readReg .vm2 .indbellsts = 2 ∧ ¬DoorbellsKept .vm1 es t := by
  have reads : (run (Switch.doorbell .vm1) .realized [.ring 1, .ring 2]).map
      (fun reached => (reached.1.readReg .vm2 .indbellsts, reached.2)) =
        some (2, [.ring 1, .ring 2]) := by decide +kernel
  obtain ⟨⟨t, es⟩, path, same⟩ := Option.map_eq_some_iff.mp reads
  obtain ⟨read, rfl⟩ := Prod.mk.inj same
  refine ⟨t, _, path, read, ?_⟩
  intro kept
  have lost := (kept 0).mpr (by decide)
  rw [show Role.peer .vm1 = .vm2 from rfl, read] at lost
  exact absurd lost (by decide)

end IdtNtb.Device
