import IdtNtb.Device.MessageRegisters
import IdtNtb.Device.Doorbells

/-! Doorbell interrupts and the receiver's mask. INDBELLMSK is stored and read
back, but a store to OUTDBELLSET raises the interrupt whenever NTINTMSK lets it
through, whatever the doorbell mask says. -/
namespace IdtNtb.Device
open Transition

/-- A BAR 0 store with the states around it and the calls it makes. -/
structure Handling extends Store where
  effects : List Effect

def Switch.handle (w : Switch) (access : Bar0Write) : Option (Switch × List Handling) :=
  (w.write access).map fun (next, calls) => (next, [⟨⟨w, access, next⟩, calls.map Prod.snd⟩])

def Bar0Write.Rings (r : Role) (access : Bar0Write) : Prop :=
  access.role = r ∧ access.register = some .outdbellset

def DbellPending (shm : SharedMemory) (r : Role) : Prop := (shm.vm r).regs.intsts.getLsbD 1 = true

/-- The store sets `r`'s DBELL bit, or signals the interrupt descriptor of a peer. -/
def Handling.Interrupts (r : Role) (e : Handling) : Prop :=
  ¬DbellPending e.before.shm r ∧ DbellPending e.after.shm r ∨
    ∃ peer, Effect.eventNotifierSet peer eventfdInterruptHost ∈ e.effects

/-- `r` has a doorbell that neither mask hides. -/
def DoorbellVisible (shm : SharedMemory) (r : Role) : Prop :=
  (∃ k, (shm.vm r).regs.db.getLsbD k = true ∧ (shm.vm r).regs.dbMask.getLsbD k = false) ∧
    shm.gregs.ntIntMask.getLsbD 1 = false

/-- A ring of `r` interrupts its peer only if a doorbell is visible there. -/
def Handling.HonoursMask (r : Role) (e : Handling) : Prop :=
  e.access.Rings r → e.Interrupts r.peer → DoorbellVisible e.after.shm r.peer

/-- `r` can signal the interrupt descriptor of the peer it knows or adopts. -/
def Switch.Reaches (w : Switch) (r : Role) : Prop :=
  (w.dev r).attached = true ∧
    eventfdInterruptHost < (w.dev r).registered (adoptedId r (w.dev r) w.shm)

/-- A ring that NTINTMSK lets through names a bit that the receiver's mask leaves
open, or has nothing left to do: the bit is pending and no peer can be signalled. -/
def RingsOpen (r : Role) (w : Switch) (access : Bar0Write) : Prop :=
  access.Rings r → w.shm.gregs.ntIntMask.getLsbD 1 = false →
    access.val &&& ~~~(w.shm.vm r.peer).regs.dbMask ≠ 0 ∨
      DbellPending w.shm r.peer ∧ ¬w.Reaches r

instance (r : Role) : DecidablePred (Bar0Write.Rings r) :=
  fun _ => inferInstanceAs (Decidable (_ ∧ _))

instance (shm : SharedMemory) (r : Role) : Decidable (DbellPending shm r) :=
  inferInstanceAs (Decidable (_ = true))

instance (w : Switch) (r : Role) : Decidable (w.Reaches r) := inferInstanceAs (Decidable (_ ∧ _))

instance (r : Role) (w : Switch) : DecidablePred (RingsOpen r w) :=
  fun _ => inferInstanceAs (Decidable (_ → _ → _))

theorem not_test_dbell (x : BitVec 32) : ~~~x &&& ntintstsDbell ≠ 0 ↔ x.getLsbD 1 = false :=
  not_mask_iff (n := 1) x (by decide)

def SharedMemory.ring (shm : SharedMemory) (r : Role) (val : BitVec 32) : SharedMemory :=
  shm.mapRegs r.peer fun g => { g with db := val }

variable {w t : Switch} {access : Bar0Write}

/-- A ring stores the word and, unless NTINTMSK hides the bit, raises DBELL. -/
theorem write_ring (rings : access.Rings r) (written : w.write access = some (t, calls)) :
    w.shm.gregs.ntIntMask.getLsbD 1 = true ∧ t.shm = w.shm.ring r access.val ∧ calls = [] ∨
      w.shm.gregs.ntIntMask.getLsbD 1 = false ∧
        t.shm = (w.shm.ring r access.val).pend r.peer ntintstsDbell ∧
        calls = (idtKickPeerInterrupt r (w.dev r) t.shm).2.map (r, ·) := by
  obtain ⟨rfl, found⟩ := rings
  simp only [Bar0Write.register] at found
  simp only [Switch.write, ivshmemIoWrite, found, mapRegs_gregs, not_test_dbell,
    raise_eq] at written
  cases masked : w.shm.gregs.ntIntMask.getLsbD 1 with
  | true =>
    rw [if_neg (by simp [masked])] at written
    cases written
    refine Or.inl ⟨rfl, ?_, rfl⟩
    simp [SharedMemory.ring]
  | false =>
    rw [if_pos masked] at written
    cases written
    refine Or.inr ⟨rfl, ?_, rfl⟩
    simp [SharedMemory.ring]

theorem ring_regs (shm : SharedMemory) (r : Role) (val : BitVec 32) :
    ((shm.ring r val).vm r.peer).regs = { (shm.vm r.peer).regs with db := val } :=
  mapRegs_same ..

theorem ring_id (shm : SharedMemory) (r q : Role) (val : BitVec 32) :
    ((shm.ring r val).vm q).id = (shm.vm q).id :=
  mapRegs_id ..

/-- The effects of the kick after an unmasked ring. -/
theorem ring_kick (w : Switch) (r : Role) (val : BitVec 32)
    (unmasked : w.shm.gregs.ntIntMask.getLsbD 1 = false) :
    (idtKickPeerInterrupt r (w.dev r) ((w.shm.ring r val).pend r.peer ntintstsDbell)).2 =
      if w.Reaches r then
        [.eventNotifierSet (adoptedId r (w.dev r) w.shm) eventfdInterruptHost] else [] := by
  have adopted : adoptedId r (w.dev r) ((w.shm.ring r val).pend r.peer ntintstsDbell) =
      adoptedId r (w.dev r) w.shm := by
    simp only [adoptedId, pend_id, ring_id]
  have uncovered : Unmasked r ((w.shm.ring r val).pend r.peer ntintstsDbell) := by
    refine unmasked_of_bit (k := 1) (by decide) ?_ unmasked
    rw [pend_intsts, BitVec.getLsbD_or]
    simp [ntintstsDbell]
  rw [kick_eq, adopted]
  by_cases reaches : w.Reaches r
  · rw [if_pos reaches]
    exact if_pos ⟨reaches.1, reaches.2, uncovered⟩
  · rw [if_neg reaches]
    exact if_neg fun all => reaches ⟨all.1, all.2.1⟩

/-- A ring interrupts exactly when NTINTMSK lets it through and there is a bit to
set or a peer to signal. -/
theorem ring_interrupts (rings : access.Rings r) (written : w.write access = some (t, calls)) :
    Handling.Interrupts r.peer ⟨⟨w, access, t⟩, calls.map Prod.snd⟩ ↔
      w.shm.gregs.ntIntMask.getLsbD 1 = false ∧ (¬DbellPending w.shm r.peer ∨ w.Reaches r) := by
  rcases write_ring rings written with ⟨masked, stored, rfl⟩ | ⟨unmasked, stored, called⟩
  · have same : DbellPending t.shm r.peer ↔ DbellPending w.shm r.peer := by
      simp only [DbellPending, stored, ring_regs]
    simp only [Handling.Interrupts, same, masked]
    simp
  · have pending : DbellPending t.shm r.peer := by
      rw [DbellPending, stored, pend_intsts, BitVec.getLsbD_or]
      simp [ntintstsDbell]
    rw [called, stored, ring_kick w r access.val unmasked]
    simp only [Handling.Interrupts, pending, and_true, unmasked, true_and]
    by_cases reaches : w.Reaches r
    · simp [reaches]
    · simp [reaches]

theorem ring_visible (rings : access.Rings r) (written : w.write access = some (t, calls)) :
    DoorbellVisible t.shm r.peer ↔
      access.val &&& ~~~(w.shm.vm r.peer).regs.dbMask ≠ 0 ∧
        w.shm.gregs.ntIntMask.getLsbD 1 = false := by
  have registers : (t.shm.vm r.peer).regs.db = access.val ∧
      (t.shm.vm r.peer).regs.dbMask = (w.shm.vm r.peer).regs.dbMask ∧
      t.shm.gregs = w.shm.gregs := by
    rcases write_ring rings written with ⟨_, stored, _⟩ | ⟨_, stored, _⟩
    · rw [stored, ring_regs]
      exact ⟨rfl, rfl, rfl⟩
    · rw [stored, SharedMemory.pend, mapRegs_same, ring_regs]
      exact ⟨rfl, rfl, rfl⟩
  obtain ⟨word, mask, globals⟩ := registers
  rw [DoorbellVisible, word, mask, globals, Ne, and_not_eq_zero_iff]
  simp

theorem ring_honours (rings : access.Rings r) (written : w.write access = some (t, calls)) :
    Handling.HonoursMask r ⟨⟨w, access, t⟩, calls.map Prod.snd⟩ ↔ RingsOpen r w access := by
  rw [Handling.HonoursMask, ring_interrupts rings written, ring_visible rings written, RingsOpen]
  by_cases open_ : access.val &&& ~~~(w.shm.vm r.peer).regs.dbMask = 0
  · simp only [open_, ne_eq, not_true_eq_false, false_and, false_or]
    constructor
    · intro honours _ unmasked
      by_contra busy
      refine honours rings ⟨unmasked, ?_⟩
      by_cases pending : DbellPending w.shm r.peer
      · exact Or.inr (by_contra fun unreached => busy ⟨pending, unreached⟩)
      · exact Or.inl pending
    · rintro closed _ ⟨unmasked, left⟩
      obtain ⟨pending, unreached⟩ := closed rings unmasked
      exact left.elim (fun absent => absent pending) unreached
  · simp only [ne_eq, open_, not_false_eq_true, true_and, true_or, implies_true, iff_true]
    exact fun _ interrupts => interrupts.1

theorem handle_honours (stepped : w.handle access = some (t, es)) :
    (∀ e ∈ es, e.HonoursMask r) ↔ RingsOpen r w access := by
  obtain ⟨⟨next, calls⟩, written, same⟩ := Option.map_eq_some_iff.mp stepped
  cases same
  rw [List.forall_mem_singleton]
  by_cases rings : access.Rings r
  · exact ring_honours rings written
  · exact iff_of_true (fun ring => absurd ring rings) (fun ring => absurd ring rings)

/-- Over any interleaving of both guests' BAR 0 stores: every ring honours the
receiver's masks exactly when every ring that NTINTMSK lets through is open. -/
theorem doorbells_masked_iff (r : Role) (w : Switch) (ls : List Bar0Write)
    (path : run Switch.handle w ls = some (t, es)) :
    (∀ e ∈ es, e.HonoursMask r) ↔ Along Switch.handle (RingsOpen r) w ls :=
  run_reports_iff (P := fun _ => True) (fun _ _ _ _ => trivial) (fun _ _ => handle_honours) trivial
    (fun _ _ => trivial) path

def maskDoorbells (val : BitVec 32) : Bar0Write :=
  ⟨.vm2, ConfigRegister.indbellmsk.addr, val, .absent⟩

def ringDoorbells (val : BitVec 32) : Bar0Write :=
  ⟨.vm1, ConfigRegister.outdbellset.addr, val, .absent⟩

def unmaskAll : Bar0Write := ⟨.vm2, ConfigRegister.ntintmsk.addr, 0, .absent⟩

theorem doorbells_masked_other_bit :
    ∃ t es, run Switch.handle .realized [unmaskAll, maskDoorbells 1, ringDoorbells 3] =
      some (t, es) ∧ DbellPending t.shm .vm2 ∧ ∀ e ∈ es, e.HonoursMask .vm1 := by
  have reads : (run Switch.handle .realized [unmaskAll, maskDoorbells 1, ringDoorbells 3]).map
      (fun reached => decide (DbellPending reached.1.shm .vm2)) = some true := by decide +kernel
  obtain ⟨⟨t, es⟩, path, pending⟩ := Option.map_eq_some_iff.mp reads
  exact ⟨t, es, path, of_decide_eq_true pending,
    (doorbells_masked_iff .vm1 .realized _ path).mpr (by decide +kernel)⟩

/-- The only doorbell that is rung is masked, and the interrupt is raised. -/
theorem doorbell_mask_ignored :
    ∃ t es, run Switch.handle .realized [unmaskAll, maskDoorbells 1, ringDoorbells 1] =
      some (t, es) ∧ DbellPending t.shm .vm2 ∧ ¬∀ e ∈ es, e.HonoursMask .vm1 := by
  have reads : (run Switch.handle .realized [unmaskAll, maskDoorbells 1, ringDoorbells 1]).map
      (fun reached => decide (DbellPending reached.1.shm .vm2)) = some true := by decide +kernel
  obtain ⟨⟨t, es⟩, path, pending⟩ := Option.map_eq_some_iff.mp reads
  refine ⟨t, es, path, of_decide_eq_true pending, ?_⟩
  rw [run_reports_iff (P := fun _ => True) (fun _ _ _ _ => trivial)
    (fun _ _ => handle_honours) trivial
    (fun _ _ => trivial) path]
  decide +kernel

end IdtNtb.Device
