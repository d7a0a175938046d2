import IdtNtb.Device.MessageRegisters
import IdtNtb.Lib.History

/-! Message interrupts under the two masks. A message that arrives masked sets
no interrupt bit, and the stores that lift a mask do not look at the message
registers; what was dropped is made up for only by a bit already pending. -/
namespace IdtNtb.Device
open Transition History

def MsgPending (shm : SharedMemory) (r : Role) : Prop := (shm.vm r).regs.intsts.getLsbD 0 = true

def Deliverable (shm : SharedMemory) (r : Role) (i : Fin 4) : Prop :=
  inBusy shm r i = true ∧ ¬MsgMasked shm r i

/-- The interrupt bit is set while the message is there. -/
def Store.Interrupts (r : Role) (i : Fin 4) (e : Store) : Prop :=
  MsgPending e.after.shm r ∧ inBusy e.after.shm r i = true

def Store.Frees (r : Role) (i : Fin 4) (e : Store) : Prop := inBusy e.after.shm r i = false

/-- Any direct store but one by which `r` acknowledges interrupts. -/
def Bar0Write.Leaves (r : Role) (access : Bar0Write) : Prop :=
  access.Direct ∧ ¬(access.role = r ∧ access.register = some .ntintsts)

/-- A store that lifts the last mask off a message finds the MSG bit pending. -/
def UnmasksPending (r : Role) (i : Fin 4) (w : Switch) (access : Bar0Write) : Prop :=
  inBusy w.shm r i = true → MsgMasked w.shm r i →
    (access.role = r ∧ access.register = some .msgstsmsk ∧ access.val.getLsbD (inmsgsts i) = false ∧
        w.shm.gregs.ntIntMask.getLsbD 0 = false ∨
      access.register = some .ntintmsk ∧ access.val.getLsbD 0 = false ∧
        (w.shm.vm r).regs.msgstsMask.getLsbD (inmsgsts i) = false) →
    MsgPending w.shm r

instance (shm : SharedMemory) (r : Role) : Decidable (MsgPending shm r) :=
  inferInstanceAs (Decidable (_ = true))

instance (shm : SharedMemory) (r : Role) (i : Fin 4) : Decidable (Deliverable shm r i) :=
  inferInstanceAs (Decidable (_ ∧ _))

instance (r : Role) (i : Fin 4) : DecidablePred (Store.Interrupts r i) :=
  fun _ => inferInstanceAs (Decidable (_ ∧ _))

instance (r : Role) (i : Fin 4) : DecidablePred (Store.Frees r i) :=
  fun _ => inferInstanceAs (Decidable (_ = false))

instance (r : Role) : DecidablePred (Bar0Write.Leaves r) :=
  fun _ => inferInstanceAs (Decidable (_ ∧ _))

instance (r : Role) (i : Fin 4) (w : Switch) : DecidablePred (UnmasksPending r i w) :=
  fun _ => inferInstanceAs (Decidable (_ → _ → _ → _))

/-- A deliverable message has had its interrupt bit set since it arrived. -/
def Announced (r : Role) (i : Fin 4) (es : List Store) (w : Switch) : Prop :=
  Deliverable w.shm r i → Outstanding (Store.Interrupts r i) (Store.Frees r i) es

/-- Only the owner's store to MSGSTSMSK and stores to NTINTMSK change the masks. -/
theorem handled_masks (handled : Handled file r s shm reg val t m effects)
    (direct : reg.bind ConfigRegister.inboundField = none)
    (own : ¬(r = q ∧ reg = some .msgstsmsk)) (shared : reg ≠ some .ntintmsk) :
    m.gregs.ntIntMask = shm.gregs.ntIntMask ∧
      (m.vm q).regs.msgstsMask = (shm.vm q).regs.msgstsMask := by
  cases handled with
  | latched => exact ⟨rfl, rfl⟩
  | aside same => exact ⟨same.mask, same.msgstsMask q⟩
  | raised middle bit same raise =>
    rw [raise_eq] at raise
    cases raise
    exact ⟨same.mask, (pend_msgstsMask ..).trans (same.msgstsMask q)⟩
  | ntintsts => exact ⟨rfl, mapRegs_field _ shm r _ rfl q⟩
  | outmsg i sent =>
    have delivered := mapRegs_field SharedRegisters.msgstsMask shm r.peer
    have refused := mapRegs_field SharedRegisters.msgstsMask shm r
    cases outmsg_sent sent with
    | refused => exact ⟨rfl, refused _ rfl q⟩
    | reported => exact ⟨rfl, (pend_msgstsMask ..).trans (refused _ rfl q)⟩
    | masked => exact ⟨rfl, delivered _ rfl q⟩
    | raised free raise =>
      rw [raise_eq] at raise
      cases raise
      exact ⟨rfl, (pend_msgstsMask ..).trans (delivered _ rfl q)⟩
  | msgsts => exact ⟨rfl, mapRegs_field _ shm r _ rfl q⟩
  | msgstsmsk =>
    rcases Role.eq_or_peer r q with rfl | rfl
    · exact absurd ⟨rfl, rfl⟩ own
    · exact ⟨rfl, by rw [mapRegs_peer]⟩
  | ntintmsk => exact absurd rfl shared
  | bar field i stored updated =>
    subst stored
    exact ⟨rfl, by rw [setBar_regs]⟩
  | inbound data => simp [data] at direct

theorem pend_pending (bit : BitVec 32) (pending : MsgPending m q) :
    MsgPending (m.pend r bit) q := by
  unfold MsgPending at pending ⊢
  rcases Role.eq_or_peer r q with rfl | rfl
  · rw [pend_intsts, BitVec.getLsbD_or, pending, Bool.true_or]
  · rwa [pend_peer]

/-- Only the owner's store to NTINTSTS takes a pending bit away. -/
theorem handled_pending (handled : Handled file r s shm reg val t m effects)
    (direct : reg.bind ConfigRegister.inboundField = none)
    (kept : ¬(r = q ∧ reg = some .ntintsts)) (pending : MsgPending shm q) : MsgPending m q := by
  have same : ∀ {n : SharedMemory}, (n.vm q).regs.intsts = (shm.vm q).regs.intsts →
      MsgPending n q := by
    intro n unchanged
    rwa [MsgPending, unchanged]
  cases handled with
  | latched => exact pending
  | aside aside => exact same (aside.intsts q)
  | raised middle bit aside raise =>
    rw [raise_eq] at raise
    cases raise
    exact pend_pending bit (same (aside.intsts q))
  | ntintsts =>
    rcases Role.eq_or_peer r q with rfl | rfl
    · exact absurd ⟨rfl, rfl⟩ kept
    · exact same (by rw [mapRegs_peer])
  | outmsg i sent =>
    have delivered := mapRegs_field SharedRegisters.intsts shm r.peer
    have refused := mapRegs_field SharedRegisters.intsts shm r
    cases outmsg_sent sent with
    | refused => exact same (refused _ rfl q)
    | reported => exact pend_pending _ (same (refused _ rfl q))
    | masked => exact same (delivered _ rfl q)
    | raised free raise =>
      rw [raise_eq] at raise
      cases raise
      exact pend_pending _ (same (delivered _ rfl q))
  | msgsts => exact same (mapRegs_field _ shm r _ rfl q)
  | msgstsmsk => exact same (mapRegs_field _ shm r _ rfl q)
  | ntintmsk => exact pending
  | bar field i stored updated =>
    subst stored
    exact same (by rw [setBar_regs])
  | inbound data => simp [data] at direct

variable {w t : Switch} {access : Bar0Write}

theorem write_msgstsmsk (written : w.write access = some (t, effects))
    (found : access.register = some .msgstsmsk) :
    t.shm = w.shm.mapRegs access.role fun g => { g with msgstsMask := access.val.setWidth 64 } := by
  simp only [Bar0Write.register] at found
  simp only [Switch.write, ivshmemIoWrite, found, Option.map_some, Option.some.injEq,
    Prod.mk.injEq] at written
  rw [← written.1]

theorem write_ntintmsk (written : w.write access = some (t, effects))
    (found : access.register = some .ntintmsk) :
    t.shm = { w.shm with gregs := { w.shm.gregs with ntIntMask := access.val } } := by
  simp only [Bar0Write.register] at found
  simp only [Switch.write, ivshmemIoWrite, found, Option.map_some, Option.some.injEq,
    Prod.mk.injEq] at written
  rw [← written.1]
  simp

/-- A message that arrives unmasked sets the interrupt bit. -/
theorem arrival_pending (direct : access.Direct) (written : w.write access = some (t, effects))
    (free : inBusy w.shm r i = false) (busy : inBusy t.shm r i = true)
    (visible : ¬MsgMasked w.shm r i) : MsgPending t.shm r := by
  have balance := busy_balance direct written (r := r.peer) (i := i)
  rw [Role.peer_peer, free, busy] at balance
  have accepts : Store.accepted r.peer i ⟨w, access, t⟩ = true := by
    cases accepts : Store.accepted r.peer i ⟨w, access, t⟩ with
    | true => rfl
    | false => simp [accepts] at balance
  simp only [Store.accepted, Store.sends, Bool.and_eq_true, decide_eq_true_eq] at accepts
  obtain ⟨⟨sender, found⟩, -⟩ := accepts
  have receiver : r = access.role.peer := by rw [sender, Role.peer_peer]
  subst receiver
  obtain ⟨s, m, es, rfl, sent⟩ := write_sent written found
  cases sent with
  | refused full => exact absurd (full.symm.trans free) (by decide)
  | reported full => exact absurd (full.symm.trans free) (by decide)
  | masked _ hidden => exact absurd hidden visible
  | raised _ raise =>
    rw [raise_eq] at raise
    cases raise
    rw [MsgPending, pend_intsts, BitVec.getLsbD_or]
    simp [ntintstsMsg]

/-- Deliverable messages stay announced over a store exactly when it does not
lift a mask without a pending bit. -/
theorem deliverable_step (leaves : access.Leaves r) (written : w.write access = some (t, effects))
    (before : Deliverable w.shm r i → MsgPending w.shm r) :
    (Deliverable t.shm r i → MsgPending t.shm r) ↔ UnmasksPending r i w access := by
  by_cases own : access.role = r ∧ access.register = some .msgstsmsk
  · obtain ⟨rfl, found⟩ := own
    rw [write_msgstsmsk written found]
    have after : Deliverable (w.shm.mapRegs access.role fun g =>
        { g with msgstsMask := access.val.setWidth 64 }) access.role i ↔
          inBusy w.shm access.role i = true ∧ access.val.getLsbD (inmsgsts i) = false ∧
            w.shm.gregs.ntIntMask.getLsbD 0 = false := by
      have inside : inmsgsts i < 64 := by have := inmsgsts_lt i; omega
      simp [Deliverable, inBusy, MsgMasked, inside]
    simp only [after, MsgPending, mapRegs_same, UnmasksPending, found, true_and, Option.some.injEq,
      reduceCtorEq, false_and, or_false]
    constructor
    · rintro announced busy - ⟨own, shared⟩
      exact announced ⟨busy, own, shared⟩
    · rintro unmasks ⟨busy, own, shared⟩
      by_cases masked : MsgMasked w.shm access.role i
      · exact unmasks busy masked ⟨own, shared⟩
      · exact before ⟨busy, masked⟩
  by_cases shared : access.register = some .ntintmsk
  · rw [write_ntintmsk written shared]
    have after :
        Deliverable { w.shm with gregs := { w.shm.gregs with ntIntMask := access.val } } r i ↔
          inBusy w.shm r i = true ∧ access.val.getLsbD 0 = false ∧
          (w.shm.vm r).regs.msgstsMask.getLsbD (inmsgsts i) = false := by
      simp only [Deliverable, inBusy, MsgMasked, not_or, Bool.not_eq_true, and_comm]
    simp only [after, MsgPending, UnmasksPending, shared, true_and, Option.some.injEq, reduceCtorEq,
      false_and, and_false, false_or]
    constructor
    · rintro announced busy - ⟨shared, own⟩
      exact announced ⟨busy, shared, own⟩
    · rintro unmasks ⟨busy, shared, own⟩
      by_cases masked : MsgMasked w.shm r i
      · exact unmasks busy masked ⟨shared, own⟩
      · exact before ⟨busy, masked⟩
  · have idle : UnmasksPending r i w access := by
      rintro - - (⟨same, found, -⟩ | ⟨found, -⟩)
      · exact absurd ⟨same, found⟩ own
      · exact absurd found shared
    refine iff_of_true ?_ idle
    rintro ⟨busy, visible⟩
    obtain ⟨s, m, es, rfl, handled⟩ := write_handled written
    have masks := handled_masks handled leaves.1 own shared
    have unmasked : ¬MsgMasked w.shm r i := by
      rwa [MsgMasked, masks.1, masks.2] at visible
    cases held : inBusy w.shm r i with
    | true => exact handled_pending handled leaves.1 leaves.2 (before ⟨held, unmasked⟩)
    | false => exact arrival_pending leaves.1 written held busy unmasked

/-- An interrupt since the message arrived is still pending. -/
def StillPending (r : Role) (i : Fin 4) (es : List Store) (w : Switch) : Prop :=
  Outstanding (Store.Interrupts r i) (Store.Frees r i) es → MsgPending w.shm r

theorem stillPending_step (kept : StillPending r i es w) (leaves : access.Leaves r)
    (stepped : w.record access = some (t, fs)) : StillPending r i (es ++ fs) t := by
  simp only [Switch.record, Option.map_eq_some_iff, Prod.mk.injEq] at stepped
  obtain ⟨⟨next, effects⟩, written, rfl, rfl⟩ := stepped
  intro outstanding
  rcases outstanding_append_one.mp outstanding with interrupts | ⟨earlier, -⟩
  · exact interrupts.1
  · obtain ⟨s, m, _, rfl, handled⟩ := write_handled written
    exact handled_pending handled leaves.1 leaves.2 (kept earlier)

theorem announced_step (kept : Announced r i es w ∧ StillPending r i es w)
    (leaves : access.Leaves r) (stepped : w.record access = some (t, fs)) :
    (Announced r i (es ++ fs) t ∧ StillPending r i (es ++ fs) t) ↔ UnmasksPending r i w access := by
  have pending := stillPending_step kept.2 leaves stepped
  simp only [Switch.record, Option.map_eq_some_iff, Prod.mk.injEq] at stepped
  obtain ⟨⟨next, effects⟩, written, rfl, rfl⟩ := stepped
  rw [← deliverable_step leaves written fun deliverable => kept.2 (kept.1 deliverable)]
  constructor
  · rintro ⟨announced, -⟩ deliverable
    exact pending (announced deliverable)
  · intro announced
    refine ⟨fun deliverable => ?_, pending⟩
    exact outstanding_append_one.mpr (Or.inl ⟨announced deliverable, deliverable.1⟩)

/-- From a free message register, over any interleaving in which `r` acknowledges
no interrupt: every deliverable message has had its interrupt bit set since it
arrived, throughout, exactly when no mask is lifted without a pending bit. -/
theorem masks_only_delay_iff (r : Role) (i : Fin 4) (w : Switch) (ls : List Bar0Write)
    (free : inBusy w.shm r i = false) (leaves : ∀ access ∈ ls, access.Leaves r)
    (path : run Switch.record w ls = some (t, es)) :
    (∀ front u fs, front <+: ls → run Switch.record w front = some (u, fs) → Announced r i fs u) ↔
      Along Switch.record (UnmasksPending r i) w ls := by
  have unheard : StillPending r i [] w := fun outstanding => absurd outstanding not_outstanding_nil
  have initial : Announced r i [] w :=
    fun deliverable => absurd (free.symm.trans deliverable.1) (by decide)
  have exact := run_exact (P := fun es w => Announced r i es w ∧ StillPending r i es w)
    announced_step ⟨initial, unheard⟩ leaves path
  rw [← exact]
  constructor
  · intro announced front u fs shorter reached
    refine ⟨announced front u fs shorter reached, ?_⟩
    have within : ∀ access ∈ front, access.Leaves r :=
      fun access member => leaves access (shorter.subset member)
    exact run_invariant stillPending_step unheard (along_labels within w) reached
  · intro announced front u fs shorter reached
    exact (announced front u fs shorter reached).1

/-- `vm1` sends on OUTMSG0, and `vm2` writes the two masks. -/
def sendFirst : Bar0Write := ⟨.vm1, (ConfigRegister.outmsg 0).addr, 5, .absent⟩

def maskShared (val : BitVec 32) : Bar0Write := ⟨.vm2, ConfigRegister.ntintmsk.addr, val, .absent⟩

def maskOwn (val : BitVec 32) : Bar0Write := ⟨.vm2, ConfigRegister.msgstsmsk.addr, val, .absent⟩

theorem masks_only_delay_unmasked_first :
    ∃ t es, run Switch.record .realized [maskShared 0, sendFirst, maskOwn 0x10000, maskOwn 0] =
      some (t, es) ∧ Deliverable t.shm .vm2 0 ∧ Announced .vm2 0 es t := by
  have reads :
      (run Switch.record .realized [maskShared 0, sendFirst, maskOwn 0x10000, maskOwn 0]).map
      (fun reached => decide (Deliverable reached.1.shm .vm2 0)) = some true := by decide +kernel
  obtain ⟨⟨t, es⟩, path, deliverable⟩ := Option.map_eq_some_iff.mp reads
  refine ⟨t, es, path, of_decide_eq_true deliverable, ?_⟩
  exact (masks_only_delay_iff .vm2 0 .realized _ (by decide +kernel) (by decide +kernel) path).mpr
    (by decide +kernel) _ t es (List.prefix_refl _) path

/-- The message arrives while NTINTMSK, or MSGSTSMSK, hides it; the store that
lifts the mask leaves it without an interrupt. -/
theorem masked_message_dropped :
    (∃ t es, run Switch.record .realized [sendFirst, maskShared 0] = some (t, es) ∧
      Deliverable t.shm .vm2 0 ∧ ¬Announced .vm2 0 es t) ∧
    ∃ t es, run Switch.record .realized [maskShared 0, maskOwn 0x10000, sendFirst, maskOwn 0] =
      some (t, es) ∧ Deliverable t.shm .vm2 0 ∧ ¬Announced .vm2 0 es t := by
  have stranded : ∀ ls, (run Switch.record .realized ls).map (fun reached =>
      decide (Deliverable reached.1.shm .vm2 0 ∧
        ¬Outstanding (Store.Interrupts .vm2 0) (Store.Frees .vm2 0) reached.2)) = some true →
      ∃ t es, run Switch.record .realized ls = some (t, es) ∧
        Deliverable t.shm .vm2 0 ∧ ¬Announced .vm2 0 es t := by
    intro ls evaluated
    obtain ⟨⟨t, es⟩, path, found⟩ := Option.map_eq_some_iff.mp evaluated
    obtain ⟨deliverable, silent⟩ := of_decide_eq_true found
    exact ⟨t, es, path, deliverable, fun announced => silent (announced deliverable)⟩
  exact ⟨stranded _ (by decide +kernel), stranded _ (by decide +kernel)⟩

end IdtNtb.Device
