import IdtNtb.Device.Handlers

/-! The interrupts of a store to OUTMSG: at the receiver if the message is
accepted, at the sender if it is refused. The first is decided by the receiver's
own mask bit. The second is decided by every bit of the sender's mask but its own. -/
namespace IdtNtb.Device

/-- The receiver `q` lets the interrupt of an arriving message through. -/
def InUnmasked (shm : SharedMemory) (q : Role) (i : Fin 4) : Prop :=
  (shm.vm q).regs.msgstsMask.getLsbD (inmsgsts i) = false ∧ shm.gregs.ntIntMask.getLsbD 0 = false

/-- The sender `q` lets the interrupt of a refused message through. -/
def OutUnmasked (shm : SharedMemory) (q : Role) (i : Fin 4) : Prop :=
  (shm.vm q).regs.msgstsMask.getLsbD (outmsgsts i) = false ∧ shm.gregs.ntIntMask.getLsbD 0 = false

instance (shm : SharedMemory) (q : Role) (i : Fin 4) : Decidable (InUnmasked shm q i) :=
  inferInstanceAs (Decidable (_ ∧ _))

instance (shm : SharedMemory) (q : Role) (i : Fin 4) : Decidable (OutUnmasked shm q i) :=
  inferInstanceAs (Decidable (_ ∧ _))

/-- How a raised interrupt reaches the peer's host. -/
def peerSignal (r : Role) (s : IVShmemState) (shm : SharedMemory) : List Effect :=
  if s.attached ∧ eventfdInterruptHost < s.registered (adoptedId r s shm) then
    [.eventNotifierSet (adoptedId r s shm) eventfdInterruptHost]
  else []

/-- The MSG interrupt is raised at `q`, by `calls`, under the condition and not otherwise. -/
structure RaisesMsg (q : Role) (condition : Prop) [Decidable condition] (calls : List Effect)
    (shm : SharedMemory) (out : IVShmemState × SharedMemory × List Effect) : Prop where
  pending : (out.2.1.vm q).regs.intsts =
    if condition then (shm.vm q).regs.intsts ||| ntintstsMsg.setWidth 64 else (shm.vm q).regs.intsts
  other : (out.2.1.vm q.peer).regs.intsts = (shm.vm q.peer).regs.intsts
  calls : out.2.2 = if condition then calls else []

/-- A store to OUTMSG raises the interrupt of its outcome exactly when that is unmasked. -/
def MsgInterruptsExact (r : Role) (s : IVShmemState) (shm : SharedMemory) (i : Fin 4)
    (val : BitVec 64) : Prop :=
  if inBusy shm r.peer i then
    RaisesMsg r (OutUnmasked shm r i) [.msiNotify 0] shm (writeOutboundMsg r s shm i val)
  else RaisesMsg r.peer (InUnmasked shm r.peer i)
    (peerSignal r s shm) shm (writeOutboundMsg r s shm i val)

/-- Some bit of the mask but OUTMSGSTS `i` is set, which is what a refusal tests. -/
def OtherMasked (shm : SharedMemory) (q : Role) (i : Fin 4) : Prop :=
  ∃ k < 32, k ≠ outmsgsts i ∧ (shm.vm q).regs.msgstsMask.getLsbD k = true

/-- The C test `x & ~(1U << n)`, whose right side is 32 bits wide. -/
theorem otherBits_iff (x : BitVec 64) (bound : n < 32) :
    x &&& (~~~fieldBit n).setWidth 64 ≠ 0 ↔ ∃ k < 32, k ≠ n ∧ x.getLsbD k = true := by
  have bit (k : Nat) :
      ((~~~fieldBit n).setWidth 64).getLsbD k = (decide (k < 32) && !decide (k = n)) := by
    rw [BitVec.getLsbD_setWidth, BitVec.getLsbD_not, fieldBit_getLsbD bound]
    by_cases narrow : k < 32
    · have wide : k < 64 := by omega
      simp only [narrow, wide, decide_true, Bool.true_and]
    · simp only [narrow, decide_false, Bool.false_and, Bool.and_false]
  constructor
  · intro nonzero
    by_contra none
    apply nonzero
    apply BitVec.eq_of_getLsbD_eq
    intro k inside
    rw [BitVec.getLsbD_and, bit]
    by_contra set
    simp only [BitVec.ofNat_eq_ofNat, BitVec.getLsbD_zero, Bool.not_eq_false, Bool.and_eq_true,
      decide_eq_true_eq, Bool.not_eq_true', decide_eq_false_iff_not] at set
    exact none ⟨k, set.2.1, set.2.2, set.1⟩
  · rintro ⟨k, narrow, different, set⟩ zero
    have value := congrArg (·.getLsbD k) zero
    simp [bit, narrow, different, set] at value

/-- The outcome of a refusal has the interrupt exactly if the tested condition is the wanted one. -/
theorem raisesMsg_refused {tested wanted : Prop} [Decidable tested] [Decidable wanted] :
    RaisesMsg r wanted [.msiNotify 0] shm
        (if tested then (s, (shm.refuse r i).pend r ntintstsMsg, [.msiNotify 0])
          else (s, shm.refuse r i, [])) ↔
      (tested ↔ wanted) := by
  have kept (q : Role) : ((shm.refuse r i).vm q).regs.intsts = (shm.vm q).regs.intsts :=
    mapRegs_field SharedRegisters.intsts shm r _ rfl q
  constructor
  · intro raises
    have calls := raises.calls
    by_cases test : tested <;> by_cases want : wanted <;> simp [test, want] at calls ⊢
  · intro same
    by_cases test : tested
    · have want := same.mp test
      rw [if_pos test]
      refine ⟨?_, ?_, ?_⟩
      · rw [if_pos want, pend_intsts, kept]
      · rw [pend_peer, kept]
      · rw [if_pos want]
    · have want : ¬wanted := fun holds => test (same.mpr holds)
      rw [if_neg test]
      refine ⟨?_, kept r.peer, ?_⟩
      · rw [if_neg want, kept]
      · rw [if_neg want]

theorem refusal_iff (busy : inBusy shm r.peer i = true) :
    RaisesMsg r (OutUnmasked shm r i) [.msiNotify 0] shm (writeOutboundMsg r s shm i val) ↔
      (shm.gregs.ntIntMask.getLsbD 0 = false →
        (OtherMasked shm r i ↔ (shm.vm r).regs.msgstsMask.getLsbD (outmsgsts i) = false)) := by
  rw [outmsg_busy busy, raisesMsg_refused, otherBits_iff _ (outmsgsts_lt i), not_test_msg]
  exact and_congr_left_iff

/-- An accepted message is right under every mask. -/
theorem acceptance_raises (s : IVShmemState) (val : BitVec 64)
    (free : inBusy shm r.peer i = false) :
    RaisesMsg r.peer (InUnmasked shm r.peer i)
      (peerSignal r s shm) shm (writeOutboundMsg r s shm i val) := by
  have kept (q : Role) : ((shm.deliver r i val).vm q).regs.intsts = (shm.vm q).regs.intsts :=
    mapRegs_field SharedRegisters.intsts shm r.peer _ rfl q
  have word : (((shm.deliver r i val).pend r.peer ntintstsMsg).vm r.peer).id =
      (shm.vm r.peer).id := by
    rw [pend_id]
    exact mapRegs_id ..
  have tested : (~~~(shm.vm r.peer).regs.msgstsMask &&& (fieldBit (inmsgsts i)).setWidth 64 ≠ 0 ∧
      ~~~shm.gregs.ntIntMask &&& ntintstsMsg ≠ 0) ↔ InUnmasked shm r.peer i :=
    and_congr (not_test_iff _ (inmsgsts_lt i)) (not_test_msg _)
  rw [outmsg_free free]
  by_cases unmasked : InUnmasked shm r.peer i
  · -- NTINTMSK lets the bit just set through, so the kick depends on the descriptor alone.
    have lets : Unmasked r ((shm.deliver r i val).pend r.peer ntintstsMsg) := by
      refine unmasked_of_bit (k := 0) (by decide) ?_ unmasked.2
      rw [pend_intsts, BitVec.getLsbD_or]
      simp [ntintstsMsg]
    rw [if_pos (tested.mpr unmasked), raise_eq, kick_eq, adoptedId_congr s word]
    refine ⟨?_, ?_, ?_⟩
    · rw [if_pos unmasked, pend_intsts, kept]
    · rw [pend_peer, kept]
    · simp only [unmasked, if_true, peerSignal, lets, and_true]
  · rw [if_neg (fun test => unmasked (tested.mp test))]
    refine ⟨?_, kept _, ?_⟩
    · rw [if_neg unmasked, kept]
    · rw [if_neg unmasked]

/-- The interrupts are exact for every accepted message, and for a refused one exactly
when the bits that are tested stand in for the one that should be. -/
theorem msg_interrupts_iff (r : Role) (s : IVShmemState) (shm : SharedMemory) (i : Fin 4)
    (val : BitVec 64) :
    MsgInterruptsExact r s shm i val ↔
      (inBusy shm r.peer i = true → shm.gregs.ntIntMask.getLsbD 0 = false →
        (OtherMasked shm r i ↔ (shm.vm r).regs.msgstsMask.getLsbD (outmsgsts i) = false)) := by
  unfold MsgInterruptsExact
  cases busy : inBusy shm r.peer i with
  | true =>
    simp only [if_true, forall_const]
    exact refusal_iff busy
  | false =>
    simp only [Bool.false_eq_true, if_false, false_implies, iff_true]
    exact acceptance_raises s val busy

def refusing (mask : BitVec 64) : SharedMemory :=
  (SharedMemory.zero.mapRegs .vm1 fun g => { g with msgstsMask := mask }).mapRegs .vm2
    fun g => { g with msgsts := 0x10000 }

def writer : IVShmemState := .realized 1 fun _ => 0

/-- With nothing masked a refused writer hears nothing, and with all OUTMSGSTS bits
masked it is interrupted. -/
theorem refusal_mask_inverted :
    (writeOutboundMsg .vm1 writer (refusing 0) 0 1).2.2 = [] ∧
      ¬MsgInterruptsExact .vm1 writer (refusing 0) 0 1 ∧
      (writeOutboundMsg .vm1 writer (refusing 0xF) 0 1).2.2 = [.msiNotify 0] ∧
      ¬MsgInterruptsExact .vm1 writer (refusing 0xF) 0 1 := by
  have silent : (writeOutboundMsg .vm1 writer (refusing 0) 0 1).2.2 = [] := by
    rw [outmsg_busy (by decide)]
    rfl
  have told : (writeOutboundMsg .vm1 writer (refusing 0xF) 0 1).2.2 = [.msiNotify 0] := by
    rw [outmsg_busy (by decide)]
    rfl
  refine ⟨silent, ?_, told, ?_⟩
  · intro holds
    have raises := (if_pos (by decide)).mp holds
    have calls := silent.symm.trans raises.calls
    rw [if_pos (by decide)] at calls
    cases calls
  · intro holds
    have raises := (if_pos (by decide)).mp holds
    have calls := told.symm.trans raises.calls
    rw [if_neg (by decide)] at calls
    cases calls

end IdtNtb.Device
