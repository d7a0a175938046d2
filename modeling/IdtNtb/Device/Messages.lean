import IdtNtb.Device.State

/-! Message registers. A write to OUTMSG is accepted when the peer's INMSGSTS
bit is clear and refused otherwise; the two outcomes are the whole behaviour of
the handler on the shared block. -/
namespace IdtNtb.Device

def outmsgsts (i : Fin 4) : Nat := i
def inmsgsts (i : Fin 4) : Nat := 16 + i

/-- `write_outbound_msg`. Every caller passes one of the indices 0 to 3, so the
branch for an invalid index has no counterpart. -/
def writeOutboundMsg (r : Role) (s : IVShmemState) (shm : SharedMemory) (i : Fin 4)
    (val : BitVec 64) : IVShmemState × SharedMemory × List Effect :=
  if (shm.vm r.peer).regs.msgsts &&& (fieldBit (inmsgsts i)).setWidth 64 ≠ 0 then
    let shm := shm.mapRegs r fun g =>
      { g with msgsts := g.msgsts ||| (fieldBit (outmsgsts i)).setWidth 64 }
    -- The refusal tests every mask bit but its own, as the source does.
    if (shm.vm r).regs.msgstsMask &&& (~~~fieldBit (outmsgsts i)).setWidth 64 ≠ 0 ∧
        ~~~shm.gregs.ntIntMask &&& ntintstsMsg ≠ 0 then
      (s, shm.mapRegs r fun g => { g with intsts := g.intsts ||| ntintstsMsg.setWidth 64 },
        [.msiNotify 0])
    else (s, shm, [])
  else
    let shm := shm.mapRegs r.peer fun g =>
      { g with
        msg := Function.update g.msg i val
        msgsts := g.msgsts ||| (fieldBit (inmsgsts i)).setWidth 64
        inbMsgSrc := Function.update g.inbMsgSrc i ((shm.vm r).regs.inboundMwPart.setWidth 64) }
    if ~~~(shm.vm r.peer).regs.msgstsMask &&& (fieldBit (inmsgsts i)).setWidth 64 ≠ 0 ∧
        ~~~shm.gregs.ntIntMask &&& ntintstsMsg ≠ 0 then
      idtRaisePeerInterrupt r s shm ntintstsMsg
    else (s, shm, [])

theorem fieldBit_getLsbD (bound : n < 32) : (fieldBit n).getLsbD k = decide (k = n) := by
  rw [fieldBit, ← BitVec.twoPow_eq, BitVec.getLsbD_twoPow]
  by_cases same : k = n
  · subst same
    simp [bound]
  · simp [same, Ne.symm same]

theorem wideBit_getLsbD (bound : n < 32) :
    ((fieldBit n).setWidth 64).getLsbD k = decide (k = n) := by
  rw [BitVec.getLsbD_setWidth, fieldBit_getLsbD bound]
  by_cases same : k = n
  · have inside : k < 64 := by omega
    simp [same] at inside ⊢
    exact inside
  · simp [same]

/-- The C test `x & (1U << n)`. -/
theorem testBit_iff (x : BitVec 64) (bound : n < 32) :
    x &&& (fieldBit n).setWidth 64 ≠ 0 ↔ x.getLsbD n = true := by
  constructor
  · intro nonzero
    by_contra clear
    apply nonzero
    apply BitVec.eq_of_getLsbD_eq
    intro k inside
    rw [BitVec.getLsbD_and, wideBit_getLsbD bound]
    by_cases same : k = n
    · subst same
      simpa using clear
    · simp [same]
  · intro set zero
    have value := congrArg (·.getLsbD n) zero
    simp [wideBit_getLsbD bound, set] at value

theorem setBit_getLsbD (x : BitVec 64) (bound : n < 32) :
    (x ||| (fieldBit n).setWidth 64).getLsbD k = (x.getLsbD k || decide (k = n)) := by
  rw [BitVec.getLsbD_or, wideBit_getLsbD bound]

theorem inmsgsts_lt (i : Fin 4) : inmsgsts i < 32 := by
  unfold inmsgsts
  omega

theorem outmsgsts_lt (i : Fin 4) : outmsgsts i < 32 := by
  unfold outmsgsts
  omega

/-- A VM's inbound status bit and outbound error bit for message register `i`. -/
def inBusy (shm : SharedMemory) (r : Role) (i : Fin 4) : Bool :=
  (shm.vm r).regs.msgsts.getLsbD (inmsgsts i)

def outError (shm : SharedMemory) (r : Role) (i : Fin 4) : Bool :=
  (shm.vm r).regs.msgsts.getLsbD (outmsgsts i)

/-- The message view of the shared block: everything a command channel reads
through MSGSTS and INMSG, for both VMs. -/
structure MsgView where
  busy : Role → Fin 4 → Bool
  error : Role → Fin 4 → Bool
  msg : Role → Fin 4 → BitVec 64

def msgView (shm : SharedMemory) : MsgView :=
  ⟨inBusy shm, outError shm, fun r => (shm.vm r).regs.msg⟩

@[simp] theorem msgView_busy (shm : SharedMemory) : (msgView shm).busy = inBusy shm := rfl
@[simp] theorem msgView_error (shm : SharedMemory) : (msgView shm).error = outError shm := rfl
@[simp] theorem msgView_msg (shm : SharedMemory) (r : Role) :
    (msgView shm).msg r = (shm.vm r).regs.msg := rfl

def MsgView.post (v : MsgView) (r : Role) (i : Fin 4) (val : BitVec 64) : MsgView :=
  if v.busy r.peer i then
    { v with error := Function.update v.error r (Function.update (v.error r) i true) }
  else
    { v with
      busy := Function.update v.busy r.peer (Function.update (v.busy r.peer) i true)
      msg := Function.update v.msg r.peer (Function.update (v.msg r.peer) i val) }

theorem msgView_congr {m n : SharedMemory}
    (sts : ∀ q, (m.vm q).regs.msgsts = (n.vm q).regs.msgsts)
    (msg : ∀ q, (m.vm q).regs.msg = (n.vm q).regs.msg) : msgView m = msgView n := by
  have busy : inBusy m = inBusy n := by funext q i; simp only [inBusy, sts]
  have error : outError m = outError n := by funext q i; simp only [outError, sts]
  simp only [msgView, busy, error, msg]

theorem msgView_intsts (m : SharedMemory) (r : Role) (f : BitVec 64 → BitVec 64) :
    msgView (m.mapRegs r fun g => { g with intsts := f g.intsts }) = msgView m := by
  apply msgView_congr
  all_goals
    intro q
    rcases Role.eq_or_peer r q with rfl | rfl <;> simp

theorem raise_msgView (r : Role) (s : IVShmemState) (m : SharedMemory) (bit : BitVec 32) :
    msgView (idtRaisePeerInterrupt r s m bit).2.1 = msgView m :=
  msgView_intsts m r.peer (· ||| bit.setWidth 64)

/-- Acceptance and refusal are the only outcomes of the handler, decided by the
peer's INMSGSTS bit alone; masks and notifications never change the view. -/
theorem writeOutboundMsg_msgView (r : Role) (s : IVShmemState) (m : SharedMemory) (i : Fin 4)
    (val : BitVec 64) :
    msgView (writeOutboundMsg r s m i val).2.1 = (msgView m).post r i val := by
  have distinct : ∀ j : Fin 4, (inmsgsts j = inmsgsts i ↔ j = i) ∧
      (outmsgsts j = outmsgsts i ↔ j = i) ∧
      outmsgsts j ≠ inmsgsts i ∧ inmsgsts j ≠ outmsgsts i := by
    intro j
    unfold inmsgsts outmsgsts
    refine ⟨?_, ?_, by omega, by omega⟩ <;> constructor <;> intro same <;> omega
  by_cases busy : inBusy m r.peer i
  · have refused : msgView (m.mapRegs r fun g =>
        { g with msgsts := g.msgsts ||| (fieldBit (outmsgsts i)).setWidth 64 }) =
        (msgView m).post r i val := by
      simp only [MsgView.post, msgView_busy, busy, if_true]
      simp only [msgView, MsgView.mk.injEq]
      refine ⟨?_, ?_, ?_⟩
      · funext q j
        rcases Role.eq_or_peer r q with rfl | rfl
        · simp [inBusy, setBit_getLsbD _ (outmsgsts_lt i), (distinct j).2.2.2]
        · simp [inBusy]
      · funext q j
        rcases Role.eq_or_peer r q with rfl | rfl
        · by_cases same : j = i
          · simp [outError, setBit_getLsbD _ (outmsgsts_lt i), same]
          · simp [outError, setBit_getLsbD _ (outmsgsts_lt i), (distinct j).2.1, same]
        · simp [outError]
      · funext q
        rcases Role.eq_or_peer r q with rfl | rfl <;> simp
    rw [writeOutboundMsg, if_pos ((testBit_iff _ (inmsgsts_lt i)).mpr busy)]
    dsimp only
    split
    · rw [msgView_intsts _ r (· ||| ntintstsMsg.setWidth 64), refused]
    · exact refused
  · have accepted : ∀ src, msgView (m.mapRegs r.peer fun g =>
        { g with
          msg := Function.update g.msg i val
          msgsts := g.msgsts ||| (fieldBit (inmsgsts i)).setWidth 64
          inbMsgSrc := Function.update g.inbMsgSrc i src }) = (msgView m).post r i val := by
      intro src
      simp only [MsgView.post, msgView_busy, busy]
      simp only [msgView, Bool.false_eq_true, if_false, MsgView.mk.injEq]
      refine ⟨?_, ?_, ?_⟩
      · funext q j
        rcases Role.eq_or_peer r q with rfl | rfl
        · simp [inBusy]
        · by_cases same : j = i
          · simp [inBusy, setBit_getLsbD _ (inmsgsts_lt i), same]
          · simp [inBusy, setBit_getLsbD _ (inmsgsts_lt i), (distinct j).1, same]
      · funext q j
        rcases Role.eq_or_peer r q with rfl | rfl
        · simp [outError]
        · simp [outError, setBit_getLsbD _ (inmsgsts_lt i), (distinct j).2.2.1]
      · funext q
        rcases Role.eq_or_peer r q with rfl | rfl <;> simp
    rw [writeOutboundMsg, if_neg (fun set => busy ((testBit_iff _ (inmsgsts_lt i)).mp set))]
    dsimp only
    split
    · rw [raise_msgView, accepted]
    · exact accepted _

end IdtNtb.Device
