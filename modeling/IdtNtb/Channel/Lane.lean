import IdtNtb.Channel.Commands

/-! One direction of the message registers. A lane is what a sender and its
receiver share: the receiver's INMSGSTS bits and INMSG registers and the
sender's OUTMSGSTS bits. Every access of either driver acts on one lane and
leaves the other alone. -/
namespace IdtNtb.Channel
open Device

structure Lane where
  busy : Fin 4 → Bool
  error : Fin 4 → Bool
  msg : Fin 4 → BitVec 64

def lane (w : Switch) (r : Role) : Lane :=
  ⟨inBusy w.shm r.peer, outError w.shm r, (w.shm.vm r.peer).regs.msg⟩

def Lane.ofView (v : MsgView) (r : Role) : Lane := ⟨v.busy r.peer, v.error r, v.msg r.peer⟩

theorem lane_eq (w : Switch) (r : Role) : lane w r = Lane.ofView (msgView w.shm) r := rfl

def Lane.post (l : Lane) (i : Fin 4) (msg : BitVec 32) : Lane :=
  if l.busy i then { l with error := Function.update l.error i true }
  else
    { l with
      busy := Function.update l.busy i true
      msg := Function.update l.msg i (msg.setWidth 64) }

def Lane.clearOut (l : Lane) : Lane := { l with error := fun _ => false }
def Lane.clearIn (l : Lane) : Lane := { l with busy := fun _ => false }

theorem outbits_getLsbD (i : Fin 4) :
    ntbMsgOutbits.getLsbD (outmsgsts i) = true ∧ ntbMsgOutbits.getLsbD (inmsgsts i) = false := by
  revert i
  decide

theorem inbits_getLsbD (i : Fin 4) :
    ntbMsgInbits.getLsbD (outmsgsts i) = false ∧ ntbMsgInbits.getLsbD (inmsgsts i) = true := by
  revert i
  decide

theorem ofView_post (v : MsgView) (r : Role) (i : Fin 4) (msg : BitVec 32) :
    Lane.ofView (v.post r i (msg.setWidth 64)) r = (Lane.ofView v r).post i msg ∧
      Lane.ofView (v.post r i (msg.setWidth 64)) r.peer = Lane.ofView v r.peer := by
  cases busy : v.busy r.peer i <;>
    simp [MsgView.post, Lane.post, Lane.ofView, busy]

theorem ofView_clear_out (v : MsgView) (r : Role) :
    Lane.ofView (v.clear r ntbMsgOutbits) r = (Lane.ofView v r).clearOut ∧
      Lane.ofView (v.clear r ntbMsgOutbits) r.peer = Lane.ofView v r.peer := by
  simp [MsgView.clear, Lane.clearOut, Lane.ofView, outbits_getLsbD]

theorem ofView_clear_in (v : MsgView) (r : Role) :
    Lane.ofView (v.clear r ntbMsgInbits) r = Lane.ofView v r ∧
      Lane.ofView (v.clear r ntbMsgInbits) r.peer = (Lane.ofView v r.peer).clearIn := by
  simp [MsgView.clear, Lane.clearIn, Lane.ofView, inbits_getLsbD]

theorem ofView_clear_both (v : MsgView) (r : Role) :
    Lane.ofView (v.clear r (ntbMsgInbits ||| ntbMsgOutbits)) r = (Lane.ofView v r).clearOut ∧
      Lane.ofView (v.clear r (ntbMsgInbits ||| ntbMsgOutbits)) r.peer =
        (Lane.ofView v r.peer).clearIn := by
  simp [MsgView.clear, Lane.clearIn, Lane.clearOut, Lane.ofView, inbits_getLsbD, outbits_getLsbD]

theorem peerMsgWrite_lane (written : ntbPeerMsgWrite w r i msg = some next) :
    lane next r = (lane w r).post i msg ∧ lane next r.peer = lane w r.peer := by
  obtain ⟨actual, stored, view⟩ := write_outmsg w .absent r i msg
  obtain rfl := Option.some.inj (written.symm.trans stored)
  simp only [lane_eq, view]
  exact ofView_post ..

theorem clearSts_lane (written : ntbMsgClearSts w r bits = some next) (q : Role) :
    lane next q = Lane.ofView ((msgView w.shm).clear r bits) q := by
  obtain ⟨actual, stored, view⟩ := write_msgsts w .absent r bits
  obtain rfl := Option.some.inj (written.symm.trans stored)
  rw [lane_eq, view]

theorem clearOut_lane (written : ntbMsgClearSts w r ntbMsgOutbits = some next) :
    lane next r = (lane w r).clearOut ∧ lane next r.peer = lane w r.peer := by
  simp only [clearSts_lane written]
  exact ofView_clear_out ..

theorem clearIn_lane (written : ntbMsgClearSts w r ntbMsgInbits = some next) :
    lane next r = lane w r ∧ lane next r.peer = (lane w r.peer).clearIn := by
  simp only [clearSts_lane written]
  exact ofView_clear_in ..

theorem clearBoth_lane (written : ntbMsgClearSts w r (ntbMsgInbits ||| ntbMsgOutbits) = some next) :
    lane next r = (lane w r).clearOut ∧ lane next r.peer = (lane w r.peer).clearIn := by
  simp only [clearSts_lane written]
  exact ofView_clear_both ..

theorem outbits_low (k : Nat) : ntbMsgOutbits.getLsbD k = decide (k < 4) := by
  by_cases inside : k < 32
  · have packed : ∀ k : Fin 32, ntbMsgOutbits.getLsbD k = decide (k.val < 4) := by decide
    exact packed ⟨k, inside⟩
  · rw [BitVec.getLsbD_of_ge _ _ (by omega)]
    simp
    omega

theorem and_outbits_ne_zero (x : BitVec 32) :
    x &&& ntbMsgOutbits ≠ 0 ↔ ∃ i : Fin 4, x.getLsbD (outmsgsts i) = true := by
  constructor
  · intro nonzero
    by_contra clear
    apply nonzero
    apply BitVec.eq_of_getLsbD_eq
    intro k inside
    rw [BitVec.getLsbD_and, outbits_low]
    by_cases low : k < 4
    · have bit : x.getLsbD k ≠ true := fun set => clear ⟨⟨k, low⟩, set⟩
      simp [bit]
    · simp [low]
  · rintro ⟨i, set⟩ zero
    have bit := congrArg (·.getLsbD (outmsgsts i)) zero
    simp only [BitVec.getLsbD_and, set, (outbits_getLsbD i).1] at bit
    simp at bit

theorem hweight_and_inbits (x : BitVec 32) :
    hweight (x &&& ntbMsgInbits) = (List.finRange 4).countP fun i => x.getLsbD (inmsgsts i) := by
  simp [hweight, List.range, List.range.loop, List.countP_cons, ntbMsgInbits, List.finRange_succ,
    inmsgsts]

/-- A poll sees exactly the sender's own refusals. -/
theorem refused_iff (w : Switch) (r : Role) :
    ntbMsgReadSts w r &&& ntbMsgOutbits ≠ 0 ↔ ∃ i, (lane w r).error i = true := by
  rw [and_outbits_ne_zero]
  simp only [ntbMsgReadSts, read_msgsts_out, lane]

/-- The receiver's bit count is over its four INMSGSTS bits. -/
theorem hweight_inbits (w : Switch) (r : Role) :
    hweight (ntbMsgReadSts w r &&& ntbMsgInbits) = (List.finRange 4).countP
      (lane w r.peer).busy := by
  rw [hweight_and_inbits]
  simp only [ntbMsgReadSts, read_msgsts_in, lane, Role.peer_peer]

theorem msgRead_lane (w : Switch) (r : Role) (i : Fin 4) :
    ntbMsgRead w r i = ((lane w r.peer).msg i).setWidth 32 := by
  rw [ntbMsgRead, read_inmsg, lane, Role.peer_peer]

/-- What each access of `send_cmd` does to the sender's lane. -/
def SendCall.effect (regs : CommandRegs) (call : SendCall) (l : Lane) : Lane :=
  match call.pc with
  | .clearSts => l.clearOut
  | .writeLow => l.post regs.low (half call.command.data 0)
  | .writeHigh => l.post regs.high (half call.command.data 1)
  | .writeCmd => l.post regs.cmd call.command.cmd
  | _ => l

/-- Where the call goes next, given whether a refusal is pending. -/
def SendCall.next (call : SendCall) (refused linkUp : Bool) : SendCall ⊕ SendResult :=
  match call.pc with
  | .checkLink => if linkUp then call.goto .clearSts else .inr .enolink
  | .clearSts => call.goto .writeLow
  | .writeLow => call.goto .pollLow
  | .pollLow => if refused then call.retry else call.goto .writeHigh
  | .writeHigh => call.goto .pollHigh
  | .pollHigh => if refused then call.retry else call.goto .writeCmd
  | .writeCmd => call.goto .pollCmd
  | .pollCmd => if refused then call.retry else .inr .ok

def Lane.refused (l : Lane) : Bool := decide (∃ i, l.error i = true)

theorem poll_refused (w : Switch) (r : Role) (call : SendCall) (accepted) :
    call.poll (ntbMsgReadSts w r) accepted = if (lane w r).refused then call.retry
      else accepted := by
  simp only [SendCall.poll, refused_iff, Lane.refused, decide_eq_true_eq]

theorem sendCmd_lane (stepped : sendCmd regs r w call linkUp = some (next, out)) :
    lane next r = call.effect regs (lane w r) ∧ lane next r.peer = lane w r.peer ∧
      out = call.next (lane w r).refused linkUp := by
  obtain ⟨command, tries, pc, changed⟩ := call
  cases pc with
  | checkLink =>
    simp only [sendCmd, Option.some.injEq, Prod.mk.injEq] at stepped
    obtain ⟨rfl, rfl⟩ := stepped
    exact ⟨rfl, rfl, rfl⟩
  | pollLow | pollHigh | pollCmd =>
    simp only [sendCmd, poll_refused, Option.some.injEq, Prod.mk.injEq] at stepped
    obtain ⟨rfl, rfl⟩ := stepped
    exact ⟨rfl, rfl, rfl⟩
  | clearSts =>
    simp only [sendCmd, Option.map_eq_some_iff, Prod.mk.injEq] at stepped
    obtain ⟨w', written, rfl, rfl⟩ := stepped
    obtain ⟨own, other⟩ := clearOut_lane written
    exact ⟨own, other, rfl⟩
  | writeLow | writeHigh | writeCmd =>
    simp only [sendCmd, Option.map_eq_some_iff, Prod.mk.injEq] at stepped
    obtain ⟨w', written, rfl, rfl⟩ := stepped
    obtain ⟨own, other⟩ := peerMsgWrite_lane written
    exact ⟨own, other, rfl⟩

/-- What each access of `recv_cmd` does to the lane it receives from. -/
def RecvCall.effect (call : RecvCall) (l : Lane) : Lane :=
  match call with
  | .clearSts _ => l.clearIn
  | _ => l

def Lane.read (l : Lane) (i : Fin 4) : BitVec 32 := (l.msg i).setWidth 32

def RecvCall.next (regs : CommandRegs) (l : Lane) : RecvCall → RecvCall ⊕ Option Command
  | .readSts => if (List.finRange 4).countP l.busy < 3 then .inr none else .inl .readCmd
  | .readCmd => .inl (.readLow (l.read regs.cmd))
  | .readLow cmd => .inl (.readHigh cmd (l.read regs.low))
  | .readHigh cmd low => .inl (.clearSts ⟨cmd, join (l.read regs.high) low⟩)
  | .clearSts command => .inr (some command)

theorem recvCmd_lane (stepped : recvCmd regs r.peer w call = some (next, out)) :
    lane next r = call.effect (lane w r) ∧ lane next r.peer = lane w r.peer ∧
      out = call.next regs (lane w r) := by
  have peer := hweight_inbits w r.peer
  have read := msgRead_lane w r.peer
  rw [Role.peer_peer] at peer read
  cases call with
  | clearSts command =>
    simp only [recvCmd, Option.map_eq_some_iff, Prod.mk.injEq] at stepped
    obtain ⟨w', written, rfl, rfl⟩ := stepped
    obtain ⟨other, own⟩ := clearIn_lane written
    rw [Role.peer_peer] at own
    exact ⟨own, other, rfl⟩
  | readSts | readCmd | readLow | readHigh =>
    simp only [recvCmd, peer, read, Option.some.injEq, Prod.mk.injEq] at stepped
    obtain ⟨rfl, rfl⟩ := stepped
    exact ⟨rfl, rfl, rfl⟩

end IdtNtb.Channel
