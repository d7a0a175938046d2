import IdtNtb.Device.Handlers

/-! The message registers over whole runs. A run records every BAR 0 store of
either guest with the states around it; a store to OUTMSG is accepted or
refused, and nothing but the receiver's own store to MSGSTS frees a register. -/
namespace IdtNtb.Device
open Transition

structure Store where
  before : Switch
  access : Bar0Write
  after : Switch

def Switch.record (w : Switch) (access : Bar0Write) : Option (Switch × List Store) :=
  (w.write access).map fun next => (next.1, [⟨w, access, next.1⟩])

def Bar0Write.register (access : Bar0Write) : Option ConfigRegister :=
  ConfigRegister.decode access.addr

/-- A store to any register but the four that write into the peer's BAR table
through the latched index. -/
def Bar0Write.Direct (access : Bar0Write) : Prop :=
  access.register.bind ConfigRegister.inboundField = none

instance : DecidablePred Bar0Write.Direct := fun _ => inferInstanceAs (Decidable (_ = _))

def Store.sends (r : Role) (i : Fin 4) (e : Store) : Bool :=
  e.access.role = r && e.access.register = some (.outmsg i)

def Store.accepted (r : Role) (i : Fin 4) (e : Store) : Bool :=
  e.sends r i && !inBusy e.before.shm r.peer i

/-- The receiver's store to MSGSTS clears the set INMSGSTS bit. -/
def Store.cleared (r : Role) (i : Fin 4) (e : Store) : Bool :=
  (e.access.role = r.peer && e.access.register = some .msgsts) &&
    (inBusy e.before.shm r.peer i && !inBusy e.after.shm r.peer i)

structure Store.Accepted (r : Role) (i : Fin 4) (e : Store) : Prop where
  free : inBusy e.before.shm r.peer i = false
  busy : inBusy e.after.shm r.peer i = true
  value : e.after.readReg r.peer (.inmsg i) = e.access.val
  source : e.after.readReg r.peer (.inmsgsrc i) = (e.before.shm.vm r).regs.inboundMwPart

/-- The sender's error bit is set and everything the receiver can read is as before. -/
structure Store.Refused (r : Role) (i : Fin 4) (e : Store) : Prop where
  busy : inBusy e.before.shm r.peer i = true
  error : outError e.after.shm r i = true
  receiver : e.after.shm.vm r.peer = e.before.shm.vm r.peer
  globals : e.after.shm.gregs = e.before.shm.gregs
  device : e.after.dev r.peer = e.before.dev r.peer

/-- What the stores so far say about message register `i` from `r` to its peer. -/
structure Guarded (r : Role) (i : Fin 4) (es : List Store) (w : Switch) : Prop where
  outcome : ∀ e ∈ es, e.sends r i = true → e.Accepted r i ∨ e.Refused r i
  stable : ∀ e ∈ es, inBusy e.before.shm r.peer i = true →
    e.after.readReg r.peer (.inmsg i) = e.before.readReg r.peer (.inmsg i)
  latest : inBusy w.shm r.peer i = true →
    (es.filter (Store.accepted r i)).getLast?.map (·.access.val) =
      some (w.readReg r.peer (.inmsg i))
  counted : es.countP (Store.accepted r i) =
    es.countP (Store.cleared r i) + (inBusy w.shm r.peer i).toNat

def MsgView.next (v : MsgView) (access : Bar0Write) : MsgView :=
  match access.register with
  | some (.outmsg i) => v.post access.role i (access.val.setWidth 64)
  | some .msgsts => v.clear access.role access.val
  | _ => v

theorem aside_msgView (same : Aside m n) : msgView n = msgView m :=
  msgView_congr same.msgsts same.msg

theorem handled_msgView (handled : Handled file r s shm reg val t m effects)
    (direct : reg.bind ConfigRegister.inboundField = none) (posts : ∀ i, reg ≠ some (.outmsg i))
    (clears : reg ≠ some .msgsts) : msgView m = msgView shm := by
  cases handled with
  | latched => rfl
  | aside same => exact aside_msgView same
  | raised middle bit same raise =>
    have after := raise_msgView r s middle bit
    rw [raise] at after
    exact after.trans (aside_msgView same)
  | ntintsts => exact msgView_intsts shm r (· &&& ~~~val)
  | outmsg i => exact absurd rfl (posts i)
  | msgsts => exact absurd rfl clears
  | msgstsmsk => exact msgView_congr (mapRegs_field _ shm r _ rfl) (mapRegs_field _ shm r _ rfl)
  | ntintmsk => rfl
  | bar field i stored updated =>
    subst stored
    apply msgView_congr <;> intro q <;> rw [setBar_regs]
  | inbound data => simp [data] at direct

variable {w t : Switch} {access : Bar0Write}

theorem write_handled (written : w.write access = some (t, effects)) :
    ∃ s m es, t = ⟨m, Function.update w.dev access.role s⟩ ∧
      Handled access.file access.role (w.dev access.role) w.shm access.register
        (access.val.setWidth 64) s m es := by
  simp only [Switch.write, Option.map_eq_some_iff, Prod.mk.injEq] at written
  obtain ⟨⟨s, m, es⟩, written, rfl, -⟩ := written
  obtain ⟨reg, found, handled⟩ := ioWrite_handled written
  refine ⟨s, m, es, rfl, ?_⟩
  rwa [Bar0Write.register, found]

theorem write_msgView (direct : access.Direct) (written : w.write access = some (t, effects)) :
    msgView t.shm = (msgView w.shm).next access := by
  have named : ∀ {reg next}, access.register = some reg →
      w.writeReg access.file access.role reg access.val = some next → next = t := by
    intro reg next found posted
    have addressed := addr_of_decode found
    simp only [Switch.writeReg, addressed, written, Option.map_some, Option.some.injEq] at posted
    exact posted.symm
  unfold MsgView.next
  split
  · rename_i i found
    obtain ⟨next, posted, view⟩ := write_outmsg w access.file access.role i access.val
    rw [← named found posted, view]
  · rename_i found
    obtain ⟨next, cleared, view⟩ := write_msgsts w access.file access.role access.val
    rw [← named found cleared, view]
  · rename_i posts clears
    obtain ⟨s, m, es, rfl, handled⟩ := write_handled written
    exact handled_msgView handled direct posts clears

theorem read_inmsgsrc (w : Switch) (r : Role) (i : Fin 4) :
    w.readReg r (.inmsgsrc i) = ((w.shm.vm r).regs.inbMsgSrc i).setWidth 32 := by
  simp only [Switch.readReg, Switch.read, ivshmemIoRead, decode_addr]

theorem write_sent (written : w.write access = some (t, effects))
    (found : access.register = some (.outmsg i)) :
    ∃ s m es, t = ⟨m, Function.update w.dev access.role s⟩ ∧
      Sent access.role (w.dev access.role) w.shm i (access.val.setWidth 64) s m es := by
  simp only [Switch.write, Option.map_eq_some_iff, Prod.mk.injEq] at written
  obtain ⟨⟨s, m, es⟩, sent, rfl, -⟩ := written
  simp only [Bar0Write.register] at found
  simp only [ivshmemIoWrite, found, Option.some.injEq] at sent
  exact ⟨s, m, es, rfl, outmsg_sent sent⟩

theorem deliver_peer (shm : SharedMemory) (r : Role) (i : Fin 4) (val : BitVec 64) :
    inBusy (shm.deliver r i val) r.peer i = true ∧
      ((shm.deliver r i val).vm r.peer).regs.msg i = val ∧
      ((shm.deliver r i val).vm r.peer).regs.inbMsgSrc i =
        (shm.vm r).regs.inboundMwPart.setWidth 64 := by
  simp [SharedMemory.deliver, inBusy, setBit_getLsbD _ (inmsgsts_lt i)]

theorem refuse_peer (shm : SharedMemory) (r : Role) (i : Fin 4) :
    (shm.refuse r i).vm r.peer = shm.vm r.peer :=
  mapRegs_peer ..

theorem refuse_error (shm : SharedMemory) (r : Role) (i : Fin 4) :
    outError (shm.refuse r i) r i = true := by
  simp [SharedMemory.refuse, outError, setBit_getLsbD _ (outmsgsts_lt i)]

/-- A store to OUTMSG has one of its two outcomes. -/
theorem send_outcome (written : w.write access = some (t, effects))
    (found : access.register = some (.outmsg i)) :
    (⟨w, access, t⟩ : Store).Accepted access.role i ∨
    (⟨w, access, t⟩ : Store).Refused access.role i := by
  obtain ⟨s, m, es, rfl, sent⟩ := write_sent written found
  have away : ∀ s, Function.update w.dev access.role s access.role.peer = w.dev access.role.peer :=
    fun s => Function.update_of_ne access.role.peer_ne ..
  obtain ⟨busy, value, source⟩ := deliver_peer w.shm access.role i (access.val.setWidth 64)
  cases sent with
  | refused full => exact Or.inr ⟨full, refuse_error .., refuse_peer .., rfl, away _⟩
  | reported full =>
    refine Or.inr ⟨full, ?_, ?_, rfl, away _⟩
    · rw [outError, pend_msgsts]
      exact refuse_error w.shm access.role i
    · exact (pend_peer ..).trans (refuse_peer ..)
  | masked free hidden =>
    refine Or.inl ⟨free, busy, ?_, ?_⟩
    · simp [read_inmsg, value]
    · simp [read_inmsgsrc, source]
  | raised free raise =>
    rw [raise_eq] at raise
    cases raise
    refine Or.inl ⟨free, ?_, ?_, ?_⟩
    · rw [inBusy, pend_msgsts]
      exact busy
    · simp [read_inmsg, value]
    · simp [read_inmsgsrc, source]

/-- A busy register keeps its value over any direct store. -/
theorem busy_stable (direct : access.Direct) (written : w.write access = some (t, effects))
    (busy : inBusy w.shm q i = true) : (t.shm.vm q).regs.msg i = (w.shm.vm q).regs.msg i := by
  have view := write_msgView direct written
  have kept : ((msgView w.shm).next access).msg q i = (msgView w.shm).msg q i := by
    unfold MsgView.next MsgView.post
    split
    · rename_i j found
      split
      · rfl
      · rename_i free
        have other : ¬(q = access.role.peer ∧ i = j) := by
          rintro ⟨rfl, rfl⟩
          exact free busy
        by_cases same : q = access.role.peer
        · subst same
          have distinct : i ≠ j := fun equal => other ⟨rfl, equal⟩
          simp [distinct]
        · simp [same]
    · rfl
    · rfl
  rw [← view] at kept
  exact kept

/-- A post sets the one bit it addresses and leaves every other bit. -/
theorem post_busy (v : MsgView) (q r : Role) (i j : Fin 4) (val : BitVec 64) :
    (v.post q j val).busy r.peer i = (v.busy r.peer i || (decide (q = r) && decide (j = i))) := by
  unfold MsgView.post
  by_cases target : q = r ∧ j = i
  · obtain ⟨rfl, rfl⟩ := target
    split
    · rename_i full
      simp [full]
    · simp
  · have kept : (decide (q = r) && decide (j = i)) = false := by simpa using target
    rw [kept, Bool.or_false]
    split
    · rfl
    · by_cases same : r.peer = q.peer
      · have distinct : i ≠ j := by
          rintro rfl
          exact target ⟨by cases q <;> cases r <;> simp_all [Role.peer], rfl⟩
        simp [same, distinct]
      · simp [same]

theorem clear_busy (v : MsgView) (q r : Role) (i : Fin 4) (val : BitVec 32) :
    (v.clear q val).busy r.peer i =
      (v.busy r.peer i && !(decide (q = r.peer) && val.getLsbD (inmsgsts i))) := by
  by_cases same : q = r.peer
  · subst same
    simp [MsgView.clear]
  · simp [MsgView.clear, same, Ne.symm same]

/-- Acceptance and clearing account for every change of the INMSGSTS bit. -/
theorem busy_balance (direct : access.Direct) (written : w.write access = some (t, effects)) :
    ((⟨w, access, t⟩ : Store).accepted r i).toNat + (inBusy w.shm r.peer i).toNat =
      ((⟨w, access, t⟩ : Store).cleared r i).toNat + (inBusy t.shm r.peer i).toNat := by
  have view := congrArg (fun v => v.busy r.peer i) (write_msgView direct written)
  simp only [msgView_busy] at view
  simp only [Store.accepted, Store.cleared, Store.sends]
  unfold MsgView.next at view
  split at view
  · rename_i j found
    rw [post_busy, msgView_busy] at view
    rw [found, view]
    cases inBusy w.shm r.peer i <;> simp
  · rename_i found
    rw [clear_busy, msgView_busy] at view
    rw [found, view]
    simp only [Option.some.injEq, reduceCtorEq, decide_false, Bool.and_false, Bool.false_and,
      decide_true, Bool.and_true]
    cases inBusy w.shm r.peer i <;> cases decide (access.role = r.peer) <;>
      cases access.val.getLsbD (inmsgsts i) <;> rfl
  · rename_i posts clears
    rw [msgView_busy] at view
    rw [view]
    have unsent : ¬access.register = some (.outmsg i) := posts i
    simp [unsent]

theorem guarded_step (guarded : Guarded r i es w) (direct : access.Direct)
    (stepped : w.record access = some (t, fs)) : Guarded r i (es ++ fs) t := by
  simp only [Switch.record, Option.map_eq_some_iff, Prod.mk.injEq] at stepped
  obtain ⟨⟨next, effects⟩, written, rfl, rfl⟩ := stepped
  dsimp only
  have balance := busy_balance direct written (r := r) (i := i)
  have stable : inBusy w.shm r.peer i = true →
      next.readReg r.peer (.inmsg i) = w.readReg r.peer (.inmsg i) := by
    intro busy
    rw [read_inmsg, read_inmsg, busy_stable direct written busy]
  refine ⟨?_, ?_, ?_, ?_⟩
  · intro e member sends
    rcases List.mem_append.mp member with earlier | last
    · exact guarded.outcome e earlier sends
    · obtain rfl := List.mem_singleton.mp last
      simp only [Store.sends, Bool.and_eq_true, decide_eq_true_eq] at sends
      obtain ⟨rfl, found⟩ := sends
      exact send_outcome written found
  · intro e member busy
    rcases List.mem_append.mp member with earlier | last
    · exact guarded.stable e earlier busy
    · obtain rfl := List.mem_singleton.mp last
      exact stable busy
  · intro busy
    rw [List.filter_append, List.getLast?_append]
    cases accepts : Store.accepted r i ⟨w, access, next⟩ with
    | true =>
      have value : next.readReg r.peer (.inmsg i) = access.val := by
        simp only [Store.accepted, Store.sends, Bool.and_eq_true, decide_eq_true_eq] at accepts
        obtain ⟨⟨rfl, found⟩, free⟩ := accepts
        rcases send_outcome written found with accepted | refused
        · exact accepted.value
        · simp [refused.busy] at free
      rw [List.filter_cons_of_pos accepts, value]
      rfl
    | false =>
      rw [accepts, busy] at balance
      have held : inBusy w.shm r.peer i = true := by
        cases before : inBusy w.shm r.peer i with
        | true => rfl
        | false => simp [before] at balance
      rw [List.filter_cons_of_neg (by simp [accepts]), stable held]
      exact guarded.latest held
  · rw [List.countP_append, List.countP_append, guarded.counted, List.countP_singleton,
      List.countP_singleton]
    have counts : ∀ b : Bool, (if b = true then 1 else 0) = b.toNat := by decide
    rw [counts, counts]
    omega

/-- From clear status registers, over any interleaving of both guests' stores:
every OUTMSG store is accepted or refused, a set INMSGSTS bit holds the last
accepted value in place, and the accepted stores are those the receiver has
cleared plus the one still set. -/
theorem messages_guarded (w : Switch) (ls : List Bar0Write)
    (clear : ∀ q, (w.shm.vm q).regs.msgsts = 0) (direct : ∀ access ∈ ls, access.Direct)
    (path : run Switch.record w ls = some (t, es)) (r : Role) (i : Fin 4) : Guarded r i es t := by
  have initial : Guarded r i [] w := by
    have free : inBusy w.shm r.peer i = false := by simp [inBusy, clear]
    exact ⟨by simp, by simp, fun busy => absurd (free.symm.trans busy) (by decide), by simp [free]⟩
  exact run_invariant guarded_step initial (along_labels direct w) path

/-- `vm1` sends twice, the second time in vain, and once more after `vm2` has
acknowledged. -/
def sampleMessages : List Bar0Write :=
  let send (val : BitVec 32) : Bar0Write := ⟨.vm1, (ConfigRegister.outmsg 0).addr, val, .absent⟩
  let acknowledge : Bar0Write := ⟨.vm2, ConfigRegister.msgsts.addr, 0x10000, .absent⟩
  [send 5, send 6, acknowledge, send 7]

theorem messages_guarded_resend :
    ∃ t es, run Switch.record .realized sampleMessages = some (t, es) ∧
      t.readReg .vm2 (.inmsg 0) = 7 ∧ Guarded .vm1 0 es t := by
  have reads : (run Switch.record .realized sampleMessages).map
      (fun reached => reached.1.readReg .vm2 (.inmsg 0)) = some 7 := by decide +kernel
  obtain ⟨⟨t, es⟩, path, read⟩ := Option.map_eq_some_iff.mp reads
  refine ⟨t, es, path, read, ?_⟩
  exact messages_guarded .realized sampleMessages (by decide +kernel)
    (by decide +kernel) path .vm1 0

end IdtNtb.Device
