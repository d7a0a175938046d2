import IdtNtb.Channel.Lane
import IdtNtb.Lib.Mailbox

/-! A lane refines a one-place mailbox. The INMSGSTS bits that a run can reach
form a chain (none, LOW, LOW and HIGH, all three), because a sender fills the
registers in that order, only LOW can be refused, and a receiver acts on full
registers only. The slot of the mailbox is the full register set. -/
namespace IdtNtb.Channel
open Device Transition

inductive Fill where
  | empty
  | low
  | lowHigh
  | full
  deriving DecidableEq

def Fill.busy (regs : CommandRegs) : Fill → Fin 4 → Bool
  | .empty, _ => false
  | .low, i => i = regs.low
  | .lowHigh, i => i = regs.low || i = regs.high
  | .full, i => i = regs.low || i = regs.high || i = regs.cmd

def Fill.count : Fill → Nat
  | .empty => 0
  | .low => 1
  | .lowHigh => 2
  | .full => 3

def Fill.Settled (f : Fill) : Prop := f = .empty ∨ f = .full

theorem fill_count (regs : CommandRegs) (f : Fill) :
    (List.finRange 4).countP (f.busy regs) = f.count := by
  obtain ⟨cmd, low, high, first, second, third⟩ := regs
  cases f <;> simp only [Fill.count] <;> revert cmd low high <;> decide

theorem fill_low (regs : CommandRegs) :
    Function.update (Fill.empty.busy regs) regs.low true = Fill.low.busy regs := by
  funext i
  by_cases same : i = regs.low <;> simp [Fill.busy, same]

theorem fill_high (regs : CommandRegs) :
    Function.update (Fill.low.busy regs) regs.high true = Fill.lowHigh.busy regs := by
  funext i
  by_cases same : i = regs.high <;> simp [Fill.busy, same]

theorem fill_cmd (regs : CommandRegs) :
    Function.update (Fill.lowHigh.busy regs) regs.cmd true = Fill.full.busy regs := by
  funext i
  by_cases same : i = regs.cmd <;> simp [Fill.busy, same]

def Lane.command (regs : CommandRegs) (l : Lane) : Command :=
  ⟨l.read regs.cmd, join (l.read regs.high) (l.read regs.low)⟩

def Lane.Quiet (l : Lane) : Prop := ∀ i, l.error i = false

/-- What a call has stored so far, when it has filled the lane up to `f`. -/
def Lane.Holds (regs : CommandRegs) (l : Lane) (command : Command) : Fill → Prop
  | .low => l.read regs.low = half command.data 0
  | .lowHigh => l.read regs.low = half command.data 0 ∧ l.read regs.high = half command.data 1
  | _ => True

def SenderAt (regs : CommandRegs) (l : Lane) (f : Fill) : Option SendCall → Prop
  | none => f.Settled
  | some call =>
    match call.pc with
    | .checkLink | .clearSts => f.Settled ∧ call.changed = false
    | .writeLow => f.Settled ∧ l.Quiet ∧ call.changed = false
    | .pollLow =>
        (f.Settled ∧ l.refused = true ∧ call.changed = false) ∨
          (f = .low ∧ l.Quiet ∧ l.Holds regs call.command .low)
    | .writeHigh => f = .low ∧ l.Quiet ∧ l.Holds regs call.command .low
    | .pollHigh | .writeCmd => f = .lowHigh ∧ l.Quiet ∧ l.Holds regs call.command .lowHigh
    | .pollCmd => f.Settled ∧ l.Quiet

/-- The receiver's part: past its status read the registers are full, and what
it has read is what they hold. -/
def ReceiverAt (regs : CommandRegs) (l : Lane) (f : Fill) : Option RecvCall → Prop
  | none | some .readSts => True
  | some .readCmd => f = .full
  | some (.readLow cmd) => f = .full ∧ cmd = l.read regs.cmd
  | some (.readHigh cmd low) => f = .full ∧ cmd = l.read regs.cmd ∧ low = l.read regs.low
  | some (.clearSts command) => f = .full ∧ command = l.command regs

structure Side where
  lane : Lane
  sender : Option SendCall
  receiver : Option RecvCall

def Link.side (c : Link) (r : Role) : Side := ⟨lane c.switch r, c.sender r, c.receiver r.peer⟩

structure Tracks (regs : CommandRegs) (s : Side) (f : Fill) : Prop where
  busy : s.lane.busy = f.busy regs
  sender : SenderAt regs s.lane f s.sender
  receiver : ReceiverAt regs s.lane f s.receiver

/-- The mailbox a side stands for. A call has posted its command once CMD is
written. -/
def Side.box (regs : CommandRegs) (s : Side) (f : Fill) : Mailbox.Box Command :=
  ⟨if f = .full then some (s.lane.command regs) else none,
    s.sender.map fun call => (call.command, decide (call.pc = .pollCmd))⟩

/-- From `s` the mailbox can follow to `t`, reporting `es` and dropping nothing. -/
def Follows (regs : CommandRegs) (s : Side) (f : Fill) (t : Side)
    (es : List (Mailbox.Event Command)) : Prop :=
  ∃ g ops, Tracks regs t g ∧ (∀ op ∈ ops, op ≠ .drop) ∧
    run Mailbox.step (s.box regs f) ops = some (t.box regs g, es)

variable {regs : CommandRegs} {l : Lane} {f g : Fill} {rc : Option RecvCall} {s t : Side}

theorem follows_still (tracks : Tracks regs t g) (same : t.box regs g = s.box regs f) :
    Follows regs s f t [] :=
  ⟨g, [], tracks, by simp, by rw [run_nil, same]⟩

theorem follows_one (tracks : Tracks regs t g) (kept : op ≠ .drop)
    (moved : Mailbox.step (s.box regs f) op = some (t.box regs g, es)) : Follows regs s f t es := by
  refine ⟨g, [op], tracks, ?_, ?_⟩
  · intro k member
    rw [List.mem_singleton.mp member]
    exact kept
  · simp [run, moved]

theorem post_free (msg : BitVec 32) (free : l.busy i = false) :
    l.post i msg = ⟨Function.update l.busy i true, l.error,
      Function.update l.msg i (msg.setWidth 64)⟩ := by
  simp [Lane.post, free]

theorem post_busy (msg : BitVec 32) (busy : l.busy i = true) :
    l.post i msg = { l with error := Function.update l.error i true } := by
  simp [Lane.post, busy]

theorem refused_eq_false (quiet : l.Quiet) : l.refused = false := by
  simp [Lane.refused, quiet _]

/-- Storing the last register completes the command. -/
theorem post_cmd_command {command : Command} (held : l.Holds regs command .lowHigh) :
    Lane.command regs ⟨busy, error, Function.update l.msg regs.cmd (command.cmd.setWidth 64)⟩ =
      command := by
  obtain ⟨low, high⟩ := held
  simp only [Lane.read] at low high
  simp only [Lane.command, Lane.read, Function.update_self,
    Function.update_of_ne regs.cmd_ne_high.symm, Function.update_of_ne regs.cmd_ne_low.symm, low,
      high, join_halves]
  simp

/-- A receiver that has not seen full registers has read nothing. -/
theorem receiver_early (held : ReceiverAt regs l f rc) (part : f ≠ .full) (m : Lane) (g : Fill) :
    ReceiverAt regs m g rc := by
  cases rc with
  | none => trivial
  | some call =>
    cases call with
    | readSts => trivial
    | readCmd => exact absurd held part
    | readLow | readHigh | clearSts => exact absurd held.1 part

theorem receiver_frame {m : Lane} (held : ReceiverAt regs l f rc) (same : m.msg = l.msg) :
    ReceiverAt regs m f rc := by
  have read : ∀ i, m.read i = l.read i := fun i => by simp only [Lane.read, same]
  have command : m.command regs = l.command regs := by simp only [Lane.command, read]
  cases rc with
  | none => trivial
  | some call =>
    cases call with
    | readSts => trivial
    | readCmd => exact held
    | readLow | readHigh => simpa only [ReceiverAt, read] using held
    | clearSts => simpa only [ReceiverAt, command] using held

def outcome (command : Command) (result : SendResult) : Mailbox.Event Command :=
  if result = .ok then .sent command else .failed command

/-- Whether an access from `l` to `m` has changed the inbound side, or an
earlier one of the same call had. -/
def touched (changed : Bool) (l m : Lane) : Bool :=
  changed || decide (m.busy ≠ l.busy ∨ m.msg ≠ l.msg)

theorem touched_same {m : Lane} (same : m.busy = l.busy) (kept : m.msg = l.msg)
    (quiet : changed = false) : touched changed l m = false := by
  simp [touched, same, kept, quiet]

/-- A side after one access of its sender, which either stays in the call or
returns from it. -/
def SendFollows (regs : CommandRegs) (l : Lane) (call : SendCall) (rc : Option RecvCall) (f : Fill)
    (after : Lane) : SendCall ⊕ SendResult → Prop
  | .inl next =>
      Follows regs ⟨l, some call, rc⟩ f
        ⟨after, some { next with changed := touched call.changed l after }, rc⟩ []
  | .inr result =>
      Follows regs ⟨l, some call, rc⟩ f ⟨after, none, rc⟩ [outcome call.command result] ∧
        (result ≠ .ok → touched call.changed l after = false)

section Send
variable {command : Command} {tries : Nat} {changed : Bool}

theorem abort_follows (settled : f.Settled) (busy : l.busy = f.busy regs)
    (receiver : ReceiverAt regs l f rc) (pc : SendPc) (early : pc ≠ .pollCmd)
    (quiet : changed = false)
    (failed : result ≠ .ok) :
    SendFollows regs l ⟨command, tries, pc, changed⟩ rc f l (.inr result) := by
  refine ⟨follows_one (g := f) ⟨busy, settled, receiver⟩ (nofun : Mailbox.Op.abort ≠ .drop) ?_, ?_⟩
  · simp [Side.box, Mailbox.step, early, outcome, failed]
  · intro _
    exact touched_same rfl rfl quiet

theorem retry_follows (settled : f.Settled) (busy : l.busy = f.busy regs)
    (receiver : ReceiverAt regs l f rc) (pc : SendPc) (early : pc ≠ .pollCmd)
    (quiet : changed = false) :
    SendFollows regs l ⟨command, tries, pc, changed⟩ rc f l
      (SendCall.retry ⟨command, tries, pc, changed⟩) := by
  unfold SendCall.retry
  split
  · refine follows_still (g := f) ⟨busy, ⟨settled, touched_same rfl rfl quiet⟩, receiver⟩ ?_
    simp [Side.box, early]
  · exact abort_follows settled busy receiver pc early quiet (by decide)

theorem writeLow_follows (settled : f.Settled) (busy : l.busy = f.busy regs)
    (receiver : ReceiverAt regs l f rc) (quiet : l.Quiet) (unchanged : changed = false) :
    SendFollows regs l ⟨command, tries, .writeLow, changed⟩ rc f
      (l.post regs.low (half command.data 0)) (.inl ⟨command, tries, .pollLow, changed⟩) := by
  rcases settled with rfl | rfl
  · have free : l.busy regs.low = false := by rw [busy]; rfl
    rw [post_free _ free]
    refine follows_still (g := .low) ⟨?_, Or.inr ⟨rfl, quiet, ?_⟩, ?_⟩ rfl
    · rw [← fill_low regs, ← busy]
    · simp [Lane.Holds, Lane.read]
    · exact receiver_early receiver (by decide) _ _
  · have taken : l.busy regs.low = true := by simp [busy, Fill.busy]
    rw [post_busy _ taken]
    refine follows_still (g := .full) ⟨busy,
      Or.inl ⟨Or.inr rfl, ?_, touched_same rfl rfl unchanged⟩, ?_⟩ rfl
    · simp only [Lane.refused, decide_eq_true_eq]
      exact ⟨regs.low, Function.update_self ..⟩
    · exact receiver_frame receiver rfl

theorem writeHigh_follows (busy : l.busy = Fill.low.busy regs)
    (receiver : ReceiverAt regs l .low rc) (quiet : l.Quiet) (held : l.Holds regs command .low) :
    SendFollows regs l ⟨command, tries, .writeHigh, changed⟩ rc .low
      (l.post regs.high (half command.data 1)) (.inl ⟨command, tries, .pollHigh, changed⟩) := by
  have free : l.busy regs.high = false := by simp [busy, Fill.busy, regs.low_ne_high.symm]
  rw [post_free _ free]
  refine follows_still (g := .lowHigh) ⟨?_, ⟨rfl, quiet, ?_⟩, ?_⟩ rfl
  · rw [← fill_high regs, ← busy]
  · constructor
    · simpa [Lane.read, Lane.Holds, regs.low_ne_high] using held
    · simp [Lane.read]
  · exact receiver_early receiver (by decide) _ _

theorem writeCmd_follows (busy : l.busy = Fill.lowHigh.busy regs)
    (receiver : ReceiverAt regs l .lowHigh rc) (quiet : l.Quiet)
    (held : l.Holds regs command .lowHigh) :
    SendFollows regs l ⟨command, tries, .writeCmd, changed⟩ rc .lowHigh
      (l.post regs.cmd command.cmd) (.inl ⟨command, tries, .pollCmd, changed⟩) := by
  have free : l.busy regs.cmd = false := by
    simp [busy, Fill.busy, regs.cmd_ne_low, regs.cmd_ne_high]
  rw [post_free _ free]
  refine follows_one (g := .full) ⟨?_, ⟨Or.inr rfl, quiet⟩, ?_⟩ (nofun : Mailbox.Op.post ≠ .drop) ?_
  · rw [← fill_cmd regs, ← busy]
  · exact receiver_early receiver (by decide) _ _
  · simp [Side.box, Mailbox.step, post_cmd_command held]

theorem pollCmd_follows (settled : f.Settled) (busy : l.busy = f.busy regs)
    (receiver : ReceiverAt regs l f rc) :
    SendFollows regs l ⟨command, tries, .pollCmd, changed⟩ rc f l (.inr .ok) := by
  refine ⟨follows_one (g := f) ⟨busy, settled, receiver⟩ (nofun : Mailbox.Op.finish ≠ .drop) ?_, ?_⟩
  · simp [Side.box, Mailbox.step, outcome]
  · exact absurd rfl

/-- One access of `send_cmd`, by the access. -/
theorem send_follows (call : SendCall) (tracks : Tracks regs ⟨l, some call, rc⟩ f) (linkUp : Bool) :
    SendFollows regs l call rc f (call.effect regs l) (call.next l.refused linkUp) := by
  obtain ⟨command, tries, pc, changed⟩ := call
  obtain ⟨busy, sender, receiver⟩ := tracks
  cases pc with
  | checkLink =>
    obtain ⟨settled, quiet⟩ := sender
    cases linkUp with
    | false => exact abort_follows settled busy receiver .checkLink (by decide) quiet (by decide)
    | true =>
      exact follows_still (g := f) ⟨busy, ⟨settled, touched_same rfl rfl quiet⟩, receiver⟩ rfl
  | clearSts =>
    obtain ⟨settled, quiet⟩ := sender
    exact follows_still (g := f)
      ⟨busy, ⟨settled, fun _ => rfl, touched_same rfl rfl quiet⟩, receiver_frame receiver rfl⟩ rfl
  | writeLow =>
    obtain ⟨settled, quiet, unchanged⟩ := sender
    exact writeLow_follows settled busy receiver quiet unchanged
  | pollLow =>
    rcases sender with ⟨settled, refused, quiet⟩ | ⟨rfl, quiet, held⟩
    · have again : l.refused = true := refused
      simp only [SendCall.next, again, if_true]
      exact retry_follows settled busy receiver .pollLow (by decide) quiet
    · simp only [SendCall.next, refused_eq_false quiet, Bool.false_eq_true, if_false]
      exact follows_still (g := .low) ⟨busy, ⟨rfl, quiet, held⟩, receiver⟩ rfl
  | writeHigh =>
    obtain ⟨rfl, quiet, held⟩ := sender
    exact writeHigh_follows busy receiver quiet held
  | pollHigh =>
    obtain ⟨rfl, quiet, held⟩ := sender
    simp only [SendCall.next, refused_eq_false quiet, Bool.false_eq_true, if_false]
    exact follows_still (g := .lowHigh) ⟨busy, ⟨rfl, quiet, held⟩, receiver⟩ rfl
  | writeCmd =>
    obtain ⟨rfl, quiet, held⟩ := sender
    exact writeCmd_follows busy receiver quiet held
  | pollCmd =>
    obtain ⟨settled, quiet⟩ := sender
    simp only [SendCall.next, refused_eq_false quiet, Bool.false_eq_true, if_false]
    exact pollCmd_follows settled busy receiver

end Send

def RecvFollows (regs : CommandRegs) (l : Lane) (sc : Option SendCall) (call : RecvCall) (f : Fill)
    (after : Lane) : RecvCall ⊕ Option Command → Prop
  | .inl next => Follows regs ⟨l, sc, some call⟩ f ⟨after, sc, some next⟩ []
  | .inr (some command) => Follows regs ⟨l, sc, some call⟩ f ⟨after, sc, none⟩ [.received command]
  | .inr none => Follows regs ⟨l, sc, some call⟩ f ⟨after, sc, none⟩ []

/-- Clearing settled registers leaves the sender where it was. -/
theorem sender_cleared {sc : Option SendCall} (held : SenderAt regs l f sc) (settled : f.Settled) :
    SenderAt regs l.clearIn .empty sc := by
  have part : f ≠ .low ∧ f ≠ .lowHigh := by
    rcases settled with rfl | rfl <;> decide
  cases sc with
  | none => exact Or.inl rfl
  | some call =>
    obtain ⟨command, tries, pc, changed⟩ := call
    cases pc with
    | checkLink | clearSts => exact ⟨Or.inl rfl, held.2⟩
    | writeLow => exact ⟨Or.inl rfl, held.2⟩
    | pollLow =>
      rcases held with refused | accepted
      · exact Or.inl ⟨Or.inl rfl, refused.2⟩
      · exact absurd accepted.1 part.1
    | writeHigh => exact absurd held.1 part.1
    | pollHigh | writeCmd => exact absurd held.1 part.2
    | pollCmd => exact ⟨Or.inl rfl, held.2⟩

/-- One access of `recv_cmd`, by the access. -/
theorem recv_follows {sc : Option SendCall} (call : RecvCall)
    (tracks : Tracks regs ⟨l, sc, some call⟩ f) :
    RecvFollows regs l sc call f (call.effect l) (call.next regs l) := by
  obtain ⟨busy, sender, receiver⟩ := tracks
  dsimp only at busy sender receiver
  cases call with
  | readSts =>
    have count : (List.finRange 4).countP l.busy = f.count := by rw [← fill_count regs f, ← busy]
    simp only [RecvCall.next, count]
    split
    · exact follows_still (g := f) ⟨busy, sender, trivial⟩ rfl
    · rename_i enough
      have full : f = .full := by
        cases f with
        | full => rfl
        | empty | low | lowHigh => exact absurd (by decide) enough
      exact follows_still (g := f) ⟨busy, sender, full⟩ rfl
  | readCmd => exact follows_still (g := f) ⟨busy, sender, receiver, rfl⟩ rfl
  | readLow cmd =>
    exact follows_still (g := f) ⟨busy, sender, receiver.1, receiver.2, rfl⟩ rfl
  | readHigh cmd low =>
    obtain ⟨full, rfl, rfl⟩ := receiver
    exact follows_still (g := f) ⟨busy, sender, full, rfl⟩ rfl
  | clearSts command =>
    obtain ⟨rfl, rfl⟩ := receiver
    refine follows_one (g := .empty) ⟨rfl, sender_cleared sender (Or.inr rfl), trivial⟩
      (nofun : Mailbox.Op.take ≠ .drop) ?_
    simp [Side.box, Mailbox.step]

/-- What the sender and the receiver of the lane from `r` see of an event. -/
def observe (r : Role) : Event → Option (Mailbox.Event Command)
  | .began q command => if q = r then some (.begun command) else none
  | .returned q command result _ => if q = r then some (outcome command result) else none
  | .received q command => if q = r.peer then some (.received command) else none
  | .noData _ => none

/-- A failed call of `r` has changed nothing on its receiver's side. -/
def FailsCleanly (r : Role) : Event → Prop
  | .returned q _ result changed => q = r → result ≠ .ok → changed = false
  | _ => True

/-- The status clear of `enable` meets settled registers and a receiver that is
not between its status read and its status clear. -/
def CleanEnable (regs : CommandRegs) (c : Link) : Label → Prop
  | .enable q =>
      ((∀ i, i = regs.cmd ∨ i = regs.low ∨ i = regs.high → inBusy c.switch.shm q i = false) ∨
        ∀ i, i = regs.cmd ∨ i = regs.low ∨ i = regs.high → inBusy c.switch.shm q i = true) ∧
      (c.receiver q = none ∨ c.receiver q = some .readSts)
  | _ => True

instance (regs : CommandRegs) (c : Link) : DecidablePred (CleanEnable regs c)
  | .enable _ => inferInstanceAs (Decidable (_ ∧ _))
  | .startSend .. | .send .. | .startRecv .. | .recv .. => inferInstanceAs (Decidable True)

theorem driver_sendCmd (driver : Driver) : driver.sendCmd = sendCmd driver.regs := by
  cases driver <;> rfl

theorem driver_recvCmd (driver : Driver) : driver.recvCmd = recvCmd driver.regs := by
  cases driver <;> rfl

/-- What one step of the link does to the lane from `r`: the mailbox follows,
and only `enable` can drop a command. -/
structure StepFollows (driver : Driver) (r : Role) (c : Link) (f : Fill) (label : Label) (d : Link)
    (es : List Event) : Prop where
  follows : ∃ g ops, Tracks driver.regs (d.side r) g ∧
    (∀ op ∈ ops, op = .drop → ∃ q, label = .enable q) ∧
    run Mailbox.step ((c.side r).box driver.regs f) ops =
      some ((d.side r).box driver.regs g, es.filterMap (observe r))
  clean : ∀ e ∈ es, FailsCleanly r e

theorem Follows.step {driver : Driver} {c d : Link}
    (follows : Follows driver.regs (c.side r) f (d.side r) (es.filterMap (observe r)))
    (clean : ∀ e ∈ es, FailsCleanly r e) : StepFollows driver r c f label d es := by
  obtain ⟨g, ops, tracks, kept, path⟩ := follows
  exact ⟨⟨g, ops, tracks, fun op member dropped => absurd dropped (kept op member), path⟩, clean⟩

/-- A step that touches neither the lane nor the calls at its ends. -/
theorem aside_follows {driver : Driver} {c d : Link} (tracks : Tracks driver.regs (c.side r) f)
    (same : d.side r = c.side r) (unseen : es.filterMap (observe r) = [])
    (clean : ∀ e ∈ es, FailsCleanly r e) : StepFollows driver r c f label d es := by
  apply Follows.step _ clean
  rw [same, unseen]
  exact follows_still tracks rfl

theorem startSend_follows {driver : Driver} {c d : Link} (tracks : Tracks driver.regs (c.side r) f)
    (stepped : c.step driver (.startSend q command) = some (d, es)) :
    StepFollows driver r c f (.startSend q command) d es := by
  cases idle : c.sender q with
  | some call => simp [Link.step, idle] at stepped
  | none =>
    simp only [Link.step, idle, Option.some.injEq, Prod.mk.injEq] at stepped
    obtain ⟨rfl, rfl⟩ := stepped
    rcases Role.eq_or_peer r q with rfl | rfl
    · have before : c.side q = ⟨lane c.switch q, none, c.receiver q.peer⟩ := by
        simp [Link.side, idle]
      apply Follows.step
      · rw [before] at tracks ⊢
        obtain ⟨busy, sender, receiver⟩ := tracks
        simp only [Link.side, Function.update_self, observe, if_true, List.filterMap_cons,
          List.filterMap_nil]
        exact follows_one (g := f) ⟨busy, ⟨sender, rfl⟩, receiver⟩
          (nofun : Mailbox.Op.begin command ≠ .drop) rfl
      · simp [FailsCleanly]
    · apply aside_follows tracks
      · simp [Link.side]
      · simp [observe]
      · simp [FailsCleanly]

theorem send_step_follows {driver : Driver} {c d : Link} (tracks : Tracks driver.regs (c.side r) f)
    (stepped : c.step driver (.send q linkUp) = some (d, es)) :
    StepFollows driver r c f (.send q linkUp) d es := by
  simp only [Link.step, Option.bind_eq_some_iff, Link.stepSend, Option.map_eq_some_iff,
    driver_sendCmd, Prod.exists] at stepped
  obtain ⟨call, calling, w, out, sent, moved⟩ := stepped
  obtain ⟨own, other, rfl⟩ := sendCmd_lane sent
  rcases Role.eq_or_peer r q with rfl | rfl
  · have before : c.side q = ⟨lane c.switch q, some call, c.receiver q.peer⟩ := by
      simp [Link.side, calling]
    rw [before] at tracks
    have follows := send_follows call tracks linkUp
    rw [← own] at follows
    cases returned : call.next (lane c.switch q).refused linkUp with
    | inl next =>
      simp only [returned, Prod.mk.injEq] at moved follows
      obtain ⟨rfl, rfl⟩ := moved
      apply Follows.step
      · rw [before]
        simp only [Link.side, Function.update_self]
        exact follows
      · simp
    | inr result =>
      simp only [returned, Prod.mk.injEq] at moved follows
      obtain ⟨rfl, rfl⟩ := moved
      obtain ⟨follows, failing⟩ := follows
      apply Follows.step
      · rw [before]
        simpa only [Link.side, Function.update_self, List.filterMap_cons,
          List.filterMap_nil, observe, if_true] using follows
      · intro e member
        rw [List.mem_singleton.mp member]
        exact fun _ failed => failing failed
  · rw [Role.peer_peer] at other
    cases returned : call.next (lane c.switch r.peer).refused linkUp with
    | inl next =>
      simp only [returned, Prod.mk.injEq] at moved
      obtain ⟨rfl, rfl⟩ := moved
      apply aside_follows tracks
      · simp [Link.side, other]
      · rfl
      · simp
    | inr result =>
      simp only [returned, Prod.mk.injEq] at moved
      obtain ⟨rfl, rfl⟩ := moved
      apply aside_follows tracks
      · simp [Link.side, other]
      · simp [observe]
      · simp [FailsCleanly]

theorem startRecv_follows {driver : Driver} {c d : Link} (tracks : Tracks driver.regs (c.side r) f)
    (stepped : c.step driver (.startRecv q) = some (d, es)) :
    StepFollows driver r c f (.startRecv q) d es := by
  cases idle : c.receiver q with
  | some call => simp [Link.step, idle] at stepped
  | none =>
    simp only [Link.step, idle, Option.some.injEq, Prod.mk.injEq] at stepped
    obtain ⟨rfl, rfl⟩ := stepped
    rcases Role.eq_or_peer r q with rfl | rfl
    · apply aside_follows tracks
      · simp [Link.side]
      · rfl
      · simp
    · apply Follows.step
      · obtain ⟨busy, sender, receiver⟩ := tracks
        simp only [Link.side, Function.update_self]
        exact follows_still (g := f) ⟨busy, sender, trivial⟩ rfl
      · simp

theorem recv_step_follows {driver : Driver} {c d : Link} (tracks : Tracks driver.regs (c.side r) f)
    (stepped : c.step driver (.recv q) = some (d, es)) :
    StepFollows driver r c f (.recv q) d es := by
  simp only [Link.step, Option.bind_eq_some_iff, Link.stepRecv, Option.map_eq_some_iff,
    driver_recvCmd, Prod.exists] at stepped
  obtain ⟨call, calling, w, out, read, moved⟩ := stepped
  rcases Role.eq_or_peer r q with rfl | rfl
  · rw [← Role.peer_peer q] at read
    obtain ⟨-, other, rfl⟩ := recvCmd_lane read
    rw [Role.peer_peer] at other
    cases returned : call.next driver.regs (lane c.switch q.peer) with
    | inl next =>
      simp only [returned, Prod.mk.injEq] at moved
      obtain ⟨rfl, rfl⟩ := moved
      apply aside_follows tracks
      · simp [Link.side, other]
      · rfl
      · simp
    | inr result =>
      cases result <;> simp only [returned, Prod.mk.injEq] at moved
      all_goals
        obtain ⟨rfl, rfl⟩ := moved
        apply aside_follows tracks
        · simp [Link.side, other]
        · simp [observe]
        · simp [FailsCleanly]
  · obtain ⟨own, -, rfl⟩ := recvCmd_lane read
    have before : c.side r = ⟨lane c.switch r, c.sender r, some call⟩ := by
      simp [Link.side, calling]
    rw [before] at tracks
    have follows := recv_follows call tracks
    rw [← own] at follows
    cases returned : call.next driver.regs (lane c.switch r) with
    | inl next =>
      simp only [returned, Prod.mk.injEq] at moved follows
      obtain ⟨rfl, rfl⟩ := moved
      apply Follows.step
      · rw [before]
        simp only [Link.side, Function.update_self]
        exact follows
      · simp
    | inr result =>
      cases result <;> simp only [returned, Prod.mk.injEq] at moved follows
      all_goals
        obtain ⟨rfl, rfl⟩ := moved
        apply Follows.step
        · rw [before]
          simp only [Link.side, Function.update_self, List.filterMap_cons,
            List.filterMap_nil, observe, if_true]
          exact follows
        · simp [FailsCleanly]

theorem settled_of_clean (regs : CommandRegs) (f : Fill)
    (clean : (∀ i, i = regs.cmd ∨ i = regs.low ∨ i = regs.high → f.busy regs i = false) ∨
      ∀ i, i = regs.cmd ∨ i = regs.low ∨ i = regs.high → f.busy regs i = true) : f.Settled := by
  cases f with
  | empty => exact Or.inl rfl
  | full => exact Or.inr rfl
  | low | lowHigh =>
    rcases clean with clear | set
    · have low := clear regs.low (Or.inr (Or.inl rfl))
      simp [Fill.busy] at low
    · have cmd := set regs.cmd (Or.inl rfl)
      simp [Fill.busy, regs.cmd_ne_low, regs.cmd_ne_high] at cmd

theorem enable_follows {driver : Driver} {c d : Link} (tracks : Tracks driver.regs (c.side r) f)
    (clean : CleanEnable driver.regs c (.enable r.peer))
    (stepped : c.step driver (.enable r.peer) = some (d, es)) :
    StepFollows driver r c f (.enable r.peer) d es := by
  simp only [Link.step, Option.map_eq_some_iff, Prod.mk.injEq] at stepped
  obtain ⟨w, written, rfl, rfl⟩ := stepped
  obtain ⟨-, own⟩ := clearBoth_lane written
  rw [Role.peer_peer] at own
  obtain ⟨bits, reading⟩ := clean
  obtain ⟨busy, sender, receiver⟩ := tracks
  have settled : f.Settled := by
    apply settled_of_clean driver.regs f
    rw [← busy]
    exact bits
  have early : ReceiverAt driver.regs (lane w r) .empty (c.receiver r.peer) := by
    rcases reading with idle | status
    · rw [idle]
      trivial
    · rw [status]
      trivial
  refine ⟨⟨.empty, [.drop], ⟨?_, ?_, early⟩, fun _ _ _ => ⟨r.peer, rfl⟩, ?_⟩, by simp⟩
  · simp only [Link.side, own]
    rfl
  · simp only [Link.side, own]
    exact sender_cleared sender settled
  · simp [run, Mailbox.step, Side.box, Link.side]

/-- The refinement step, for every label of the link. -/
theorem step_follows {driver : Driver} {c d : Link} (tracks : Tracks driver.regs (c.side r) f)
    (receiver : ∀ q, label = .enable q → q = r.peer) (clean : CleanEnable driver.regs c label)
    (stepped : c.step driver label = some (d, es)) : StepFollows driver r c f label d es := by
  cases label with
  | startSend q command => exact startSend_follows tracks stepped
  | send q linkUp => exact send_step_follows tracks stepped
  | startRecv q => exact startRecv_follows tracks stepped
  | recv q => exact recv_step_follows tracks stepped
  | enable q =>
    obtain rfl := receiver q rfl
    exact enable_follows tracks clean stepped

end IdtNtb.Channel
