import IdtNtb.Channel.Delivery

/-! What the command channel guarantees over whole runs, both directions in
use. Without a module load, commands arrive exactly once and in order. A load
clears the status bits at any point, and then commands stay whole only if the
clear never meets a half-written or half-read register set. -/
namespace IdtNtb.Channel
open Device Transition

/-- The mailbox that the lane from `r` stands for. -/
def Related (driver : Driver) (r : Role) (c : Link) (b : Mailbox.Box Command) : Prop :=
  ∃ f, Tracks driver.regs (c.side r) f ∧ b = (c.side r).box driver.regs f

/-- A step the receiver of the lane from `r` may take part in: no load but its
own, and that one clean. -/
def Admits (driver : Driver) (r : Role) (c : Link) (label : Label) : Prop :=
  CleanEnable driver.regs c label ∧ ∀ q, label = .enable q → q = r.peer

theorem link_simulates (driver : Driver) (r : Role) :
    Simulates (Link.step driver) (Admits driver r) Mailbox.step (fun _ => True) (observe r)
      (Related driver r) := by
  rintro c b label d es ⟨f, tracks, rfl⟩ ⟨clean, receiver⟩ stepped
  obtain ⟨⟨g, ops, next, -, path⟩, -⟩ := step_follows tracks receiver clean stepped
  exact ⟨ops, _, fun _ _ => trivial, path, g, next, rfl⟩

theorem link_simulates_without_load (driver : Driver) (r : Role) :
    Simulates (Link.step driver) (fun _ label => ∀ q, label ≠ .enable q) Mailbox.step (· ≠ .drop)
      (observe r) (Related driver r) := by
  rintro c b label d es ⟨f, tracks, rfl⟩ running stepped
  have clean : CleanEnable driver.regs c label := by
    cases label with
    | enable q => exact absurd rfl (running q)
    | _ => trivial
  obtain ⟨⟨g, ops, next, loads, path⟩, -⟩ :=
    step_follows tracks (fun q load => absurd load (running q)) clean stepped
  refine ⟨ops, _, ?_, path, g, next, rfl⟩
  intro op member dropped
  obtain ⟨q, load⟩ := loads op member dropped
  exact running q load

theorem start_tracks (driver : Driver) (clear : ∀ i, inBusy w.shm r.peer i = false) :
    Tracks driver.regs ((Link.start w).side r) .empty :=
  ⟨funext clear, Or.inl rfl, trivial⟩

theorem start_related (driver : Driver) (clear : ∀ i, inBusy w.shm r.peer i = false) :
    Related driver r (.start w) Mailbox.empty :=
  ⟨.empty, start_tracks driver clear, rfl⟩

def begunBy (r : Role) : List Event → List Command := List.filterMap fun
  | .began p command => if p = r then some command else none
  | _ => none

def receivedBy (q : Role) : List Event → List Command := List.filterMap fun
  | .received p command => if p = q then some command else none
  | _ => none

def completedBy (r : Role) : List Event → List Command := List.filterMap fun
  | .returned p command result _ => if p = r ∧ result = .ok then some command else none
  | _ => none

/-- The command that the registers of `q` hold, once all three are set. -/
def pending (driver : Driver) (c : Link) (q : Role) : Option Command :=
  let regs := driver.regs
  if inBusy c.switch.shm q regs.cmd && inBusy c.switch.shm q regs.low &&
      inBusy c.switch.shm q regs.high then
    some ⟨ntbMsgRead c.switch q regs.cmd,
      join (ntbMsgRead c.switch q regs.high) (ntbMsgRead c.switch q regs.low)⟩
  else none

/-- The command of a call on `r` that has written all three registers but not
yet returned. -/
def inProgress (c : Link) (r : Role) : Option Command :=
  (c.sender r).bind fun call => if call.pc = .pollCmd then some call.command else none

/-- The three histories of the mailbox are those of the lane's two ends. -/
theorem observed (r : Role) (es : List Event) :
    Mailbox.begun (es.filterMap (observe r)) = begunBy r es ∧
      Mailbox.sent (es.filterMap (observe r)) = completedBy r es ∧
      Mailbox.received (es.filterMap (observe r)) = receivedBy r.peer es := by
  simp only [Mailbox.begun, Mailbox.sent, Mailbox.received, begunBy, completedBy, receivedBy,
    List.filterMap_filterMap]
  refine ⟨?_, ?_, ?_⟩
  all_goals
    apply List.filterMap_congr
    intro e _
    cases e with
    | began q command => by_cases own : q = r <;> simp [observe, own]
    | returned q command result changed =>
      by_cases own : q = r <;> by_cases done : result = .ok <;> simp [observe, outcome, own, done]
    | received q command => by_cases own : q = r.peer <;> simp [observe, own]
    | noData q => rfl

/-- A history that picks the events of one shape holds what those events carry. -/
theorem mem_picked {es : List Event} {pick : Event → Option Command} (shape : Command → Event)
    (picks : ∀ e, pick e = some command ↔ e = shape command) :
    command ∈ es.filterMap pick ↔ shape command ∈ es := by
  simp [List.mem_filterMap, picks]

theorem mem_begunBy : command ∈ begunBy r es ↔ .began r command ∈ es := by
  refine mem_picked (.began r) fun e => ?_
  cases e <;> simp

theorem mem_receivedBy : command ∈ receivedBy q es ↔ .received q command ∈ es := by
  refine mem_picked (.received q) fun e => ?_
  cases e <;> simp

theorem box_slot (tracks : Tracks driver.regs (c.side r) f) :
    ((c.side r).box driver.regs f).slot = pending driver c r.peer := by
  have busy : inBusy c.switch.shm r.peer = f.busy driver.regs := tracks.busy
  have read := msgRead_lane c.switch r.peer
  rw [Role.peer_peer] at read
  simp only [Side.box, pending, busy, read]
  have high := driver.regs.low_ne_high.symm
  have cmd := driver.regs.cmd_ne_low
  have last := driver.regs.cmd_ne_high
  cases f <;> simp [Fill.busy, high, cmd, last, Lane.command, Link.side, Lane.read]

theorem box_posted (c : Link) (r : Role) (regs : CommandRegs) (f : Fill) :
    ((c.side r).box regs f).posted = (inProgress c r).toList := by
  cases calling : c.sender r with
  | none => simp [Mailbox.Box.posted, Side.box, Link.side, inProgress, calling]
  | some call =>
    by_cases posted : call.pc = .pollCmd <;>
      simp [Mailbox.Box.posted, Side.box, Link.side, inProgress, calling, posted]

theorem failures_clean {driver : Driver} (clear : ∀ i, inBusy w.shm r.peer i = false)
    (running : ∀ label ∈ labels, ∀ q, label ≠ .enable q)
    (path : run (Link.step driver) (.start w) labels = some (c, es)) :
    ∀ e ∈ es, FailsCleanly r e := by
  have meets : Along (Link.step driver) (fun _ label => ∀ q, label ≠ .enable q) (.start w) labels :=
    along_labels running _
  have held := run_invariant
    (P := fun es c => (∃ f, Tracks driver.regs (Link.side c r) f) ∧ ∀ e ∈ es, FailsCleanly r e)
    ?_ ⟨⟨.empty, start_tracks driver clear⟩, by simp⟩ meets path
  · exact held.2
  · rintro before c label d es ⟨⟨f, tracks⟩, clean⟩ running stepped
    have loads : CleanEnable driver.regs c label := by
      cases label with
      | enable q => exact absurd rfl (running q)
      | _ => trivial
    obtain ⟨⟨g, ops, next, -, -⟩, now⟩ :=
      step_follows tracks (fun q load => absurd load (running q)) loads stepped
    refine ⟨⟨g, next⟩, ?_⟩
    intro e member
    rcases List.mem_append.mp member with earlier | latest
    · exact clean e earlier
    · exact now e latest

/-- Exactly once and in order: what `recv_cmd` has returned on the peer of `r`,
followed by the command pending in the registers, is what `send_cmd` has
completed on `r`, followed by the command of a call that has written CMD but not
returned. A call that fails has changed nothing on the receiver's side. -/
theorem commands_exactly_once (driver : Driver) (r : Role) (w : Switch) (labels : List Label)
    (clear : ∀ i, inBusy w.shm r.peer i = false)
    (running : ∀ label ∈ labels, ∀ q, label ≠ .enable q)
    (path : run (Link.step driver) (.start w) labels = some (c, es)) :
    receivedBy r.peer es ++ (pending driver c r.peer).toList =
        completedBy r es ++ (inProgress c r).toList ∧
      ∀ e ∈ es, FailsCleanly r e := by
  refine ⟨?_, failures_clean clear running path⟩
  obtain ⟨ops, b, kept, follows, f, tracks, rfl⟩ :=
    (link_simulates_without_load driver r).run (start_related driver clear)
      (along_labels running _) path
  have delivered := Mailbox.exactly_once kept follows
  obtain ⟨-, sent, received⟩ := observed r es
  rwa [Mailbox.Delivered, received, sent, box_slot tracks, box_posted] at delivered

def sendAll (r : Role) (command : Command) : List Label :=
  .startSend r command :: List.replicate 8 (.send r true)

def recvAll (r : Role) : List Label := .startRecv r :: List.replicate 5 (.recv r)

def sample : Command := ⟨0x49544153, 0x1122334455667788⟩
def later : Command := ⟨0x49544158, 0x99AABBCCDDEEFF00⟩

theorem commands_exactly_once_sample :
    ∃ c es, run (Link.step .app) (.start .realized) (sendAll .vm1 sample ++ recvAll .vm2) =
      some (c, es) ∧ receivedBy .vm2 es = [sample] ∧
      receivedBy .vm2 es ++ (pending .app c .vm2).toList =
        completedBy .vm1 es ++ (inProgress c .vm1).toList := by
  have ends : (run (Link.step .app) (.start .realized) (sendAll .vm1 sample ++ recvAll .vm2)).map
      (fun out => receivedBy .vm2 out.2) = some [sample] := by decide +kernel
  obtain ⟨⟨c, es⟩, path, got⟩ := Option.map_eq_some_iff.mp ends
  exact ⟨c, es, path, got,
    (commands_exactly_once .app .vm1 .realized _ (by decide) (by decide) path).1⟩

/-- Commands stay whole across loads of the receiver's module that are clean:
what `recv_cmd` returns was passed to one `send_cmd`. -/
theorem commands_whole (driver : Driver) (r : Role) (w : Switch) (labels : List Label)
    (clear : ∀ i, inBusy w.shm r.peer i = false)
    (receiver : ∀ label ∈ labels, ∀ q, label = .enable q → q = r.peer)
    (clean : Along (Link.step driver) (CleanEnable driver.regs) (.start w) labels)
    (path : run (Link.step driver) (.start w) labels = some (c, es)) (command : Command)
    (returned : .received r.peer command ∈ es) : .began r command ∈ es := by
  obtain ⟨ops, b, -, follows, -⟩ :=
    (link_simulates driver r).run (start_related driver clear) (along_and clean receiver) path
  obtain ⟨begun, -, received⟩ := observed r es
  have genuine := Mailbox.genuine follows command
  rw [begun, received, mem_begunBy, mem_receivedBy] at genuine
  exact genuine returned

/-- A load between two complete calls drops the first command whole. -/
theorem commands_whole_sample :
    ∃ c es, run (Link.step .sisci) (.start .realized)
        (sendAll .vm1 sample ++ [.enable .vm2] ++ sendAll .vm1 later ++ recvAll .vm2) =
          some (c, es) ∧
      .received .vm2 later ∈ es ∧ .began .vm1 later ∈ es := by
  have ends : (run (Link.step .sisci) (.start .realized)
      (sendAll .vm1 sample ++ [.enable .vm2] ++ sendAll .vm1 later ++ recvAll .vm2)).map
      (fun out => decide (Event.received .vm2 later ∈ out.2)) = some true := by decide +kernel
  obtain ⟨⟨c, es⟩, path, got⟩ := Option.map_eq_some_iff.mp ends
  have received := of_decide_eq_true got
  exact ⟨c, es, path, received, commands_whole .sisci .vm1 .realized _ (by decide)
    (by decide) (by decide +kernel) path later received⟩

/-- A load that clears LOW of the first call, whose HIGH and CMD then wait for
the LOW of the second. -/
def tornSchedule : List Label :=
  (sendAll .vm1 sample).take 4 ++ [.enable .vm2] ++ (sendAll .vm1 sample).drop 4 ++
    (sendAll .vm1 later).take 4 ++ recvAll .vm2

theorem command_torn_by_load :
    ∃ c es, run (Link.step .app) (.start .realized) tornSchedule = some (c, es) ∧
      ∃ command, .received .vm2 command ∈ es ∧ .began .vm1 command ∉ es := by
  have ends : (run (Link.step .app) (.start .realized) tornSchedule).map (fun out =>
      decide (Event.received .vm2 ⟨0x49544153, 0x11223344DDEEFF00⟩ ∈ out.2 ∧
        Event.began .vm1 ⟨0x49544153, 0x11223344DDEEFF00⟩ ∉ out.2)) = some true := by decide +kernel
  obtain ⟨⟨c, es⟩, path, torn⟩ := Option.map_eq_some_iff.mp ends
  exact ⟨c, es, path, _, of_decide_eq_true torn⟩

end IdtNtb.Channel
