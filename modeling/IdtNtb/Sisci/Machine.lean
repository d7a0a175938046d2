import IdtNtb.Lib.Parties
import IdtNtb.Sisci.Driver

/-! Two VMs with the SISCI driver. The mutex of a VM admits one task at a time,
an ioctl or `service_work`; a task is interrupted only where it sends a command,
since only the sends, and the other VM, act on what both can see. A command is
accepted into empty message registers and received in order, exactly once. -/
namespace IdtNtb.Sisci
open Kernel Parties

/-- The command of `publish_available_locked` that is to be sent next. -/
inductive Stage where
  | segid
  | size
  | xlat
  | avail
  deriving DecidableEq

/-- What holds the mutex: the receive loop of `service_work`, a publication (of
the worker or of SET_AVAILABLE), the UNAVAIL of SET_UNAVAILABLE or
REMOVE_SEGMENT, or the end of REMOVE_SEGMENT. -/
inductive Task where
  | idle
  | recv
  | publish (stage : Stage)
  | unavail (id : BitVec 32) (remove : Bool)
  | freeing
  deriving DecidableEq

structure Vm where
  dev : SisciDev
  link : Bool
  task : Task
  inbox : Option Command
  /-- The segment the peer was last told is available, until a SEGID or its
  UNAVAIL is accepted. Nothing in the driver depends on it. -/
  exposed : Option Segment

/-- What a VM does that the results speak of: it makes a segment available, a
command of its is accepted by the peer's registers, it frees a segment. -/
inductive Note where
  | offered (segment : Segment)
  | accepted (command : Command) (segment : Option Segment)
  | freed (segment : Segment)
  deriving DecidableEq

inductive Action where
  | createSegment (ntb : Ntb) (bufferSize : Nat) (id : BitVec 32) (size : Nat)
  | setAvailable (id : BitVec 32)
  | setUnavailable (id : BitVec 32)
  | removeSegment (id : BitVec 32)
  | service
  | recv (ntb : Ntb)
  | send
  | fail
  | free
  | linkChange (up : Bool)

def Stage.command (segment : Segment) : Stage → Command
  | .segid => .segid segment.id
  | .size => .size segment.size
  | .xlat => .xlat segment.dma
  | .avail => .avail segment.id

def Stage.next : Stage → Task
  | .segid => .publish .size
  | .size => .publish .xlat
  | .xlat => .publish .avail
  | .avail => .idle

/-- `publish_available_locked` up to its first send. -/
def Vm.publishAvailableLocked (vm : Vm) : Vm :=
  { vm with task := if vm.dev.shouldPublish then .publish .segid else .idle }

/-- `publish_unavailable_locked` up to its send. -/
def Vm.publishUnavailableLocked (vm : Vm) (id : BitVec 32) (remove : Bool) : Vm :=
  { vm with
    dev := vm.dev.withdraw
    task := if vm.dev.shouldWithdraw then .unavail id remove
      else if remove then .freeing else .idle }

def Vm.service (vm : Vm) : Vm :=
  if vm.link then { vm with dev := vm.dev.setLink true, task := .recv }
  else { vm with dev := (vm.dev.setLink false).markPeerUnreadyLocked }

/-- One round of the receive loop, or its end. -/
def Vm.recv (vm : Vm) (ntb : Ntb) : Vm :=
  match vm.inbox with
  | some command => { vm with dev := vm.dev.handle ntb command, inbox := none }
  | none => vm.publishAvailableLocked

/-- What `exposed` becomes when the peer's registers accept a command. -/
def Vm.tell (vm : Vm) : Command → Option Segment
  | .avail _ => vm.dev.segment
  | .segid _ => none
  | .unavail id => vm.exposed.filter (·.id ≠ id)
  | _ => vm.exposed

def Vm.send (own peer : Vm) : Option (Vm × Vm × List Note) :=
  if own.link && peer.inbox.isNone then
    match own.task, own.dev.segment with
    | .publish stage, some segment =>
        let command := stage.command segment
        let dev := { own.dev with localPublished := own.dev.localPublished || stage = .avail }
        some ({ own with dev, task := stage.next, exposed := own.tell command },
          { peer with inbox := some command }, [.accepted command own.dev.segment])
    | .unavail id remove, segment =>
        some
          ({ own with
              task := if remove then .freeing else .idle, exposed := own.tell (.unavail id) },
            { peer with inbox := some (.unavail id) }, [.accepted (.unavail id) segment])
    | _, _ => none
  else none

def Vm.act (own peer : Vm) : Action → Option (Vm × Vm × List Note)
  | .createSegment ntb bufferSize id size =>
      if own.task = .idle then
        let (freed, dev, _) := own.dev.allocLocalSegmentLocked ntb bufferSize id size
        some ({ own with dev }, peer, freed.toList.map .freed)
      else none
  | .setAvailable id =>
      if own.task = .idle then
        match own.dev.named id with
        | none => some (own, peer, [])
        | some segment =>
            let dev := { own.dev with localAvailable := true, localPublished := false }
            some ({ own with dev }.publishAvailableLocked, peer, [.offered segment])
      else none
  | .setUnavailable id =>
      if own.task = .idle then
        match own.dev.named id with
        | none => some (own, peer, [])
        | some _ => some (own.publishUnavailableLocked id false, peer, [])
      else none
  | .removeSegment id =>
      if own.task = .idle then
        match own.dev.named id with
        | none => some (own, peer, [])
        | some _ => some (own.publishUnavailableLocked id true, peer, [])
      else none
  | .service => if own.task = .idle ∧ !own.dev.removed then some (own.service, peer, []) else none
  | .recv ntb => if own.task = .recv then some (own.recv ntb, peer, []) else none
  | .send => own.send peer
  | .fail =>
      match own.task with
      | .publish _ | .unavail _ _ => some ({ own with task := .idle }, peer, [])
      | _ => none
  | .free =>
      if own.task = .freeing then
        some ({ own with dev := own.dev.freeLocalSegmentLocked, task := .idle }, peer,
          own.dev.segment.toList.map .freed)
      else none
  | .linkChange up => some ({ own with link := up }, peer, [])

/-- Everything an action can do, with what it found. -/
inductive Moves (own peer : Vm) : Action → Vm → Vm → List Note → Prop where
  | refused (action : Action) (idle : own.task = .idle) : Moves own peer action own peer []
  | created {id : BitVec 32} (idle : own.task = .idle)
      (unavailable : own.dev.segment.isSome → own.dev.localAvailable = false)
      (segment : Option Segment) (inbound : Option (Nat × Nat)) :
      Moves own peer (.createSegment ntb bufferSize id size)
        { own with
          dev := { own.dev with
            segment, inbound, localAvailable := false, localPublished := false } }
        peer (own.dev.segment.toList.map .freed)
  | offered {id : BitVec 32} {segment : Segment} (idle : own.task = .idle)
      (found : own.dev.segment = some segment) :
      Moves own peer (.setAvailable id)
        { own with
          dev := { own.dev with
            localAvailable := true, localPublished := false } }.publishAvailableLocked
        peer [.offered segment]
  | withdrawn {segment : Segment} (action : Action) (idle : own.task = .idle)
      (found : own.dev.segment = some segment) (remove : Bool) :
      Moves own peer action (own.publishUnavailableLocked segment.id remove) peer []
  | served (idle : own.task = .idle) : Moves own peer .service own.service peer []
  | received (ntb : Ntb) (receiving : own.task = .recv) :
      Moves own peer (.recv ntb) (own.recv ntb) peer []
  | published {segment : Segment} (empty : peer.inbox = none) (running : own.task = .publish stage)
      (found : own.dev.segment = some segment) :
      Moves own peer .send
        { own with
          dev := { own.dev with localPublished := own.dev.localPublished || stage = .avail }
          task := stage.next
          exposed := own.tell (stage.command segment) }
        { peer with inbox := some (stage.command segment) }
        [.accepted (stage.command segment) own.dev.segment]
  | revoked {id : BitVec 32} (empty : peer.inbox = none) (running : own.task = .unavail id remove) :
      Moves own peer .send
        { own with
          task := if remove then .freeing else .idle
          exposed := own.tell (.unavail id) }
        { peer with inbox := some (.unavail id) } [.accepted (.unavail id) own.dev.segment]
  | failed (sending : (∃ stage, own.task = .publish stage) ∨
        ∃ id remove, own.task = .unavail id remove) :
      Moves own peer .fail { own with task := .idle } peer []
  | freed (freeing : own.task = .freeing) :
      Moves own peer .free
        { own with dev := own.dev.freeLocalSegmentLocked, task := .idle } peer
        (own.dev.segment.toList.map .freed)
  | linked (up : Bool) : Moves own peer (.linkChange up) { own with link := up } peer []

variable {own peer own' peer' : Vm} {notes : List Note}

theorem create_moves {id : BitVec 32}
    (stepped : own.act peer (.createSegment ntb bufferSize id size) = some (own', peer', notes)) :
    Moves own peer (.createSegment ntb bufferSize id size) own' peer' notes := by
  simp only [Vm.act] at stepped
  split_ifs at stepped with idle
  rcases own.dev.allocLocalSegmentLocked_cases ntb bufferSize id size with
    ⟨result, same⟩ | ⟨unavailable, segment, inbound, result, replaced⟩
  · rw [same] at stepped
    cases stepped
    exact .refused _ idle
  · rw [replaced] at stepped
    cases stepped
    exact .created idle unavailable segment inbound

theorem withdraw_moves {id : BitVec 32} {remove : Bool} (action : Action)
    (stepped : (if own.task = .idle then
      match own.dev.named id with
      | none => some (own, peer, [])
      | some _ => some (own.publishUnavailableLocked id remove, peer, [])
      else none) = some (own', peer', notes)) : Moves own peer action own' peer' notes := by
  split_ifs at stepped with idle
  split at stepped
  · cases stepped
    exact .refused _ idle
  case h_2 segment found =>
    obtain ⟨current, rfl⟩ := SisciDev.named_eq_some found
    cases stepped
    exact .withdrawn _ idle current remove

theorem send_moves (sent : own.send peer = some (own', peer', notes)) :
    Moves own peer .send own' peer' notes := by
  simp only [Vm.send] at sent
  split_ifs at sent with free
  have empty : peer.inbox = none := by
    simp only [Bool.and_eq_true, Option.isNone_iff_eq_none] at free
    exact free.2
  split at sent
  case h_1 stage segment running found =>
    cases sent
    exact .published empty running found
  case h_2 _ id remove running =>
    cases sent
    exact .revoked empty running
  case h_3 => cases sent

theorem act_moves (stepped : own.act peer action = some (own', peer', notes)) :
    Moves own peer action own' peer' notes := by
  cases action with
  | createSegment ntb bufferSize id size => exact create_moves stepped
  | setAvailable id =>
    simp only [Vm.act] at stepped
    split_ifs at stepped with idle
    split at stepped
    · cases stepped
      exact .refused _ idle
    case h_2 segment found =>
      cases stepped
      exact .offered idle (SisciDev.named_eq_some found).1
  | setUnavailable id => exact withdraw_moves _ stepped
  | removeSegment id => exact withdraw_moves _ stepped
  | service =>
    simp only [Vm.act] at stepped
    split_ifs at stepped with ready
    cases stepped
    exact .served ready.1
  | recv ntb =>
    simp only [Vm.act] at stepped
    split_ifs at stepped with receiving
    cases stepped
    exact .received ntb receiving
  | send => exact send_moves stepped
  | fail =>
    simp only [Vm.act] at stepped
    split at stepped
    case h_1 stage running =>
      cases stepped
      exact .failed (Or.inl ⟨stage, running⟩)
    case h_2 id remove running =>
      cases stepped
      exact .failed (Or.inr ⟨id, remove, running⟩)
    case h_3 => cases stepped
  | free =>
    simp only [Vm.act] at stepped
    split_ifs at stepped with freeing
    cases stepped
    exact .freed freeing
  | linkChange up =>
    cases stepped
    exact .linked up

/-- Two VMs, each with a segment of its own and a view of the other's. -/
abbrev System := Pair Vm

def System.step : System → Party × Action → Option (System × List (Party × Note)) :=
  Parties.step Vm.act

def Vm.loaded : Vm where
  dev := .probed
  link := false
  task := .idle
  inbox := none
  exposed := none

def System.start : System := ⟨.loaded, .loaded⟩

def linkUp : List (Party × Action) :=
  [(.first, .linkChange true), (.second, .linkChange true), (.first, .service),
    (.first, .recv (.paged 0)), (.second, .service)]

/-- The first VM sends its next command and the second takes it. -/
def deliver : List (Party × Action) := [(.first, .send), (.second, .recv (.paged 0))]

end IdtNtb.Sisci
