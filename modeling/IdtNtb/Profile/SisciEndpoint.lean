import IdtNtb.Lib.Ledger
import IdtNtb.Profile.Options
import IdtNtb.Sisci.Handles
import IdtNtb.Sisci.Mappings

/-! A profiling process with the SISCI backend, from the allocation of its
endpoint to the end of `sisci_endpoint_close`. Every library call is one step,
with what it does to the driver; allocations, the `open`, the sends and the
transfer itself come out as the label says. Between two steps the driver serves
its messages and the calls of other processes. -/
namespace IdtNtb.Profile.SisciEndpoint
open Kernel IdtNtb.Ring IdtNtb.Sisci Ledger Transition

inductive Resource where
  | ctx
  | desc
  | fd
  | localSegment
  | remoteSegment
  | mapping
  | map
  | sequence
  | pattern
  deriving DecidableEq

/-- `struct ntb_sisci_local_segment` and `struct ntb_sisci_remote_segment`. -/
structure SegmentHandle where
  segmentId : BitVec 32
  size : Nat
  deriving DecidableEq

/-- `struct ntb_sisci_map`. `buffer` is the local buffer that the mapping leads to. -/
structure MapHandle where
  size : Nat
  buffer : Option Nat
  deriving DecidableEq

/-- `struct ntb_sisci_profile_endpoint`: a pointer is there as long as its object is. -/
structure Endpoint where
  sd : Bool
  localSegment : Option SegmentHandle
  remoteSegment : Option SegmentHandle
  map : Option MapHandle
  sequence : Bool
  isLocal : Bool
  available : Bool
  deriving DecidableEq

/-- A deed of the process, or what becomes of a segment: CREATE_SEGMENT succeeded
and its handle could not be allocated, SET_AVAILABLE or REMOVE_SEGMENT failed. -/
inductive Event where
  | deed (d : Deed Resource)
  | freed (f : Freed)
  | orphaned
  | refused
  | kept
  deriving DecidableEq

def Event.deeds : Event → List (Deed Resource)
  | .deed d => [d]
  | _ => []

inductive Turn where
  | stay
  | succeed
  | fail
  deriving DecidableEq

structure Choice where
  opened : Bool
  memory : Bool
  woken : Bool
  sent : Bool
  remap : Except Errno Unit
  ntb : Ntb
  bufferSize : Nat
  turn : Turn

/-- What a library call leaves, and whether it sets no error. -/
structure Outcome where
  endpoint : Endpoint
  host : Host
  events : List Event
  ok : Bool

def uses (rs : List Resource) : List Event := rs.map fun r => .deed (.use r)

/-! ## The ioctls on a local segment -/

inductive Request where
  | prepare
  | setAvailable
  | setUnavailable
  | remove
  deriving DecidableEq

inductive Answer where
  | success
  | noEntry
  | failed
  deriving DecidableEq

def Request.call (id : BitVec 32) (sent : Bool) : Request → HostCall
  | .prepare => .prepareSegment id
  | .setAvailable => .setAvailable id sent
  | .setUnavailable => .setUnavailable id sent
  | .remove => .removeSegment id sent

def Request.answer (dev : SisciDev) (id : BitVec 32) (sent : Bool) (request : Request) : Answer :=
  if dev.removed then .failed
  else match dev.named id with
    | none => .noEntry
    | some _ => match request with
        | .prepare => .success
        | .setAvailable =>
            if { dev with localAvailable := true, localPublished := false }.shouldPublish && !sent
            then .failed
            else .success
        | .setUnavailable | .remove =>
            if (dev.publishUnavailableLocked sent).2 then .success else .failed

/-- The driver behind a call that is always possible. -/
def afterCall (host : Host) (call : HostCall) : Host × List Freed :=
  (host.step call).getD (host, [])

/-- The ioctl itself, through the descriptor of the handle. -/
def ioctlSegment (request : Request) (c : Choice) (h : SegmentHandle) (host : Host) :
    Host × List Event × Answer :=
  let (after, freed) := afterCall host (request.call h.segmentId c.sent)
  (after, uses [.localSegment, .desc, .fd] ++ freed.map .freed,
    request.answer host.dev h.segmentId c.sent)

/-! ## The library -/

def sciOpen (c : Choice) (e : Endpoint) (host : Host) : Outcome :=
  if c.opened = false then ⟨{ e with sd := false }, host, [], false⟩
  else if c.memory = false then
    ⟨{ e with sd := false }, host, [.deed (.acquire .fd), .deed (.release .fd)], false⟩
  else ⟨{ e with sd := true }, host, [.deed (.acquire .fd), .deed (.acquire .desc)], true⟩

/-- `SCICreateSegment`. The driver has written its size into the request. -/
def sciCreateSegment (id : BitVec 32) (size : Nat) (c : Choice) (e : Endpoint)
    (host : Host) : Outcome :=
  if e.sd = false ∨ size = 0 then ⟨e, host, [], false⟩
  else
    let (after, freed) := host.create c.ntb c.bufferSize id size
    let events := uses [.desc, .fd] ++ freed.map .freed
    match (host.dev.allocLocalSegmentLocked c.ntb c.bufferSize id size).2.2 with
    | .error _ => ⟨{ e with localSegment := none }, after, events, false⟩
    | .ok () =>
        if c.memory = false then
          ⟨{ e with localSegment := none }, after, events ++ [.orphaned], false⟩
        else
          let granted := (after.dev.segment.map Segment.size).getD 0
          ⟨{ e with localSegment := some ⟨id, granted⟩ }, after,
            events ++ [.deed (.acquire .localSegment)], true⟩

/-- `SCIPrepareSegment`, `SCISetSegmentAvailable` and `SCISetSegmentUnavailable`. -/
def sciSegment (request : Request) (c : Choice) (e : Endpoint) (host : Host) : Outcome :=
  match e.localSegment with
  | none => ⟨e, host, [], false⟩
  | some h =>
      if e.sd = false then ⟨e, host, [], false⟩
      else
        let (after, events, answer) := ioctlSegment request c h host
        ⟨e, after, events, answer = .success⟩

/-- `SCIRemoveSegment`: a segment that is not there counts as removed, and the
handle is freed in any case. -/
def sciRemoveSegment (c : Choice) (e : Endpoint) (host : Host) : Outcome :=
  match e.localSegment with
  | none => ⟨e, host, [], false⟩
  | some h =>
      if e.sd = false then
        ⟨{ e with localSegment := none }, host, [.deed (.release .localSegment)], true⟩
      else
        let (after, events, answer) := ioctlSegment .remove c h host
        if answer = .failed then
          ⟨{ e with localSegment := none }, after,
            events ++ [.kept, .deed (.release .localSegment)], false⟩
        else
          ⟨{ e with localSegment := none }, after,
            events ++ [.deed (.release .localSegment)], true⟩

/-- `SCIConnectSegment`, once its wait is over. -/
def sciConnectSegment (id : BitVec 32) (c : Choice) (e : Endpoint) (host : Host) : Outcome :=
  if e.sd = false then ⟨e, host, [], false⟩
  else if c.woken = false then ⟨{ e with remoteSegment := none }, host, uses [.desc, .fd], false⟩
  else match host.dev.connectSegment id with
    | .error _ => ⟨{ e with remoteSegment := none }, host, uses [.desc, .fd], false⟩
    | .ok size =>
        if c.memory = false then ⟨{ e with remoteSegment := none }, host, uses [.desc, .fd], false⟩
        else
          ⟨{ e with remoteSegment := some ⟨id, size⟩ }, host,
            uses [.desc, .fd] ++ [.deed (.acquire .remoteSegment)], true⟩

def sciDisconnectSegment (e : Endpoint) (host : Host) : Outcome :=
  match e.remoteSegment with
  | none => ⟨e, host, [], false⟩
  | some _ => ⟨{ e with remoteSegment := none }, host, [.deed (.release .remoteSegment)], true⟩

/-- A mapping of a local buffer is one more that leads there. -/
def addMapping (host : Host) (buffer : Option Nat) : Host :=
  { host with mappings := host.mappings ++ buffer.toList }

def dropMapping (host : Host) (buffer : Option Nat) : Host :=
  match buffer with
  | none => host
  | some b => { host with mappings := host.mappings.erase b }

/-- `sci_map_segment` of a whole segment. Without memory for the handle the pages
are unmapped at once. -/
def sciMapSegment (h : Handle) (buffer : Option Nat) (c : Choice) (e : Endpoint)
    (host : Host) : Outcome :=
  if e.sd = false then ⟨e, host, [], false⟩
  else match h.map host.dev 0 0 c.remap with
    | .error _ => ⟨{ e with map := none }, host, uses [.desc, .fd], false⟩
    | .ok _ =>
        if c.memory = false then
          ⟨{ e with map := none }, dropMapping (addMapping host buffer) buffer,
            uses [.desc, .fd] ++ [.deed (.acquire .mapping), .deed (.release .mapping)], false⟩
        else
          ⟨{ e with map := some ⟨h.size, buffer⟩ }, addMapping host buffer,
            uses [.desc, .fd] ++ [.deed (.acquire .mapping), .deed (.acquire .map)], true⟩

def sciMapLocalSegment (c : Choice) (e : Endpoint) (host : Host) : Outcome :=
  match e.localSegment with
  | none => ⟨e, host, [], false⟩
  | some h => sciMapSegment (.localSegment h.segmentId h.size) (some host.buffer) c e host

def sciMapRemoteSegment (c : Choice) (e : Endpoint) (host : Host) : Outcome :=
  match e.remoteSegment with
  | none => ⟨e, host, [], false⟩
  | some h => sciMapSegment (.remoteSegment h.segmentId h.size) none c e host

def sciUnmapSegment (e : Endpoint) (host : Host) : Outcome :=
  match e.map with
  | none => ⟨e, host, [], false⟩
  | some m => ⟨{ e with map := none }, dropMapping host m.buffer,
      uses [.map] ++ [.deed (.release .mapping), .deed (.release .map)], true⟩

def sciCreateMapSequence (c : Choice) (e : Endpoint) (host : Host) : Outcome :=
  if e.map = none then ⟨e, host, [], false⟩
  else if c.memory = false then ⟨{ e with sequence := false }, host, [], false⟩
  else ⟨{ e with sequence := true }, host, [.deed (.acquire .sequence)], true⟩

def sciRemoveSequence (e : Endpoint) (host : Host) : Outcome :=
  if e.sequence = false then ⟨e, host, [], false⟩
  else ⟨{ e with sequence := false }, host, [.deed (.release .sequence)], true⟩

def sciClose (e : Endpoint) (host : Host) : Outcome :=
  if e.sd = false then ⟨e, host, [], false⟩
  else
    ⟨{ e with sd := false }, host,
      uses [.desc] ++ [.deed (.release .fd), .deed (.release .desc)], true⟩

/-! ## The process -/

/-- The next call of the process. `setUnavailable` is the first of
`sisci_endpoint_close`. -/
inductive Pc where
  | enter
  | setPath
  | openDevice (again : Bool)
  | createSegment
  | prepareSegment
  | mapLocal
  | publish
  | receive
  | connectSegment
  | mapRemote
  | createSequence
  | handshake
  | send
  | freePattern
  | setUnavailable
  | removeSequence
  | unmap
  | disconnect
  | removeSegment
  | closeDevice
  | freeCtx
  | done
  deriving DecidableEq

/-- `ret` of `run_rx` and `run_tx` is 0 once `ok` is set. -/
structure Process where
  pc : Pc
  ctx : Option Endpoint
  pattern : Bool
  ok : Bool
  deriving DecidableEq

structure System where
  host : Host
  own : Process

inductive Label where
  | own (c : Choice)
  | other (call : HostCall)

def Process.start : Process := ⟨.enter, none, false, false⟩

/-- What `calloc` returns to `sisci_open_local` and `sisci_open_remote`. -/
def Endpoint.fresh (role : ProfileRole) : Endpoint :=
  ⟨false, none, none, none, false, role = .rx, false⟩

/-- On an error the process goes to `fail:` or `out_close:`. -/
def Process.tries (p : Process) (next : Pc) (o : Outcome) : System × List Event :=
  (⟨o.host, { p with pc := if o.ok then next else .setUnavailable, ctx := some o.endpoint }⟩,
    o.events)

/-- The errors of `sisci_endpoint_close` are not looked at. -/
def Process.closes (p : Process) (next : Pc) (o : Outcome) : System × List Event :=
  (⟨o.host, { p with pc := next, ctx := some o.endpoint }⟩, o.events)

/-- `sisci_publish_local`, behind the layout of the ring and the stores of the header. -/
def Process.publishes (p : Process) (opt : ProfileOptions) (c : Choice) (e : Endpoint)
    (host : Host) : System × List Event :=
  if (layoutRing ((e.map.map MapHandle.size).getD 0) opt.chunkSize).isNone then
    (⟨host, { p with pc := .setUnavailable }⟩, [])
  else
    let o := sciSegment .setAvailable c e host
    if o.ok then
      (⟨o.host, { p with pc := .receive, ctx := some { o.endpoint with available := true } }⟩,
        uses [.mapping] ++ o.events)
    else
      (⟨o.host, { p with pc := .setUnavailable, ctx := some o.endpoint }⟩,
        uses [.mapping] ++ o.events ++ [.refused])

/-- A step with the endpoint allocated. -/
def Process.call (p : Process) (opt : ProfileOptions) (c : Choice) (e : Endpoint) (host : Host) :
    Option (System × List Event) :=
  match p.pc with
  | .enter | .done => none
  | .setPath =>
      some (⟨host,
        { p with pc := if opt.devicePath = [] then .setUnavailable else .openDevice false }⟩, [])
  | .openDevice again =>
      let next := match opt.role with
        | .rx => .createSegment
        | .tx => .connectSegment
      let o := sciOpen c e host
      -- A first failure is followed by `modprobe`.
      if o.ok = false ∧ again = false then
        some (⟨o.host, { p with pc := .openDevice true, ctx := some o.endpoint }⟩, o.events)
      else some (p.tries next o)
  | .createSegment =>
      some (p.tries .prepareSegment (sciCreateSegment opt.segmentId opt.windowSize c e host))
  | .prepareSegment => some (p.tries .mapLocal (sciSegment .prepare c e host))
  | .mapLocal => some (p.tries .publish (sciMapLocalSegment c e host))
  | .publish => some (p.publishes opt c e host)
  | .receive =>
      match c.turn with
      | .stay => some (⟨host, p⟩, uses [.mapping])
      | .succeed => some (⟨host, { p with pc := .setUnavailable, ok := true }⟩, uses [.mapping])
      | .fail => some (⟨host, { p with pc := .setUnavailable }⟩, uses [.mapping])
  | .connectSegment => some (p.tries .mapRemote (sciConnectSegment opt.segmentId c e host))
  | .mapRemote => some (p.tries .createSequence (sciMapRemoteSegment c e host))
  | .createSequence => some (p.tries .handshake (sciCreateMapSequence c e host))
  | .handshake =>
      match c.turn with
      | .stay => some (⟨host, p⟩, uses [.mapping])
      | .fail => some (⟨host, { p with pc := .setUnavailable }⟩, uses [.mapping])
      | .succeed =>
          if c.memory then
            some (⟨host, { p with pc := .send, pattern := true }⟩,
              uses [.mapping] ++ [.deed (.acquire .pattern)])
          else some (⟨host, { p with pc := .setUnavailable }⟩, uses [.mapping])
  | .send =>
      -- One frame, with its `SCIStoreBarrier`.
      let accesses := uses [.mapping, .pattern, .sequence, .map, .desc, .fd]
      match c.turn with
      | .stay => some (⟨host, p⟩, accesses)
      | .succeed => some (⟨host, { p with pc := .freePattern, ok := true }⟩, accesses)
      | .fail => some (⟨host, { p with pc := .freePattern }⟩, accesses)
  | .freePattern =>
      some (⟨host, { p with pc := .setUnavailable, pattern := false }⟩, [.deed (.release .pattern)])
  | .setUnavailable =>
      if e.isLocal && e.available then
        some (p.closes .removeSequence (sciSegment .setUnavailable c e host))
      else some (⟨host, { p with pc := .removeSequence }⟩, [])
  | .removeSequence => some (p.closes .unmap (sciRemoveSequence e host))
  | .unmap => some (p.closes .disconnect (sciUnmapSegment e host))
  | .disconnect => some (p.closes .removeSegment (sciDisconnectSegment e host))
  | .removeSegment => some (p.closes .closeDevice (sciRemoveSegment c e host))
  | .closeDevice => some (p.closes .freeCtx (sciClose e host))
  | .freeCtx => some (⟨host, { p with pc := .done, ctx := none }⟩, [.deed (.release .ctx)])

/-- Every access to the endpoint is one to `ctx`. -/
def Process.step (p : Process) (opt : ProfileOptions) (c : Choice) (host : Host) :
    Option (System × List Event) :=
  match p.ctx with
  | none =>
      if p.pc = .enter then
        if c.memory then
          some (⟨host, { p with pc := .setPath, ctx := some (.fresh opt.role) }⟩,
            [.deed (.acquire .ctx)])
        else some (⟨host, { p with pc := .done }⟩, [])
      else none
  | some e => (p.call opt c e host).map fun (t, es) => (t, uses [.ctx] ++ es)

def System.step (opt : ProfileOptions) (s : System) : Label → Option (System × List Event)
  | .own c => s.own.step opt c s.host
  | .other call => (s.host.step call).map fun (host, freed) => ({ s with host }, freed.map .freed)

/-! ## The ledger of the library calls -/

def Endpoint.held (e : Endpoint) (pattern : Bool) : Resource → Bool
  | .ctx => true
  | .desc | .fd => e.sd
  | .localSegment => e.localSegment.isSome
  | .remoteSegment => e.remoteSegment.isSome
  | .mapping | .map => e.map.isSome
  | .sequence => e.sequence
  | .pattern => pattern

def Process.holds (p : Process) : Resource → Bool :=
  match p.ctx with
  | none => fun r => r = .pattern && p.pattern
  | some e => e.held p.pattern

def deeds (es : List Event) : List (Deed Resource) := es.flatMap Event.deeds

@[simp] theorem deeds_nil : deeds [] = [] := rfl

@[simp] theorem deeds_deed (d : Deed Resource) (es : List Event) :
    deeds (.deed d :: es) = d :: deeds es := rfl

@[simp] theorem deeds_append (es fs : List Event) : deeds (es ++ fs) = deeds es ++ deeds fs :=
  List.flatMap_append

@[simp] theorem deeds_uses (rs : List Resource) : deeds (uses rs) = rs.map .use := by
  induction rs with
  | nil => rfl
  | cons r rs ih => exact congrArg (_ :: ·) ih

@[simp] theorem deeds_freed (freed : List Freed) : deeds (freed.map .freed) = [] := by
  induction freed with
  | nil => rfl
  | cons f freed ih => exact ih

@[simp] theorem deeds_orphaned (es : List Event) : deeds (.orphaned :: es) = deeds es := rfl

@[simp] theorem deeds_refused (es : List Event) : deeds (.refused :: es) = deeds es := rfl

@[simp] theorem deeds_kept (es : List Event) : deeds (.kept :: es) = deeds es := rfl

/-- The call does without fault what its endpoint shows of it. -/
def Outcome.Replays (o : Outcome) (e : Endpoint) : Prop :=
  ∀ pattern, replay (e.held pattern) (deeds o.events) = some (o.endpoint.held pattern)

theorem replays_nothing (e : Endpoint) (host : Host) (ok : Bool) :
    Outcome.Replays ⟨e, host, [], ok⟩ e :=
  fun _ => rfl

theorem held_eq {f g : Resource → Bool} (same : ∀ r, f r = g r) : some f = some g :=
  congrArg some (funext same)

theorem sciOpen_replays (c : Choice) (host : Host) (closed : e.sd = false) :
    (sciOpen c e host).Replays e := by
  intro pattern
  obtain ⟨sd, localSegment, remoteSegment, map, sequence, isLocal, available⟩ := e
  subst closed
  unfold sciOpen
  split_ifs with unopened none
  · rfl
  · exact held_eq fun r => by cases r <;> rfl
  · exact held_eq fun r => by cases r <;> rfl

theorem sciCreateSegment_replays (id : BitVec 32) (size : Nat) (c : Choice) (host : Host)
    (free : e.localSegment = none) : (sciCreateSegment id size c e host).Replays e := by
  intro pattern
  obtain ⟨sd, localSegment, remoteSegment, map, sequence, isLocal, available⟩ := e
  subst free
  unfold sciCreateSegment
  cases sd with
  | false => rfl
  | true =>
    by_cases empty : size = 0
    · rw [if_pos (Or.inr empty)]
      rfl
    rw [if_neg (not_or.mpr ⟨Bool.noConfusion, empty⟩)]
    dsimp only
    cases (host.dev.allocLocalSegmentLocked c.ntb c.bufferSize id size).2.2 with
    | error e =>
      simp only [deeds_append, deeds_uses, deeds_freed]
      rfl
    | ok done =>
      by_cases lost : c.memory = false
      · simp only [if_pos lost, deeds_append, deeds_uses, deeds_freed, deeds_orphaned, deeds_nil]
        rfl
      · simp only [if_neg lost, deeds_append, deeds_uses, deeds_freed, deeds_deed, deeds_nil]
        exact held_eq fun r => by cases r <;> rfl

theorem ioctlSegment_deeds (request : Request) (c : Choice) (h : SegmentHandle) (host : Host) :
    deeds (ioctlSegment request c h host).2.1 = [.use .localSegment, .use .desc, .use .fd] := by
  simp only [ioctlSegment, deeds_append, deeds_uses, deeds_freed]
  rfl

theorem sciSegment_replays (request : Request) (c : Choice) (e : Endpoint) (host : Host) :
    (sciSegment request c e host).Replays e := by
  intro pattern
  obtain ⟨sd, localSegment, remoteSegment, map, sequence, isLocal, available⟩ := e
  cases localSegment with
  | none => rfl
  | some h =>
    cases sd with
    | false => rfl
    | true =>
      simp only [sciSegment, Bool.true_eq_false, if_false, ioctlSegment_deeds]
      rfl

theorem sciRemoveSegment_replays (c : Choice) (e : Endpoint) (host : Host) :
    (sciRemoveSegment c e host).Replays e := by
  intro pattern
  obtain ⟨sd, localSegment, remoteSegment, map, sequence, isLocal, available⟩ := e
  cases localSegment with
  | none => rfl
  | some h =>
    cases sd with
    | false => exact held_eq fun r => by cases r <;> rfl
    | true =>
      simp only [sciRemoveSegment, Bool.true_eq_false, if_false]
      split_ifs with failed
      · simp only [deeds_append, ioctlSegment_deeds, deeds_kept, deeds_deed, deeds_nil]
        exact held_eq fun r => by cases r <;> rfl
      · simp only [deeds_append, ioctlSegment_deeds, deeds_deed, deeds_nil]
        exact held_eq fun r => by cases r <;> rfl

theorem sciConnectSegment_replays (id : BitVec 32) (c : Choice) (host : Host)
    (free : e.remoteSegment = none) :
    (sciConnectSegment id c e host).Replays e := by
  intro pattern
  obtain ⟨sd, localSegment, remoteSegment, map, sequence, isLocal, available⟩ := e
  subst free
  cases sd with
  | false => rfl
  | true =>
    simp only [sciConnectSegment, Bool.true_eq_false, if_false]
    cases c.woken with
    | false => rfl
    | true =>
      simp only [Bool.true_eq_false, if_false]
      cases host.dev.connectSegment id with
      | error e => rfl
      | ok size =>
        cases c.memory with
        | false => rfl
        | true => exact held_eq fun r => by cases r <;> rfl

theorem sciDisconnectSegment_replays (e : Endpoint) (host : Host) :
    (sciDisconnectSegment e host).Replays e := by
  intro pattern
  obtain ⟨sd, localSegment, remoteSegment, map, sequence, isLocal, available⟩ := e
  cases remoteSegment with
  | none => rfl
  | some h => exact held_eq fun r => by cases r <;> rfl

theorem sciMapSegment_replays (h : Handle) (buffer : Option Nat) (c : Choice) (host : Host)
    (free : e.map = none) :
    (sciMapSegment h buffer c e host).Replays e := by
  intro pattern
  obtain ⟨sd, localSegment, remoteSegment, map, sequence, isLocal, available⟩ := e
  subst free
  cases sd with
  | false => rfl
  | true =>
    simp only [sciMapSegment, Bool.true_eq_false, if_false]
    cases h.map host.dev 0 0 c.remap with
    | error e => rfl
    | ok found =>
      cases c.memory with
      | false => exact held_eq fun r => by cases r <;> rfl
      | true => exact held_eq fun r => by cases r <;> rfl

theorem sciUnmapSegment_replays (e : Endpoint) (host : Host) :
    (sciUnmapSegment e host).Replays e := by
  intro pattern
  obtain ⟨sd, localSegment, remoteSegment, map, sequence, isLocal, available⟩ := e
  cases map with
  | none => rfl
  | some m => exact held_eq fun r => by cases r <;> rfl

theorem sciCreateMapSequence_replays (c : Choice) (host : Host) (free : e.sequence = false) :
    (sciCreateMapSequence c e host).Replays e := by
  intro pattern
  obtain ⟨sd, localSegment, remoteSegment, map, sequence, isLocal, available⟩ := e
  subst free
  unfold sciCreateMapSequence
  split_ifs with unmapped lost
  · rfl
  · rfl
  · exact held_eq fun r => by cases r <;> rfl

theorem sciRemoveSequence_replays (e : Endpoint) (host : Host) :
    (sciRemoveSequence e host).Replays e := by
  intro pattern
  obtain ⟨sd, localSegment, remoteSegment, map, sequence, isLocal, available⟩ := e
  cases sequence with
  | false => rfl
  | true => exact held_eq fun r => by cases r <;> rfl

theorem sciClose_replays (e : Endpoint) (host : Host) : (sciClose e host).Replays e := by
  intro pattern
  obtain ⟨sd, localSegment, remoteSegment, map, sequence, isLocal, available⟩ := e
  cases sd with
  | false => rfl
  | true => exact held_eq fun r => by cases r <;> rfl

/-! ## What the library calls leave of the endpoint -/

theorem sciOpen_endpoint (c : Choice) (e : Endpoint) (host : Host) :
    (sciOpen c e host).endpoint = { e with sd := (sciOpen c e host).ok } := by
  unfold sciOpen
  split_ifs <;> rfl

theorem sciCreateSegment_endpoint (id : BitVec 32) (size : Nat) (c : Choice) (host : Host)
    (free : e.localSegment = none) : ∃ segment, (sciCreateSegment id size c e host).endpoint =
      { e with localSegment := segment } ∧
      segment.isSome = (sciCreateSegment id size c e host).ok := by
  unfold sciCreateSegment
  by_cases refused : e.sd = false ∨ size = 0
  · rw [if_pos refused]
    exact ⟨none, by rw [← free], rfl⟩
  rw [if_neg refused]
  dsimp only
  cases (host.dev.allocLocalSegmentLocked c.ntb c.bufferSize id size).2.2 with
  | error e => exact ⟨none, rfl, rfl⟩
  | ok done =>
    cases c.memory with
    | false => exact ⟨none, rfl, rfl⟩
    | true => exact ⟨some _, rfl, rfl⟩

theorem sciSegment_endpoint (request : Request) (c : Choice) (e : Endpoint) (host : Host) :
    (sciSegment request c e host).endpoint = e := by
  unfold sciSegment
  split
  · rfl
  · split_ifs <;> rfl

theorem sciConnectSegment_endpoint (id : BitVec 32) (c : Choice) (host : Host)
    (free : e.remoteSegment = none) :
    ∃ segment, (sciConnectSegment id c e host).endpoint = { e with remoteSegment := segment } := by
  unfold sciConnectSegment
  by_cases closed : e.sd = false
  · rw [if_pos closed]
    exact ⟨none, by rw [← free]⟩
  by_cases asleep : c.woken = false
  · rw [if_neg closed, if_pos asleep]
    exact ⟨none, rfl⟩
  rw [if_neg closed, if_neg asleep]
  cases host.dev.connectSegment id with
  | error e => exact ⟨none, rfl⟩
  | ok size =>
    cases c.memory with
    | false => exact ⟨none, rfl⟩
    | true => exact ⟨some _, rfl⟩

theorem sciMapSegment_endpoint (h : Handle) (buffer : Option Nat) (c : Choice) (host : Host)
    (free : e.map = none) :
    ∃ map, (sciMapSegment h buffer c e host).endpoint = { e with map } ∧
      map.isSome = (sciMapSegment h buffer c e host).ok := by
  unfold sciMapSegment
  by_cases closed : e.sd = false
  · rw [if_pos closed]
    exact ⟨none, by rw [← free], rfl⟩
  rw [if_neg closed]
  cases h.map host.dev 0 0 c.remap with
  | error e => exact ⟨none, rfl, rfl⟩
  | ok found =>
    cases c.memory with
    | false => exact ⟨none, rfl, rfl⟩
    | true => exact ⟨some _, rfl, rfl⟩

theorem sciMapLocalSegment_endpoint (c : Choice) (host : Host) (free : e.map = none) :
    ∃ map, (sciMapLocalSegment c e host).endpoint = { e with map } ∧
      map.isSome = (sciMapLocalSegment c e host).ok := by
  unfold sciMapLocalSegment
  split
  · exact ⟨none, by rw [← free], rfl⟩
  · exact sciMapSegment_endpoint _ _ c host free

theorem sciMapRemoteSegment_endpoint (c : Choice) (host : Host) (free : e.map = none) :
    ∃ map, (sciMapRemoteSegment c e host).endpoint = { e with map } ∧
      map.isSome = (sciMapRemoteSegment c e host).ok := by
  unfold sciMapRemoteSegment
  split
  · exact ⟨none, by rw [← free], rfl⟩
  · exact sciMapSegment_endpoint _ _ c host free

theorem sciCreateMapSequence_endpoint (c : Choice) (host : Host) (free : e.sequence = false) :
    (sciCreateMapSequence c e host).endpoint =
      { e with sequence := (sciCreateMapSequence c e host).ok } := by
  unfold sciCreateMapSequence
  split_ifs
  · exact free ▸ rfl
  · rfl
  · rfl

theorem sciRemoveSequence_endpoint (e : Endpoint) (host : Host) :
    (sciRemoveSequence e host).endpoint = { e with sequence := false } := by
  unfold sciRemoveSequence
  split_ifs with none
  · exact none ▸ rfl
  · rfl

theorem sciUnmapSegment_endpoint (e : Endpoint) (host : Host) :
    (sciUnmapSegment e host).endpoint = { e with map := none } := by
  unfold sciUnmapSegment
  split
  · rename_i none
    exact none ▸ rfl
  · rfl

theorem sciDisconnectSegment_endpoint (e : Endpoint) (host : Host) :
    (sciDisconnectSegment e host).endpoint = { e with remoteSegment := none } := by
  unfold sciDisconnectSegment
  split
  · rename_i none
    exact none ▸ rfl
  · rfl

theorem sciRemoveSegment_endpoint (c : Choice) (e : Endpoint) (host : Host) :
    (sciRemoveSegment c e host).endpoint = { e with localSegment := none } := by
  unfold sciRemoveSegment
  split
  · rename_i none
    exact none ▸ rfl
  · dsimp only
    split_ifs <;> rfl

theorem sciClose_endpoint (e : Endpoint) (host : Host) :
    (sciClose e host).endpoint = { e with sd := false } := by
  unfold sciClose
  split_ifs with none
  · exact none ▸ rfl
  · rfl

/-! ## The ledger of the process -/

/-- What is there and what is not yet, or no more, before a call. -/
def Pc.Expects (e : Endpoint) : Pc → Prop
  | .enter | .done => False
  | .setPath | .openDevice _ =>
      e.sd = false ∧ e.localSegment = none ∧ e.remoteSegment = none ∧ e.map = none ∧
        e.sequence = false
  | .createSegment => e.localSegment = none ∧ e.map = none
  | .prepareSegment | .mapLocal => e.map = none
  | .publish | .receive => e.map.isSome = true
  | .connectSegment => e.sd = true ∧ e.remoteSegment = none ∧ e.map = none ∧ e.sequence = false
  | .mapRemote => e.sd = true ∧ e.map = none ∧ e.sequence = false
  | .createSequence => e.sd = true ∧ e.map.isSome = true ∧ e.sequence = false
  | .handshake | .send => e.sd = true ∧ e.map.isSome = true ∧ e.sequence = true
  | .freePattern | .setUnavailable | .removeSequence => True
  | .unmap => e.sequence = false
  | .disconnect => e.sequence = false ∧ e.map = none
  | .removeSegment => e.sequence = false ∧ e.map = none ∧ e.remoteSegment = none
  | .closeDevice =>
      e.sequence = false ∧ e.map = none ∧ e.remoteSegment = none ∧ e.localSegment = none
  | .freeCtx =>
      e.sequence = false ∧ e.map = none ∧ e.remoteSegment = none ∧ e.localSegment = none ∧
        e.sd = false

/-- The pattern lives from its allocation in `run_tx` to `out_free_pattern:`. -/
def Pc.hasPattern (pc : Pc) : Bool := pc = .send || pc = .freePattern

structure Process.Sound (p : Process) : Prop where
  pattern : p.pattern = p.pc.hasPattern
  ctx : match p.ctx with
    | none => p.pc = .enter ∨ p.pc = .done
    | some e => p.pc.Expects e

def Follows (p : Process) (e : Endpoint) (out : System × List Event) : Prop :=
  out.1.own.Sound ∧ replay (e.held p.pattern) (deeds out.2) = some out.1.own.holds

theorem tries_follows {p : Process} {o : Outcome} (replays : o.Replays e)
    (without : p.pattern = false)
    (also : next.hasPattern = false) (success : o.ok = true → next.Expects o.endpoint) :
    Follows p e (p.tries next o) := by
  refine ⟨?_, replays p.pattern⟩
  cases result : o.ok with
  | false =>
    refine ⟨?_, ?_⟩
    · simp only [Process.tries, result, without]
      rfl
    · simp only [Process.tries, result]
      trivial
  | true =>
    refine ⟨?_, ?_⟩
    · simp only [Process.tries, result, without, if_true, also]
    · simp only [Process.tries, result, if_true]
      exact success result

theorem closes_follows {p : Process} {o : Outcome} (replays : o.Replays e)
    (without : p.pattern = false)
    (also : next.hasPattern = false) (after : next.Expects o.endpoint) :
    Follows p e (p.closes next o) :=
  ⟨⟨without.trans also.symm, after⟩, replays p.pattern⟩

/-- The process only looks at what it holds. -/
theorem looks_follows {p : Process} (pc : Pc) {rs : List Resource} (there : p.ctx = some e)
    (held : ∀ r ∈ rs, e.held p.pattern r = true) (same : p.pattern = pc.hasPattern)
    (after : pc.Expects e)
    (host : Host) (ok : Bool) : Follows p e (⟨host, { p with pc, ok }⟩, uses rs) := by
  refine ⟨⟨same, ?_⟩, ?_⟩
  · rw [there]
    exact after
  · have uses := replay_uses held []
    rw [List.append_nil] at uses
    rw [deeds_uses, uses]
    simp only [Process.holds, there]
    rfl

/-- The process only goes on. -/
theorem goes_follows {p : Process} (pc : Pc) (there : p.ctx = some e)
    (same : p.pattern = pc.hasPattern)
    (after : pc.Expects e) (host : Host) : Follows p e (⟨host, { p with pc }⟩, []) :=
  looks_follows pc there (List.forall_mem_nil _) same after host p.ok

theorem open_follows {p : Process} (opt : ProfileOptions) (c : Choice) (host : Host)
    (without : p.pattern = false) (expects : Pc.Expects e (.openDevice again))
    (called : { p with pc := .openDevice again }.call opt c e host = some out) :
    Follows p e out := by
  obtain ⟨closed, noLocal, noRemote, unmapped, noSequence⟩ := expects
  have replays := sciOpen_replays c host closed
  have endpoint := sciOpen_endpoint c e host
  simp only [Process.call] at called
  split at called
  · rename_i failed
    obtain rfl := Option.some.inj called
    refine ⟨⟨without, ?_⟩, replays p.pattern⟩
    rw [failed.1] at endpoint
    simp only [endpoint]
    exact ⟨rfl, noLocal, noRemote, unmapped, noSequence⟩
  · obtain rfl := Option.some.inj called
    cases opt.role with
    | rx =>
      refine tries_follows replays without rfl fun opened => ?_
      rw [endpoint]
      exact ⟨noLocal, unmapped⟩
    | tx =>
      refine tries_follows replays without rfl fun opened => ?_
      rw [endpoint, opened]
      exact ⟨rfl, noRemote, unmapped, noSequence⟩

theorem publish_follows {p : Process} (opt : ProfileOptions) (c : Choice) (host : Host)
    (there : p.ctx = some e)
    (without : p.pattern = false) (mapped : e.map.isSome = true) :
    Follows p e (p.publishes opt c e host) := by
  have replays := sciSegment_replays .setAvailable c e host p.pattern
  have endpoint := sciSegment_endpoint .setAvailable c e host
  have used : e.held p.pattern .mapping = true := mapped
  unfold Process.publishes
  split_ifs with small
  · exact goes_follows .setUnavailable there without trivial host
  dsimp only
  rw [endpoint] at replays
  split_ifs with done
  · refine ⟨⟨without, ?_⟩, ?_⟩
    · rw [endpoint]
      exact mapped
    · simp only [deeds_append, deeds_uses, List.map_cons, List.map_nil, List.singleton_append,
        replay_use used, replays, endpoint]
      rfl
  · refine ⟨⟨without, trivial⟩, ?_⟩
    simp only [deeds_append, deeds_uses, deeds_refused, deeds_nil, List.append_nil,
      List.map_cons, List.map_nil, List.singleton_append, replay_use used, replays, endpoint]
    rfl

theorem call_follows {p : Process} (sound : p.Sound) (there : p.ctx = some e)
    (called : p.call opt c e host = some out) : Follows p e out := by
  have expects : p.pc.Expects e := by
    have expects := sound.ctx
    rwa [there] at expects
  have pattern := sound.pattern
  obtain ⟨pc, ctx, hasPattern, ok⟩ := p
  dsimp only at there expects pattern
  subst there
  cases pc with
  | enter => contradiction
  | done => contradiction
  | setPath =>
    obtain rfl := Option.some.inj called
    by_cases empty : opt.devicePath = []
    · rw [if_pos empty]
      exact goes_follows .setUnavailable rfl pattern trivial host
    · rw [if_neg empty]
      exact goes_follows (.openDevice false) rfl pattern expects host
  | openDevice again => exact open_follows opt c host pattern expects called
  | createSegment =>
    obtain rfl := Option.some.inj called
    obtain ⟨segment, endpoint, -⟩ :=
      sciCreateSegment_endpoint opt.segmentId opt.windowSize c host expects.1
    refine tries_follows (sciCreateSegment_replays _ _ c host expects.1) pattern rfl fun _ => ?_
    rw [endpoint]
    exact expects.2
  | prepareSegment =>
    obtain rfl := Option.some.inj called
    refine tries_follows (sciSegment_replays .prepare c e host) pattern rfl fun _ => ?_
    rw [sciSegment_endpoint]
    exact expects
  | mapLocal =>
    obtain rfl := Option.some.inj called
    obtain ⟨map, endpoint, mapped⟩ := sciMapLocalSegment_endpoint c host expects
    have replays : (sciMapLocalSegment c e host).Replays e := by
      unfold sciMapLocalSegment
      split
      · exact replays_nothing e host false
      · exact sciMapSegment_replays _ _ c host expects
    refine tries_follows replays pattern rfl fun done => ?_
    rw [endpoint]
    exact mapped.trans done
  | publish =>
    obtain rfl := Option.some.inj called
    exact publish_follows opt c host rfl pattern expects
  | receive =>
    have held : ∀ r ∈ [Resource.mapping], e.held hasPattern r = true := by
      rw [List.forall_mem_singleton]
      exact expects
    simp only [Process.call] at called
    split at called
    · obtain rfl := Option.some.inj called
      exact looks_follows .receive rfl held pattern expects host ok
    · obtain rfl := Option.some.inj called
      exact looks_follows .setUnavailable rfl held pattern trivial host true
    · obtain rfl := Option.some.inj called
      exact looks_follows .setUnavailable rfl held pattern trivial host ok
  | connectSegment =>
    obtain rfl := Option.some.inj called
    obtain ⟨opened, free, unmapped, noSequence⟩ := expects
    obtain ⟨segment, endpoint⟩ := sciConnectSegment_endpoint opt.segmentId c host free
    refine tries_follows (sciConnectSegment_replays _ c host free) pattern rfl fun _ => ?_
    rw [endpoint]
    exact ⟨opened, unmapped, noSequence⟩
  | mapRemote =>
    obtain rfl := Option.some.inj called
    obtain ⟨opened, unmapped, noSequence⟩ := expects
    obtain ⟨map, endpoint, mapped⟩ := sciMapRemoteSegment_endpoint c host unmapped
    have replays : (sciMapRemoteSegment c e host).Replays e := by
      unfold sciMapRemoteSegment
      split
      · exact replays_nothing e host false
      · exact sciMapSegment_replays _ _ c host unmapped
    refine tries_follows replays pattern rfl fun done => ?_
    rw [endpoint]
    exact ⟨opened, mapped.trans done, noSequence⟩
  | createSequence =>
    obtain rfl := Option.some.inj called
    obtain ⟨opened, mapped, noSequence⟩ := expects
    refine tries_follows (sciCreateMapSequence_replays c host noSequence) pattern rfl fun done => ?_
    rw [sciCreateMapSequence_endpoint c host noSequence]
    exact ⟨opened, mapped, done⟩
  | handshake =>
    have held : ∀ r ∈ [Resource.mapping], e.held hasPattern r = true := by
      rw [List.forall_mem_singleton]
      exact expects.2.1
    simp only [Process.call] at called
    split at called
    · obtain rfl := Option.some.inj called
      exact looks_follows .handshake rfl held pattern expects host ok
    · obtain rfl := Option.some.inj called
      exact looks_follows .setUnavailable rfl held pattern trivial host ok
    · split_ifs at called with memory
      · obtain rfl := Option.some.inj called
        subst pattern
        refine ⟨⟨rfl, expects⟩, ?_⟩
        rw [deeds_append, deeds_uses, replay_uses held]
        exact held_eq fun r => by cases r <;> rfl
      · obtain rfl := Option.some.inj called
        exact looks_follows .setUnavailable rfl held pattern trivial host ok
  | send =>
    have held : ∀ r ∈ [Resource.mapping, .pattern, .sequence, .map, .desc, .fd],
        e.held hasPattern r = true := by
      simp [Endpoint.held, expects.1, expects.2.1, expects.2.2, pattern, Pc.hasPattern]
    simp only [Process.call] at called
    split at called
    · obtain rfl := Option.some.inj called
      exact looks_follows .send rfl held pattern expects host ok
    · obtain rfl := Option.some.inj called
      exact looks_follows .freePattern rfl held pattern trivial host true
    · obtain rfl := Option.some.inj called
      exact looks_follows .freePattern rfl held pattern trivial host ok
  | freePattern =>
    obtain rfl := Option.some.inj called
    subst pattern
    exact ⟨⟨rfl, trivial⟩, held_eq fun r => by cases r <;> rfl⟩
  | setUnavailable =>
    simp only [Process.call] at called
    split_ifs at called
    · obtain rfl := Option.some.inj called
      exact closes_follows (sciSegment_replays .setUnavailable c e host) pattern rfl trivial
    · obtain rfl := Option.some.inj called
      exact goes_follows .removeSequence rfl pattern trivial host
  | removeSequence =>
    obtain rfl := Option.some.inj called
    refine closes_follows (sciRemoveSequence_replays e host) pattern rfl ?_
    rw [sciRemoveSequence_endpoint]
    rfl
  | unmap =>
    obtain rfl := Option.some.inj called
    refine closes_follows (sciUnmapSegment_replays e host) pattern rfl ?_
    rw [sciUnmapSegment_endpoint]
    exact ⟨expects, rfl⟩
  | disconnect =>
    obtain rfl := Option.some.inj called
    refine closes_follows (sciDisconnectSegment_replays e host) pattern rfl ?_
    rw [sciDisconnectSegment_endpoint]
    exact ⟨expects.1, expects.2, rfl⟩
  | removeSegment =>
    obtain rfl := Option.some.inj called
    obtain ⟨noSequence, unmapped, noRemote⟩ := expects
    refine closes_follows (sciRemoveSegment_replays c e host) pattern rfl ?_
    rw [sciRemoveSegment_endpoint]
    exact ⟨noSequence, unmapped, noRemote, rfl⟩
  | closeDevice =>
    obtain rfl := Option.some.inj called
    obtain ⟨noSequence, unmapped, noRemote, noLocal⟩ := expects
    refine closes_follows (sciClose_replays e host) pattern rfl ?_
    rw [sciClose_endpoint]
    exact ⟨noSequence, unmapped, noRemote, noLocal, rfl⟩
  | freeCtx =>
    obtain rfl := Option.some.inj called
    obtain ⟨noSequence, unmapped, noRemote, noLocal, closed⟩ := expects
    refine ⟨⟨pattern, Or.inr rfl⟩, held_eq fun r => ?_⟩
    cases r <;> simp [Function.update, Endpoint.held, Process.holds, noSequence, unmapped, noRemote,
      noLocal, closed]

/-- A step of the process or of anyone else. -/
theorem step_follows {s t : System} (sound : s.own.Sound) (stepped : s.step opt l = some (t, es)) :
    t.own.Sound ∧ replay s.own.holds (deeds es) = some t.own.holds := by
  cases l with
  | other call =>
    obtain ⟨⟨host, freed⟩, -, same⟩ := Option.map_eq_some_iff.mp stepped
    cases same
    exact ⟨sound, by rw [deeds_freed]; rfl⟩
  | own c =>
    obtain ⟨host, ⟨pc, ctx, pattern, ok⟩⟩ := s
    have here := sound.ctx
    have without := sound.pattern
    cases ctx with
    | none =>
      simp only [System.step, Process.step] at stepped
      split_ifs at stepped with enter memory
      · cases stepped
        dsimp only at enter without
        subst enter without
        exact ⟨⟨rfl, rfl, rfl, rfl, rfl, rfl⟩, held_eq fun r => by cases r <;> rfl⟩
      · cases stepped
        dsimp only at enter without
        subst enter without
        exact ⟨⟨rfl, Or.inr rfl⟩, rfl⟩
    | some e =>
      obtain ⟨⟨u, fs⟩, called, same⟩ := Option.map_eq_some_iff.mp stepped
      cases same
      obtain ⟨next, replays⟩ := call_follows sound rfl called
      exact ⟨next, by rw [deeds_append]; exact replays⟩

theorem start_sound : Process.start.Sound := ⟨rfl, Or.inl rfl⟩

/-- Whatever fails and whatever the driver and other processes do in between, the
process never uses or frees what it does not hold and never loses what it holds,
and once it has ended it holds nothing. -/
theorem process_releases (opt : ProfileOptions) (host : Host)
    (path : run (System.step opt) ⟨host, .start⟩ ls = some (t, es)) :
    ∃ held, replay (fun _ => false) (deeds es) = some held ∧
      (t.own.pc = .done → ∀ r, held r = false) := by
  obtain ⟨sound, replayed⟩ :=
    run_replays (P := fun s => s.own.Sound) (fun s => s.own.holds) Event.deeds
    (fun sound _ stepped => step_follows sound stepped) start_sound (along_true _ _) path
  have nothing : Process.holds .start = fun _ => false := by
    funext r
    cases r <;> rfl
  refine ⟨t.own.holds, nothing ▸ replayed, ?_⟩
  intro finished r
  have ctx := sound.ctx
  have pattern := sound.pattern
  rw [finished] at ctx pattern
  cases there : t.own.ctx with
  | some e =>
    rw [there] at ctx
    exact ctx.elim
  | none =>
    simp only [Process.holds, there, pattern]
    exact Bool.and_false _

def smooth : Choice :=
  ⟨true, true, true, true, .ok (), .paged 0x10000, 0x1000, .succeed⟩

def senderOptions : ProfileOptions :=
  { ProfileOptions.default with role := .tx, devicePath := bytes "/dev/ntb_idt_sisci" }

def connectedHost : Host :=
  ⟨{ SisciDev.probed with
      peerReady := true, peerIo := true, peerUsableSize := 0x4000, remoteSegmentId := 1 }, 0, []⟩

/-- The link goes down and there is no memory for the sequence. -/
def cutShort : List Label :=
  List.replicate 5 (.own smooth) ++ [.other (.service false [] true),
    .own { smooth with memory := false }] ++ List.replicate 7 (.own smooth)

theorem process_releases_sender :
    ∃ t es held, run (System.step senderOptions) ⟨connectedHost, .start⟩ cutShort = some (t, es) ∧
      t.own.pc = .done ∧ Event.deed (.acquire .mapping) ∈ es ∧
      Event.deed (.acquire .sequence) ∉ es ∧
      replay (fun _ => false) (deeds es) = some held ∧ ∀ r, held r = false := by
  have reads : (run (System.step senderOptions) ⟨connectedHost, .start⟩ cutShort).map (fun out =>
      (out.1.own.pc, decide (Event.deed (.acquire .mapping) ∈ out.2),
        decide (Event.deed (.acquire .sequence) ∈ out.2))) = some (.done, true, false) := by
          decide +kernel
  obtain ⟨⟨t, es⟩, path, same⟩ := Option.map_eq_some_iff.mp reads
  obtain ⟨finished, rest⟩ := Prod.mk.inj same
  obtain ⟨mapped, unsequenced⟩ := Prod.mk.inj rest
  obtain ⟨held, replayed, empty⟩ := process_releases _ _ path
  exact ⟨t, es, held, path, finished, of_decide_eq_true mapped, of_decide_eq_false unsequenced,
    replayed, empty finished⟩

end IdtNtb.Profile.SisciEndpoint
