import IdtNtb.Profile.SisciEndpoint

/-! What a profiling process leaves in the SISCI driver. The segment belongs to
the driver and outlives the process unless REMOVE_SEGMENT takes it away: the
library drops it when there is no memory for its handle, and frees the handle of
a segment whose removal failed. Here the process is the driver's only user; the
worker runs between its calls. A process that ends in `ntb_monotonic_sec`, without
closing its endpoint, is none of these. -/
namespace IdtNtb.Profile.SisciEndpoint
open Kernel IdtNtb.Ring IdtNtb.Sisci Ledger Transition

def Label.Alone : Label → Prop
  | .own _ => True
  | .other (.service ..) => True
  | .other _ => False

instance : DecidablePred Label.Alone
  | .own _ => .isTrue trivial
  | .other (.service ..) => .isTrue trivial
  | .other (.createSegment ..) | .other (.prepareSegment _) | .other (.setAvailable ..)
  | .other (.setUnavailable ..) | .other (.removeSegment ..) | .other (.mmapLocal ..)
  | .other (.munmap _) => .isFalse id

/-- The process has let go of a segment that is still there. -/
def Lost (es : List Event) : Prop := Event.orphaned ∈ es ∨ Event.kept ∈ es

def Event.harmless : Event → Bool
  | .deed _ | .refused => true
  | .freed _ | .orphaned | .kept => false

def Harmless (es : List Event) : Prop := ∀ e ∈ es, e.harmless = true

def Endpoint.buffer (e : Endpoint) : Option Nat := e.map.bind MapHandle.buffer

def Process.handle (p : Process) : Option SegmentHandle := p.ctx.bind Endpoint.localSegment

def Process.buffer (p : Process) : Option Nat := p.ctx.bind Endpoint.buffer

/-- A handle stands for the driver's segment; without one, a segment that is there
is a lost one, and the record does not mark it available. -/
def Matches (es : List Event) (dev : SisciDev) : Option SegmentHandle → Prop
  | some h => ¬Lost es ∧ dev.removed = false ∧ ∃ s, dev.segment = some s ∧ s.id = h.segmentId
  | none => dev.localAvailable = false ∧ (dev.segment.isSome ↔ Lost es)

def Pc.early : Pc → Bool
  | .enter | .setPath | .openDevice _ | .createSegment => true
  | _ => false

/-- A segment's handle is made and used through an open descriptor. -/
def Endpoint.Reachable (e : Endpoint) : Prop := e.localSegment.isSome = true → e.sd = true

structure Tidy (es : List Event) (s : System) : Prop where
  segment : Matches es s.host.dev s.own.handle
  reachable : ∀ e, s.own.ctx = some e → e.Reachable
  early : s.own.pc.early = true → s.host.dev.segment = none
  mappings : s.host.mappings = s.own.buffer.toList
  freed : ∀ f, Event.freed f ∈ es → f.mapped = false

variable {es fs : List Event} {e : Endpoint} {host : Host} {dev after : SisciDev}

/-! ## Events -/

theorem Harmless.lost (harmless : Harmless fs) : Lost (es ++ fs) ↔ Lost es := by
  have orphaned : Event.orphaned ∉ fs := fun member => Bool.false_ne_true (harmless _ member)
  have kept : Event.kept ∉ fs := fun member => Bool.false_ne_true (harmless _ member)
  simp only [Lost, List.mem_append, orphaned, kept, or_false]

theorem Harmless.freed (harmless : Harmless fs) (f : Freed) : Event.freed f ∉ fs :=
  fun member => Bool.false_ne_true (harmless _ member)

theorem harmless_uses (rs : List Resource) : Harmless (uses rs) := by
  intro x member
  obtain ⟨r, -, rfl⟩ := List.mem_map.mp member
  rfl

theorem Harmless.append (first : Harmless es) (second : Harmless fs) : Harmless (es ++ fs) :=
  List.forall_mem_append.mpr ⟨first, second⟩

theorem harmless_nil : Harmless [] := List.forall_mem_nil _

theorem harmless_deeds (ds : List (Deed Resource)) : Harmless (ds.map .deed) := by
  intro x member
  obtain ⟨d, -, rfl⟩ := List.mem_map.mp member
  rfl

/-! ## The driver -/

structure Same (before after : SisciDev) : Prop where
  segment : after.segment = before.segment
  removed : after.removed = before.removed
  available : after.localAvailable = before.localAvailable

theorem Matches.same (held : Matches es dev h) (same : Same dev after) (harmless : Harmless fs) :
    Matches (es ++ fs) after h := by
  cases h with
  | none => exact ⟨same.available.trans held.1, by rw [same.segment, harmless.lost]; exact held.2⟩
  | some h =>
    obtain ⟨owned, present, found⟩ := held
    exact ⟨harmless.lost.not.mpr owned, same.removed.trans present, by rwa [same.segment]⟩

theorem Matches.quiet (held : Matches es dev h) (harmless : Harmless fs) :
    Matches (es ++ fs) dev h :=
  held.same ⟨rfl, rfl, rfl⟩ harmless

theorem handle_same (ntb : Ntb) (dev : SisciDev) (command : Command) :
    Same dev (dev.handle ntb command) := by
  have offer := dev.handle_offer ntb command
  refine ⟨congrArg SisciDev.Offer.segment offer, ?_, congrArg SisciDev.Offer.available offer⟩
  cases command with
  | segid id => rfl
  | size data => rfl
  | xlat data => rfl
  | avail id => exact (SisciDev.setupPeerMwLocked_setUp ntb _).offer.2
  | unavail id =>
    simp only [SisciDev.handle]
    split_ifs
    · rfl
    · rfl
  | unknown cmd data => rfl

theorem commands_same (commands : List (Ntb × Command)) (dev : SisciDev) :
    Same dev (commands.foldl (fun dev (ntb, command) => dev.handle ntb command) dev) := by
  induction commands generalizing dev with
  | nil => exact ⟨rfl, rfl, rfl⟩
  | cons first rest ih =>
    have here := handle_same first.1 dev first.2
    have later := ih (dev.handle first.1 first.2)
    exact ⟨later.segment.trans here.segment, later.removed.trans here.removed,
      later.available.trans here.available⟩

theorem publishAvailable_same (dev : SisciDev) (sent : Bool) :
    Same dev (dev.publishAvailableLocked sent) := by
  unfold SisciDev.publishAvailableLocked
  split
  · exact ⟨rfl, rfl, rfl⟩
  · exact ⟨rfl, rfl, rfl⟩

theorem service_same (host : Host) (link : Bool) (commands : List (Ntb × Command)) (sent : Bool) :
    ∃ dev, host.service link commands sent = { host with dev } ∧ Same host.dev dev := by
  unfold Host.service
  split
  · exact ⟨host.dev, rfl, rfl, rfl, rfl⟩
  · split
    · have heard := commands_same commands (host.dev.setLink true)
      have told := publishAvailable_same
        (commands.foldl (fun dev (ntb, command) => dev.handle ntb command)
          (host.dev.setLink true)) sent
      exact ⟨_, rfl, told.segment.trans heard.segment, told.removed.trans heard.removed,
        told.available.trans heard.available⟩
    · exact ⟨_, rfl, rfl, rfl, rfl⟩

/-! ## The library calls -/

/-- A call keeps the handle in step with the segment, and the mapping with the
driver's mappings. -/
structure Outcome.Keeps (o : Outcome) (e : Endpoint) (host : Host) : Prop where
  segment : ∀ es, Matches es host.dev e.localSegment →
      Matches (es ++ o.events) o.host.dev o.endpoint.localSegment
  reachable : e.Reachable → o.endpoint.Reachable
  mappings : host.mappings = e.buffer.toList → o.host.mappings = o.endpoint.buffer.toList
  freed : ∀ f, Event.freed f ∈ o.events → f.mapped = false

/-- A call that touches neither the segment nor the mapping. -/
theorem keeps_quiet {o : Outcome} (driver : o.host = host)
    (handle : o.endpoint.localSegment = e.localSegment)
    (desc : o.endpoint.sd = e.sd ∨ e.localSegment = none) (map : o.endpoint.map = e.map)
    (harmless : Harmless o.events) : o.Keeps e host := by
  refine ⟨?_, ?_, ?_, ?_⟩
  · intro es held
    rw [driver, handle]
    exact held.quiet harmless
  · intro reachable made
    rw [handle] at made
    rcases desc with same | none
    · exact same.trans (reachable made)
    · rw [none] at made
      contradiction
  · intro mappings
    rw [driver, Endpoint.buffer, map]
    exact mappings
  · exact fun f member => absurd member (harmless.freed f)

theorem sciOpen_keeps (c : Choice) (host : Host) (free : e.localSegment = none) :
    (sciOpen c e host).Keeps e host ∧ (sciOpen c e host).host = host := by
  unfold sciOpen
  split_ifs
  · exact ⟨keeps_quiet rfl rfl (Or.inr free) rfl harmless_nil, rfl⟩
  · exact ⟨keeps_quiet rfl rfl (Or.inr free) rfl (harmless_deeds [.acquire .fd, .release .fd]), rfl⟩
  · exact ⟨keeps_quiet rfl rfl (Or.inr free) rfl (harmless_deeds [.acquire .fd, .acquire .desc]),
      rfl⟩

theorem allocSegment_id {id : BitVec 32} (made : SisciDev.allocSegment ntb id size = .ok s) :
    s.id = id := by
  simp only [SisciDev.allocSegment, bind, Except.bind] at made
  split at made
  · contradiction
  split at made
  · contradiction
  split_ifs at made
  split at made
  · contradiction
  split_ifs at made
  split at made
  · contradiction
  · exact congrArg Segment.id (Except.ok.inj made).symm

/-- The allocation on a driver without a segment. -/
theorem alloc_empty (ntb : Ntb) (bufferSize : Nat) (id : BitVec 32) (size : Nat)
    (empty : dev.segment = none) :
    (∃ e, dev.allocLocalSegmentLocked ntb bufferSize id size = (none, dev, .error e)) ∨
      dev.removed = false ∧ ∃ s, s.id = id ∧
        dev.allocLocalSegmentLocked ntb bufferSize id size =
          (none,
            { dev with
              segment := some s, inbound := some (s.dma, s.size), localAvailable := false,
              localPublished := false }, .ok ()) := by
  have created := SisciDev.alloc_created ntb bufferSize dev id size
  generalize dev.allocLocalSegmentLocked ntb bufferSize id size = out at created ⊢
  cases created with
  | refused reason => exact Or.inl ⟨_, rfl⟩
  | matched present enough => cases empty.symm.trans present
  | fresh absent running size =>
    rcases dev.installSegment_cases ntb id size with ⟨e, same⟩ | ⟨s, made, installed⟩
    · exact Or.inl ⟨e, by rw [same]⟩
    · exact Or.inr ⟨eq_false_of_ne_true running, s, allocSegment_id made, by rw [installed]⟩
  | replaced present => cases empty.symm.trans present

theorem sciCreateSegment_keeps (id : BitVec 32) (size : Nat) (c : Choice)
    (empty : host.dev.segment = none)
    (free : e.localSegment = none) : (sciCreateSegment id size c e host).Keeps e host := by
  unfold sciCreateSegment
  by_cases refused : e.sd = false ∨ size = 0
  · rw [if_pos refused]
    exact keeps_quiet rfl rfl (Or.inl rfl) rfl harmless_nil
  rw [if_neg refused]
  have opened : e.sd = true := by
    rw [not_or, Bool.not_eq_false] at refused
    exact refused.1
  -- Nothing is freed, as there was no segment.
  rcases alloc_empty c.ntb c.bufferSize id size empty with
    ⟨error, failed⟩ | ⟨present, s, named, made⟩
  · simp only [Host.create, failed, Host.freed, Option.toList_none, List.map_nil, List.append_nil]
    refine ⟨?_, fun _ _ => opened, fun mappings => mappings,
      fun f member => absurd member ((harmless_uses _).freed f)⟩
    intro es held
    rw [free] at held
    exact held.quiet (harmless_uses _)
  · simp only [Host.create, made, Host.freed, Option.toList_none, List.map_nil, List.append_nil]
    cases c.memory with
    | false =>
      refine ⟨?_, fun _ _ => opened, fun mappings => mappings, ?_⟩
      · exact fun es held => ⟨rfl, iff_of_true rfl (Or.inl (by simp))⟩
      · intro f member
        simp [uses] at member
    | true =>
      have harmless := (harmless_uses [.desc, .fd]).append (harmless_deeds [.acquire .localSegment])
      refine ⟨?_, fun _ _ => opened, fun mappings => mappings,
        fun f member => absurd member (harmless.freed f)⟩
      intro es held
      rw [free] at held
      refine ⟨?_, present, s, rfl, named⟩
      have unlost : ¬Lost es := by
        rw [← held.2, empty]
        exact Bool.false_ne_true
      exact harmless.lost.not.mpr unlost

/-- The requests that leave the segment where it is. -/
theorem request_same (request : Request) (id : BitVec 32) (sent : Bool) (other : request ≠ .remove)
    (host : Host) :
    ∃ dev, afterCall host (request.call id sent) = ({ host with dev }, []) ∧
      dev.segment = host.dev.segment ∧ dev.removed = host.dev.removed := by
  cases request with
  | prepare => exact ⟨host.dev, rfl, rfl, rfl⟩
  | setAvailable =>
    unfold afterCall
    simp only [Request.call, Host.step]
    split
    · exact ⟨host.dev, rfl, rfl, rfl⟩
    · have told :=
        publishAvailable_same { host.dev with localAvailable := true, localPublished := false } sent
      exact ⟨_, rfl, told.segment, told.removed⟩
  | setUnavailable =>
    unfold afterCall
    simp only [Request.call, Host.step]
    split
    · exact ⟨host.dev, rfl, rfl, rfl⟩
    · exact ⟨_, rfl, rfl, rfl⟩
  | remove => exact absurd rfl other

theorem sciSegment_keeps (request : Request) (other : request ≠ .remove) (c : Choice) (e : Endpoint)
    (host : Host) :
    (sciSegment request c e host).Keeps e host := by
  unfold sciSegment
  split
  · exact keeps_quiet rfl rfl (Or.inl rfl) rfl harmless_nil
  · rename_i h found
    split_ifs
    · exact keeps_quiet rfl rfl (Or.inl rfl) rfl harmless_nil
    obtain ⟨dev, called, segment, removed⟩ := request_same request h.segmentId c.sent other host
    simp only [ioctlSegment, called, List.map_nil, List.append_nil]
    refine ⟨?_, fun reachable => reachable, fun mappings => mappings,
      fun f member => absurd member ((harmless_uses _).freed f)⟩
    intro es held
    rw [found] at held ⊢
    obtain ⟨owned, present, there⟩ := held
    exact ⟨(harmless_uses _).lost.not.mpr owned, removed.trans present, by rwa [segment]⟩

/-- REMOVE_SEGMENT of the segment that is there: it stays, withdrawn, when the
peer cannot be told. -/
theorem ioctlSegment_remove (c : Choice) (present : host.dev.removed = false)
    (found : host.dev.named h.segmentId = some s) : ∃ dev, dev.localAvailable = false ∧
      (dev.segment = host.dev.segment ∧
          ioctlSegment .remove c h host =
            ({ host with dev }, uses [.localSegment, .desc, .fd], .failed) ∨
        dev.segment = none ∧
        ioctlSegment .remove c h host = ({ host with dev }, uses [.localSegment, .desc, .fd] ++
          [.freed ⟨host.buffer, host.mappings.contains host.buffer⟩], .success)) := by
  have answers : Request.answer host.dev h.segmentId c.sent .remove =
      if (host.dev.publishUnavailableLocked c.sent).2 then .success else .failed := by
    rw [Request.answer, if_neg (by rw [present]; exact Bool.false_ne_true), found]
  have removes :
      afterCall host (.removeSegment h.segmentId c.sent) = host.remove h.segmentId c.sent := rfl
  rw [ioctlSegment, answers, Request.call, removes, Host.remove, found]
  cases told : host.dev.publishUnavailableLocked c.sent with
  | mk dev sent =>
    obtain rfl : host.dev.withdraw = dev := congrArg Prod.fst told
    cases sent with
    | false => exact ⟨host.dev.withdraw, rfl, Or.inl ⟨rfl, rfl⟩⟩
    | true => exact ⟨host.dev.withdraw.freeLocalSegmentLocked, rfl, Or.inr ⟨rfl, rfl⟩⟩

theorem sciRemoveSegment_keeps (c : Choice) (reachable : e.Reachable) (none : host.mappings = [])
    (held : Matches before host.dev e.localSegment) : (sciRemoveSegment c e host).Keeps e host := by
  unfold sciRemoveSegment
  split
  · exact keeps_quiet rfl rfl (Or.inl rfl) rfl harmless_nil
  rename_i h found
  rw [found] at held
  obtain ⟨-, present, s, there, same⟩ := held
  have opened : e.sd = true := reachable (by rw [found]; rfl)
  have named : host.dev.named h.segmentId = some s := by
    simp [SisciDev.named, present, there, same]
  rw [if_neg (by rw [opened]; exact Bool.noConfusion)]
  obtain ⟨dev, withdrawn, ⟨stays, result⟩ | ⟨gone, result⟩⟩ := ioctlSegment_remove c present named
  · simp only [result, if_true]
    refine ⟨?_, fun _ _ => opened, fun mappings => mappings, ?_⟩
    · intro es _
      refine ⟨withdrawn, iff_of_true ?_ (Or.inr (by simp))⟩
      rw [stays, there]
      rfl
    · intro f member
      simp [uses] at member
  · simp only [result, reduceCtorEq, if_false]
    refine ⟨?_, fun _ _ => opened, fun mappings => mappings, ?_⟩
    · intro es matched
      rw [found] at matched
      refine ⟨withdrawn, iff_of_false (by rw [gone]; exact Bool.false_ne_true) ?_⟩
      have owned := matched.1
      simp only [Lost, not_or] at owned
      simp [Lost, uses, owned]
    · intro f member
      simp only [uses, List.map_cons, List.map_nil, List.mem_append, List.mem_cons,
        List.not_mem_nil, or_false, reduceCtorEq, false_or, Event.freed.injEq] at member
      rw [member, none]
      rfl

theorem sciConnectSegment_keeps (id : BitVec 32) (c : Choice) (e : Endpoint) (host : Host) :
    (sciConnectSegment id c e host).Keeps e host := by
  unfold sciConnectSegment
  by_cases closed : e.sd = false
  · rw [if_pos closed]
    exact keeps_quiet rfl rfl (Or.inl rfl) rfl harmless_nil
  by_cases asleep : c.woken = false
  · rw [if_neg closed, if_pos asleep]
    exact keeps_quiet rfl rfl (Or.inl rfl) rfl (harmless_uses _)
  rw [if_neg closed, if_neg asleep]
  cases host.dev.connectSegment id with
  | error error => exact keeps_quiet rfl rfl (Or.inl rfl) rfl (harmless_uses _)
  | ok size =>
    cases c.memory with
    | false => exact keeps_quiet rfl rfl (Or.inl rfl) rfl (harmless_uses _)
    | true =>
      have harmless :=
        (harmless_uses [.desc, .fd]).append (harmless_deeds [.acquire .remoteSegment])
      exact keeps_quiet rfl rfl (Or.inl rfl) rfl harmless

theorem sciDisconnectSegment_keeps (e : Endpoint) (host : Host) :
    (sciDisconnectSegment e host).Keeps e host := by
  unfold sciDisconnectSegment
  split
  · exact keeps_quiet rfl rfl (Or.inl rfl) rfl harmless_nil
  · exact keeps_quiet rfl rfl (Or.inl rfl) rfl (harmless_deeds [.release .remoteSegment])

/-- A mapping that cannot be kept is gone from the driver's again. -/
theorem drop_added (host : Host) (buffer : Option Nat) (none : host.mappings = []) :
    (dropMapping (addMapping host buffer) buffer).mappings = [] := by
  cases buffer with
  | none => simp [dropMapping, addMapping, none]
  | some b => simp [dropMapping, addMapping, none]

theorem mapping_dev (host : Host) (buffer : Option Nat) :
    (addMapping host buffer).dev = host.dev ∧ (dropMapping host buffer).dev = host.dev := by
  cases buffer with
  | none => exact ⟨rfl, rfl⟩
  | some b => exact ⟨rfl, rfl⟩

theorem sciMapSegment_keeps (h : Handle) (buffer : Option Nat) (c : Choice) (host : Host)
    (free : e.map = none) :
    (sciMapSegment h buffer c e host).Keeps e host := by
  have unmapped (mappings : host.mappings = e.buffer.toList) : host.mappings = [] := by
    rw [mappings, Endpoint.buffer, free]
    rfl
  unfold sciMapSegment
  by_cases closed : e.sd = false
  · rw [if_pos closed]
    exact keeps_quiet rfl rfl (Or.inl rfl) rfl harmless_nil
  rw [if_neg closed]
  cases h.map host.dev 0 0 c.remap with
  | error error => exact keeps_quiet rfl rfl (Or.inl rfl) free.symm (harmless_uses _)
  | ok found =>
    cases c.memory with
    | false =>
      have harmless :=
        (harmless_uses [.desc, .fd]).append (harmless_deeds [.acquire .mapping, .release .mapping])
      refine ⟨?_, fun reachable => reachable,
        fun mappings => drop_added host buffer (unmapped mappings), ?_⟩
      · intro es held
        simp only [if_true, (mapping_dev _ buffer).2, (mapping_dev host buffer).1]
        exact held.quiet harmless
      · exact fun f member => absurd member (harmless.freed f)
    | true =>
      have harmless :=
        (harmless_uses [.desc, .fd]).append (harmless_deeds [.acquire .mapping, .acquire .map])
      refine ⟨?_, fun reachable => reachable, ?_, ?_⟩
      · exact fun es held => held.quiet harmless
      · intro mappings
        change host.mappings ++ buffer.toList = buffer.toList
        rw [unmapped mappings, List.nil_append]
      · exact fun f member => absurd member (harmless.freed f)

theorem sciMapLocalSegment_keeps (c : Choice) (host : Host) (free : e.map = none) :
    (sciMapLocalSegment c e host).Keeps e host := by
  unfold sciMapLocalSegment
  split
  · exact keeps_quiet rfl rfl (Or.inl rfl) rfl harmless_nil
  · exact sciMapSegment_keeps _ _ c host free

theorem sciMapRemoteSegment_keeps (c : Choice) (host : Host) (free : e.map = none) :
    (sciMapRemoteSegment c e host).Keeps e host := by
  unfold sciMapRemoteSegment
  split
  · exact keeps_quiet rfl rfl (Or.inl rfl) rfl harmless_nil
  · exact sciMapSegment_keeps _ _ c host free

theorem sciUnmapSegment_keeps (e : Endpoint) (host : Host) :
    (sciUnmapSegment e host).Keeps e host := by
  unfold sciUnmapSegment
  split
  · exact keeps_quiet rfl rfl (Or.inl rfl) rfl harmless_nil
  rename_i m found
  have harmless := (harmless_uses [.map]).append (harmless_deeds [.release .mapping, .release .map])
  refine ⟨?_, fun reachable => reachable, ?_, fun f member => absurd member (harmless.freed f)⟩
  · intro es held
    rw [(mapping_dev host m.buffer).2]
    exact held.quiet harmless
  · intro mappings
    rw [Endpoint.buffer, found, Option.bind_some] at mappings
    cases buffer : m.buffer with
    | none =>
      rw [buffer] at mappings
      exact mappings
    | some b =>
      rw [buffer] at mappings
      simp only [dropMapping, mappings, Endpoint.buffer, Option.toList_some, Option.bind_none,
        Option.toList_none, List.erase_cons_head]

theorem sciCreateMapSequence_keeps (c : Choice) (e : Endpoint) (host : Host) :
    (sciCreateMapSequence c e host).Keeps e host := by
  unfold sciCreateMapSequence
  split_ifs
  · exact keeps_quiet rfl rfl (Or.inl rfl) rfl harmless_nil
  · exact keeps_quiet rfl rfl (Or.inl rfl) rfl harmless_nil
  · exact keeps_quiet rfl rfl (Or.inl rfl) rfl (harmless_deeds [.acquire .sequence])

theorem sciRemoveSequence_keeps (e : Endpoint) (host : Host) :
    (sciRemoveSequence e host).Keeps e host := by
  unfold sciRemoveSequence
  split_ifs
  · exact keeps_quiet rfl rfl (Or.inl rfl) rfl harmless_nil
  · exact keeps_quiet rfl rfl (Or.inl rfl) rfl (harmless_deeds [.release .sequence])

theorem sciClose_keeps (host : Host) (free : e.localSegment = none) :
    (sciClose e host).Keeps e host := by
  unfold sciClose
  split_ifs
  · exact keeps_quiet rfl rfl (Or.inl rfl) rfl harmless_nil
  · exact keeps_quiet rfl rfl (Or.inr free) rfl
      ((harmless_uses [.desc]).append (harmless_deeds [.release .fd, .release .desc]))

/-! ## The process -/

section Steps
variable {p q : Process} {o : Outcome}

/-- The process only looks at what it has, or goes on. -/
theorem Tidy.looks (tidy : Tidy es ⟨host, p⟩) (same : q.ctx = p.ctx) (harmless : Harmless fs)
    (early : q.pc.early = true → p.pc.early = true) : Tidy (es ++ fs) ⟨host, q⟩ := by
  refine ⟨?_, ?_, fun first => tidy.early (early first), ?_, ?_⟩
  · rw [Process.handle, same]
    exact tidy.segment.quiet harmless
  · exact fun e there => tidy.reachable e (same.symm.trans there)
  · rw [Process.buffer, same]
    exact tidy.mappings
  · intro f member
    rcases List.mem_append.mp member with before | now
    · exact tidy.freed f before
    · exact absurd now (harmless.freed f)

theorem Tidy.called (tidy : Tidy es ⟨host, p⟩) (there : p.ctx = some e) (keeps : o.Keeps e host)
    (after : q.ctx = some o.endpoint) (early : q.pc.early = true → o.host.dev.segment = none) :
    Tidy (es ++ o.events) ⟨o.host, q⟩ := by
  have segment := tidy.segment
  have mappings := tidy.mappings
  rw [Process.handle, there] at segment
  rw [Process.buffer, there] at mappings
  refine ⟨?_, ?_, early, ?_, ?_⟩
  · rw [Process.handle, after]
    exact keeps.segment es segment
  · intro f found
    obtain rfl := Option.some.inj (after.symm.trans found)
    exact keeps.reachable (tidy.reachable e there)
  · rw [Process.buffer, after]
    exact keeps.mappings mappings
  · intro f member
    rcases List.mem_append.mp member with before | now
    · exact tidy.freed f before
    · exact keeps.freed f now

theorem Tidy.tries (tidy : Tidy es ⟨host, p⟩) (there : p.ctx = some e) (keeps : o.Keeps e host)
    (early : next.early = true → o.host.dev.segment = none) : Tidy (es ++ (p.tries next o).2)
    (p.tries next o).1 := by
  apply tidy.called there keeps rfl
  intro first
  dsimp only at first
  split_ifs at first
  · exact early first
  · contradiction

theorem Tidy.closes (tidy : Tidy es ⟨host, p⟩) (there : p.ctx = some e) (keeps : o.Keeps e host)
    (late : next.early = false) : Tidy (es ++ (p.closes next o).2) (p.closes next o).1 :=
  tidy.called there keeps rfl fun first => absurd (late.symm.trans first) Bool.false_ne_true

theorem publish_tidy (tidy : Tidy es ⟨host, p⟩) (there : p.ctx = some e) (opt : ProfileOptions)
    (c : Choice) :
    Tidy (es ++ (p.publishes opt c e host).2) (p.publishes opt c e host).1 := by
  have keeps := sciSegment_keeps .setAvailable (by decide) c e host
  have looked : Tidy (es ++ uses [.mapping]) ⟨host, p⟩ := tidy.looks rfl (harmless_uses _) id
  unfold Process.publishes
  split_ifs with small
  · exact tidy.looks rfl harmless_nil fun first => absurd first Bool.false_ne_true
  dsimp only
  split_ifs with done
  · rw [← List.append_assoc]
    have called : Tidy (es ++ uses [.mapping] ++ (sciSegment .setAvailable c e host).events)
        ⟨_, { p with pc := .receive, ctx := some (sciSegment .setAvailable c e host).endpoint }⟩ :=
      looked.called there keeps rfl fun first => absurd first Bool.false_ne_true
    -- `available` is the process's own note.
    refine ⟨called.segment, ?_, fun first => absurd first Bool.false_ne_true,
      called.mappings, called.freed⟩
    intro f found
    obtain rfl := Option.some.inj found
    exact called.reachable (sciSegment .setAvailable c e host).endpoint rfl
  · rw [← List.append_assoc, ← List.append_assoc]
    have called : Tidy (es ++ uses [.mapping] ++ (sciSegment .setAvailable c e host).events)
        ⟨_, { p with pc := .setUnavailable, ctx := some (sciSegment .setAvailable c e
          host).endpoint }⟩ :=
      looked.called there keeps rfl fun first => absurd first Bool.false_ne_true
    refine called.looks rfl ?_ id
    exact List.forall_mem_singleton.mpr rfl

theorem call_tidy (tidy : Tidy es ⟨host, p⟩) (sound : p.Sound) (there : p.ctx = some e)
    (called : p.call opt c e host = some out) : Tidy (es ++ out.2) out.1 := by
  have expects : p.pc.Expects e := by
    have expects := sound.ctx
    rwa [there] at expects
  have early := tidy.early
  obtain ⟨pc, ctx, hasPattern, ok⟩ := p
  dsimp only at there expects early
  subst there
  have goes {q : Process} {rs : List Resource} (same : q.ctx = some e) (late : q.pc.early = false) :
      Tidy (es ++ uses rs) ⟨host, q⟩ :=
    tidy.looks same (harmless_uses rs) fun first =>
      absurd (late.symm.trans first) Bool.false_ne_true
  cases pc with
  | enter => contradiction
  | done => contradiction
  | setPath =>
    obtain rfl := Option.some.inj called
    exact tidy.looks rfl harmless_nil fun _ => rfl
  | openDevice again =>
    obtain ⟨keeps, unchanged⟩ := sciOpen_keeps c host expects.2.1
    have empty : (sciOpen c e host).host.dev.segment = none := by rw [unchanged]; exact early rfl
    simp only [Process.call] at called
    split at called
    · obtain rfl := Option.some.inj called
      exact tidy.called rfl keeps rfl fun _ => empty
    · obtain rfl := Option.some.inj called
      exact tidy.tries rfl keeps fun _ => empty
  | createSegment =>
    obtain rfl := Option.some.inj called
    exact tidy.tries rfl (sciCreateSegment_keeps _ _ c (early rfl) expects.1) fun first =>
      absurd first Bool.false_ne_true
  | prepareSegment =>
    obtain rfl := Option.some.inj called
    exact tidy.tries rfl (sciSegment_keeps .prepare (by decide) c e host) fun first =>
      absurd first Bool.false_ne_true
  | mapLocal =>
    obtain rfl := Option.some.inj called
    exact tidy.tries rfl (sciMapLocalSegment_keeps c host expects) fun first =>
      absurd first Bool.false_ne_true
  | publish =>
    obtain rfl := Option.some.inj called
    exact publish_tidy tidy rfl opt c
  | receive =>
    simp only [Process.call] at called
    split at called
    all_goals
      obtain rfl := Option.some.inj called
      exact goes rfl rfl
  | connectSegment =>
    obtain rfl := Option.some.inj called
    exact tidy.tries rfl (sciConnectSegment_keeps _ c e host) fun first =>
      absurd first Bool.false_ne_true
  | mapRemote =>
    obtain rfl := Option.some.inj called
    exact tidy.tries rfl (sciMapRemoteSegment_keeps c host expects.2.1) fun first =>
      absurd first Bool.false_ne_true
  | createSequence =>
    obtain rfl := Option.some.inj called
    exact tidy.tries rfl (sciCreateMapSequence_keeps c e host) fun first =>
      absurd first Bool.false_ne_true
  | handshake =>
    simp only [Process.call] at called
    split at called
    · obtain rfl := Option.some.inj called
      exact goes rfl rfl
    · obtain rfl := Option.some.inj called
      exact goes rfl rfl
    · split_ifs at called
      · obtain rfl := Option.some.inj called
        exact tidy.looks rfl ((harmless_uses _).append (harmless_deeds [.acquire .pattern]))
          fun first =>
          absurd first Bool.false_ne_true
      · obtain rfl := Option.some.inj called
        exact goes rfl rfl
  | send =>
    simp only [Process.call] at called
    split at called
    all_goals
      obtain rfl := Option.some.inj called
      exact goes rfl rfl
  | freePattern =>
    obtain rfl := Option.some.inj called
    exact tidy.looks rfl (harmless_deeds [.release .pattern]) fun first =>
      absurd first Bool.false_ne_true
  | setUnavailable =>
    simp only [Process.call] at called
    split_ifs at called
    · obtain rfl := Option.some.inj called
      exact tidy.closes rfl (sciSegment_keeps .setUnavailable (by decide) c e host) rfl
    · obtain rfl := Option.some.inj called
      exact tidy.looks rfl harmless_nil fun first => absurd first Bool.false_ne_true
  | removeSequence =>
    obtain rfl := Option.some.inj called
    exact tidy.closes rfl (sciRemoveSequence_keeps e host) rfl
  | unmap =>
    obtain rfl := Option.some.inj called
    exact tidy.closes rfl (sciUnmapSegment_keeps e host) rfl
  | disconnect =>
    obtain rfl := Option.some.inj called
    exact tidy.closes rfl (sciDisconnectSegment_keeps e host) rfl
  | removeSegment =>
    obtain rfl := Option.some.inj called
    have none : host.mappings = [] := by
      have mappings : host.mappings = e.buffer.toList := tidy.mappings
      rw [mappings, Endpoint.buffer, expects.2.1]
      rfl
    exact tidy.closes rfl (sciRemoveSegment_keeps c (tidy.reachable e rfl) none tidy.segment) rfl
  | closeDevice =>
    obtain rfl := Option.some.inj called
    exact tidy.closes rfl (sciClose_keeps host expects.2.2.2) rfl
  | freeCtx =>
    obtain rfl := Option.some.inj called
    obtain ⟨-, unmapped, -, noLocal, -⟩ := expects
    have looked : Tidy (es ++ [.deed (.release .ctx)]) ⟨host, ⟨.freeCtx, some e, hasPattern, ok⟩⟩ :=
      tidy.looks rfl (harmless_deeds [.release .ctx]) id
    have segment := looked.segment
    have mappings := looked.mappings
    rw [Process.handle, Option.bind_some, noLocal] at segment
    rw [Process.buffer, Option.bind_some, Endpoint.buffer, unmapped] at mappings
    refine ⟨segment, ?_, fun first => absurd first Bool.false_ne_true, mappings, looked.freed⟩
    intro f found
    contradiction

end Steps

/-- A step of the process, or of the worker. -/
theorem step_tidy {s t : System} (held : s.own.Sound ∧ Tidy es s) (alone : l.Alone)
    (stepped : s.step opt l = some (t, fs)) : t.own.Sound ∧ Tidy (es ++ fs) t := by
  obtain ⟨sound, tidy⟩ := held
  refine ⟨(step_follows sound stepped).1, ?_⟩
  obtain ⟨host, p⟩ := s
  cases l with
  | own c =>
    cases there : p.ctx with
    | none =>
      simp only [System.step, Process.step, there] at stepped
      split_ifs at stepped with enter memory
      · cases stepped
        have looked : Tidy (es ++ [.deed (.acquire .ctx)]) ⟨host, p⟩ :=
          tidy.looks rfl (harmless_deeds [.acquire .ctx]) id
        have segment := looked.segment
        have mappings := looked.mappings
        rw [Process.handle, there] at segment
        rw [Process.buffer, there] at mappings
        refine ⟨segment, ?_, fun _ => tidy.early (by rw [enter]; rfl), mappings, looked.freed⟩
        intro f found
        obtain rfl := Option.some.inj found
        intro made
        contradiction
      · cases stepped
        exact tidy.looks there.symm harmless_nil fun first => absurd first Bool.false_ne_true
    | some e =>
      simp only [System.step, Process.step, there] at stepped
      obtain ⟨⟨u, gs⟩, called, same⟩ := Option.map_eq_some_iff.mp stepped
      cases same
      have looked : Tidy (es ++ uses [.ctx]) ⟨host, p⟩ := tidy.looks rfl (harmless_uses _) id
      rw [← List.append_assoc]
      exact call_tidy looked sound there called
  | other call =>
    cases call with
    | service link commands sent =>
      obtain ⟨dev, served, same⟩ := service_same host link commands sent
      simp only [System.step, Host.step, Option.map_some, served] at stepped
      cases stepped
      have harmless : Harmless ([].map Event.freed) := harmless_nil
      refine ⟨tidy.segment.same same harmless, tidy.reachable, ?_, tidy.mappings, ?_⟩
      · exact fun first => same.segment.trans (tidy.early first)
      · intro f member
        rcases List.mem_append.mp member with before | now
        · exact tidy.freed f before
        · exact absurd now (harmless.freed f)
    | createSegment => exact alone.elim
    | prepareSegment => exact alone.elim
    | setAvailable => exact alone.elim
    | setUnavailable => exact alone.elim
    | removeSegment => exact alone.elim
    | mmapLocal => exact alone.elim
    | munmap => exact alone.elim

/-- A process that is the driver's only user and has closed its endpoint has left
no mapping and no segment that the driver's record marks available, no buffer was
freed under its mapping, and the driver still has its segment exactly when there
was no memory for its handle or its removal failed. Whether the peer was told that
the segment is gone is not in the record. -/
theorem process_leaves_iff (opt : ProfileOptions) (empty : host.dev.segment = none)
    (withdrawn : host.dev.localAvailable = false) (unmapped : host.mappings = [])
    (alone : ∀ l ∈ ls, l.Alone)
    (path : run (System.step opt) ⟨host, .start⟩ ls = some (t, es)) (ended : t.own.pc = .done) :
    (t.host.dev.segment.isSome ↔ Event.orphaned ∈ es ∨ Event.kept ∈ es) ∧
      t.host.dev.localAvailable = false ∧ t.host.mappings = [] ∧
      ∀ f, Event.freed f ∈ es → f.mapped = false := by
  have initial : Tidy [] ⟨host, .start⟩ := by
    refine ⟨⟨withdrawn, ?_⟩, ?_, fun _ => empty, unmapped, ?_⟩
    · rw [empty]
      exact iff_of_false Bool.false_ne_true (by simp [Lost])
    · intro e found
      contradiction
    · intro f member
      contradiction
  obtain ⟨sound, tidy⟩ := run_invariant (P := fun es s => s.own.Sound ∧ Tidy es s)
    (fun held alone stepped => step_tidy held alone stepped) ⟨start_sound, initial⟩
      (along_labels alone _) path
  have gone : t.own.ctx = none := by
    have ctx := sound.ctx
    rw [ended] at ctx
    cases there : t.own.ctx with
    | none => rfl
    | some e =>
      rw [there] at ctx
      exact ctx.elim
  have segment := tidy.segment
  have mappings := tidy.mappings
  rw [Process.handle, gone] at segment
  rw [Process.buffer, gone] at mappings
  exact ⟨segment.2, segment.1, mappings, tidy.freed⟩

def receiverOptions : ProfileOptions :=
  { ProfileOptions.default with devicePath := bytes "/dev/ntb_idt_sisci" }

/-- SET_AVAILABLE fails but leaves the segment available, so that the worker
publishes it; the endpoint takes it for unavailable, and REMOVE_SEGMENT finds the
peer out of reach. -/
def unpublished : List Label :=
  List.replicate 6 (.own smooth) ++ [.other (.service true [] true),
    .own { smooth with sent := false }, .other (.service true [] true)] ++
      List.replicate 4 (.own smooth) ++ [.own { smooth with sent := false }] ++
    List.replicate 2 (.own smooth)

theorem process_leaves_segment :
    ∃ t es, run (System.step receiverOptions) ⟨.loaded, .start⟩ unpublished = some (t, es) ∧
      t.own.pc = .done ∧ t.host.dev.segment.isSome ∧ t.host.dev.localAvailable = false ∧
      t.host.mappings = [] := by
  have reads : (run (System.step receiverOptions) ⟨.loaded, .start⟩ unpublished).map
      (fun out => (out.1.own.pc, decide (Event.kept ∈ out.2))) = some (.done, true) := by
        decide +kernel
  obtain ⟨⟨t, es⟩, path, same⟩ := Option.map_eq_some_iff.mp reads
  obtain ⟨ended, kept⟩ := Prod.mk.inj same
  obtain ⟨left, withdrawn, unmapped, -⟩ :=
    process_leaves_iff receiverOptions rfl rfl rfl (by decide) path ended
  exact ⟨t, es, path, ended, left.mpr (Or.inr (of_decide_eq_true kept)), withdrawn, unmapped⟩

end IdtNtb.Profile.SisciEndpoint
