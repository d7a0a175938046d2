import IdtNtb.Lib.Transition
import IdtNtb.Sisci.Driver

/-! Lifetime of the local buffer. `mmap` hands out the buffer of the moment and
keeps no record of it; REMOVE_SEGMENT, and CREATE_SEGMENT with another identifier
or a larger size, free the buffer without asking who still has it mapped. The
mutex makes every call one step. -/
namespace IdtNtb.Sisci
open Kernel Transition

/-- A driver and the processes that use it. `buffer` is the identity of the last
buffer that was allocated, and `mappings` are the live local mappings, each by
the buffer it leads to. -/
structure Host where
  dev : SisciDev
  buffer : Nat
  mappings : List Nat

def Host.loaded : Host := ⟨.probed, 0, []⟩

/-- A call of a process through some open file, or a run of `service_work`. The
results of its sends and of the mapping are part of it. -/
inductive HostCall where
  | createSegment (ntb : Ntb) (bufferSize : Nat) (id : BitVec 32) (size : Nat)
  | prepareSegment (id : BitVec 32)
  | setAvailable (id : BitVec 32) (sent : Bool)
  | setUnavailable (id : BitVec 32) (sent : Bool)
  | removeSegment (id : BitVec 32) (sent : Bool)
  | mmapLocal (size : Nat) (remap : Except Errno Unit)
  | munmap (i : Nat)
  | service (link : Bool) (commands : List (Ntb × Command)) (sent : Bool)

/-- A buffer is freed, with whether a live mapping leads to it. -/
structure Freed where
  buffer : Nat
  mapped : Bool
  deriving DecidableEq

namespace Host

/-- `dma_free_coherent` of the buffer, if there is one. -/
def freed (s : Host) (old : Option Segment) : List Freed :=
  old.toList.map fun _ => ⟨s.buffer, s.mappings.contains s.buffer⟩

def create (s : Host) (ntb : Ntb) (bufferSize : Nat) (id : BitVec 32) (size : Nat) :
    Host × List Freed :=
  let (old, dev, result) := s.dev.allocLocalSegmentLocked ntb bufferSize id size
  let allocated := result.isOk && (old.isSome || s.dev.segment.isNone)
  (⟨dev, if allocated then s.buffer + 1 else s.buffer, s.mappings⟩, s.freed old)

def remove (s : Host) (id : BitVec 32) (sent : Bool) : Host × List Freed :=
  match s.dev.named id with
  | none => (s, [])
  | some segment =>
      match s.dev.publishUnavailableLocked sent with
      | (dev, false) => ({ s with dev }, [])
      | (dev, true) => ({ s with dev := dev.freeLocalSegmentLocked }, s.freed (some segment))

def service (s : Host) (link : Bool) (commands : List (Ntb × Command)) (sent : Bool) : Host :=
  if s.dev.removed then s
  else if link then
    let dev := commands.foldl (fun dev (ntb, command) => dev.handle ntb command)
      (s.dev.setLink true)
    { s with dev := dev.publishAvailableLocked sent }
  else { s with dev := (s.dev.setLink false).markPeerUnreadyLocked }

def step (s : Host) : HostCall → Option (Host × List Freed)
  | .createSegment ntb bufferSize id size => some (s.create ntb bufferSize id size)
  | .prepareSegment _ => some (s, [])
  | .setAvailable id sent =>
      match s.dev.named id with
      | none => some (s, [])
      | some _ =>
          let dev := { s.dev with localAvailable := true, localPublished := false }
          some ({ s with dev := dev.publishAvailableLocked sent }, [])
  | .setUnavailable id sent =>
      match s.dev.named id with
      | none => some (s, [])
      | some _ => some ({ s with dev := (s.dev.publishUnavailableLocked sent).1 }, [])
  | .removeSegment id sent => some (s.remove id sent)
  | .mmapLocal size remap =>
      match s.dev.mmap .localSegment size remap with
      | .error _ => some (s, [])
      | .ok _ => some ({ s with mappings := s.mappings ++ [s.buffer] }, [])
  | .munmap i => some ({ s with mappings := s.mappings.eraseIdx i }, [])
  | .service link commands sent => some (s.service link commands sent, [])

/-- The calls that free the buffer: a REMOVE_SEGMENT that is not stopped by its
UNAVAIL, and a CREATE_SEGMENT that the segment does not satisfy while it is not
available. -/
def Frees (s : Host) : HostCall → Prop
  | .removeSegment id sent =>
      (s.dev.named id).isSome ∧ (s.dev.linkUp = true → s.dev.localPublished = true → sent = true)
  | .createSegment _ bufferSize id size =>
      let size := if size = 0 then bufferSize else size
      s.dev.removed = false ∧ size ≤ sizeMax ∧ s.dev.localAvailable = false ∧
        ∃ segment, s.dev.segment = some segment ∧ ¬(segment.id = id ∧ segment.size ≥ size)
  | _ => False

/-- A buffer is freed only once it is unmapped. -/
def Unmapped (s : Host) (l : HostCall) : Prop :=
  s.Frees l → s.buffer ∉ s.mappings

end Host

inductive Called (s : Host) : HostCall → Host → List Freed → Prop
  | kept (dev : SisciDev) (same : dev.segment = s.dev.segment) (quiet : ¬s.Frees l) :
      Called s l { s with dev } []
  | mapped (present : s.dev.segment.isSome) :
      Called s (.mmapLocal size remap) { s with mappings := s.mappings ++ [s.buffer] } []
  | unmapped (i : Nat) : Called s (.munmap i) { s with mappings := s.mappings.eraseIdx i } []
  | allocated (dev : SisciDev) (buffer : Nat) (absent : s.dev.segment = none) (quiet : ¬s.Frees l) :
      Called s l ⟨dev, buffer, s.mappings⟩ []
  | freed (dev : SisciDev) (buffer : Nat) (frees : s.Frees l) :
      Called s l ⟨dev, buffer, s.mappings⟩ [⟨s.buffer, s.mappings.contains s.buffer⟩]

variable {s t : Host} {es : List Freed}

theorem create_frees (ntb : Ntb) (bufferSize : Nat) (id : BitVec 32) (size : Nat) :
    (s.dev.allocLocalSegmentLocked ntb bufferSize id size).1.isSome ↔
      s.Frees (.createSegment ntb bufferSize id size) := by
  have created := SisciDev.alloc_created ntb bufferSize s.dev id size
  generalize s.dev.allocLocalSegmentLocked ntb bufferSize id size = out at created ⊢
  cases created with
  | refused reason =>
    refine iff_of_false Bool.false_ne_true ?_
    rintro ⟨running, fits, unavailable, -⟩
    rcases reason with removed | large | available
    · exact Bool.false_ne_true (running.symm.trans removed)
    · exact absurd large (Nat.not_lt.mpr fits)
    · exact Bool.false_ne_true (unavailable.symm.trans available)
  | matched present enough =>
    refine iff_of_false Bool.false_ne_true ?_
    rintro ⟨-, -, -, segment, found, other⟩
    cases present.symm.trans found
    exact other enough
  | fresh absent running size =>
    refine iff_of_false Bool.false_ne_true ?_
    rintro ⟨-, -, -, segment, found, -⟩
    cases absent.symm.trans found
  | replaced present running fits unavailable other size =>
    exact iff_of_true rfl ⟨eq_false_of_ne_true running, Nat.not_lt.mp fits,
      eq_false_of_ne_true unavailable, _, present, other⟩

instance (s : Host) : DecidablePred s.Frees
  | .createSegment ntb bufferSize id size =>
      decidable_of_iff _ (create_frees ntb bufferSize id size)
  | .removeSegment _ _ => inferInstanceAs (Decidable (_ ∧ _))
  | .prepareSegment _ | .setAvailable .. | .setUnavailable .. | .mmapLocal .. | .munmap _
  | .service .. =>
      .isFalse id

instance (s : Host) (l : HostCall) : Decidable (s.Unmapped l) :=
  inferInstanceAs (Decidable (_ → _))

theorem create_called (ntb : Ntb) (bufferSize : Nat) (id : BitVec 32) (size : Nat) :
    Called s (.createSegment ntb bufferSize id size) (s.create ntb bufferSize id size).1
      (s.create ntb bufferSize id size).2 := by
  have frees := create_frees (s := s) ntb bufferSize id size
  simp only [Host.create]
  rcases s.dev.allocLocalSegmentLocked_cases ntb bufferSize id size with
    ⟨result, same⟩ | ⟨-, segment, inbound, result, replaced⟩
  · rw [same] at frees ⊢
    have quiet : ¬s.Frees (.createSegment ntb bufferSize id size) := by simp [← frees]
    cases current : s.dev.segment with
    | none => exact .allocated _ _ current quiet
    | some segment =>
      simp only [Option.isSome_none, Option.isNone_some, Bool.or_self, Bool.and_false,
        Bool.false_eq_true, if_false]
      exact .kept s.dev rfl quiet
  · rw [replaced] at frees ⊢
    cases current : s.dev.segment with
    | none =>
      refine .allocated _ _ current ?_
      rw [← frees, current]
      nofun
    | some old =>
      refine .freed _ _ (frees.mp ?_)
      rw [current]
      rfl

theorem remove_called (id : BitVec 32) (sent : Bool) :
    Called s (.removeSegment id sent) (s.remove id sent).1 (s.remove id sent).2 := by
  have sends : (!s.dev.shouldWithdraw || sent) = true ↔
      (s.dev.linkUp = true → s.dev.localPublished = true → sent = true) := by
    unfold SisciDev.shouldWithdraw
    cases s.dev.linkUp <;> cases s.dev.localPublished <;> simp
  unfold Host.remove SisciDev.publishUnavailableLocked
  cases found : s.dev.named id with
  | none =>
    refine .kept s.dev rfl ?_
    simp [Host.Frees, found]
  | some segment =>
    dsimp only
    cases sending : (!s.dev.shouldWithdraw || sent) with
    | false =>
      refine .kept _ rfl ?_
      rintro ⟨-, willing⟩
      rw [← sends, sending] at willing
      cases willing
    | true =>
      refine .freed _ _ ⟨?_, sends.mp sending⟩
      rw [found]
      rfl

theorem publishAvailableLocked_segment (dev : SisciDev) (sent : Bool) :
    (dev.publishAvailableLocked sent).segment = dev.segment := by
  unfold SisciDev.publishAvailableLocked
  split <;> rfl

theorem commands_segment (commands : List (Ntb × Command)) (dev : SisciDev) :
    (commands.foldl (fun dev (ntb, command) => dev.handle ntb command) dev).segment =
      dev.segment := by
  induction commands generalizing dev with
  | nil => rfl
  | cons first rest ih =>
    rw [List.foldl_cons, ih]
    exact congrArg SisciDev.Offer.segment (dev.handle_offer first.1 first.2)

theorem service_segment (s : Host) (link : Bool) (commands : List (Ntb × Command)) (sent : Bool) :
    ∃ dev, s.service link commands sent = { s with dev } ∧ dev.segment = s.dev.segment := by
  unfold Host.service
  split
  · exact ⟨s.dev, rfl, rfl⟩
  · split
    · refine ⟨_, rfl, ?_⟩
      rw [publishAvailableLocked_segment, commands_segment]
      rfl
    · exact ⟨_, rfl, rfl⟩

theorem step_called (next : s.step l = some (t, es)) : Called s l t es := by
  cases l with
  | createSegment ntb bufferSize id size =>
    cases next
    exact create_called ntb bufferSize id size
  | prepareSegment id =>
    cases next
    exact .kept s.dev rfl not_false
  | setAvailable id sent =>
    simp only [Host.step] at next
    split at next
    · cases next
      exact .kept s.dev rfl not_false
    · cases next
      exact .kept _ (publishAvailableLocked_segment _ sent) not_false
  | setUnavailable id sent =>
    simp only [Host.step] at next
    split at next
    · cases next
      exact .kept s.dev rfl not_false
    · cases next
      exact .kept _ rfl not_false
  | removeSegment id sent =>
    have called := remove_called (s := s) id sent
    rwa [Option.some.inj next] at called
  | mmapLocal size remap =>
    simp only [Host.step] at next
    split at next
    · cases next
      exact .kept s.dev rfl not_false
    · rename_i found mapped
      obtain ⟨segment, current, -⟩ := SisciDev.mmap_local mapped
      cases next
      exact .mapped (by rw [current]; rfl)
  | munmap i =>
    cases next
    exact .unmapped i
  | service link commands sent =>
    obtain ⟨dev, served, same⟩ := service_segment s link commands sent
    cases next
    rw [served]
    exact .kept dev same not_false

/-- Every live mapping leads to the buffer that the driver holds. -/
def Host.Current (s : Host) : Prop :=
  ∀ m ∈ s.mappings, s.dev.segment.isSome ∧ m = s.buffer

/-- Without a segment, or with its buffer unmapped, there are no mappings. -/
theorem Host.Current.none (held : s.Current) (gone : s.dev.segment = none ∨ s.buffer ∉ s.mappings) :
    s.mappings = [] := by
  rw [List.eq_nil_iff_forall_not_mem]
  intro m member
  obtain ⟨present, rfl⟩ := held m member
  rcases gone with absent | unmapped
  · rw [absent] at present
    cases present
  · exact unmapped member

theorem step_current (held : s.Current) (unmapped : s.Unmapped l) (next : s.step l = some (t, es)) :
    t.Current := by
  have empty (dev : SisciDev) (buffer : Nat) (none : s.mappings = []) :
      Host.Current ⟨dev, buffer, s.mappings⟩ := by
    rw [none]
    nofun
  cases step_called next with
  | kept dev same quiet =>
    intro m member
    rw [same]
    exact held m member
  | mapped present =>
    intro m member
    rcases List.mem_append.mp member with before | new
    · exact held m before
    · exact ⟨present, List.mem_singleton.mp new⟩
  | unmapped i => exact fun m member => held m (List.mem_of_mem_eraseIdx member)
  | allocated dev buffer absent => exact empty dev buffer (held.none (Or.inl absent))
  | freed dev buffer frees => exact empty dev buffer (held.none (Or.inr (unmapped frees)))

theorem step_safe_iff (next : s.step l = some (t, es)) : (∀ e ∈ es, e.mapped = false) ↔
    s.Unmapped l := by
  cases step_called next with
  | kept dev same quiet => exact iff_of_true nofun fun frees => absurd frees quiet
  | mapped present => exact iff_of_true nofun False.elim
  | unmapped i => exact iff_of_true nofun False.elim
  | allocated dev buffer absent quiet => exact iff_of_true nofun fun frees => absurd frees quiet
  | freed dev buffer frees => simp [Host.Unmapped, frees]

/-- Over any calls of any processes: no buffer is freed under a live mapping
exactly when each call that frees the buffer finds it unmapped; and then every
live mapping leads to the buffer that the driver still holds. -/
theorem mappings_safe_iff (path : run Host.step .loaded ls = some (t, es)) :
    ((∀ e ∈ es, e.mapped = false) ↔ Along Host.step Host.Unmapped .loaded ls) ∧
      (Along Host.step Host.Unmapped .loaded ls → t.Current) := by
  refine ⟨?_, fun unmapped => run_preserves step_current (by nofun) unmapped path⟩
  exact run_reports_iff (P := fun _ => True) (fun _ _ _ _ => trivial)
    (fun _ _ => step_safe_iff) trivial
    (fun _ _ => trivial) path

def mapped7 : List HostCall :=
  [.createSegment (.paged 0x10000) 0x1000 7 0x4000,
    .mmapLocal 0x4000 (.ok ())]

/-- It is unmapped before it is removed. -/
theorem mappings_safe_unmapped :
    ∃ t es, run Host.step .loaded (mapped7 ++ [.munmap 0, .removeSegment 7 true]) = some (t, es) ∧
      es.length = 1 ∧ ∀ e ∈ es, e.mapped = false := by
  have reads : (run Host.step .loaded (mapped7 ++ [.munmap 0, .removeSegment 7 true])).map
      (fun reached => reached.2.length) = some 1 := by decide +kernel
  obtain ⟨⟨t, es⟩, path, length⟩ := Option.map_eq_some_iff.mp reads
  exact ⟨t, es, path, length, (mappings_safe_iff path).1.mpr (by decide +kernel)⟩

/-- It is removed while it is mapped. -/
theorem buffer_freed_while_mapped :
    ∃ t es, run Host.step .loaded (mapped7 ++ [.removeSegment 7 true]) = some (t, es) ∧
      t.mappings = [1] ∧ ⟨1, true⟩ ∈ es := by
  have reads : (run Host.step .loaded (mapped7 ++ [.removeSegment 7 true])).map
      (fun reached => (reached.1.mappings, reached.2)) = some ([1], [⟨1, true⟩]) := by
        decide +kernel
  obtain ⟨⟨t, es⟩, path, same⟩ := Option.map_eq_some_iff.mp reads
  obtain ⟨mappings, rfl⟩ := Prod.mk.inj same
  exact ⟨t, _, path, mappings, List.mem_cons_self⟩

end IdtNtb.Sisci
