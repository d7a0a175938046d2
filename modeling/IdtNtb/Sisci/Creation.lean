import IdtNtb.Sisci.Mappings

/-! A CREATE_SEGMENT that fails. A segment that the request does not match is given
up, with its inbound translation, before anything is known of the new one. -/
namespace IdtNtb.Sisci
open Kernel Transition

/-- `local_buf`, `local_dma`, `local_size` and `local_segment_id`, `local_available`,
`local_published` and the programmed translation. -/
structure LocalSide where
  segment : Option Segment
  available : Bool
  published : Bool
  trans : Option (Nat × Nat)
  deriving DecidableEq

def SisciDev.localSide (dev : SisciDev) : LocalSide :=
  ⟨dev.segment, dev.localAvailable, dev.localPublished, dev.inbound⟩

variable {dev : SisciDev} {ntb : Ntb} {id : BitVec 32}

theorem installSegment_failed (failed : (dev.installSegment ntb id size).2 = .error e) :
    (dev.installSegment ntb id size).1 = dev := by
  rcases dev.installSegment_cases ntb id size with ⟨e, same⟩ | ⟨segment, -, installed⟩
  · rw [same]
  · rw [installed] at failed
    cases failed

/-- A failed creation leaves the local side as it was exactly when it was not about to
replace a segment. -/
theorem failed_create_iff
    (failed : (dev.allocLocalSegmentLocked ntb bufferSize id requested).2.2 = .error e) :
    (dev.allocLocalSegmentLocked ntb bufferSize id requested).2.1.localSide = dev.localSide ↔
      dev.removed = true ∨ SisciDev.TooLarge bufferSize requested ∨ dev.localAvailable = true ∨
        dev.segment = none := by
  have created := SisciDev.alloc_created ntb bufferSize dev id requested
  generalize dev.allocLocalSegmentLocked ntb bufferSize id requested = out at created failed ⊢
  cases created with
  | refused reason => exact iff_of_true rfl (by tauto)
  | matched present enough => cases failed
  | fresh absent running size =>
    rw [installSegment_failed failed]
    exact iff_of_true rfl (Or.inr (Or.inr (Or.inr absent)))
  | replaced present running fits unavailable other size =>
    rw [installSegment_failed failed]
    have kept : ¬dev.segment = none := fun absent => nomatch absent.symm.trans present
    refine iff_of_false ?_ (by tauto)
    intro same
    exact kept (congrArg LocalSide.segment same).symm

/-- Segment 7 is created and made available. -/
def available7 : List HostCall :=
  [.createSegment (.paged 0x10000) 0x1000 7 0x4000, .setAvailable 7 true]

/-- An available segment keeps another from being created. -/
theorem failed_create_busy :
    ∃ s freed e, run Host.step .loaded available7 = some (s, freed) ∧
      s.dev.inbound = some (0x10000, 0x4000) ∧
      (s.dev.allocLocalSegmentLocked (.paged 0x10000) 0x1000 8 0x1000).2.2 = .error e ∧
      (s.dev.allocLocalSegmentLocked (.paged 0x10000) 0x1000 8 0x1000).2.1.localSide =
        s.dev.localSide := by
  have outcome : (run Host.step .loaded available7).map (fun out =>
      (out.1.dev.inbound, (out.1.dev.allocLocalSegmentLocked (.paged 0x10000) 0x1000 8 0x1000).2.2,
        out.1.dev.localAvailable)) =
      some (some (0x10000, 0x4000), .error .ebusy, true) := by decide +kernel
  obtain ⟨⟨s, freed⟩, path, same⟩ := Option.map_eq_some_iff.mp outcome
  obtain ⟨trans, rest⟩ := Prod.mk.inj same
  obtain ⟨failed, available⟩ := Prod.mk.inj rest
  exact ⟨s, freed, .ebusy, path, trans, failed,
    (failed_create_iff failed).mpr (Or.inr (Or.inr (Or.inl available)))⟩

def exhausted : Ntb := { Ntb.paged 0 with dmaAlloc := none }

/-- Segment 7 is lost to a request for segment 8 that finds no memory. -/
theorem failed_create_loses_segment :
    ∃ s freed segment dev,
      segment.id = 7 ∧ segment.dma = 0x10000 ∧ segment.size = 0x4000 ∧
      run Host.step .loaded [.createSegment (.paged 0x10000) 0x1000 7 0x4000] =
        some (s, freed) ∧
      s.dev.allocLocalSegmentLocked exhausted 0x1000 8 0x1000 =
        (some segment, dev, .error .enomem) ∧
      s.dev.localSide = ⟨some segment, false, false, some (0x10000, 0x4000)⟩ ∧
      dev.localSide = ⟨none, false, false, none⟩ := by
  let segment : Segment := ⟨7, 0x10000, 0x4000, by decide⟩
  have outcome :
      (run Host.step .loaded [.createSegment (.paged 0x10000) 0x1000 7 0x4000]).map (fun out =>
        let asked := out.1.dev.allocLocalSegmentLocked exhausted 0x1000 8 0x1000
        (out.1.dev.localSide, asked.1, asked.2.2, asked.2.1.localSide)) =
      some (⟨some segment, false, false, some (0x10000, 0x4000)⟩, some segment, .error .enomem,
        ⟨none, false, false, none⟩) := by decide +kernel
  obtain ⟨⟨s, freed⟩, path, same⟩ := Option.map_eq_some_iff.mp outcome
  obtain ⟨before, rest⟩ := Prod.mk.inj same
  obtain ⟨given, rest⟩ := Prod.mk.inj rest
  obtain ⟨failed, after⟩ := Prod.mk.inj rest
  exact ⟨s, freed, segment, _, rfl, rfl, rfl, path, Prod.ext given (Prod.ext rfl failed),
    before, after⟩

end IdtNtb.Sisci
