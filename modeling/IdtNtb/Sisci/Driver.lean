import IdtNtb.Kernel.Ntb

/-! The `ntb_idt_sisci` driver: its device record, its local segment, and what
`service_work` does with each command. A segment identifier is 32 bits wide on
both sides, so the cast of a received one is exact and is left out. -/
namespace IdtNtb.Sisci
open Kernel

/-- A local segment: `local_buf` with its identifier, address and size. -/
structure Segment where
  id : BitVec 32
  dma : Nat
  size : Nat
  size_ne : size ≠ 0
  deriving DecidableEq

inductive Command where
  | segid (id : BitVec 32)
  | size (data : Nat)
  | xlat (data : Nat)
  | avail (id : BitVec 32)
  | unavail (id : BitVec 32)
  | unknown (cmd data : Nat)
  deriving DecidableEq

/-- `struct ntb_idt_sisci_dev`. `trans` and `inbound` are the translations that the
driver has given to `ntb_peer_mw_set_trans` and to `ntb_mw_set_trans` and not
cleared since; a call that fails programs nothing. -/
structure SisciDev where
  removed : Bool
  linkUp : Bool
  localAvailable : Bool
  localPublished : Bool
  remoteAnnounced : Bool
  peerReady : Bool
  segment : Option Segment
  peerIo : Bool
  peerPhys : Nat
  peerMapSize : Nat
  peerUsableSize : Nat
  remoteXlat : Nat
  remoteSize : Nat
  remoteSegmentId : BitVec 32
  trans : Option (Nat × Nat)
  inbound : Option (Nat × Nat)
  deriving DecidableEq

/-- The record `kzalloc` returns to `probe`. -/
def SisciDev.probed : SisciDev where
  removed := false
  linkUp := false
  localAvailable := false
  localPublished := false
  remoteAnnounced := false
  peerReady := false
  segment := none
  peerIo := false
  peerPhys := 0
  peerMapSize := 0
  peerUsableSize := 0
  remoteXlat := 0
  remoteSize := 0
  remoteSegmentId := 0
  trans := none
  inbound := none

namespace SisciDev

def setLink (dev : SisciDev) (linkUp : Bool) : SisciDev :=
  if linkUp then { dev with linkUp }
  else { dev with linkUp, peerReady := false, remoteAnnounced := false, localPublished := false }

def markPeerUnreadyLocked (dev : SisciDev) : SisciDev :=
  { dev with
    peerIo := false, trans := none, peerPhys := 0, peerMapSize := 0, peerUsableSize := 0,
    peerReady := false }

def freeLocalSegmentLocked (dev : SisciDev) : SisciDev :=
  { dev with
    inbound := if dev.segment.isSome then none else dev.inbound, segment := none,
    localAvailable := false, localPublished := false }

/-- `ntb_idt_sisci_setup_peer_mw_locked`, whose errors are only logged. A failed
`ioremap` clears the translation again. -/
def setupPeerMwLocked (ntb : Ntb) (dev : SisciDev) : SisciDev :=
  if dev.peerIo then dev
  else if !dev.remoteAnnounced || dev.remoteXlat = 0 || dev.remoteSize = 0 then dev
  else match ntb.peerMwGetAddr with
    | .error _ => dev
    | .ok (phys, mapSize) =>
        match ntb.peerMwSetTrans dev.remoteXlat dev.remoteSize with
        | .error _ => dev
        | .ok () =>
            if ntb.ioremap then
              { dev with
                peerIo := true, trans := some (dev.remoteXlat, dev.remoteSize), peerPhys := phys,
                peerMapSize := mapSize, peerUsableSize := min dev.remoteSize mapSize,
                peerReady := true }
            else { dev with trans := none }

/-- An attempt leaves the record as it was, up to a translation cleared again, or
opens the window that was announced where there was none. -/
inductive SetUp (ntb : Ntb) (dev : SisciDev) : SisciDev → Prop
  | unchanged : SetUp ntb dev dev
  | cleared (unmapped : dev.peerIo = false) : SetUp ntb dev { dev with trans := none }
  | opened (unmapped : dev.peerIo = false) (announced : dev.remoteAnnounced = true)
      (size : dev.remoteSize ≠ 0) (addr : ntb.peerMwGetAddr = .ok (phys, mapSize)) :
      SetUp ntb dev
        { dev with
          peerIo := true, trans := some (dev.remoteXlat, dev.remoteSize), peerPhys := phys,
          peerMapSize := mapSize, peerUsableSize := min dev.remoteSize mapSize,
          peerReady := true }

theorem setupPeerMwLocked_setUp (ntb : Ntb) (dev : SisciDev) :
    SetUp ntb dev (dev.setupPeerMwLocked ntb) := by
  unfold setupPeerMwLocked
  by_cases mapped : dev.peerIo = true
  · rw [if_pos mapped]
    exact .unchanged
  by_cases missing : (!dev.remoteAnnounced || dev.remoteXlat = 0 || dev.remoteSize = 0) = true
  · rw [if_neg mapped, if_pos missing]
    exact .unchanged
  simp only [if_neg mapped, if_neg missing]
  rw [Bool.not_eq_true] at mapped
  cases addr : ntb.peerMwGetAddr with
  | error e => exact .unchanged
  | ok window =>
    obtain ⟨phys, mapSize⟩ := window
    rcases ntb.peerMwSetTrans dev.remoteXlat dev.remoteSize with e | done
    · exact .unchanged
    · cases ntb.ioremap with
      | true =>
        simp only [Bool.or_eq_true, decide_eq_true_eq, not_or, Bool.not_eq_true', Bool.not_eq_false]
          at missing
        exact .opened mapped missing.1.1 missing.2 addr
      | false => exact .cleared mapped

/-- The command switch of `ntb_idt_sisci_service_work`. -/
def handle (ntb : Ntb) (dev : SisciDev) : Command → SisciDev
  | .segid id => { dev.markPeerUnreadyLocked with remoteSegmentId := id, remoteAnnounced := false }
  | .size data => { dev with remoteSize := data }
  | .xlat data => { dev with remoteXlat := data }
  | .avail id => { dev with remoteSegmentId := id, remoteAnnounced := true }.setupPeerMwLocked ntb
  | .unavail id =>
      if dev.remoteSegmentId = id then { dev with remoteAnnounced := false }.markPeerUnreadyLocked
      else dev
  | .unknown _ _ => dev

structure Offer where
  linkUp : Bool
  available : Bool
  published : Bool
  segment : Option Segment

def offer (dev : SisciDev) : Offer :=
  ⟨dev.linkUp, dev.localAvailable, dev.localPublished, dev.segment⟩

theorem SetUp.offer {dev after : SisciDev} (setUp : SetUp ntb dev after) :
    after.offer = dev.offer ∧ after.removed = dev.removed := by
  cases setUp with
  | unchanged => exact ⟨rfl, rfl⟩
  | cleared => exact ⟨rfl, rfl⟩
  | opened => exact ⟨rfl, rfl⟩

/-- The peer's commands say nothing of the own segment. -/
theorem handle_offer (ntb : Ntb) (dev : SisciDev) (command : Command) :
    (dev.handle ntb command).offer = dev.offer := by
  cases command with
  | segid id => rfl
  | size data => rfl
  | xlat data => rfl
  | avail id => exact (setupPeerMwLocked_setUp ntb _).offer.1
  | unavail id =>
    simp only [handle]
    split_ifs
    · rfl
    · rfl
  | unknown cmd data => rfl

def reqSize (size : Nat) (align : MwAlign) : Except Errno Nat :=
  if align.sizeAlign > 1 then
    if size > sizeMax - (align.sizeAlign - 1) then .error .emsgsize
    else .ok (alignUp size align.sizeAlign)
  else .ok size

/-- The allocating half of `alloc_local_segment_locked`, with no segment left. -/
def allocSegment (ntb : Ntb) (id : BitVec 32) (size : Nat) : Except Errno Segment := do
  let align ← ntb.getAlign
  let size ← reqSize size align
  if align.sizeMax ≠ 0 ∧ size > align.sizeMax then .error .emsgsize
  else if nonzero : size = 0 then .error .einval
  else if size > sizeMax then .error .emsgsize
  else match ntb.dmaAlloc with
    | none => .error .enomem
    | some dma =>
        if align.addrAlign > 1 ∧ dma % align.addrAlign ≠ 0 then .error .einval
        else do
          ntb.mwSetTrans dma size
          .ok ⟨id, dma, size, nonzero⟩

/-- The end of `alloc_local_segment_locked`, on a record without a segment. -/
def installSegment (ntb : Ntb) (id : BitVec 32) (size : Nat) (dev : SisciDev) :
    SisciDev × Except Errno Unit :=
  match allocSegment ntb id size with
  | .error e => (dev, .error e)
  | .ok segment =>
      ({ dev with
        segment := some segment, inbound := some (segment.dma, segment.size),
        localAvailable := false, localPublished := false }, .ok ())

/-- `ntb_idt_sisci_alloc_local_segment_locked`: the segment it frees on the way,
the record it leaves, and its result. -/
def allocLocalSegmentLocked (ntb : Ntb) (bufferSize : Nat) (dev : SisciDev) (id : BitVec 32)
    (requested : Nat) : Option Segment × SisciDev × Except Errno Unit :=
  let size := if requested = 0 then bufferSize else requested
  if dev.removed then (none, dev, .error .enodev)
  else if size > sizeMax then (none, dev, .error .emsgsize)
  else match dev.segment with
    | none => (none, dev.installSegment ntb id size)
    | some segment =>
        if segment.id = id ∧ segment.size ≥ size then (none, dev, .ok ())
        else if dev.localAvailable then (none, dev, .error .ebusy)
        else (some segment, dev.freeLocalSegmentLocked.installSegment ntb id size)

/-- The size asked for does not fit a `size_t`. -/
def TooLarge (bufferSize requested : Nat) : Prop :=
  (if requested = 0 then bufferSize else requested) > sizeMax

/-- A request that never reaches the allocation, one that does without a segment in
its way, and one that gives up a segment for it. -/
inductive Created (ntb : Ntb) (bufferSize : Nat) (dev : SisciDev) (id : BitVec 32)
    (requested : Nat) : Option Segment × SisciDev × Except Errno Unit → Prop where
  | refused {e : Errno} (reason : dev.removed = true ∨ TooLarge bufferSize requested ∨
      dev.localAvailable = true) : Created ntb bufferSize dev id requested (none, dev, .error e)
  | matched {segment : Segment} (present : dev.segment = some segment)
      (enough : segment.id = id ∧
        segment.size ≥ if requested = 0 then bufferSize else requested) :
      Created ntb bufferSize dev id requested (none, dev, .ok ())
  | fresh (absent : dev.segment = none) (running : ¬dev.removed = true) (size : Nat) :
      Created ntb bufferSize dev id requested (none, dev.installSegment ntb id size)
  | replaced {segment : Segment} (present : dev.segment = some segment)
      (running : ¬dev.removed = true) (fits : ¬TooLarge bufferSize requested)
      (unavailable : ¬dev.localAvailable = true)
      (other : ¬(segment.id = id ∧
        segment.size ≥ if requested = 0 then bufferSize else requested)) (size : Nat) :
      Created ntb bufferSize dev id requested
        (some segment, dev.freeLocalSegmentLocked.installSegment ntb id size)

theorem alloc_created (ntb : Ntb) (bufferSize : Nat) (dev : SisciDev) (id : BitVec 32)
    (requested : Nat) :
    Created ntb bufferSize dev id requested
      (dev.allocLocalSegmentLocked ntb bufferSize id requested) := by
  unfold allocLocalSegmentLocked
  extract_lets size
  by_cases removed : dev.removed = true
  · rw [if_pos removed]
    exact .refused (Or.inl removed)
  by_cases large : size > sizeMax
  · rw [if_neg removed, if_pos large]
    exact .refused (Or.inr (Or.inl large))
  rw [if_neg removed, if_neg large]
  cases present : dev.segment with
  | none => exact .fresh present removed size
  | some segment =>
    dsimp only
    by_cases enough : segment.id = id ∧ segment.size ≥ size
    · rw [if_pos enough]
      exact .matched present enough
    by_cases available : dev.localAvailable = true
    · rw [if_neg enough, if_pos available]
      exact .refused (Or.inr (Or.inr available))
    · rw [if_neg enough, if_neg available]
      exact .replaced present removed large available enough size

/-- An allocation that fails leaves what it found. -/
theorem installSegment_cases (ntb : Ntb) (id : BitVec 32) (size : Nat) (dev : SisciDev) :
    (∃ e, dev.installSegment ntb id size = (dev, .error e)) ∨
      ∃ segment, allocSegment ntb id size = .ok segment ∧ dev.installSegment ntb id size =
        ({ dev with
          segment := some segment, inbound := some (segment.dma, segment.size),
          localAvailable := false, localPublished := false }, .ok ()) := by
  unfold installSegment
  cases made : allocSegment ntb id size with
  | error e => exact Or.inl ⟨e, rfl⟩
  | ok segment => exact Or.inr ⟨segment, rfl, rfl⟩

/-- Either nothing changes, or the segment, if there was one and it was not
available, is freed and replaced or lost. -/
theorem allocLocalSegmentLocked_cases (ntb : Ntb) (bufferSize : Nat) (dev : SisciDev)
    (id : BitVec 32) (requested : Nat) :
    (∃ result, dev.allocLocalSegmentLocked ntb bufferSize id requested = (none, dev, result)) ∨
      (dev.segment.isSome → dev.localAvailable = false) ∧
        ∃ segment inbound result, dev.allocLocalSegmentLocked ntb bufferSize id requested =
          (dev.segment,
            { dev with segment, inbound, localAvailable := false, localPublished := false },
            result) := by
  have created := alloc_created ntb bufferSize dev id requested
  generalize dev.allocLocalSegmentLocked ntb bufferSize id requested = out at created ⊢
  cases created with
  | refused reason => exact Or.inl ⟨_, rfl⟩
  | matched present enough => exact Or.inl ⟨_, rfl⟩
  | fresh absent running size =>
    rw [absent]
    rcases dev.installSegment_cases ntb id size with ⟨e, same⟩ | ⟨segment, -, installed⟩
    · exact Or.inl ⟨_, by rw [same]⟩
    · exact Or.inr ⟨nofun, _, _, _, by rw [installed]⟩
  | replaced present running fits unavailable other size =>
    refine Or.inr ⟨fun _ => eq_false_of_ne_true unavailable, ?_⟩
    rw [present]
    rcases dev.freeLocalSegmentLocked.installSegment_cases ntb id size with
      ⟨e, same⟩ | ⟨segment, -, installed⟩
    · exact ⟨none, _, _, by rw [same]; rfl⟩
    · exact ⟨_, _, _, by rw [installed]; rfl⟩

def shouldPublish (dev : SisciDev) : Bool :=
  dev.linkUp && dev.localAvailable && dev.segment.isSome && !dev.localPublished

/-- `publish_available_locked`, with whether its sends succeed. -/
def publishAvailableLocked (dev : SisciDev) (sent : Bool) : SisciDev :=
  if dev.shouldPublish && sent then { dev with localPublished := true } else dev

def shouldWithdraw (dev : SisciDev) : Bool :=
  dev.linkUp && dev.localPublished

/-- `publish_unavailable_locked` clears both flags before its command is on its way. -/
def withdraw (dev : SisciDev) : SisciDev :=
  { dev with localAvailable := false, localPublished := false }

/-- `publish_unavailable_locked`, with whether it succeeds. -/
def publishUnavailableLocked (dev : SisciDev) (sent : Bool) : SisciDev × Bool :=
  (dev.withdraw, !dev.shouldWithdraw || sent)

/-- The segment an ioctl names by its identifier. -/
def named (dev : SisciDev) (id : BitVec 32) : Option Segment :=
  if dev.removed then none else dev.segment.filter (·.id = id)

theorem named_eq_some {dev : SisciDev} {id : BitVec 32} {segment : Segment}
    (found : dev.named id = some segment) : dev.segment = some segment ∧ segment.id = id := by
  unfold named at found
  split_ifs at found
  simpa [Option.filter_eq_some_iff] using found

/-- The end of CONNECT_SEGMENT, under the mutex: the size it returns. -/
def connectSegment (dev : SisciDev) (id : BitVec 32) : Except Errno Nat :=
  if dev.removed then .error .enodev
  else if !dev.peerReady || dev.remoteSegmentId ≠ id then .error .enolink
  else .ok dev.peerUsableSize

/-- The offsets that `mmap` knows. -/
inductive Region where
  | localSegment
  | remoteSegment
  | other (pgoff : Nat)

/-- What a mapping leads to: a local buffer, or the window with its translation. -/
inductive Mapped where
  | buffer (segment : Segment)
  | window (trans : Option (Nat × Nat))
  deriving DecidableEq

/-- `ntb_idt_sisci_mmap`, with the result of the call that fills in the pages. -/
def mmap (dev : SisciDev) (region : Region) (size : Nat) (remap : Except Errno Unit) :
    Except Errno Mapped :=
  if dev.removed then .error .enodev
  else match region with
    | .localSegment =>
        match dev.segment with
        | none => .error .einval
        | some segment =>
            if size > pageAlign segment.size then .error .einval
            else remap.map fun _ => .buffer segment
    | .remoteSegment =>
        if !dev.peerReady || !dev.peerIo || dev.peerPhys % pageSize ≠ 0 ||
            size > pageAlign dev.peerUsableSize then .error .einval
        else remap.map fun _ => .window dev.trans
    | .other _ => .error .einval

/-- A local mapping leads to the segment of the moment. -/
theorem mmap_local {dev : SisciDev} (mapped : dev.mmap .localSegment size remap = .ok found) :
    ∃ segment, dev.segment = some segment ∧ found = .buffer segment ∧
      size ≤ pageAlign segment.size := by
  simp only [mmap] at mapped
  split_ifs at mapped
  split at mapped
  · cases mapped
  · rename_i segment current
    split_ifs at mapped with large
    cases remap with
    | error e => cases mapped
    | ok done =>
      cases mapped
      exact ⟨segment, current, rfl, Nat.not_lt.mp large⟩

/-- A remote mapping leads to the open window of the moment. -/
theorem mmap_remote {dev : SisciDev} (mapped : dev.mmap .remoteSegment size remap = .ok found) :
    dev.peerReady = true ∧ dev.peerIo = true ∧ found = .window dev.trans ∧
      size ≤ pageAlign dev.peerUsableSize := by
  simp only [mmap] at mapped
  split_ifs at mapped with removed refused
  cases remap with
  | error e => cases mapped
  | ok done =>
    cases mapped
    simp only [Bool.or_eq_true, decide_eq_true_eq, not_or, Bool.not_eq_true', Bool.not_eq_false]
      at refused
    obtain ⟨⟨⟨ready, io⟩, -⟩, fits⟩ := refused
    exact ⟨ready, io, rfl, Nat.not_lt.mp fits⟩

end SisciDev
end IdtNtb.Sisci
