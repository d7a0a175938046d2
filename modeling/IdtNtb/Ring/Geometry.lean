import IdtNtb.App.Driver
import IdtNtb.Ring.Layout

/-! The slots of the ring that `run_rx` lays out, and their addresses in the
mapping of either backend. -/
namespace IdtNtb.Ring
open Bytes Slots Kernel

/-- `slot_size` and `slot_count` in `run_rx`. -/
def ringSlotSize (o : Options) : Nat := min o.rxChunk (ntbRingMaxSlotSize o.capacity)
def ringSlotCount (o : Options) : Nat := ntbRingCalcSlotCount o.capacity (ringSlotSize o)

def slotLength (n : Memory) : Nat := sizeofSlot + get n .slotSize

/-- The header in `n` carries the computed sizes, and its slots fill the mapping. -/
structure Tiles (o : Options) (n : Memory) : Prop where
  nonempty : 1 ≤ get n .slotCount
  count : get n .slotCount = ringSlotCount o
  /-- The cast to 32 bits. -/
  size : get n .slotSize = ringSlotSize o
  /-- No sum or product wraps around. -/
  exact : ∀ i, ntbRingSlot n i = sizeofHeader + i % get n .slotCount * slotLength n
  payload : ∀ i, ntbRingSlotPayload n (ntbRingSlot n i) = ntbRingSlot n i + sizeofSlot
  inside : ∀ i, sizeofHeader ≤ ntbRingSlot n i ∧ ntbRingSlot n i + slotLength n ≤ o.capacity
  same : ∀ i j, i % get n .slotCount = j % get n .slotCount → ntbRingSlot n i = ntbRingSlot n j
  apart : ∀ i j, i % get n .slotCount ≠ j % get n .slotCount →
    Separate (ntbRingSlot n i) (slotLength n) (ntbRingSlot n j) (slotLength n)
  maximal : ∀ more ≤ 2 ^ 32 - 1, get n .slotCount < more →
    o.capacity < sizeofHeader + more * slotLength n

/-! ## The computed sizes -/

theorem calcSlotCount_pos (nonzero : slotSize ≠ 0) (narrow : sizeofSlot + slotSize < 2 ^ 64)
    (room : sizeofHeader + (sizeofSlot + slotSize) ≤ capacity) :
    1 ≤ ntbRingCalcSlotCount capacity slotSize := by
  have positive : 0 < sizeofSlot + slotSize := by omega
  have usable : ¬(slotSize = 0 ∨ capacity ≤ sizeofHeader) := by omega
  have one : 1 ≤ (capacity - sizeofHeader) / (sizeofSlot + slotSize) :=
    (Nat.one_le_div_iff positive).mpr (by omega)
  rw [calcSlotCount_eq capacity narrow, if_neg usable]
  extract_lets slots
  split <;> omega

/-- One slot more would not fit, unless it could not be counted. -/
theorem calcSlotCount_maximal (nonzero : slotSize ≠ 0) (narrow : sizeofSlot + slotSize < 2 ^ 64)
    (large : sizeofHeader < capacity)
    (counted : more ≤ 2 ^ 32 - 1) (exceeds : ntbRingCalcSlotCount capacity slotSize < more) :
    capacity < sizeofHeader + more * (sizeofSlot + slotSize) := by
  have usable : ¬(slotSize = 0 ∨ capacity ≤ sizeofHeader) := by omega
  rw [calcSlotCount_eq capacity narrow, if_neg usable] at exceeds
  extract_lets slots at exceeds
  have fewer : slots < more := by
    split at exceeds <;> omega
  have beyond := (Nat.div_lt_iff_lt_mul (by omega)).mp fewer
  omega

theorem ringSlotSize_le (o : Options) (roomy : sizeofHeader + sizeofSlot < o.capacity) :
    sizeofHeader + (sizeofSlot + ringSlotSize o) ≤ o.capacity := by
  have clamped : ringSlotSize o ≤ ntbRingMaxSlotSize o.capacity := Nat.min_le_right _ _
  unfold ntbRingMaxSlotSize at clamped
  split at clamped <;> omega

theorem ringSlotSize_narrow (o : Options) : sizeofSlot + ringSlotSize o < 2 ^ 64 := by
  have chunk := o.rxChunk_lt
  have small : ringSlotSize o ≤ o.rxChunk := Nat.min_le_left _ _
  simp only [sizeofSlot]
  omega

theorem ringSlotSize_pos {o : Options} (roomy : sizeofHeader + sizeofSlot < o.capacity)
    (nonzero : 0 < o.rxChunk) : 0 < ringSlotSize o := by
  refine Nat.lt_min.mpr ⟨nonzero, ?_⟩
  unfold ntbRingMaxSlotSize
  split <;> omega

theorem ringLayout_roomy {o : Options} (roomy : sizeofHeader + sizeofSlot < o.capacity)
    (nonzero : 0 < o.rxChunk) : ringLayout o = some (ringSlotCount o, ringSlotSize o) := by
  have sized := ringSlotSize_pos roomy nonzero
  have counted : 1 ≤ ringSlotCount o :=
    calcSlotCount_pos (by omega) (ringSlotSize_narrow o) (ringSlotSize_le o roomy)
  have clamp : (if ntbRingMaxSlotSize o.capacity < o.rxChunk then ntbRingMaxSlotSize o.capacity
      else o.rxChunk) = ringSlotSize o := by
    unfold ringSlotSize
    split <;> omega
  have usable : ¬(o.rxChunk = 0 ∨ ntbRingMaxSlotSize o.capacity = 0) := by
    have below : ringSlotSize o ≤ ntbRingMaxSlotSize o.capacity := Nat.min_le_right _ _
    omega
  unfold ringLayout layoutRing
  extract_lets maxSlotSize slotSize slotCount
  have count : slotCount = ringSlotCount o := by
    simp only [slotCount, slotSize, maxSlotSize, clamp, ringSlotCount]
  rw [if_neg usable, count, if_neg (Nat.ne_of_gt counted)]
  exact congrArg (fun size => some (ringSlotCount o, size)) clamp

/-- `run_rx` lays out a ring exactly when the mapping has room and the chunk is not empty. -/
theorem publishRing_roomy (published : publishRing o m = some n) :
    sizeofHeader + sizeofSlot < o.capacity ∧ 0 < o.rxChunk := by
  obtain ⟨layout, laid, -⟩ := Option.map_eq_some_iff.mp published
  unfold ringLayout layoutRing at laid
  extract_lets maxSlotSize slotSize slotCount at laid
  split at laid
  · contradiction
  rename_i usable
  have room : ¬o.capacity ≤ sizeofHeader + sizeofSlot := by
    intro small
    apply usable
    exact Or.inr (if_pos small)
  omega

/-! ## The ring in memory -/

theorem laid_tiles {g : Geometry} (o : Options) (roomy : sizeofHeader + sizeofSlot < o.capacity)
    (nonzero : 0 < o.rxChunk) (count : g.count = ringSlotCount o) (size : g.size = ringSlotSize o)
    (published : Published g n) : Tiles o n := by
  have sized := ringSlotSize_pos roomy nonzero
  have stride : slotLength n = g.stride := by rw [slotLength, published.slotSize, Geometry.stride]
  have slot := ntbRingSlot_eq published
  have fits : sizeofHeader + g.count * g.stride ≤ o.capacity := by
    rw [Geometry.stride, count, size]
    exact calcSlotCount_le (ringSlotSize_narrow o) (by omega)
  refine ⟨?_, ?_, ?_, ?_, ?_, ?_, ?_, ?_, ?_⟩
  · rw [published.slotCount]
    exact g.count_pos
  · rw [published.slotCount, count]
  · rw [published.slotSize, size]
  · intro i
    rw [slot, stride, published.slotCount]
    rfl
  · intro i
    rw [slot]
    exact ntbRingSlotPayload_eq published i
  · intro i
    have last := slotAt_end sizeofHeader g.stride i g.count_pos
    rw [slot, stride]
    exact ⟨slot_behind g i, Nat.le_trans last fits⟩
  · intro i j same
    rw [published.slotCount] at same
    rw [slot, slot, Geometry.slot, Geometry.slot, slotAt, slotAt, same]
  · intro i j different
    rw [published.slotCount] at different
    rw [slot, slot, stride]
    exact slotAt_disjoint sizeofHeader g.count different (Nat.le_of_eq (Nat.zero_add _))
      (Nat.le_of_eq (Nat.zero_add _))
  · intro more counted exceeds
    rw [published.slotCount, count] at exceeds
    rw [stride, Geometry.stride, size]
    exact calcSlotCount_maximal (by omega) (ringSlotSize_narrow o) (by omega) counted exceeds

theorem publishRing_tiles (o : Options) (m : Memory)
    (roomy : sizeofHeader + sizeofSlot < o.capacity)
    (nonzero : 0 < o.rxChunk) : ∃ n, publishRing o m = some n ∧ Tiles o n := by
  have laid := ringLayout_roomy roomy nonzero
  obtain ⟨g, count, size⟩ := ringLayout_geometry laid
  refine ⟨writeHeader g.count g.size m, ?_, ?_⟩
  · rw [publishRing, laid, count, size]
    rfl
  · exact laid_tiles o roomy nonzero count size (writeHeader_laid g m).published

/-- Every mapping of more than 128 bytes gets a ring whose slots tile it. -/
theorem ring_geometry (o : Options) (m : Memory) (roomy : 128 < o.capacity)
    (nonzero : 0 < o.rxChunk) :
    ∃ n, publishRing o m = some n ∧ Tiles o n :=
  publishRing_tiles o m roomy nonzero

/-- The documented 1 MiB chunks in a window of 4 MiB. -/
def documentedRing : Options :=
  ⟨0x400000, 0x100000, 0x100000, 0x40000000, by decide, by decide, by decide, by decide, by decide⟩

theorem ring_geometry_documented :
    ∃ n, publishRing documentedRing (fun _ => 0) = some n ∧ get n .slotCount = 3 ∧
      get n .slotSize = 0x100000 ∧ Tiles documentedRing n := by
  obtain ⟨n, published, tiles⟩ := ring_geometry documentedRing (fun _ => 0) (by decide) (by decide)
  have count : ringSlotCount documentedRing = 3 := by decide
  have size : ringSlotSize documentedRing = 0x100000 := by decide
  exact ⟨n, published, tiles.count.trans count, tiles.size.trans size, tiles⟩

/-! ## Alignment -/

inductive Backend where
  | generic
  | sisci
  deriving DecidableEq

/-- `endpoint.addr` from the start of the mapping: `map_generic_region` skips the
frame header of the driver, `SCIMapAddr` nothing. -/
def Backend.ringOffset : Backend → Nat
  | .generic => App.frameSize
  | .sisci => 0

/-- A slot header at `addr`: the structure and each of its fields are aligned. -/
def SlotAligned (addr : Nat) : Prop := 8 ∣ addr ∧ ∀ f : SlotField, f.width ∣ addr + f.offset

theorem slotAligned_iff : SlotAligned addr ↔ 8 ∣ addr := by
  refine ⟨And.left, ?_⟩
  intro aligned
  refine ⟨aligned, ?_⟩
  intro f
  cases f <;> simp only [SlotField.width, SlotField.offset] <;> omega

/-- The mapping is shorter than two slots of the chunk asked for. -/
def OneSlot (o : Options) : Prop := o.capacity < sizeofHeader + 2 * (sizeofSlot + o.rxChunk)

instance (o : Options) : Decidable (OneSlot o) := inferInstanceAs (Decidable (_ < _))

theorem Tiles.single (tiles : Tiles o n) (roomy : sizeofHeader + sizeofSlot < o.capacity)
    (short : OneSlot o) :
    get n .slotCount = 1 := by
  by_contra several
  -- The second slot would end behind the mapping, clamped to it or not.
  have second : 1 % get n .slotCount = 1 := Nat.mod_eq_of_lt (by have := tiles.nonempty; omega)
  have last := (tiles.inside 1).2
  rw [tiles.exact, second, Nat.one_mul, slotLength, tiles.size] at last
  have size : ringSlotSize o = o.rxChunk ∨ ringSlotSize o = ntbRingMaxSlotSize o.capacity := by
    unfold ringSlotSize
    omega
  unfold OneSlot at short
  unfold ntbRingMaxSlotSize at size
  split at size <;> omega

/-- A second slot fits only if the chunk is not clamped. -/
theorem Tiles.several (tiles : Tiles o n) (long : ¬OneSlot o) :
    1 < get n .slotCount ∧ get n .slotSize = o.rxChunk := by
  unfold OneSlot at long
  have size : ringSlotSize o = o.rxChunk := by
    unfold ringSlotSize ntbRingMaxSlotSize
    split <;> omega
  refine ⟨?_, tiles.size.trans size⟩
  by_contra single
  have beyond := tiles.maximal 2 (by decide) (by omega)
  rw [slotLength, tiles.size, size] at beyond
  exact long beyond

theorem Tiles.aligned_iff (tiles : Tiles o n) (roomy : sizeofHeader + sizeofSlot < o.capacity)
    (base : 8 ∣ start) :
    (∀ i < 2 ^ 64, 8 ∣ start + ntbRingSlot n i) ↔ 8 ∣ o.rxChunk ∨ OneSlot o := by
  by_cases short : OneSlot o
  · refine iff_of_true ?_ (Or.inr short)
    intro i _
    rw [tiles.exact, tiles.single roomy short, Nat.mod_one]
    unfold sizeofHeader
    omega
  · obtain ⟨several, size⟩ := tiles.several short
    constructor
    · intro aligned
      have second := aligned 1 (by decide)
      rw [tiles.exact, Nat.mod_eq_of_lt several, slotLength, size] at second
      simp only [sizeofHeader, sizeofSlot] at second
      exact Or.inl (by omega)
    · intro condition i _
      have chunk : 8 ∣ o.rxChunk := condition.resolve_right short
      have length : 8 ∣ slotLength n := by
        rw [slotLength, size]
        exact Nat.dvd_add (by decide) chunk
      rw [tiles.exact]
      exact Nat.dvd_add base (Nat.dvd_add (by decide) (Nat.dvd_mul_left_of_dvd length _))

theorem ringOffset_dvd (backend : Backend) : 8 ∣ backend.ringOffset := by
  cases backend <;> decide

/-- All slot headers of a ring are aligned exactly when the chunk is a multiple of
eight or there is one slot. -/
theorem slots_aligned_iff (o : Options) (backend : Backend) (published : publishRing o m = some n)
    (page : pageSize ∣ base) :
    (∀ i < 2 ^ 64, SlotAligned (base + backend.ringOffset + ntbRingSlot n i)) ↔
      8 ∣ o.rxChunk ∨ OneSlot o := by
  obtain ⟨roomy, nonzero⟩ := publishRing_roomy published
  obtain ⟨ring, laid, tiles⟩ := publishRing_tiles o m roomy nonzero
  obtain rfl : ring = n := Option.some.inj (laid.symm.trans published)
  have start : 8 ∣ base + backend.ringOffset :=
    Nat.dvd_add (Nat.dvd_trans (by decide) page) (ringOffset_dvd backend)
  simp only [slotAligned_iff]
  exact tiles.aligned_iff roomy start

theorem slots_aligned_documented :
    ∃ n, publishRing documentedRing (fun _ => 0) = some n ∧
      ∀ i < 2 ^ 64, SlotAligned (0x7000000 + Backend.generic.ringOffset + ntbRingSlot n i) := by
  obtain ⟨n, published, _⟩ := publishRing_tiles documentedRing (fun _ => 0) (by decide) (by decide)
  have page : pageSize ∣ 0x7000000 := by decide
  have aligned := (slots_aligned_iff documentedRing .generic published page).mpr
  exact ⟨n, published, aligned (Or.inl (by decide))⟩

def hundredRing : Options :=
  ⟨0x1000, 100, 100, 0x1000, by decide, by decide, by decide, by decide, by decide⟩

theorem second_slot_misaligned :
    ∃ n, publishRing hundredRing (fun _ => 0) = some n ∧ get n .slotCount = 24 ∧
      ntbRingSlot n 1 = 228 ∧
      ∀ backend : Backend, ¬8 ∣ 0x7000000 + backend.ringOffset + ntbRingSlot n 1 := by
  obtain ⟨n, published, tiles⟩ := publishRing_tiles hundredRing (fun _ => 0) (by decide) (by decide)
  have count : get n .slotCount = 24 := tiles.count.trans (by decide)
  have size : get n .slotSize = 100 := tiles.size.trans (by decide)
  have slot : ntbRingSlot n 1 = 228 := by
    rw [tiles.exact, slotLength, count, size]
    decide
  refine ⟨n, published, count, slot, ?_⟩
  intro backend
  rw [slot]
  cases backend <;> decide

end IdtNtb.Ring
