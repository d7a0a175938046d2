import IdtNtb.Lib.Slots

/-! The profiling ring in mapped memory: `struct ntb_profile_ring_header` at
offset 0, then the slots. A slot is a `struct ntb_profile_ring_slot` followed by
its payload. -/
namespace IdtNtb.Ring
open Bytes Slots

inductive Field where
  | magic
  | version
  | headerSize
  | slotHeaderSize
  | slotCount
  | slotSize
  | flags
  | head
  | tail
  | totalBytes
  | elapsedNs
  deriving DecidableEq

def Field.offset : Field → Nat
  | .magic => 0
  | .version => 4
  | .headerSize => 8
  | .slotHeaderSize => 12
  | .slotCount => 16
  | .slotSize => 20
  | .flags => 24
  | .head => 32
  | .tail => 40
  | .totalBytes => 48
  | .elapsedNs => 56

def Field.width : Field → Nat
  | .head | .tail | .totalBytes | .elapsedNs => 8
  | _ => 4

inductive SlotField where
  | seq
  | total
  | len
  | flags
  deriving DecidableEq

def SlotField.offset : SlotField → Nat
  | .seq => 0
  | .total => 8
  | .len => 16
  | .flags => 20

def SlotField.width : SlotField → Nat
  | .seq | .total => 8
  | .len | .flags => 4

def sizeofHeader : Nat := 64
def sizeofSlot : Nat := 64

def ringMagic : Nat := 0x4e544250
def ringVersion : Nat := 1
def flagDone : Nat := 1

def get (m : Memory) (f : Field) : Nat := load m f.offset f.width

def put (m : Memory) (f : Field) (value : Nat) : Memory := store m f.offset f.width value

def slotGet (m : Memory) (slot : Nat) (f : SlotField) : Nat := load m (slot + f.offset) f.width

def slotPut (m : Memory) (slot : Nat) (f : SlotField) (value : Nat) : Memory :=
  store m (slot + f.offset) f.width value

def u64 (n : Nat) : Nat := n % 2 ^ 64

/-- The pointer arithmetic of `ntb_ring_slot`, from the header fields in memory. -/
def ntbRingSlot (m : Memory) (index : Nat) : Nat :=
  let stride := get m .slotHeaderSize + get m .slotSize
  u64 (get m .headerSize + index % get m .slotCount * stride)

def ntbRingSlotPayload (m : Memory) (slot : Nat) : Nat := u64 (slot + get m .slotHeaderSize)

def ntbRingMaxSlotSize (capacity : Nat) : Nat :=
  if capacity ≤ sizeofHeader + sizeofSlot then 0 else capacity - sizeofHeader - sizeofSlot

def ntbRingCalcSlotCount (capacity slotSize : Nat) : Nat :=
  if slotSize = 0 ∨ capacity ≤ sizeofHeader then 0
  else
    let stride := u64 (sizeofSlot + slotSize)
    let slots := (capacity - sizeofHeader) / stride
    if 2 ^ 32 - 1 < slots then 2 ^ 32 - 1 else slots

/-- The options of both programs, within the bounds that `parse_options`
enforces, and the size of the mapped segment. -/
structure Options where
  capacity : Nat
  rxChunk : Nat
  txChunk : Nat
  total : Nat
  capacity_lt : capacity < 2 ^ 64
  rxChunk_lt : rxChunk < 2 ^ 32
  txChunk_pos : 0 < txChunk
  txChunk_lt : txChunk < 2 ^ 32
  total_lt : total < 2 ^ 64

/-- The stores of `run_rx` into the header: the magic number is withdrawn first
and published last. -/
def writeHeader (slotCount slotSize : Nat) (m : Memory) : Memory :=
  let m := put m .magic 0
  let m := store m 0 sizeofHeader 0
  let m := put m .version ringVersion
  let m := put m .headerSize sizeofHeader
  let m := put m .slotHeaderSize sizeofSlot
  let m := put m .slotCount slotCount
  let m := put m .slotSize slotSize
  put m .magic ringMagic

/-- The slot count and slot size that `run_rx` computes, if the mapping has room. -/
def layoutRing (capacity chunk : Nat) : Option (Nat × Nat) :=
  let maxSlotSize := ntbRingMaxSlotSize capacity
  if chunk = 0 ∨ maxSlotSize = 0 then none
  else
    let slotSize := if maxSlotSize < chunk then maxSlotSize else chunk
    let slotCount := ntbRingCalcSlotCount capacity slotSize
    if slotCount = 0 then none else some (slotCount, slotSize)

def ringLayout (o : Options) : Option (Nat × Nat) := layoutRing o.capacity o.rxChunk

/-- The first part of `run_rx`: lay out the ring and publish its header. -/
def publishRing (o : Options) (m : Memory) : Option Memory :=
  (ringLayout o).map fun layout => writeHeader layout.1 layout.2 m

/-- The stores behind the `memset`, the magic number last. -/
def headerStores (slotCount slotSize : Nat) : List (Field × Nat) :=
  [(.version, ringVersion), (.headerSize, sizeofHeader), (.slotHeaderSize, sizeofSlot),
    (.slotCount, slotCount), (.slotSize, slotSize), (.magic, ringMagic)]

/-- A ring that fits its mapping: the number of slots and their payload size. -/
structure Geometry where
  count : Nat
  size : Nat
  count_pos : 0 < count
  count_lt : count < 2 ^ 32
  size_lt : size < 2 ^ 32
  fits : sizeofHeader + count * (sizeofSlot + size) < 2 ^ 64

def Geometry.stride (g : Geometry) : Nat := sizeofSlot + g.size

def Geometry.slot (g : Geometry) (i : Nat) : Nat := slotAt sizeofHeader g.stride g.count i

/-- The header fields that both sides navigate by. -/
structure Published (g : Geometry) (m : Memory) : Prop where
  headerSize : get m .headerSize = sizeofHeader
  slotHeaderSize : get m .slotHeaderSize = sizeofSlot
  slotCount : get m .slotCount = g.count
  slotSize : get m .slotSize = g.size

theorem field_inside (f : Field) : f.offset + f.width ≤ sizeofHeader := by
  cases f <;> decide

theorem field_disjoint {f k : Field} (different : f ≠ k) :
    Separate f.offset f.width k.offset k.width := by
  revert different
  cases f <;> cases k <;> decide

theorem slotField_inside (f : SlotField) : f.offset + f.width ≤ sizeofSlot := by
  cases f <;> decide

theorem slotField_disjoint (slot : Nat) {f k : SlotField} (different : f ≠ k) :
    Separate (slot + f.offset) f.width (slot + k.offset) k.width := by
  revert different
  cases f <;> cases k <;> simp [SlotField.offset, SlotField.width, Separate]

theorem get_put_ne (m : Memory) (value : Nat) (different : f ≠ k) :
    get (put m k value) f = get m f :=
  load_store_disjoint (field_disjoint different)

theorem get_put_same (m : Memory) (f : Field) (fits : value < 256 ^ f.width) :
    get (put m f value) f = value :=
  load_store fits

/-- Stores behind the header leave it alone. -/
theorem get_store (m : Memory) (f : Field) (width value : Nat) (behind : sizeofHeader ≤ addr) :
    get (store m addr width value) f = get m f := by
  have inside := field_inside f
  exact load_store_disjoint (Or.inl (by omega))

theorem slot_behind (g : Geometry) (i : Nat) : sizeofHeader ≤ g.slot i := Nat.le_add_right _ _

/-- Stores into the header leave the slots alone. -/
theorem slotGet_put (m : Memory) (g : Geometry) (i : Nat) (f : SlotField) (k : Field)
    (value : Nat) :
    slotGet (put m k value) (g.slot i) f = slotGet m (g.slot i) f := by
  have inside := field_inside k
  have behind := slot_behind g i
  exact load_store_disjoint (Or.inr (by omega))

/-- Stores into one slot leave the fields of another alone. -/
theorem slotGet_store (m : Memory) (g : Geometry) (f : SlotField) (width value : Nat)
    (different : i % g.count ≠ j % g.count) (within : x + width ≤ g.stride) :
    slotGet (store m (g.slot j + x) width value) (g.slot i) f = slotGet m (g.slot i) f := by
  have inside := slotField_inside f
  exact load_store_disjoint (slotAt_disjoint sizeofHeader g.count different
    (Nat.le_trans inside (Nat.le_add_right _ _)) within)

theorem slotGet_slotPut_ne (m : Memory) (slot value : Nat) (different : f ≠ k) :
    slotGet (slotPut m slot k value) slot f = slotGet m slot f :=
  load_store_disjoint (slotField_disjoint slot different)

theorem slotGet_slotPut_same (m : Memory) (slot : Nat) (f : SlotField)
    (fits : value < 256 ^ f.width) :
    slotGet (slotPut m slot f value) slot f = value :=
  load_store fits

theorem slot_end (g : Geometry) (i : Nat) : g.slot i + g.stride < 2 ^ 64 := by
  have last := slotAt_end sizeofHeader g.stride i g.count_pos
  have fits := g.fits
  unfold Geometry.slot Geometry.stride at *
  omega

theorem ntbRingSlot_eq {g : Geometry} (published : Published g m) (i : Nat) :
    ntbRingSlot m i = g.slot i := by
  obtain ⟨headerSize, slotHeaderSize, slotCount, slotSize⟩ := published
  have bound := slot_end g i
  simp only [ntbRingSlot, headerSize, slotHeaderSize, slotCount, slotSize, u64]
  exact Nat.mod_eq_of_lt (Nat.lt_of_le_of_lt (Nat.le_add_right _ _) bound)

theorem ntbRingSlotPayload_eq {g : Geometry} (published : Published g m) (i : Nat) :
    ntbRingSlotPayload m (g.slot i) = g.slot i + sizeofSlot := by
  have bound := slot_end g i
  simp only [ntbRingSlotPayload, published.slotHeaderSize, u64]
  exact Nat.mod_eq_of_lt (by unfold Geometry.stride at bound; omega)

structure Laid (g : Geometry) (m : Memory) : Prop where
  published : Published g m
  head : get m .head = 0
  tail : get m .tail = 0
  flags : get m .flags = 0

def fillIn (m : Memory) (stores : List (Field × Nat)) : Memory :=
  stores.foldl (fun m x => put m x.1 x.2) m

/-- The stores into a cleared header. -/
theorem fillIn_laid (g : Geometry) (cleared : ∀ f, get m f = 0) :
    Laid g (fillIn m (headerStores g.count g.size)) := by
  have count := fun m => get_put_same m .slotCount g.count_lt
  have size := fun m => get_put_same m .slotSize g.size_lt
  refine ⟨⟨?_, ?_, ?_, ?_⟩, ?_, ?_, ?_⟩
  all_goals
    simp (disch := decide) only [fillIn, headerStores, List.foldl_cons, List.foldl_nil, get_put_ne,
      get_put_same, cleared, count, size]

/-- The sequential stores of `writeHeader` lay out an empty ring. -/
theorem writeHeader_laid (g : Geometry) (m : Memory) : Laid g (writeHeader g.count g.size m) := by
  apply fillIn_laid
  intro f
  exact load_zeroed _ (Nat.zero_le _) (by simpa using field_inside f)

/-- The stride of a slot that the mapping could hold does not wrap around. -/
theorem calcSlotCount_eq (capacity : Nat) (narrow : sizeofSlot + slotSize < 2 ^ 64) :
    ntbRingCalcSlotCount capacity slotSize =
      if slotSize = 0 ∨ capacity ≤ sizeofHeader then 0
      else
        let slots := (capacity - sizeofHeader) / (sizeofSlot + slotSize)
        if 2 ^ 32 - 1 < slots then 2 ^ 32 - 1 else slots := by
  simp only [ntbRingCalcSlotCount, u64, Nat.mod_eq_of_lt narrow]

theorem calcSlotCount_le (narrow : sizeofSlot + slotSize < 2 ^ 64)
    (large : sizeofHeader ≤ capacity) :
    sizeofHeader + ntbRingCalcSlotCount capacity slotSize * (sizeofSlot + slotSize) ≤ capacity := by
  rw [calcSlotCount_eq capacity narrow]
  split
  · omega
  · extract_lets slots
    have floor : slots * (sizeofSlot + slotSize) ≤ capacity - sizeofHeader := Nat.div_mul_le_self ..
    split
    · rename_i many
      have fewer := Nat.mul_le_mul_right (sizeofSlot + slotSize) (Nat.le_of_lt many)
      omega
    · omega

theorem calcSlotCount_lt (capacity slotSize : Nat) :
    ntbRingCalcSlotCount capacity slotSize < 2 ^ 32 := by
  unfold ntbRingCalcSlotCount
  split
  · decide
  · extract_lets stride slots
    split <;> omega

theorem calcSlotCount_fits (o : Options) (narrow : sizeofSlot + slotSize < 2 ^ 64) :
    sizeofHeader + ntbRingCalcSlotCount o.capacity slotSize * (sizeofSlot + slotSize) < 2 ^ 64 ∧
      ntbRingCalcSlotCount o.capacity slotSize < 2 ^ 32 := by
  refine ⟨?_, calcSlotCount_lt o.capacity slotSize⟩
  have capacity := o.capacity_lt
  by_cases large : sizeofHeader ≤ o.capacity
  · exact Nat.lt_of_le_of_lt (calcSlotCount_le narrow large) capacity
  · have none : ntbRingCalcSlotCount o.capacity slotSize = 0 := if_pos (Or.inr (by omega))
    rw [none, Nat.zero_mul]
    decide

theorem ringLayout_geometry (laid : ringLayout o = some (slotCount, slotSize)) :
    ∃ g : Geometry, g.count = slotCount ∧ g.size = slotSize := by
  unfold ringLayout layoutRing at laid
  extract_lets maxSlotSize size count at laid
  split at laid
  · contradiction
  split at laid
  · contradiction
  rename_i sized counted
  obtain ⟨rfl, rfl⟩ := Prod.mk.inj (Option.some.inj laid)
  have chunk := o.rxChunk_lt
  have small : size < 2 ^ 32 := by
    simp only [size]
    split <;> omega
  have narrow : sizeofSlot + size < 2 ^ 64 := by
    simp only [sizeofSlot]
    omega
  obtain ⟨fits, bound⟩ := calcSlotCount_fits o narrow
  exact ⟨⟨count, size, Nat.pos_of_ne_zero counted, bound, small, fits⟩, rfl, rfl⟩

/-- What `run_rx` publishes: a ring that fits its mapping, empty and not done. -/
theorem publishRing_geometry (o : Options) (published : publishRing o m = some n) :
    ∃ g, Laid g n := by
  obtain ⟨⟨slotCount, slotSize⟩, laid, rfl⟩ := Option.map_eq_some_iff.mp published
  obtain ⟨g, rfl, rfl⟩ := ringLayout_geometry laid
  exact ⟨g, writeHeader_laid g m⟩

end IdtNtb.Ring
