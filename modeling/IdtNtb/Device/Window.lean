import IdtNtb.Device.State
import IdtNtb.Lib.Bytes

/-! The I/O path of a memory window: `idt_bar_read` and `idt_bar_write`, which
serve an access to BAR 2 to 5 out of the peer's RAM where no alias covers it. -/
namespace IdtNtb.Device
open Bytes

/-- The length of the mapping, or `none` when `map_peer_shm` returns NULL.
`mmap` refuses a length of zero, and a file has no negative size. -/
def mapPeerShm (file : PeerRamFile) : Option Nat :=
  if !file.opens then none
  else match file.stSize with
    | none => none
    | some size => if 0 < size ∧ file.maps then some size.toNat else none

/-- The checks both handlers make, in their order, before they touch the
peer's RAM; a first access maps it. -/
def barAdmit (file : PeerRamFile) (s : IVShmemState) (c : BARConfig) (addr : BitVec 64)
    (idx : Fin 6) : IVShmemState × Bool :=
  if c.limit = 0 then (s, false)
  else if c.limit.setWidth 64 < s.bars idx + addr then (s, false)
  else match s.peerMem with
    | some _ => (s, true)
    | none => match mapPeerShm file with
      | none => (s, false)
      | some length => ({ s with peerMem := some length }, true)

/-- An access to peer memory: its offset from `peer_mem`, as the pointer sum
computes it, and its width in bytes. -/
structure Access where
  offset : BitVec 64
  size : Nat
  deriving DecidableEq

def barAccess (c : BARConfig) (addr : BitVec 64) (size : Nat) : Access :=
  ⟨c.translation + addr, size⟩

structure BarReadResult where
  state : IVShmemState
  access : Option Access
  ret : BitVec 64

structure BarWriteResult where
  state : IVShmemState
  access : Option Access
  peerMemory : Memory

/-- `none` is the failed assertion on the access size. -/
def idtBarRead (file : PeerRamFile) (r : Role) (s : IVShmemState) (shm : SharedMemory)
    (peerMemory : Memory) (addr : BitVec 64) (size : Nat) (idx : Fin 6) : Option BarReadResult :=
  let c := (shm.vm r).barConfig idx
  match barAdmit file s c addr idx with
  | (s, false) => some ⟨s, none, 0⟩
  | (s, true) =>
      if size = 4 ∨ size = 8 then
        let access := barAccess c addr size
        some ⟨s, some access, BitVec.ofNat 64 (load peerMemory access.offset.toNat size)⟩
      else none

def idtBarWrite (file : PeerRamFile) (r : Role) (s : IVShmemState) (shm : SharedMemory)
    (peerMemory : Memory) (addr value : BitVec 64) (size : Nat) (idx : Fin 6) :
    Option BarWriteResult :=
  let c := (shm.vm r).barConfig idx
  match barAdmit file s c addr idx with
  | (s, false) => some ⟨s, none, peerMemory⟩
  | (s, true) =>
      if size = 4 ∨ size = 8 then
        let access := barAccess c addr size
        some ⟨s, some access, store peerMemory access.offset.toNat size value.toNat⟩
      else none

/-- An access through offset `addr` of a BAR at `base` is confined: its bytes are
the `size` bytes of the peer's RAM that the window shows there, they lie below
the window's limit and inside the RAM. The sums are exact, not modulo the word
size. -/
structure Access.Confined (access : Access) (base : BitVec 64) (c : BARConfig) (ramSize : Nat)
    (addr : BitVec 64) (size : Nat) : Prop where
  offset : access.offset.toNat = c.utbase.toNat * 2 ^ 32 + c.ltbase.toNat + addr.toNat
  width : access.size = size
  limit : base.toNat + addr.toNat + access.size ≤ c.limit.toNat
  inside : access.offset.toNat + access.size ≤ ramSize

/-- A read is confined when it returns what the bytes of a confined access hold,
or is refused and returns 0. -/
def ReadConfined (file : PeerRamFile) (r : Role) (s : IVShmemState) (shm : SharedMemory)
    (peerMemory : Memory) (addr : BitVec 64) (size : Nat) (idx : Fin 6) : Prop :=
  match idtBarRead file r s shm peerMemory addr size idx with
  | none => False
  | some ⟨t, some access, ret⟩ =>
      access.Confined (s.bars idx) ((shm.vm r).barConfig idx) (t.peerMem.getD 0) addr size ∧
        ret.toNat = load peerMemory access.offset.toNat access.size
  | some ⟨_, none, ret⟩ => ret = 0

/-- A write is confined when it stores the value in the bytes of a confined access
and changes no other byte, or is refused and changes none. -/
def WriteConfined (file : PeerRamFile) (r : Role) (s : IVShmemState) (shm : SharedMemory)
    (peerMemory : Memory) (addr value : BitVec 64) (size : Nat) (idx : Fin 6) : Prop :=
  match idtBarWrite file r s shm peerMemory addr value size idx with
  | none => False
  | some ⟨t, some access, after⟩ =>
      access.Confined (s.bars idx) ((shm.vm r).barConfig idx) (t.peerMem.getD 0) addr size ∧
        load after access.offset.toNat access.size = value.toNat % 256 ^ access.size ∧
        ∀ x, x < access.offset.toNat ∨ access.offset.toNat + access.size ≤ x →
          after x = peerMemory x
  | some ⟨_, none, after⟩ => after = peerMemory

/-- The mapping the handlers would use: the present one, or a new one. -/
def peerRam (file : PeerRamFile) (s : IVShmemState) : Option Nat :=
  s.peerMem <|> mapPeerShm file

/-- The window is active, the first byte passes the check against the limit,
and the peer's RAM is or can be mapped. -/
def Admitted (file : PeerRamFile) (s : IVShmemState) (c : BARConfig) (addr : BitVec 64)
    (idx : Fin 6) : Prop :=
  c.limit ≠ 0 ∧ s.bars idx + addr ≤ c.limit.setWidth 64 ∧ (peerRam file s).isSome

instance : Decidable (Admitted file s c addr idx) := inferInstanceAs (Decidable (_ ∧ _ ∧ _))

/-- The admitted access runs over one of the two ends its checks leave open:
the limit, which only the first byte is compared with, modulo 2^64, and the end
of the peer's RAM, which nothing is compared with. -/
def Overruns (file : PeerRamFile) (s : IVShmemState) (c : BARConfig) (addr : BitVec 64)
    (size : Nat) (idx : Fin 6) : Prop :=
  Admitted file s c addr idx ∧
    (c.limit.toNat < (s.bars idx).toNat + addr.toNat + size ∨
      (peerRam file s).getD 0 < c.utbase.toNat * 2 ^ 32 + c.ltbase.toNat + addr.toNat + size)

instance : Decidable (Overruns file s c addr size idx) := inferInstanceAs (Decidable (_ ∧ _))

theorem barAdmit_refused (refused : ¬Admitted file s c addr idx) :
    barAdmit file s c addr idx = (s, false) := by
  unfold barAdmit
  split
  · rfl
  split
  · rfl
  rename_i active below
  have unmapped : peerRam file s = none := by
    by_contra mapped
    exact refused ⟨active, BitVec.not_lt.mp below, Option.isSome_iff_ne_none.mpr mapped⟩
  obtain ⟨closed, failed⟩ : s.peerMem = none ∧ mapPeerShm file = none := by
    simpa only [peerRam, Option.orElse_eq_orElse, Option.orElse_eq_or, Option.or_eq_none_iff]
      using unmapped
  simp only [closed, failed]

theorem barAdmit_served (admitted : Admitted file s c addr idx) :
    ∃ t, barAdmit file s c addr idx = (t, true) ∧ t.peerMem = peerRam file s := by
  obtain ⟨active, below, mapped⟩ := admitted
  simp only [barAdmit, active, BitVec.not_lt.mpr below, if_false]
  cases present : s.peerMem with
  | some length => exact ⟨s, rfl, by simp [peerRam, present]⟩
  | none =>
    cases opened : mapPeerShm file with
    | none => simp [peerRam, present, opened] at mapped
    | some length => exact ⟨_, rfl, by simp [peerRam, present, opened]⟩

theorem translation_toNat (c : BARConfig) :
    c.translation.toNat = c.utbase.toNat * 2 ^ 32 + c.ltbase.toNat := by
  have high := c.utbase.isLt
  have low := c.ltbase.isLt
  simp only [BARConfig.translation, BitVec.toNat_add, BitVec.toNat_shiftLeft, BitVec.toNat_setWidth,
    Nat.shiftLeft_eq]
  omega

/-- The access of an admitted request is confined exactly when it does not overrun.
A pointer sum that wraps would have passed the end of the RAM. -/
theorem overruns_iff (admitted : Admitted file s c addr idx)
    (bounded : (peerRam file s).getD 0 < 2 ^ 63) :
    ¬Overruns file s c addr size idx ↔
      (barAccess c addr size).Confined (s.bars idx) c ((peerRam file s).getD 0) addr size := by
  have sum : (barAccess c addr size).offset.toNat =
      (c.utbase.toNat * 2 ^ 32 + c.ltbase.toNat + addr.toNat) % 2 ^ 64 := by
    rw [barAccess, BitVec.toNat_add, translation_toNat]
  simp only [Overruns, admitted, true_and]
  constructor
  · intro inside
    have exact : (barAccess c addr size).offset.toNat =
        c.utbase.toNat * 2 ^ 32 + c.ltbase.toNat + addr.toNat := by
      rw [sum, Nat.mod_eq_of_lt (by omega)]
    refine ⟨exact, rfl, ?_, ?_⟩
    · simp only [barAccess]
      omega
    · rw [exact]
      simp only [barAccess]
      omega
  · rintro ⟨exact, -, limit, inside⟩
    rw [exact] at inside
    simp only [barAccess] at limit inside
    omega

theorem readConfined_iff (width : size = 4 ∨ size = 8)
    (bounded : (peerRam file s).getD 0 < 2 ^ 63) :
    ReadConfined file r s shm peerMemory addr size idx ↔
      ¬Overruns file s ((shm.vm r).barConfig idx) addr size idx := by
  by_cases admitted : Admitted file s ((shm.vm r).barConfig idx) addr idx
  · obtain ⟨t, served, mapping⟩ := barAdmit_served admitted
    have value :=
      load_lt peerMemory (barAccess ((shm.vm r).barConfig idx) addr size).offset.toNat size
    have narrow : 256 ^ size ≤ 2 ^ 64 := by rcases width with rfl | rfl <;> decide
    have whole := Nat.mod_eq_of_lt (value.trans_le narrow)
    rw [overruns_iff admitted bounded]
    simp only [ReadConfined, idtBarRead, served, width, if_true, mapping, BitVec.toNat_ofNat, whole]
    exact and_iff_left rfl
  · have free : ¬Overruns file s ((shm.vm r).barConfig idx) addr size idx :=
      fun overrun => admitted overrun.1
    simp only [ReadConfined, idtBarRead, barAdmit_refused admitted, free, not_false_eq_true]

theorem writeConfined_iff (width : size = 4 ∨ size = 8)
    (bounded : (peerRam file s).getD 0 < 2 ^ 63) :
    WriteConfined file r s shm peerMemory addr value size idx ↔
      ¬Overruns file s ((shm.vm r).barConfig idx) addr size idx := by
  by_cases admitted : Admitted file s ((shm.vm r).barConfig idx) addr idx
  · obtain ⟨t, served, mapping⟩ := barAdmit_served admitted
    rw [overruns_iff admitted bounded]
    simp only [WriteConfined, idtBarWrite, served, width, if_true, mapping]
    refine and_iff_left ⟨load_store_mod .., ?_⟩
    intro x outside
    exact store_outside outside
  · have free : ¬Overruns file s ((shm.vm r).barConfig idx) addr size idx :=
      fun overrun => admitted overrun.1
    simp only [WriteConfined, idtBarWrite, barAdmit_refused admitted, free, not_false_eq_true]

/-- The I/O path is confined exactly for the accesses that do not overrun. The size
of the peer's RAM is an `off_t`. -/
theorem window_confined_iff (file : PeerRamFile) (r : Role) (s : IVShmemState) (shm : SharedMemory)
    (peerMemory : Memory) (addr value : BitVec 64) (idx : Fin 6) (width : size = 4 ∨ size = 8)
    (bounded : (peerRam file s).getD 0 < 2 ^ 63) :
    (ReadConfined file r s shm peerMemory addr size idx ∧
      WriteConfined file r s shm peerMemory addr value size idx) ↔
      ¬Overruns file s ((shm.vm r).barConfig idx) addr size idx := by
  rw [readConfined_iff width bounded, writeConfined_iff width bounded, and_self_iff]

/-- BAR 2 at 4 MiB with a window of 64 KiB into a peer of 2 MiB. -/
def sampleWindow : SharedMemory :=
  (ivshmemCommonRealize .vm1 .zero).setBar .vm1 2 .limit 0x410000

def sampleDevice : IVShmemState :=
  { IVShmemState.realized 0 (fun _ => 0x400000) with peerMem := some 0x200000 }

theorem window_confined_last_word :
    ReadConfined .absent .vm1 sampleDevice sampleWindow (fun _ => 0) 0xFFFC 4 2 ∧
      WriteConfined .absent .vm1 sampleDevice sampleWindow (fun _ => 0) 0xFFFC 7 4 2 :=
  (window_confined_iff .absent .vm1 sampleDevice sampleWindow (fun _ => 0) 0xFFFC 7 2
    (Or.inl rfl) (by decide)).mpr (by decide)

/-- An access whose first byte is at the limit is served, by both handlers. -/
theorem window_escapes_at_limit :
    ¬ReadConfined .absent .vm1 sampleDevice sampleWindow (fun _ => 0) 0x10000 4 2 ∧
      ¬WriteConfined .absent .vm1 sampleDevice sampleWindow (fun _ => 0) 0x10000 7 4 2 := by
  constructor
  · rintro ⟨confined, -⟩
    exact absurd confined.limit (by decide)
  · rintro ⟨confined, -⟩
    exact absurd confined.limit (by decide)

end IdtNtb.Device
