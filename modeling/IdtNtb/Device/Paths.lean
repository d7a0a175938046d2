import IdtNtb.Device.Aliases
import IdtNtb.Device.Window

/-! The two ways into the peer's RAM through one BAR: the alias that
`idt_bar_update_peer_ram_alias` maps for the configuration, and the I/O path
that serves whatever no alias covers. -/
namespace IdtNtb.Device
open Bytes

/-- The peer's RAM file can be opened and has `ramSize` bytes, and what the
device holds of it agrees. -/
structure RamAvailable (file : PeerRamFile) (s : IVShmemState) (ramSize : Nat) : Prop where
  opens : file.opens = true
  maps : file.maps = true
  size : file.stSize = some (ramSize : Int)
  positive : 0 < ramSize
  bounded : ramSize < 2 ^ 63
  mapping : s.peerMem = none ∨ s.peerMem = some ramSize
  region : s.peerRamInitialized = true → s.peerRamSize = BitVec.ofNat 64 ramSize

/-- An access at BAR offset `addr` that lies inside a mapped alias and reaches
the same peer RAM offset through it. -/
def RamAlias.Covers (a : RamAlias) (addr : BitVec 64) (access : Access) : Prop :=
  a.mapped = true ∧ addr.toNat + access.size ≤ a.size.toNat ∧ access.offset = a.offset + addr

instance (a : RamAlias) (addr : BitVec 64) (access : Access) : Decidable (a.Covers addr access) :=
  inferInstanceAs (Decidable (_ ∧ _ ∧ _))

/-- What the I/O path serves at `addr`, the alias of the same configuration covers. -/
def PathsAgree (file : PeerRamFile) (r : Role) (s : IVShmemState) (shm : SharedMemory)
    (peerMemory : Memory) (addr value : BitVec 64) (size : Nat) (idx : Fin 6) : Prop :=
  let a := (idtBarUpdatePeerRamAlias file s ((shm.vm r).barConfig idx) idx).1.peerRamAlias idx
  (∀ access, (idtBarRead file r s shm peerMemory addr size idx).bind (·.access) = some access →
    a.Covers addr access) ∧
  ∀ access, (idtBarWrite file r s shm peerMemory addr value size idx).bind
    (·.access) = some access → a.Covers addr access

/-- The configuration has no alias for these bytes: the BAR is disabled or not
a window, the window is empty or does not fit into the peer's RAM, or the bytes
run past its end. -/
def BARConfig.Uncovered (c : BARConfig) (base : BitVec 64) (ramSize : Nat) (addr : BitVec 64)
    (size : Nat) : Prop :=
  c.setup &&& fieldBit barsetupEnable = 0 ∨ c.setup &&& fieldBit barsetupMode ≠ 0 ∨
    c.limit.toNat ≤ base.toNat ∨
    ramSize < c.utbase.toNat * 2 ^ 32 + c.ltbase.toNat + min (2 ^ 22) (c.limit.toNat - base.toNat) ∨
    min (2 ^ 22) (c.limit.toNat - base.toNat) < addr.toNat + size

instance (c : BARConfig) (base : BitVec 64) (ramSize : Nat) (addr : BitVec 64) (size : Nat) :
    Decidable (c.Uncovered base ramSize addr size) :=
  inferInstanceAs (Decidable (_ ∨ _ ∨ _ ∨ _ ∨ _))

theorem barRead_access (width : size = 4 ∨ size = 8) :
    (idtBarRead file r s shm peerMemory addr size idx).bind (·.access) =
      if Admitted file s ((shm.vm r).barConfig idx) addr idx then
        some (barAccess ((shm.vm r).barConfig idx) addr size)
      else none := by
  split
  · rename_i admitted
    obtain ⟨t, served, -⟩ := barAdmit_served admitted
    simp only [idtBarRead, served, width, if_true, Option.bind_some]
  · rename_i refused
    simp only [idtBarRead, barAdmit_refused refused, Option.bind_some]

theorem barWrite_access (width : size = 4 ∨ size = 8) :
    (idtBarWrite file r s shm peerMemory addr value size idx).bind (·.access) =
      if Admitted file s ((shm.vm r).barConfig idx) addr idx then
        some (barAccess ((shm.vm r).barConfig idx) addr size)
      else none := by
  split
  · rename_i admitted
    obtain ⟨t, served, -⟩ := barAdmit_served admitted
    simp only [idtBarWrite, served, width, if_true, Option.bind_some]
  · rename_i refused
    simp only [idtBarWrite, barAdmit_refused refused, Option.bind_some]

variable {s : IVShmemState} {c : BARConfig}

theorem initPeerRam_available (available : RamAvailable file s ramSize) :
    (idtInitPeerRamRegion file s).1 =
      { s with peerRamSize := BitVec.ofNat 64 ramSize, peerRamInitialized := true } := by
  unfold idtInitPeerRamRegion
  split
  · rename_i present
    rw [← available.region present, ← present]
  · have accepted : ¬((ramSize : Int) ≤ 0 ∨ (!file.maps) = true) := by
      have positive := available.positive
      simp [available.maps]
      omega
    simp only [available.opens, available.size, Bool.not_true, Bool.false_eq_true,
      if_false, accepted, BitVec.ofInt_natCast]

/-- With the file available, the window is placed if it ends inside the RAM. -/
theorem target_available (available : RamAvailable file s ramSize)
    (windowed : c.Windowed (s.bars idx)) :
    (s.prepared file c idx).target c idx =
      if ramSize < c.utbase.toNat * 2 ^ 32 + c.ltbase.toNat + (c.windowSize (s.bars idx)).toNat then
        none
      else some (c.translation, c.windowSize (s.bars idx)) := by
  have opening : s.prepared file c idx = (idtInitPeerRamRegion file s).1 := if_pos windowed
  have total : (BitVec.ofNat 64 ramSize).toNat = ramSize := by
    have bounded := available.bounded
    simp
    omega
  rw [target_windowed windowed (opening ▸ initPeerRam_bars file s), opening,
    initPeerRam_available available]
  simp only [Bool.not_true, Bool.false_eq_true, false_or,
    window_past_iff (windowSize_ne_zero windowed), total, translation_toNat]

/-- The alias of the configuration covers an access exactly when its bytes are
not among the uncovered ones. -/
theorem updated_covers_iff (available : RamAvailable file s ramSize) (window : MemoryWindow idx) :
    ((idtBarUpdatePeerRamAlias file s c idx).1.peerRamAlias idx).Covers addr
      (barAccess c addr size) ↔
      ¬c.Uncovered (s.bars idx) ramSize addr size := by
  rw [updateAlias_eq file s c window, place_alias]
  by_cases windowed : c.Windowed (s.bars idx)
  · obtain ⟨extent, above⟩ := windowSize_toNat windowed
    rw [target_available available windowed, BARConfig.Uncovered, extent]
    have enabled := windowed
    simp only [BARConfig.Windowed, not_or] at enabled
    simp only [enabled.1, enabled.2.1, Nat.not_le.mpr above, false_or, not_or]
    split
    · rename_i past
      simp only [RamAlias.Covers, RamAlias.after, past, Bool.false_eq_true, false_and,
        not_true_eq_false]
    · rename_i fits
      simp only [RamAlias.Covers, RamAlias.after, barAccess, extent, true_and, and_true, fits,
        not_false_eq_true, Nat.not_lt]
  · have closed : s.prepared file c idx = s := if_neg windowed
    rw [closed, target_closed s idx windowed]
    have uncovered : c.Uncovered (s.bars idx) ramSize addr size := by
      have limit : (c.limit.setWidth 64).toNat = c.limit.toNat := by simp; omega
      rcases not_not.mp windowed with disabled | mode | below
      · exact Or.inl disabled
      · exact Or.inr (Or.inl mode)
      · rw [BitVec.le_def, limit] at below
        exact Or.inr (Or.inr (Or.inl below))
    simp [RamAlias.Covers, RamAlias.after, uncovered]

/-- Both paths admit the same accesses exactly when none is admitted that the
configuration has no alias for. -/
theorem paths_agree_iff (r : Role) (shm : SharedMemory) (peerMemory : Memory)
    (addr value : BitVec 64) (available : RamAvailable file s ramSize) (window : MemoryWindow idx)
    (width : size = 4 ∨ size = 8) :
    PathsAgree file r s shm peerMemory addr value size idx ↔
      ¬(Admitted file s ((shm.vm r).barConfig idx) addr idx ∧
        ((shm.vm r).barConfig idx).Uncovered (s.bars idx) ramSize addr size) := by
  simp only [PathsAgree, barRead_access width, barWrite_access width, and_self_iff]
  split
  · rename_i admitted
    simp only [Option.some.injEq, forall_eq', admitted, true_and]
    exact updated_covers_iff available window
  · rename_i refused
    simp [refused]

def sampleFile : PeerRamFile := ⟨true, some 0x200000, true⟩

theorem sampleFile_available : RamAvailable sampleFile sampleDevice 0x200000 :=
  ⟨rfl, rfl, rfl, by decide, by decide, Or.inr rfl, nofun⟩

theorem paths_agree_last_word :
    PathsAgree sampleFile .vm1 sampleDevice sampleWindow (fun _ => 0) 0xFFFC 7 4 2 :=
  (paths_agree_iff .vm1 sampleWindow (fun _ => 0) 0xFFFC 7 sampleFile_available (by decide)
    (Or.inl rfl)).mpr (by decide)

/-- The I/O path serves an access at the end of the window, and one through a
disabled BAR; no alias covers either. -/
theorem paths_disagree :
    ¬PathsAgree sampleFile .vm1 sampleDevice sampleWindow (fun _ => 0) 0x10000 7 4 2 ∧
      ¬PathsAgree sampleFile .vm1 sampleDevice (sampleWindow.setBar .vm1 2 .setup 0) (fun _ => 0)
        0 7 4 2 := by
  constructor
  · intro agree
    exact absurd (agree.2 ⟨0x10000, 4⟩ (by decide)) (by decide)
  · intro agree
    exact absurd (agree.2 ⟨0, 4⟩ (by decide)) (by decide)

end IdtNtb.Device
