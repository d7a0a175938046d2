import IdtNtb.Kernel.Translation

/-! Windows that an alias shows whole. Loads and stores of any width then go to
the peer's RAM, as they do not on the I/O path, and the device does nothing else. -/
namespace IdtNtb.Kernel
open Device Bytes

/-- A guest's load through BAR `idx`, from the alias or from the I/O region. -/
def barLoad (file : PeerRamFile) (r : Role) (s : IVShmemState) (shm : SharedMemory)
    (peerMemory : Memory) (addr : BitVec 64) (size : Nat) (idx : Fin 6) : Option BarReadResult :=
  let a := s.peerRamAlias idx
  if a.mapped ∧ addr.toNat < a.size.toNat then
    if addr.toNat + size ≤ a.size.toNat then
      let access : Access := ⟨a.offset + addr, size⟩
      some ⟨s, some access, BitVec.ofNat 64 (load peerMemory access.offset.toNat size)⟩
    else none
  else idtBarRead file r s shm peerMemory addr size idx

/-- The alias shows `length` bytes of the peer's RAM from `start` on. -/
structure Exposes (s : IVShmemState) (idx : Fin 6) (start length : Nat) : Prop where
  mapped : (s.peerRamAlias idx).mapped = true
  offset : (s.peerRamAlias idx).offset.toNat = start
  room : length ≤ (s.peerRamAlias idx).size.toNat
  addressable : start + length < 2 ^ 64

section Accesses
variable {s : IVShmemState} {idx : Fin 6} (exposes : Exposes s idx start length)
    (positive : 0 < width)
  (inside : addr + width ≤ length) (file : PeerRamFile) (r : Role) (shm : SharedMemory)
  (peerMemory : Memory)
include exposes positive inside

theorem Exposes.target :
    (BitVec.ofNat 64 addr).toNat = addr ∧
    ((s.peerRamAlias idx).offset + BitVec.ofNat 64 addr).toNat = start + addr ∧
      (s.peerRamAlias idx).mapped = true ∧ addr < (s.peerRamAlias idx).size.toNat ∧
      addr + width ≤ (s.peerRamAlias idx).size.toNat := by
  have room := exposes.room
  have reach := exposes.addressable
  have offset : (BitVec.ofNat 64 addr).toNat = addr := by
    rw [BitVec.toNat_ofNat]
    exact Nat.mod_eq_of_lt (by omega)
  refine ⟨offset, ?_, exposes.mapped, by omega, by omega⟩
  rw [BitVec.toNat_add, offset, exposes.offset]
  exact Nat.mod_eq_of_lt (by omega)

theorem Exposes.barLoad :
    ∃ access, barLoad file r s shm peerMemory (BitVec.ofNat 64 addr) width idx =
      some ⟨s, access, BitVec.ofNat 64 (load peerMemory (start + addr) width)⟩ := by
  obtain ⟨offset, target, mapped, below, fits⟩ := exposes.target positive inside
  simp only [Kernel.barLoad, offset, target, mapped, below, fits, and_self, if_true]
  exact ⟨_, rfl⟩

theorem Exposes.barStore (value : BitVec 64) :
    ∃ access, barStore file r s shm peerMemory (BitVec.ofNat 64 addr) value width idx =
      some ⟨s, access, store peerMemory (start + addr) width value.toNat⟩ := by
  obtain ⟨offset, target, mapped, below, fits⟩ := exposes.target positive inside
  simp only [Kernel.barStore, offset, target, mapped, below, fits, and_self, if_true]
  exact ⟨_, rfl⟩

end Accesses

/-! ## Opening such a window -/

theorem update_available {s : IVShmemState} (available : RamAvailable file s ramSize)
    (c : BARConfig) (idx : Fin 6) :
    RamAvailable file (idtBarUpdatePeerRamAlias file s c idx).1 ramSize := by
  by_cases window : MemoryWindow idx
  · have prepared : RamAvailable file (s.prepared file c idx) ramSize := by
      unfold IVShmemState.prepared
      split
      · rw [initPeerRam_available available]
        exact ⟨available.opens, available.maps, available.size, available.positive,
          available.bounded, available.mapping, fun _ => rfl⟩
      · exact available
    rw [updateAlias_eq file s c window, place_state]
    exact ⟨available.opens, available.maps, available.size, available.positive, available.bounded,
      prepared.mapping, prepared.region⟩
  · rw [updateAlias_outside file s c window]
    exact available

theorem update_kept (file : PeerRamFile) (s : IVShmemState) (c : BARConfig) (other : k ≠ idx) :
    (idtBarUpdatePeerRamAlias file s c idx).1.peerRamAlias k = s.peerRamAlias k := by
  by_cases window : MemoryWindow idx
  · rw [updateAlias_eq file s c window, place_state, setAlias_other _ _ other]
    rcases prepared_cases file s c idx with same | ⟨-, size, opened⟩
    · rw [same]
    · rw [opened]
  · rw [updateAlias_outside file s c window]

theorem update_bars (file : PeerRamFile) (s : IVShmemState) (c : BARConfig) (idx : Fin 6) :
    (idtBarUpdatePeerRamAlias file s c idx).1.bars = s.bars := by
  obtain ⟨_, _, _, state⟩ := updateAlias_only file s c idx
  rw [state]

/-- After the VM_ID handler the alias covers what the configuration has one for. -/
theorem refresh_covers {s : IVShmemState} (available : RamAvailable file s ramSize)
    (window : MemoryWindow idx) (r : Role) (shm : SharedMemory)
    (covered : ¬((shm.vm r).barConfig idx).Uncovered (s.bars idx) ramSize addr size) :
    ((idtBarRefreshPeerRamAliases file r s shm).1.peerRamAlias idx).Covers addr
      (barAccess ((shm.vm r).barConfig idx) addr size) := by
  have windows : ∀ idx : Fin 6, MemoryWindow idx → idx = 2 ∨ idx = 3 ∨ idx = 4 := by decide
  simp only [idtBarRefreshPeerRamAliases, List.foldl_cons, List.foldl_nil]
  rcases windows idx window with rfl | rfl | rfl
  · rw [update_kept _ _ _ (by decide), update_kept _ _ _ (by decide)]
    exact (updated_covers_iff available (by decide)).mpr covered
  · rw [update_kept _ _ _ (by decide)]
    refine (updated_covers_iff (update_available available _ _) (by decide)).mpr ?_
    rwa [update_bars]
  · refine (updated_covers_iff (update_available (update_available available _ _) _ _)
      (by decide)).mpr ?_
    rwa [update_bars, update_bars]

/-- The window is enabled and its whole extent lies in the peer's RAM: from the
other BAR's address up to the limit, which is a sum with the own BAR's address. -/
structure Fitting (c : BARConfig) (own other addr size : BitVec 64) (ramSize : Nat) : Prop where
  enabled : c.setup &&& fieldBit barsetupEnable ≠ 0
  window : c.setup &&& fieldBit barsetupMode = 0
  positive : 0 < size.toNat
  bounded : size.toNat ≤ 2 ^ 22
  below : other.toNat ≤ own.toNat
  narrow : own.toNat + size.toNat < 2 ^ 32
  fits : addr.toNat + min (2 ^ 22) (own.toNat + size.toNat - other.toNat) ≤ ramSize

instance : Decidable (Fitting c own other addr size ramSize) :=
  decidable_of_iff ((c.setup &&& fieldBit barsetupEnable ≠ 0 ∧
    c.setup &&& fieldBit barsetupMode = 0) ∧
      (0 < size.toNat ∧ size.toNat ≤ 2 ^ 22) ∧ other.toNat ≤ own.toNat ∧
        own.toNat + size.toNat < 2 ^ 32 ∧
      addr.toNat + min (2 ^ 22) (own.toNat + size.toNat - other.toNat) ≤ ramSize)
    ⟨fun ⟨⟨a, b⟩, ⟨c, d⟩, e, f, g⟩ => ⟨a, b, c, d, e, f, g⟩, fun ⟨a, b, c, d, e, f, g⟩ =>
      ⟨⟨a, b⟩, ⟨c, d⟩, e, f, g⟩⟩

theorem Fitting.covers {c d : BARConfig} (fitting : Fitting c own other addr size ramSize)
    (setup : d.setup = c.setup)
    (translation : d.translation = addr) (limit : d.limit = (own + size).setWidth 32) :
    ¬d.Uncovered other ramSize 0 size.toNat := by
  have exact := limit_toNat limit
  have narrow := fitting.narrow
  have below := fitting.below
  have positive := fitting.positive
  have bounded := fitting.bounded
  have fits := fitting.fits
  have zero : (0 : BitVec 64).toNat = 0 := rfl
  rw [← translation, translation_toNat] at fits
  rw [Nat.mod_eq_of_lt narrow] at exact
  rintro (disabled | mode | closed | outside | short)
  · exact fitting.enabled (setup ▸ disabled)
  · exact mode (setup ▸ fitting.window)
  · omega
  · omega
  · omega

/-- The peer's device after an accepted set call and its VM_ID handler shows the
whole buffer. -/
theorem setTrans_exposes (type64 : BitVec 32 → Bool) (own : PeerRamFile) (r : Role)
    (found : checkedGet ndev.mws widx = some mwCfg) (window : MemoryWindow mwCfg.bar)
    (accepted : idtNtbMwSetTrans type64 ndev w r pidx widx addr size = .ok stores)
    (available : RamAvailable file (w.dev r.peer) ramSize)
    (fitting : Fitting ((w.shm.vm r.peer).barConfig mwCfg.bar) ((w.dev r).bars mwCfg.bar)
      ((w.dev r.peer).bars mwCfg.bar) addr size ramSize) :
    ∃ opened, announce own file r w (idtNtbMwSetTrans type64 ndev w r pidx widx addr size) =
      some opened ∧ Exposes (opened.dev r.peer) mwCfg.bar addr.toNat size.toNat := by
  obtain ⟨part, -, -, calls⟩ := setTrans_accepted found accepted
  obtain ⟨next, programmed, entry, peer⟩ := program_set w r own (Nat.lt_succ_of_le window.2) part
    (addr.setWidth 32) ((addr >>> 32).setWidth 32) (((w.dev r).bars mwCfg.bar + size).setWidth 32)
    (type64 (w.readReg r (.bar .setup mwCfg.bar)))
    ((((w.dev r).bars mwCfg.bar + size) >>> 32).setWidth 32)
  refine ⟨(next.notify file r.peer .vmId).1, by rw [calls, announce, programmed]; rfl, ?_⟩
  have translation :=
    translation_split addr (congrArg BARConfig.ltbase entry) (congrArg BARConfig.utbase entry)
  have setup : ((next.shm.vm r.peer).barConfig mwCfg.bar).setup =
      ((w.shm.vm r.peer).barConfig mwCfg.bar).setup := by rw [entry]
  have covered := fitting.covers setup translation (congrArg BARConfig.limit entry)
  rw [← peer] at available covered
  have covers :=
    refresh_covers (s := { next.dev r.peer with otherVmId := (next.shm.vm r.peer.peer).id.toInt })
    ⟨available.opens, available.maps, available.size, available.positive, available.bounded,
      available.mapping, available.region⟩ window r.peer next.shm covered
  obtain ⟨mapped, room, offset⟩ := covers
  have shown : ((next.notify file r.peer .vmId).1.dev r.peer).peerRamAlias mwCfg.bar =
      (idtBarRefreshPeerRamAliases file r.peer
        { next.dev r.peer with otherVmId := (next.shm.vm r.peer.peer).id.toInt }
          next.shm).1.peerRamAlias mwCfg.bar := by
    simp only [Switch.notify, ivshmemVectorNotify, kick_eq, Function.update_self,
      IVShmemState.adopt]
  have zero : (0 : BitVec 64).toNat = 0 := rfl
  have fits := fitting.fits
  have ram := available.bounded
  have bounded := fitting.bounded
  have below := fitting.below
  have start : ∀ x : BitVec 64, x + 0 = x := fun x => BitVec.add_zero x
  rw [barAccess, translation, start, start] at offset
  rw [zero, Nat.zero_add] at room
  refine ⟨shown ▸ mapped, ?_, shown ▸ room, by omega⟩
  rw [shown, ← offset]

end IdtNtb.Kernel
