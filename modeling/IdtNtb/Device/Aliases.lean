import IdtNtb.Device.State

/-! The RAM alias of a memory-window BAR. The window that an update maps is a
pure function of the BAR's configuration, its base and the size of the peer's
RAM; an update opens the RAM region if it needs to and then places that window. -/
namespace IdtNtb.Device

/-- The BAR is enabled as a window and its limit lies above its base. -/
def BARConfig.Windowed (c : BARConfig) (base : BitVec 64) : Prop :=
  ¬(c.setup &&& fieldBit barsetupEnable = 0 ∨ c.setup &&& fieldBit barsetupMode ≠ 0 ∨
    c.limit.setWidth 64 ≤ base)

instance (c : BARConfig) (base : BitVec 64) : Decidable (c.Windowed base) :=
  inferInstanceAs (Decidable (¬_))

def BARConfig.windowSize (c : BARConfig) (base : BitVec 64) : BitVec 64 :=
  if barApertureSize < c.limit.setWidth 64 - base then barApertureSize
  else c.limit.setWidth 64 - base

/-- The offset and size of the alias for a configuration, if there is one. -/
def aliasWindow (ramSize : BitVec 64) (c : BARConfig) (base : BitVec 64) :
    Option (BitVec 64 × BitVec 64) :=
  if c.Windowed base ∧ ¬(ramSize ≤ c.translation ∨ ramSize - c.translation < c.windowSize base) then
    some (c.translation, c.windowSize base)
  else none

/-- The window for the device's present RAM region. -/
def IVShmemState.target (s : IVShmemState) (c : BARConfig) (idx : Fin 6) :
    Option (BitVec 64 × BitVec 64) :=
  if s.peerRamInitialized then aliasWindow s.peerRamSize c (s.bars idx) else none

/-- The RAM region is opened only for a BAR that is enabled as a window. -/
def IVShmemState.prepared (s : IVShmemState) (file : PeerRamFile) (c : BARConfig) (idx : Fin 6) :
    IVShmemState :=
  if c.Windowed (s.bars idx) then (idtInitPeerRamRegion file s).1 else s

def IVShmemState.place (s : IVShmemState) (idx : Fin 6) :
    Option (BitVec 64 × BitVec 64) → IVShmemState × List Effect
  | none => idtBarRemovePeerRamAlias s idx
  | some (offset, size) =>
      (s.setAlias idx ⟨true, true, offset, size⟩,
        (if (s.peerRamAlias idx).mapped then [.delSubregion idx] else []) ++ [.addSubregion idx])

def MemoryWindow (idx : Fin 6) : Prop := 2 ≤ idx.val ∧ idx.val ≤ 4

instance : DecidablePred MemoryWindow :=
  fun idx => inferInstanceAs (Decidable (2 ≤ idx.val ∧ idx.val ≤ 4))

variable {c : BARConfig} {base : BitVec 64} {s t : IVShmemState} {idx : Fin 6}

theorem windowSize_toNat (windowed : c.Windowed base) :
    (c.windowSize base).toNat = min (2 ^ 22) (c.limit.toNat - base.toNat) ∧
    base.toNat < c.limit.toNat := by
  have above : base < c.limit.setWidth 64 := by
    by_contra below
    exact windowed (Or.inr (Or.inr (BitVec.not_lt.mp below)))
  have aperture : barApertureSize.toNat = 2 ^ 22 := rfl
  have limit : (c.limit.setWidth 64).toNat = c.limit.toNat := by simp; omega
  have difference : (c.limit.setWidth 64 - base).toNat = c.limit.toNat - base.toNat := by
    rw [BitVec.toNat_sub_of_le (BitVec.le_of_lt above), limit]
  rw [BitVec.lt_def, limit] at above
  refine ⟨?_, above⟩
  unfold BARConfig.windowSize
  split <;> rename_i narrow <;> rw [BitVec.lt_def, difference, aperture] at narrow <;> omega

theorem windowSize_ne_zero (windowed : c.Windowed base) : c.windowSize base ≠ 0 := by
  intro zero
  have size := (windowSize_toNat windowed).1
  have above := (windowSize_toNat windowed).2
  rw [zero] at size
  simp at size
  omega

/-- The two tests against the RAM size together: the window ends inside it. -/
theorem window_past_iff {x start size : BitVec 64} (nonempty : size ≠ 0) :
    (x ≤ start ∨ x - start < size) ↔ x.toNat < start.toNat + size.toNat := by
  have positive : 0 < size.toNat := by
    apply Nat.pos_of_ne_zero
    intro zero
    exact nonempty (BitVec.eq_of_toNat_eq zero)
  simp only [BitVec.le_def, BitVec.lt_def, BitVec.toNat_sub]
  omega

theorem initPeerRam_opened (file : PeerRamFile) (s : IVShmemState) :
    (idtInitPeerRamRegion file s).2 = (idtInitPeerRamRegion file s).1.peerRamInitialized := by
  unfold idtInitPeerRamRegion
  split
  · rename_i present
    exact present.symm
  rename_i closed
  rw [Bool.not_eq_true] at closed
  split
  · exact closed.symm
  split
  · exact closed.symm
  split
  · exact closed.symm
  · rfl

/-- Opening the region changes nothing, or turns a closed region into an open one. -/
theorem initPeerRam_cases (file : PeerRamFile) (s : IVShmemState) :
    (idtInitPeerRamRegion file s).1 = s ∨ s.peerRamInitialized = false ∧
      ∃ size, (idtInitPeerRamRegion file s).1 =
        { s with peerRamSize := size, peerRamInitialized := true } := by
  unfold idtInitPeerRamRegion
  split
  · exact Or.inl rfl
  rename_i closed
  split
  · exact Or.inl rfl
  split
  · exact Or.inl rfl
  split
  · exact Or.inl rfl
  · exact Or.inr ⟨Bool.not_eq_true _ ▸ closed, _, rfl⟩

theorem prepared_cases (file : PeerRamFile) (s : IVShmemState) (c : BARConfig) (idx : Fin 6) :
    s.prepared file c idx = s ∨ s.peerRamInitialized = false ∧
      ∃ size, s.prepared file c idx =
        { s with peerRamSize := size, peerRamInitialized := true } := by
  unfold IVShmemState.prepared
  split
  · exact initPeerRam_cases file s
  · exact Or.inl rfl

theorem initPeerRam_bars (file : PeerRamFile) (s : IVShmemState) :
    (idtInitPeerRamRegion file s).1.bars = s.bars := by
  rcases initPeerRam_cases file s with same | ⟨-, size, opened⟩
  · rw [same]
  · rw [opened]

/-- The alias of `idx` after placing a window, or after removing it. -/
def RamAlias.after (a : RamAlias) : Option (BitVec 64 × BitVec 64) → RamAlias
  | none => { a with mapped := false }
  | some (offset, size) => ⟨true, true, offset, size⟩

theorem removeAlias_state (s : IVShmemState) (idx : Fin 6) :
    (idtBarRemovePeerRamAlias s idx).1 = s.setAlias idx ((s.peerRamAlias idx).after none) := by
  cases mapped : (s.peerRamAlias idx).mapped with
  | true => simp only [idtBarRemovePeerRamAlias, mapped, if_true, RamAlias.after]
  | false =>
    have same : (s.peerRamAlias idx).after none = s.peerRamAlias idx := by
      rw [RamAlias.after, ← mapped]
    simp only [idtBarRemovePeerRamAlias, mapped, Bool.false_eq_true, if_false, same,
      IVShmemState.setAlias, Function.update_eq_self]

@[simp] theorem setAlias_same (s : IVShmemState) (idx : Fin 6) (a : RamAlias) :
    (s.setAlias idx a).peerRamAlias idx = a :=
  Function.update_self ..

theorem setAlias_other (s : IVShmemState) (a : RamAlias) (other : k ≠ idx) :
    (s.setAlias idx a).peerRamAlias k = s.peerRamAlias k :=
  Function.update_of_ne other ..

theorem place_state (s : IVShmemState) (idx : Fin 6) (window : Option (BitVec 64 × BitVec 64)) :
    (s.place idx window).1 = s.setAlias idx ((s.peerRamAlias idx).after window) := by
  cases window with
  | none => exact removeAlias_state s idx
  | some window => rfl

theorem place_alias (s : IVShmemState) (idx : Fin 6) (window : Option (BitVec 64 × BitVec 64)) :
    (s.place idx window).1.peerRamAlias idx = (s.peerRamAlias idx).after window := by
  rw [place_state, setAlias_same]

theorem target_closed (s : IVShmemState) (idx : Fin 6) (closed : ¬c.Windowed (s.bars idx)) :
    s.target c idx = none := by
  have nothing : aliasWindow s.peerRamSize c (s.bars idx) = none := if_neg fun some => closed some.1
  simp only [IVShmemState.target, nothing, ite_self]

theorem target_windowed (windowed : c.Windowed (s.bars idx)) (bars : t.bars = s.bars) :
    t.target c idx =
      if (!t.peerRamInitialized) = true ∨ t.peerRamSize ≤ c.translation ∨
          t.peerRamSize - c.translation < c.windowSize (s.bars idx) then none
      else some (c.translation, c.windowSize (s.bars idx)) := by
  simp only [IVShmemState.target, aliasWindow, bars, windowed, true_and]
  cases t.peerRamInitialized with
  | false => simp
  | true => simp only [Bool.not_true, Bool.false_eq_true, false_or, if_true, ite_not]

/-- An update prepares the RAM region and places the window of the configuration. -/
theorem updateAlias_eq (file : PeerRamFile) (s : IVShmemState) (c : BARConfig)
    (window : MemoryWindow idx) :
    idtBarUpdatePeerRamAlias file s c idx =
      (s.prepared file c idx).place idx ((s.prepared file c idx).target c idx) := by
  have inside : ¬(idx.val < 2 ∨ 4 < idx.val) := by
    have := window.1
    have := window.2
    omega
  simp only [idtBarUpdatePeerRamAlias, inside, if_false]
  by_cases windowed : c.Windowed (s.bars idx)
  · have enabled := windowed
    have nonzero := windowSize_ne_zero windowed
    unfold BARConfig.Windowed at enabled
    unfold BARConfig.windowSize at nonzero
    simp only [enabled, nonzero, if_false]
    have opening : s.prepared file c idx = (idtInitPeerRamRegion file s).1 := if_pos windowed
    rw [opening, initPeerRam_opened]
    generalize reached : (idtInitPeerRamRegion file s).1 = t
    have bars : t.bars = s.bars := reached ▸ initPeerRam_bars file s
    rw [target_windowed windowed bars]
    by_cases refused : (!t.peerRamInitialized) = true ∨ t.peerRamSize ≤ c.translation ∨
        t.peerRamSize - c.translation < c.windowSize (s.bars idx)
    · rw [if_pos refused]
      exact if_pos refused
    · rw [if_neg refused]
      exact if_neg refused
  · have closed : s.prepared file c idx = s := if_neg windowed
    rw [closed, target_closed s idx windowed]
    exact if_pos (not_not.mp windowed)

def AliasesOnly (s t : IVShmemState) : Prop :=
  ∃ opened size aliases,
    t = { s with peerRamInitialized := opened, peerRamSize := size, peerRamAlias := aliases }

theorem AliasesOnly.refl (s : IVShmemState) : AliasesOnly s s := ⟨_, _, _, rfl⟩

theorem AliasesOnly.trans (first : AliasesOnly s t) (second : AliasesOnly t u) :
    AliasesOnly s u := by
  obtain ⟨_, _, _, rfl⟩ := first
  obtain ⟨_, _, _, rfl⟩ := second
  exact ⟨_, _, _, rfl⟩

theorem prepared_only (file : PeerRamFile) (s : IVShmemState) (c : BARConfig) (idx : Fin 6) :
    AliasesOnly s (s.prepared file c idx) := by
  rcases prepared_cases file s c idx with same | ⟨-, size, opened⟩
  · rw [same]
    exact .refl s
  · rw [opened]
    exact ⟨_, _, _, rfl⟩

theorem place_only (s : IVShmemState) (idx : Fin 6) (window : Option (BitVec 64 × BitVec 64)) :
    AliasesOnly s (s.place idx window).1 := by
  rw [place_state]
  exact ⟨_, _, _, rfl⟩

theorem updateAlias_outside (file : PeerRamFile) (s : IVShmemState) (c : BARConfig)
    (outside : ¬MemoryWindow idx) : idtBarUpdatePeerRamAlias file s c idx = (s, []) := by
  unfold MemoryWindow at outside
  exact if_pos (by omega)

theorem updateAlias_only (file : PeerRamFile) (s : IVShmemState) (c : BARConfig) (idx : Fin 6) :
    AliasesOnly s (idtBarUpdatePeerRamAlias file s c idx).1 := by
  by_cases window : MemoryWindow idx
  · rw [updateAlias_eq file s c window]
    exact (prepared_only file s c idx).trans (place_only _ idx _)
  · rw [updateAlias_outside file s c window]
    exact .refl s

theorem refreshAliases_only (file : PeerRamFile) (r : Role) (s : IVShmemState)
    (shm : SharedMemory) :
    AliasesOnly s (idtBarRefreshPeerRamAliases file r s shm).1 := by
  simp only [idtBarRefreshPeerRamAliases, List.foldl_cons, List.foldl_nil]
  exact (updateAlias_only ..).trans ((updateAlias_only ..).trans (updateAlias_only ..))

/-- An update calls nothing but the subregion functions. -/
theorem updateAlias_calls (file : PeerRamFile) (s : IVShmemState) (c : BARConfig) (idx : Fin 6) :
    ∀ e ∈ (idtBarUpdatePeerRamAlias file s c idx).2, e = .delSubregion idx ∨
      e = .addSubregion idx := by
  by_cases window : MemoryWindow idx
  · rw [updateAlias_eq file s c window]
    generalize s.prepared file c idx = t
    cases t.target c idx with
    | none =>
      simp only [IVShmemState.place, idtBarRemovePeerRamAlias]
      split <;> simp
    | some placed =>
      simp only [IVShmemState.place]
      split <;> simp
  · rw [updateAlias_outside file s c window]
    simp

theorem refreshAliases_calls (file : PeerRamFile) (r : Role) (s : IVShmemState)
    (shm : SharedMemory) :
    ∀ e ∈ (idtBarRefreshPeerRamAliases file r s shm).2, ∃ idx, e = .delSubregion idx ∨
      e = .addSubregion idx := by
  intro e member
  simp only [idtBarRefreshPeerRamAliases, List.foldl_cons, List.foldl_nil, List.nil_append,
    List.mem_append] at member
  rcases member with (second | third) | fourth
  · exact ⟨2, updateAlias_calls _ _ _ _ e second⟩
  · exact ⟨3, updateAlias_calls _ _ _ _ e third⟩
  · exact ⟨4, updateAlias_calls _ _ _ _ e fourth⟩

/-- The alias of BAR `idx`, where mapped, is the window of configuration `c`. -/
def FreshAt (s : IVShmemState) (c : BARConfig) (idx : Fin 6) : Prop :=
  (s.peerRamAlias idx).mapped = true →
    s.target c idx = some ((s.peerRamAlias idx).offset, (s.peerRamAlias idx).size)

theorem target_eq_some (found : s.target c idx = some window) :
    s.peerRamInitialized = true ∧ aliasWindow s.peerRamSize c (s.bars idx) = some window := by
  unfold IVShmemState.target at found
  split at found
  · rename_i opened
    exact ⟨opened, found⟩
  · contradiction

theorem update_freshAt (file : PeerRamFile) (s : IVShmemState) (c : BARConfig)
    (window : MemoryWindow idx) :
    FreshAt (idtBarUpdatePeerRamAlias file s c idx).1 c idx := by
  rw [updateAlias_eq file s c window, place_state]
  generalize s.prepared file c idx = t
  unfold FreshAt
  rw [setAlias_same]
  intro mapped
  cases found : t.target c idx with
  | none => simp [found, RamAlias.after] at mapped
  | some placed => exact found

/-- An update of one alias leaves the others as fresh as they were. -/
theorem update_others (file : PeerRamFile) (c d : BARConfig) (other : k ≠ idx)
    (fresh : FreshAt s d k) :
    FreshAt (idtBarUpdatePeerRamAlias file s c idx).1 d k := by
  by_cases window : MemoryWindow idx
  · rw [updateAlias_eq file s c window, place_state]
    intro mapped
    rw [setAlias_other _ _ other] at mapped ⊢
    rcases prepared_cases file s c idx with same | ⟨closed, size, opened⟩
    · rw [same] at mapped ⊢
      exact fresh mapped
    · rw [opened] at mapped
      exact absurd (closed.symm.trans (target_eq_some (fresh mapped)).1) (by decide)
  · rw [updateAlias_outside file s c window]
    exact fresh

/-- The VM_ID handler leaves no stale alias behind. -/
theorem refresh_freshAt (file : PeerRamFile) (r : Role) (s : IVShmemState) (shm : SharedMemory)
    (window : MemoryWindow idx) :
    FreshAt (idtBarRefreshPeerRamAliases file r s shm).1 ((shm.vm r).barConfig idx) idx := by
  have windows : ∀ idx : Fin 6, MemoryWindow idx → idx = 2 ∨ idx = 3 ∨ idx = 4 := by decide
  simp only [idtBarRefreshPeerRamAliases, List.foldl_cons, List.foldl_nil]
  rcases windows idx window with rfl | rfl | rfl
  · refine update_others file _ _ (by decide) (update_others file _ _ (by decide) ?_)
    exact update_freshAt file s _ (by decide)
  · exact update_others file _ _ (by decide) (update_freshAt file _ _ (by decide))
  · exact update_freshAt file _ _ (by decide)

end IdtNtb.Device
