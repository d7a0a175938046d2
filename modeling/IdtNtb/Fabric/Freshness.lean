import IdtNtb.Fabric.Aliases
import IdtNtb.Fabric.Identity

/-! Mapped aliases against the present configuration. An alias is a cache over
the BAR's table entry, its base and the RAM size. The device's own register
stores and its VM_ID handler refresh it; a relocation of the BAR does not, and
a peer's store does only as far as its notification arrives. -/
namespace IdtNtb.Fabric
open Device Transition

def Fresh (s : IVShmemState) (table : Fin 6 → BARConfig) : Prop :=
  ∀ idx, MemoryWindow idx → FreshAt s (table idx) idx

/-- Recomputing any mapped alias of a device without an outstanding
notification would leave it as it is. -/
def AliasesCurrent (f : World) : Prop :=
  ∀ r n, f.node r = some n → n.vmIdPending = false → ∀ idx, MemoryWindow idx →
    (n.dev.peerRamAlias idx).mapped = true → ∀ file,
      (idtBarUpdatePeerRamAlias file n.dev ((f.shm.vm r).barConfig idx) idx).1.peerRamAlias idx =
        n.dev.peerRamAlias idx

/-- The second configuration has a window of the same place and extent. -/
def SameWindow (c : BARConfig) (base : BitVec 64) (d : BARConfig) (moved : BitVec 64) : Prop :=
  d.Windowed moved ∧ d.translation = c.translation ∧ d.windowSize moved = c.windowSize base

instance (c d : BARConfig) (base moved : BitVec 64) : Decidable (SameWindow c base d moved) :=
  inferInstanceAs (Decidable (_ ∧ _ ∧ _))

/-- An alias stays fresh under a configuration with the same window. -/
theorem sameWindow_alias {s t : IVShmemState} (same : SameWindow c (s.bars idx) d (t.bars idx))
    (opened : t.peerRamInitialized = s.peerRamInitialized) (size : t.peerRamSize = s.peerRamSize)
    (found : s.target c idx = some window) : t.target d idx = some window := by
  obtain ⟨present, found⟩ := target_eq_some found
  rw [IVShmemState.target, opened, if_pos present, size]
  unfold aliasWindow at found ⊢
  split at found
  · rename_i fits
    rw [same.2.1, same.2.2, if_pos ⟨same.1, fits.2⟩, found]
  · contradiction

/-- A fresh alias in bounds is what an update computes. -/
theorem fresh_update (bounded : AliasBounded s idx) (window : MemoryWindow idx)
    (fresh : FreshAt s c idx) (mapped : (s.peerRamAlias idx).mapped = true) (file : PeerRamFile) :
    (idtBarUpdatePeerRamAlias file s c idx).1.peerRamAlias idx = s.peerRamAlias idx := by
  obtain ⟨initialized, opened, -⟩ := bounded mapped
  have unchanged : s.prepared file c idx = s := by
    rcases prepared_cases file s c idx with same | ⟨closed, -⟩
    · exact same
    · exact absurd (closed.symm.trans opened) (by decide)
  rw [updateAlias_eq file s c window, unchanged, place_alias, fresh mapped]
  cases held : s.peerRamAlias idx with
  | mk initialized' mapped' offset size =>
    rw [held] at initialized mapped
    cases initialized
    cases mapped
    rfl

/-- The device would signal its VM_ID notification to process `b`. -/
def Reaches (f : World) (r : Role) (a b : Node) : Prop :=
  (idtPeerEventfdReady r a.dev f.shm eventfdVmId).2 = true ∧
    (idtPeerEventfdReady r a.dev f.shm eventfdVmId).1.otherVmId = b.dev.vmId

instance (f : World) (r : Role) (a b : Node) : Decidable (Reaches f r a b) :=
  inferInstanceAs (Decidable (_ ∧ _))

/-- A store of `a` into `b`'s table leaves `b` a notification, or the window of
the entry as it is. -/
def StoreAnnounced (f : World) (r : Role) (a b : Node) (field : BarField)
    (val : BitVec 32) : Prop :=
  b.vmIdPending = true ∨ Reaches f r a b ∨
    ∀ idx : Fin 6, idx.val = a.dev.lregs.inboundMwBar.toNat →
      (b.dev.peerRamAlias idx).mapped = true →
      SameWindow ((f.shm.vm r.peer).barConfig idx) (b.dev.bars idx)
        (((f.shm.vm r.peer).barConfig idx).set val field) (b.dev.bars idx)

instance (f : World) (r : Role) (a b : Node) (field : BarField) (val : BitVec 32) :
    Decidable (StoreAnnounced f r a b field val) :=
  inferInstanceAs (Decidable (_ ∨ _ ∨ _))

/-- The device is given no new window without a refresh: a BAR with a mapped
alias moves only within the same window, a store into the peer's table stays
inside it and is announced, and a device that starts finds its peer's table
initialised or without mapped aliases. -/
def KeepsWindows (f : World) : Action → Prop
  | .start r _ =>
      match f.node r.peer with
      | some b => ((f.shm.vm r.peer).barConfig 0).setup ≠ 0 ∨ b.vmIdPending = true ∨
          ∀ idx, (b.dev.peerRamAlias idx).mapped = false
      | none => True
  | .input r (.relocate idx base) =>
      match f.node r with
      | some a => a.vmIdPending = true ∨ ((a.dev.peerRamAlias idx).mapped = true →
          SameWindow ((f.shm.vm r).barConfig idx) (a.dev.bars idx)
            ((f.shm.vm r).barConfig idx) base)
      | none => True
  | .input r (.write addr val _) =>
      match (ConfigRegister.decode addr).bind ConfigRegister.inboundField, f.node r with
      | some field, some a => a.dev.lregs.inboundMwBar.toNat < 6 ∧
          match f.node r.peer with
          | some b => StoreAnnounced f r a b field val
          | none => True
      | _, _ => True
  | _ => True

instance (f : World) : DecidablePred (KeepsWindows f)
  | .start r _ => by
    dsimp only [KeepsWindows]
    exact match f.node r.peer with
      | some _ => inferInstance
      | none => inferInstance
  | .input r (.relocate _ _) => by
    dsimp only [KeepsWindows]
    exact match f.node r with
      | some _ => inferInstance
      | none => inferInstance
  | .input r (.write addr _ _) => by
    dsimp only [KeepsWindows]
    exact match (ConfigRegister.decode addr).bind ConfigRegister.inboundField, f.node r,
      f.node r.peer with
      | some _, some _, some _ => inferInstance
      | some _, some _, none => inferInstance
      | some _, none, _ => inferInstance
      | none, _, _ => inferInstance
  | .stop _ | .input _ (.raise _) | .input _ (.message _) | .input _ (.vmId _) => .isTrue trivial

/-- Neither the aliases nor what they are computed from, tables aside. -/
structure SameAliases (s t : IVShmemState) : Prop where
  aliases : t.peerRamAlias = s.peerRamAlias
  opened : t.peerRamInitialized = s.peerRamInitialized
  size : t.peerRamSize = s.peerRamSize
  bars : t.bars = s.bars

theorem SameAliases.fresh (same : SameAliases s t) (fresh : Fresh s table) : Fresh t table := by
  intro idx window
  unfold FreshAt IVShmemState.target
  rw [same.aliases, same.opened, same.size, same.bars]
  exact fresh idx window

theorem kick_same (kick : idtKickPeerInterrupt r s m = (t, effects)) : SameAliases s t := by
  rw [kick_eq] at kick
  cases kick
  exact ⟨rfl, rfl, rfl, rfl⟩

theorem raise_same (raise : idtRaisePeerInterrupt r s shm bit = (t, m, effects)) :
    SameAliases s t ∧ ∀ q, (m.vm q).barConfig = (shm.vm q).barConfig := by
  cases raise
  exact ⟨kick_same rfl, fun q => pend_barConfig ..⟩

/-- A store into BAR 0 leaves the aliases and the tables, configures one BAR of
the device, or one of its peer. -/
theorem handled_aliases (handled : Handled file r s shm reg val t m effects) :
    (SameAliases s t ∧ ∀ q, (m.vm q).barConfig = (shm.vm q).barConfig) ∨
      (∃ field i, shm.setBar r i field (val.setWidth 32) = m ∧
        idtBarUpdatePeerRamAlias file s ((m.vm r).barConfig i) i = (t, effects)) ∨
      ∃ data field, reg = some data ∧ data.inboundField = some field ∧
        writeInboundWindow r s shm field val = (t, m, effects) := by
  have regs : ∀ (p : Role) (f : SharedRegisters → SharedRegisters),
      SameAliases s s ∧ ∀ q, ((shm.mapRegs p f).vm q).barConfig = (shm.vm q).barConfig :=
    fun p f => ⟨⟨rfl, rfl, rfl, rfl⟩, mapRegs_barConfig shm p f⟩
  cases handled with
  | latched => exact .inl ⟨⟨rfl, rfl, rfl, rfl⟩, fun _ => rfl⟩
  | aside same => exact .inl ⟨⟨rfl, rfl, rfl, rfl⟩, same.bars⟩
  | raised middle bit same raise =>
    obtain ⟨aliases, tables⟩ := raise_same raise
    exact .inl ⟨aliases, fun q => (tables q).trans (same.bars q)⟩
  | ntintsts => exact .inl (regs ..)
  | outmsg i sent =>
    cases outmsg_sent sent with
    | refused => exact .inl (regs ..)
    | reported =>
      exact .inl ⟨⟨rfl, rfl, rfl, rfl⟩, fun q => (pend_barConfig ..).trans (mapRegs_barConfig ..)⟩
    | masked => exact .inl (regs ..)
    | raised free raise =>
      obtain ⟨aliases, tables⟩ := raise_same raise
      exact .inl ⟨aliases, fun q => (tables q).trans (mapRegs_barConfig ..)⟩
  | msgsts => exact .inl (regs ..)
  | msgstsmsk => exact .inl (regs ..)
  | ntintmsk => exact .inl ⟨⟨rfl, rfl, rfl, rfl⟩, fun _ => rfl⟩
  | bar field i stored updated => exact .inr (.inl ⟨field, i, stored, updated⟩)
  | inbound data sent => exact .inr (.inr ⟨_, _, rfl, data, sent⟩)

theorem heard_same (heard : Heard r s shm msg t m effects) : SameAliases s t := by
  cases heard with
  | counted => exact ⟨rfl, rfl, rfl, rfl⟩
  | known peers other before counts kick =>
    obtain ⟨aliases, opened, size, bars⟩ := kick_same kick
    exact ⟨aliases, opened, size, bars⟩
  | setUp peers own before counts ids kick =>
    obtain ⟨aliases, opened, size, bars⟩ := kick_same kick
    cases r <;> cases ids <;> exact ⟨aliases, opened, size, bars⟩

theorem heard_tables (heard : Heard r s shm msg t m effects) (q : Role) :
    (m.vm q).barConfig = (shm.vm q).barConfig := by
  cases heard with
  | counted => rfl
  | known => rfl
  | setUp peers own before counts ids kick =>
    cases r <;> cases ids <;> cases q <;> simp [SharedMemory.mapVm]

/-- The aliases are in bounds, and fresh where no notification is outstanding. -/
structure Current (f : World) : Prop where
  bounded : ∀ r n, f.node r = some n → ∀ idx, AliasBounded n.dev idx
  fresh : ∀ r n, f.node r = some n → n.vmIdPending = false → Fresh n.dev (f.shm.vm r).barConfig

theorem Current.after {f : World} (inv : Current f) (running : f.node r = some a)
    (handled : handle vectors r a.dev f.shm i = some (t, m, effects))
    (own : i.pendingAfter a = false → Fresh t (m.vm r).barConfig)
    (peer : ∀ b, f.node r.peer = some b → b.vmIdPending = false →
      signalled t effects b.dev.vmId = false → Fresh b.dev (m.vm r.peer).barConfig) :
    Current (f.after r a i t m effects) := by
  refine ⟨each_after ?_ ?_, each_after ?_ ?_⟩
  · exact (aliasRun_bounded (handle_aliasRun handled) (inv.bounded r a running)).1
  · exact fun b present => inv.bounded r.peer b present
  · intro quiet
    exact own (Bool.or_eq_false_iff.mp quiet).1
  · intro b present quiet
    obtain ⟨earlier, unsignalled⟩ := Bool.or_eq_false_iff.mp quiet
    exact peer b present earlier unsignalled

/-- An input that touches neither aliases nor tables. -/
theorem Current.still {f : World} (inv : Current f) (running : f.node r = some a)
    (handled : handle vectors r a.dev f.shm i = some (t, m, effects))
    (pending : i.pendingAfter a = a.vmIdPending) (same : SameAliases a.dev t)
    (tables : ∀ q, (m.vm q).barConfig = (f.shm.vm q).barConfig) :
    Current (f.after r a i t m effects) := by
  refine inv.after running handled ?_ ?_
  · intro quiet
    rw [tables]
    exact same.fresh (inv.fresh r a running (pending ▸ quiet))
  · intro b present quiet _
    rw [tables]
    exact inv.fresh r.peer b present quiet

theorem setBar_barConfig (m : SharedMemory) (r : Role) (i : Fin 6) (field : BarField)
    (v : BitVec 32) :
    ((m.setBar r i field v).vm r).barConfig =
      Function.update (m.vm r).barConfig i (((m.vm r).barConfig i).set v field) := by
  simp [SharedMemory.setBar]

theorem setBar_peer (m : SharedMemory) (r : Role) (i : Fin 6) (field : BarField) (v : BitVec 32) :
    (m.setBar r i field v).vm r.peer = m.vm r.peer :=
  mapVm_other m _ r.peer_ne

/-- The device's own store updates the alias of the BAR it configures. -/
theorem current_bar {f : World} (inv : Current f) (running : f.node r = some a)
    (handled : handle vectors r a.dev f.shm (.write addr val file) = some (t, m, effects))
    (stored : f.shm.setBar r idx field v = m)
    (updated : idtBarUpdatePeerRamAlias file a.dev ((m.vm r).barConfig idx) idx = (t, effects)) :
    Current (f.after r a (.write addr val file) t m effects) := by
  subst stored
  have state := congrArg Prod.fst updated
  dsimp only at state
  refine inv.after running handled ?_ ?_
  · intro quiet k window
    subst state
    by_cases same : k = idx
    · subst same
      exact update_freshAt file a.dev _ window
    · refine update_others file _ _ same ?_
      rw [setBar_barConfig, Function.update_of_ne same]
      exact inv.fresh r a running quiet k window
  · intro b present quiet _
    rw [setBar_peer]
    exact inv.fresh r.peer b present quiet

theorem signalled_own {s : IVShmemState} {id : Int} (arrived : eventfdVmId < s.registered id) :
    signalled s [.eventNotifierSet id eventfdVmId] id = true := by
  simp [signalled, arrived]

/-- A store into the peer's table that is announced, or changes no window. -/
theorem current_inbound {f : World} (inv : Current f) (running : f.node r = some a)
    (keeps : KeepsWindows f (.input r (.write addr val file)))
    (handled : handle vectors r a.dev f.shm (.write addr val file) = some (t, m, effects))
    (found : ConfigRegister.decode addr = some reg) (data : reg.inboundField = some field)
    (sent : writeInboundWindow r a.dev f.shm field (val.setWidth 64) = (t, m, effects)) :
    Current (f.after r a (.write addr val file) t m effects) := by
  simp only [KeepsWindows, found, Option.bind_some, data, running] at keeps
  obtain ⟨inside, announced⟩ := keeps
  have narrow : (val.setWidth 64).setWidth 32 = val := by simp
  simp only [writeInboundWindow, storeBar_inside _ _ _ _ _ inside, narrow, notify_eq] at sent
  cases sent
  have word := setBar_id f.shm r.peer ⟨_, inside⟩ field val r.peer
  refine inv.after running handled ?_ ?_
  · intro quiet
    have own := setBar_peer f.shm r.peer ⟨_, inside⟩ field val
    rw [Role.peer_peer] at own
    rw [own]
    exact (SameAliases.mk rfl rfl rfl rfl).fresh (inv.fresh r a running quiet)
  · intro b present quiet unsignalled
    rw [present] at announced
    rcases announced with pending | reaches | same
    · exact absurd (quiet.symm.trans pending) (by decide)
    · rw [Reaches, eventfdReady_eq] at reaches
      obtain ⟨arrived, addressed⟩ := reaches
      rw [← adoptedId_congr _ word] at arrived
      have addressed : adoptedId r a.dev (f.shm.setBar r.peer ⟨_, inside⟩ field val) = b.dev.vmId :=
        (adoptedId_congr _ word).trans addressed
      have arrived := of_decide_eq_true arrived
      rw [if_pos arrived, ← addressed] at unsignalled
      exact absurd (unsignalled.symm.trans (signalled_own arrived)) (by decide)
    · intro k window mapped
      rw [setBar_barConfig]
      have before := inv.fresh r.peer b present quiet k window mapped
      by_cases entry : k = ⟨_, inside⟩
      · subst entry
        rw [Function.update_self]
        exact sameWindow_alias (same _ rfl mapped) rfl rfl before
      · rw [Function.update_of_ne entry]
        exact before

theorem current_vmId {f : World} (inv : Current f) (running : f.node r = some a)
    (handled : handle vectors r a.dev f.shm (.vmId file) = some (t, m, effects)) :
    Current (f.after r a (.vmId file) t m effects) := by
  refine inv.after running handled ?_ ?_
  · intro _
    cases handled
    exact (kick_same rfl).fresh fun idx window => refresh_freshAt file r _ f.shm window
  · intro b present quiet _
    cases handled
    exact inv.fresh r.peer b present quiet

theorem current_relocate {f : World} (inv : Current f) (running : f.node r = some a)
    (keeps : KeepsWindows f (.input r (.relocate idx base)))
    (handled : handle vectors r a.dev f.shm (.relocate idx base) = some (t, m, effects)) :
    Current (f.after r a (.relocate idx base) t m effects) := by
  simp only [KeepsWindows, running] at keeps
  refine inv.after running handled ?_ ?_
  · intro quiet k window mapped
    cases handled
    rcases keeps with pending | same
    · exact absurd (quiet.symm.trans pending) (by decide)
    · have before := inv.fresh r a running quiet k window mapped
      dsimp only at mapped ⊢
      by_cases moved : k = idx
      · subst moved
        refine sameWindow_alias (s := a.dev) ?_ rfl rfl before
        simp only [Function.update_self]
        exact same mapped
      · simp only [IVShmemState.target, Function.update_of_ne moved] at before ⊢
        exact before
  · intro b present quiet _
    cases handled
    exact inv.fresh r.peer b present quiet

theorem current_input {f : World} (inv : Current f) (running : f.node r = some a)
    (keeps : KeepsWindows f (.input r i))
    (handled : handle vectors r a.dev f.shm i = some (t, m, effects)) :
    Current (f.after r a i t m effects) := by
  cases i with
  | write addr val file =>
    obtain ⟨reg, found, shape⟩ := ioWrite_handled handled
    rcases handled_aliases shape with ⟨same, tables⟩ | ⟨field, i, stored, updated⟩ |
      ⟨data, field, rfl, inbound, sent⟩
    · exact inv.still running handled rfl same tables
    · exact current_bar inv running handled stored updated
    · exact current_inbound inv running keeps handled found inbound sent
  | raise bit =>
    obtain ⟨same, tables⟩ := raise_same (Option.some.inj handled)
    exact inv.still running handled rfl same tables
  | message msg =>
    have heard := processMsg_heard (Option.some.inj handled)
    exact inv.still running handled rfl (heard_same heard) (heard_tables heard)
  | vmId file => exact current_vmId inv running handled
  | relocate idx base => exact current_relocate inv running keeps handled

/-- A device that starts leaves a table of its peer that is initialised. -/
theorem realize_table (initialised : ((shm.vm r.peer).barConfig 0).setup ≠ 0) :
    ((ivshmemCommonRealize r shm).vm r.peer).barConfig = (shm.vm r.peer).barConfig := by
  unfold ivshmemCommonRealize
  simp only [setBar_peer, mapRegs_peer, if_neg initialised]

theorem realized_bounded (vmId : Int) (bars : Fin 6 → BitVec 64) (idx : Fin 6) :
    AliasBounded (.realized vmId bars) idx := by
  intro mapped
  simp [IVShmemState.realized] at mapped

theorem unmapped_fresh {s : IVShmemState} (unmapped : ∀ idx, (s.peerRamAlias idx).mapped = false)
    (table : Fin 6 → BARConfig) : Fresh s table := by
  intro idx _ mapped
  exact absurd ((unmapped idx).symm.trans mapped) (by decide)

theorem current_step (inv : Current f) (keeps : KeepsWindows f action)
    (stepped : World.step vectors f action = some (g, es)) : Current g := by
  cases step_moves stepped with
  | @start r vmId stopped bound fresh =>
    refine ⟨each_start (realized_bounded _ _) (inv.bounded r.peer), each_start ?_ ?_⟩
    · exact fun _ => unmapped_fresh (fun _ => rfl) _
    · intro b present quiet
      simp only [KeepsWindows, present] at keeps
      rcases keeps with initialised | pending | unmapped
      · rw [realize_table initialised]
        exact inv.fresh r.peer b present quiet
      · exact absurd (quiet.symm.trans pending) (by decide)
      · exact unmapped_fresh unmapped _
  | @stop r n running => exact ⟨each_stop (inv.bounded r.peer), each_stop (inv.fresh r.peer)⟩
  | input running accepts handled => exact current_input inv running keeps handled

/-- From no running device, over any schedule of register stores, relocations,
starts, stops and notifications that keeps the windows: with no notification
outstanding, recomputing a mapped alias changes nothing. -/
theorem aliases_current (vectors : Nat) (f : World) (actions : List Action)
    (stopped : ∀ r, f.node r = none) (kept : Along (World.step vectors) KeepsWindows f actions)
    (path : run (World.step vectors) f actions = some (g, es)) : AliasesCurrent g := by
  have initial : Current f :=
    ⟨fun r n found => by simp [stopped r] at found, fun r n found => by simp [stopped r] at found⟩
  have inv :=
    run_preserves (fun inv keeps stepped => current_step inv keeps stepped) initial kept path
  intro r n found quiet idx window mapped file
  exact fresh_update (inv.bounded r n found idx) window (inv.fresh r n found quiet idx window)
    mapped file

theorem aliases_current_window :
    ∃ g es n, run (World.step 2) .empty opensWindow = some (g, es) ∧
      g.node .vm1 = some n ∧ (n.dev.peerRamAlias 2).mapped = true ∧ AliasesCurrent g := by
  have reads : (run (World.step 2) .empty opensWindow).bind
      (fun reached => (reached.1.node .vm1).map fun n => (n.dev.peerRamAlias 2).mapped) =
        some true := by decide +kernel
  have kept : Along (World.step 2) KeepsWindows .empty opensWindow := by decide +kernel
  obtain ⟨⟨g, es⟩, path, found⟩ := Option.bind_eq_some_iff.mp reads
  obtain ⟨n, present, mapped⟩ := Option.map_eq_some_iff.mp found
  exact ⟨g, es, n, path, present, mapped,
    aliases_current 2 .empty opensWindow (fun _ => rfl) kept path⟩

/-- The guest then moves BAR 2 up to 8 MiB: the limit is below the BAR and leaves
nothing of the window, and the alias is still mapped. -/
theorem alias_stale :
    ∃ g es, run (World.step 2) .empty (opensWindow ++ [.input .vm1 (.relocate 2 0x800000)]) =
      some (g, es) ∧ ¬AliasesCurrent g := by
  let file : PeerRamFile := ⟨true, some 0x200000, true⟩
  have reads :
      (run (World.step 2) .empty (opensWindow ++ [.input .vm1 (.relocate 2 0x800000)])).bind
      (fun reached => (reached.1.node .vm1).map fun n =>
        let renewed := idtBarUpdatePeerRamAlias file n.dev ((reached.1.shm.vm .vm1).barConfig 2) 2
        (n.vmIdPending, n.dev.peerRamAlias 2, renewed.1.peerRamAlias 2)) =
      some (false, ⟨true, true, 0x8000, 0x10000⟩, ⟨true, false, 0x8000, 0x10000⟩) := by
    decide +kernel
  obtain ⟨⟨g, es⟩, path, found⟩ := Option.bind_eq_some_iff.mp reads
  obtain ⟨n, present, same⟩ := Option.map_eq_some_iff.mp found
  simp only [Prod.mk.injEq] at same
  obtain ⟨quiet, before, recomputed⟩ := same
  refine ⟨g, es, path, fun current => ?_⟩
  have kept := current .vm1 n present quiet 2 (by decide) (by rw [before]) file
  rw [recomputed, before] at kept
  exact absurd (congrArg RamAlias.mapped kept) (by decide)

end IdtNtb.Fabric
