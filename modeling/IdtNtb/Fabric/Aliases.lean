import IdtNtb.Fabric.Machine
import IdtNtb.Device.Aliases

/-! The aliases of running devices stay inside the peer's RAM. Every input is a
sequence of alias updates and of steps that leave the aliases alone, whatever
the registers hold and whether or not the RAM file can be opened. -/
namespace IdtNtb.Fabric
open Device Transition

/-- A mapped alias has been initialised over an open RAM region, belongs to a
memory-window BAR, and is no larger than the aperture and inside the region. -/
def AliasBounded (s : IVShmemState) (idx : Fin 6) : Prop :=
  (s.peerRamAlias idx).mapped = true →
    (s.peerRamAlias idx).initialized = true ∧ s.peerRamInitialized = true ∧ MemoryWindow idx ∧
      0 < (s.peerRamAlias idx).size.toNat ∧ (s.peerRamAlias idx).size ≤ barApertureSize ∧
      (s.peerRamAlias idx).offset.toNat + (s.peerRamAlias idx).size.toNat ≤ s.peerRamSize.toNat

def mappedFlags (s : IVShmemState) (idx : Fin 6) : Bool := (s.peerRamAlias idx).mapped

/-- The memory API's view of the calls: a subregion can be added when it is not
there and deleted when it is. -/
def remap (mapped : Fin 6 → Bool) : Effect → Option (Fin 6 → Bool)
  | .addSubregion idx => if mapped idx then none else some (Function.update mapped idx true)
  | .delSubregion idx => if mapped idx then some (Function.update mapped idx false) else none
  | _ => some mapped

/-- The calls of device `r`; a new process starts with nothing mapped. -/
def replay (r : Role) (mapped : Fin 6 → Bool) : Event → Option (Fin 6 → Bool)
  | .started q _ => some (if q = r then fun _ => false else mapped)
  | .called q effect => if q = r then remap mapped effect else some mapped
  | .raised .. => some mapped

def Quiet (effects : List Effect) : Prop := ∀ e ∈ effects, ∀ mapped, remap mapped e = some mapped

/-- The steps that concern aliases: those that touch none, and updates. -/
inductive AliasRun : IVShmemState → List Effect → IVShmemState → Prop
  | still (aliases : t.peerRamAlias = s.peerRamAlias)
      (opened : t.peerRamInitialized = s.peerRamInitialized)
      (size : t.peerRamSize = s.peerRamSize) (quiet : Quiet effects) : AliasRun s effects t
  | update (file : PeerRamFile) (c : BARConfig) (idx : Fin 6)
      (updated : idtBarUpdatePeerRamAlias file s c idx = (t, effects)) : AliasRun s effects t
  | trans (first : AliasRun s es t) (second : AliasRun t fs u) : AliasRun s (es ++ fs) u

theorem aliasWindow_bounds (found : aliasWindow ramSize c base = some (offset, size)) :
    0 < size.toNat ∧ size ≤ barApertureSize ∧ offset.toNat + size.toNat ≤ ramSize.toNat := by
  unfold aliasWindow at found
  split at found
  · rename_i fits
    obtain ⟨windowed, inside⟩ := fits
    cases found
    obtain ⟨extent, above⟩ := windowSize_toNat windowed
    rw [window_past_iff (windowSize_ne_zero windowed), Nat.not_lt] at inside
    have aperture : barApertureSize.toNat = 2 ^ 22 := rfl
    refine ⟨by omega, ?_, inside⟩
    rw [BitVec.le_def, extent, aperture]
    exact Nat.min_le_left ..
  · contradiction

theorem prepared_bounded (bounded : ∀ k, AliasBounded s k) (file : PeerRamFile) (c : BARConfig)
    (idx : Fin 6) : ∀ k, AliasBounded (s.prepared file c idx) k := by
  intro k
  rcases prepared_cases file s c idx with same | ⟨closed, size, opened⟩
  · rw [same]
    exact bounded k
  · rw [opened]
    intro mapped
    have present := (bounded k mapped).2.1
    exact absurd (closed.symm.trans present) (by decide)

theorem place_bounded (bounded : ∀ k, AliasBounded s k) (window : MemoryWindow idx) :
    ∀ k, AliasBounded (s.place idx (s.target c idx)).1 k := by
  intro k
  rw [place_state]
  by_cases same : k = idx
  · subst same
    simp only [AliasBounded, setAlias_same]
    cases found : s.target c k with
    | none => simp [RamAlias.after]
    | some placed =>
      intro _
      simp only [IVShmemState.target] at found
      split at found
      · rename_i opened
        obtain ⟨positive, narrow, inside⟩ := aliasWindow_bounds found
        exact ⟨rfl, opened, window, positive, narrow, inside⟩
      · contradiction
  · simp only [AliasBounded, setAlias_other _ _ same]
    exact bounded k

theorem place_remap (s : IVShmemState) (idx : Fin 6) (window : Option (BitVec 64 × BitVec 64)) :
    (s.place idx window).2.foldlM remap (mappedFlags s) =
      some (mappedFlags (s.place idx window).1) := by
  have flags : ∀ a : RamAlias,
      mappedFlags (s.setAlias idx a) = Function.update (mappedFlags s) idx a.mapped := by
    intro a
    funext k
    by_cases same : k = idx
    · subst same
      simp [mappedFlags]
    · simp [mappedFlags, setAlias_other _ _ same, same]
  rw [place_state, flags]
  cases mapped : (s.peerRamAlias idx).mapped with
  | true =>
    have flag : mappedFlags s idx = true := mapped
    cases window with
    | none =>
      simp [IVShmemState.place, idtBarRemovePeerRamAlias, mapped, remap, flag, RamAlias.after]
    | some window => simp [IVShmemState.place, mapped, remap, flag, RamAlias.after]
  | false =>
    have flag : mappedFlags s idx = false := mapped
    cases window with
    | none =>
      have same : Function.update (mappedFlags s) idx false = mappedFlags s := by
        rw [← flag, Function.update_eq_self]
      simp [IVShmemState.place, idtBarRemovePeerRamAlias, mapped, RamAlias.after, same]
    | some window => simp [IVShmemState.place, mapped, remap, flag, RamAlias.after]

theorem prepared_flags (file : PeerRamFile) (s : IVShmemState) (c : BARConfig) (idx : Fin 6) :
    mappedFlags (s.prepared file c idx) = mappedFlags s := by
  rcases prepared_cases file s c idx with same | ⟨-, size, opened⟩
  · rw [same]
  · rw [opened]
    rfl

theorem quiet_nil : Quiet [] := by
  simp [Quiet]

theorem quiet_singleton (quiet : ∀ mapped, remap mapped e = some mapped) : Quiet [e] := by
  simpa [Quiet] using quiet

theorem remap_quiet (quiet : Quiet effects) (mapped : Fin 6 → Bool) :
    effects.foldlM remap mapped = some mapped := by
  induction effects with
  | nil => rfl
  | cons e effects ih =>
    rw [List.foldlM_cons, quiet e List.mem_cons_self mapped]
    exact ih fun later member => quiet later (List.mem_cons_of_mem e member)

/-- Over such steps the bounds hold and the calls fit what is mapped. -/
theorem aliasRun_bounded (chain : AliasRun s effects t) (bounded : ∀ k, AliasBounded s k) :
    (∀ k, AliasBounded t k) ∧ effects.foldlM remap (mappedFlags s) = some (mappedFlags t) := by
  induction chain with
  | @still calls s t aliases opened size quiet =>
    have flags : mappedFlags t = mappedFlags s := by
      funext k
      rw [mappedFlags, aliases, mappedFlags]
    refine ⟨fun k => ?_, flags ▸ remap_quiet quiet _⟩
    rw [AliasBounded, aliases, opened, size]
    exact bounded k
  | @update s t effects file c idx updated =>
    by_cases window : MemoryWindow idx
    · rw [updateAlias_eq file s c window] at updated
      have kept := place_bounded (prepared_bounded bounded file c idx) window (c := c)
      have calls := place_remap (s.prepared file c idx) idx ((s.prepared file c idx).target c idx)
      rw [prepared_flags, updated] at calls
      rw [updated] at kept
      exact ⟨kept, calls⟩
    · rw [updateAlias_outside file s c window] at updated
      cases updated
      exact ⟨bounded, rfl⟩
  | trans first second ihFirst ihSecond =>
    obtain ⟨middle, replayed⟩ := ihFirst bounded
    obtain ⟨last, continued⟩ := ihSecond middle
    refine ⟨last, ?_⟩
    simp [List.foldlM_append, replayed, continued]

theorem kick_aliasRun (kick : idtKickPeerInterrupt r s m = (t, effects)) :
    AliasRun s effects t := by
  rw [kick_eq] at kick
  cases kick
  refine .still rfl rfl rfl ?_
  split
  · exact quiet_singleton fun _ => rfl
  · exact quiet_nil

theorem raise_aliasRun (raise : idtRaisePeerInterrupt r s m bit = (t, n, effects)) :
    AliasRun s effects t := by
  cases raise
  exact kick_aliasRun rfl

theorem handled_aliasRun (handled : Handled file r s shm reg val t m effects) :
    AliasRun s effects t := by
  cases handled with
  | latched => exact .still rfl rfl rfl quiet_nil
  | raised middle bit same raise => exact raise_aliasRun raise
  | outmsg i sent =>
    cases outmsg_sent sent with
    | reported => exact .still rfl rfl rfl (quiet_singleton fun _ => rfl)
    | raised free raise => exact raise_aliasRun raise
    | _ => exact .still rfl rfl rfl quiet_nil
  | bar field i stored updated => exact .update file _ i updated
  | inbound data sent =>
    simp only [writeInboundWindow, notify_eq] at sent
    cases sent
    refine .still rfl rfl rfl ?_
    split
    · exact quiet_singleton fun _ => rfl
    · exact quiet_nil
  | _ => exact .still rfl rfl rfl quiet_nil

theorem refresh_aliasRun (file : PeerRamFile) (r : Role) (s : IVShmemState) (shm : SharedMemory) :
    AliasRun s (idtBarRefreshPeerRamAliases file r s shm).2
      (idtBarRefreshPeerRamAliases file r s shm).1 := by
  simp only [idtBarRefreshPeerRamAliases, List.foldl_cons, List.foldl_nil, List.nil_append]
  exact .trans (.trans (.update file _ 2 rfl) (.update file _ 3 rfl)) (.update file _ 4 rfl)

theorem heard_aliasRun (heard : Heard r s shm msg t m effects) : AliasRun s effects t := by
  cases heard with
  | counted => exact .still rfl rfl rfl quiet_nil
  | known peers other before counts kick =>
    have counted : AliasRun s [] { s with peers := peers } := .still rfl rfl rfl quiet_nil
    exact counted.trans (kick_aliasRun kick)
  | setUp peers own before counts ids kick =>
    refine .trans ?_ (kick_aliasRun kick)
    cases r with
    | vm1 =>
      cases ids
      exact .still rfl rfl rfl quiet_nil
    | vm2 =>
      cases ids
      exact .still rfl rfl rfl (quiet_singleton fun _ => rfl)

theorem handle_aliasRun (handled : handle vectors r s shm i = some (t, m, effects)) :
    AliasRun s effects t := by
  cases i with
  | write addr val file =>
    obtain ⟨reg, -, shape⟩ := ioWrite_handled handled
    exact handled_aliasRun shape
  | raise bit => exact raise_aliasRun (Option.some.inj handled)
  | message msg => exact heard_aliasRun (processMsg_heard (Option.some.inj handled))
  | vmId file =>
    cases handled
    have looked : AliasRun s [] { s with otherVmId := (shm.vm r.peer).id.toInt } :=
      .still rfl rfl rfl quiet_nil
    exact (looked.trans (refresh_aliasRun file r _ shm)).trans (kick_aliasRun rfl)
  | relocate idx base =>
    cases handled
    exact .still rfl rfl rfl quiet_nil

/-- The calls so far fit what was mapped at each moment, and the aliases of a
running device are in bounds. -/
def AliasesInBounds (r : Role) (es : List Event) (f : World) : Prop :=
  ∃ mapped, es.foldlM (replay r) (fun _ => false) = some mapped ∧
    ∀ n, f.node r = some n → mapped = mappedFlags n.dev ∧ ∀ idx, AliasBounded n.dev idx

theorem replay_called (r : Role) (effects : List Effect) (mapped : Fin 6 → Bool) :
    (effects.map (Event.called r)).foldlM (replay r) mapped = effects.foldlM remap mapped := by
  induction effects generalizing mapped with
  | nil => rfl
  | cons e effects ih => simp only [List.map_cons, List.foldlM_cons, replay, if_true, ih]

theorem replay_other (other : q ≠ r) (effects : List Effect) (mapped : Fin 6 → Bool) :
    (effects.map (Event.called q)).foldlM (replay r) mapped = some mapped := by
  induction effects generalizing mapped with
  | nil => rfl
  | cons e effects ih =>
    rw [List.map_cons, List.foldlM_cons, replay, if_neg other]
    exact ih mapped

theorem replay_events (r q : Role) (i : Input) (mapped : Fin 6 → Bool) :
    (i.events q).foldlM (replay r) mapped = some mapped := by
  cases i <;> rfl

theorem inBounds_step (inv : AliasesInBounds r es f)
    (stepped : World.step vectors f action = some (g, fs)) : AliasesInBounds r (es ++ fs) g := by
  obtain ⟨mapped, replayed, running⟩ := inv
  simp only [AliasesInBounds, List.foldlM_append, replayed, Option.bind_eq_bind, Option.bind_some]
  cases step_moves stepped with
  | @start q vmId stopped bound fresh =>
    refine ⟨_, rfl, ?_⟩
    intro n found
    rcases Role.eq_or_peer q r with rfl | rfl
    · simp only [Function.update_self, Option.some.injEq] at found
      subst found
      refine ⟨?_, fun idx placed => ?_⟩
      · rw [if_pos rfl]
        rfl
      · simp [IVShmemState.realized] at placed
    · simp only [Function.update_of_ne q.peer_ne] at found
      simpa using running n found
  | @stop q n found =>
    refine ⟨mapped, rfl, ?_⟩
    intro n found
    rcases Role.eq_or_peer q r with rfl | rfl
    · simp at found
    · simp only [Function.update_of_ne q.peer_ne] at found
      exact running n found
  | @input q a i s m effects present accepts handled =>
    simp only [List.foldlM_append, replay_events, Option.bind_eq_bind, Option.bind_some]
    rcases Role.eq_or_peer q r with rfl | rfl
    · obtain ⟨rfl, bounded⟩ := running a present
      obtain ⟨kept, calls⟩ := aliasRun_bounded (handle_aliasRun handled) bounded
      refine ⟨mappedFlags s, (replay_called r effects _).trans calls, ?_⟩
      intro n found
      rw [after_self] at found
      cases found
      exact ⟨rfl, kept⟩
    · refine ⟨mapped, replay_other (Role.ne_peer q) effects mapped, ?_⟩
      intro n found
      rw [after_peer] at found
      obtain ⟨b, same, rfl⟩ := Option.map_eq_some_iff.mp found
      exact running b same

/-- From no running device, over any schedule at all: every alias that is mapped
is in bounds, and each subregion was added only when unmapped and deleted only
when mapped. -/
theorem aliases_in_bounds (vectors : Nat) (f : World) (actions : List Action)
    (stopped : ∀ r, f.node r = none) (path : run (World.step vectors) f actions = some (g, es))
    (r : Role) : AliasesInBounds r es g := by
  have initial : AliasesInBounds r [] f :=
    ⟨fun _ => false, rfl, fun n found => by simp [stopped r] at found⟩
  exact run_invariant (fun inv _ stepped => inBounds_step inv stepped) initial
    (along_true f actions) path

/-- `vm1` moves BAR 2 to 4 MiB and opens a window of 64 KiB in it; the second
store moves the translation, with a peer RAM file of 2 MiB. -/
def opensWindow : List Action :=
  let file : PeerRamFile := ⟨true, some 0x200000, true⟩
  [.start .vm1 0, .input .vm1 (.relocate 2 0x400000),
    .input .vm1 (.write (ConfigRegister.bar .limit 2).addr 0x410000 file),
    .input .vm1 (.write (ConfigRegister.bar .ltbase 2).addr 0x8000 file)]

theorem aliases_in_bounds_window :
    ∃ g es n, run (World.step 2) .empty opensWindow = some (g, es) ∧
      g.node .vm1 = some n ∧ (n.dev.peerRamAlias 2).mapped = true ∧ AliasesInBounds .vm1 es g := by
  have reads : (run (World.step 2) .empty opensWindow).bind
      (fun reached => (reached.1.node .vm1).map fun n => (n.dev.peerRamAlias 2).mapped) =
        some true := by decide +kernel
  obtain ⟨⟨g, es⟩, path, found⟩ := Option.bind_eq_some_iff.mp reads
  obtain ⟨n, present, mapped⟩ := Option.map_eq_some_iff.mp found
  exact ⟨g, es, n, path, present, mapped,
    aliases_in_bounds 2 .empty opensWindow (fun _ => rfl) path .vm1⟩

end IdtNtb.Fabric
