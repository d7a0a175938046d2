import IdtNtb.Fabric.Machine
import IdtNtb.Device.Aliases

/-! Which descriptors a device signals. Kicks and BAR notifications look up the
peer's descriptor first, but `init_vm_ids` signals whatever the id word names,
and the VM_ID handler takes any id for the peer's, its own included. The shared
block is the other process's to write, so each input comes with the block as
the handler finds it. -/
namespace IdtNtb.Fabric
open Device Transition

/-- A call of `event_notifier_set` on `peers[peer].eventfds[vector]`, with the
device at that moment. No handler changes its table after its first signal. -/
structure Signal where
  device : IVShmemState
  peer : Int
  vector : Nat

structure Signal.Proper (e : Signal) : Prop where
  lower : 0 ≤ e.peer
  upper : e.peer < e.device.peers.length
  other : e.peer ≠ e.device.vmId
  arrived : e.vector < e.device.registered e.peer

def signalOf (device : IVShmemState) : Effect → Option Signal
  | .eventNotifierSet peer vector => some ⟨device, peer, vector⟩
  | _ => none

def respond (vectors : Nat) (r : Role) (s : IVShmemState) (l : SharedMemory × Input) :
    Option (IVShmemState × List Signal) :=
  (handle vectors r s l.1 l.2).map fun (t, _, effects) => (t, effects.filterMap (signalOf t))

/-- Where the id word is used without a check: the second VM completes its setup
only when the word names another peer with a descriptor, and a VM_ID handler
never finds its own id. -/
def WordNamesPeer (vectors : Nat) (r : Role) (s : IVShmemState) : SharedMemory × Input → Prop
  | (shm, .message (.connect posn)) =>
      r = .vm2 → (posn : Int) = s.vmId → s.registered posn = 1 → 1 < vectors →
        (shm.vm r.peer).id.toInt ≠ s.vmId ∧ eventfdVmId < s.registered (shm.vm r.peer).id.toInt
  | (shm, .vmId _) => (shm.vm r.peer).id.toInt ≠ s.vmId
  | _ => True

instance (vectors : Nat) (r : Role) (s : IVShmemState) : DecidablePred (WordNamesPeer vectors r s)
  | (_, .message (.connect _)) => by
      dsimp only [WordNamesPeer]
      infer_instance
  | (_, .vmId _) => by
      dsimp only [WordNamesPeer]
      infer_instance
  | (_, .message (.disconnect _)) | (_, .write ..) | (_, .raise _) | (_, .relocate ..) =>
      .isTrue trivial

variable {s t : IVShmemState} {shm m : SharedMemory} {effects more : List Effect}

theorem registered_bounds (arrived : k < s.registered peer) : 0 ≤ peer ∧ peer < s.peers.length := by
  unfold IVShmemState.registered at arrived
  split at arrived
  · omega
  · rename_i inside
    omega

/-- The device does not take itself for its peer, and all its signals are proper. -/
structure Aims (t : IVShmemState) (effects : List Effect) : Prop where
  apart : t.otherVmId ≠ t.vmId
  proper : ∀ e ∈ effects.filterMap (signalOf t), e.Proper

theorem aims_silent (apart : t.otherVmId ≠ t.vmId)
    (silent : ∀ e ∈ effects, signalOf t e = none) : Aims t effects := by
  refine ⟨apart, ?_⟩
  intro e member
  obtain ⟨call, made, signals⟩ := List.mem_filterMap.mp member
  exact absurd ((silent call made).symm.trans signals) nofun

theorem aims_signal (apart : t.otherVmId ≠ t.vmId) (arrived : vector < t.registered t.otherVmId) :
    Aims t [.eventNotifierSet t.otherVmId vector] := by
  refine ⟨apart, ?_⟩
  intro e member
  obtain rfl : e = ⟨t, t.otherVmId, vector⟩ := by simpa [signalOf] using member
  obtain ⟨lower, upper⟩ := registered_bounds arrived
  exact ⟨lower, upper, apart, arrived⟩

theorem aims_append (first : Aims t effects) (second : Aims t more) : Aims t (effects ++ more) := by
  refine ⟨first.apart, ?_⟩
  intro e member
  rw [List.filterMap_append] at member
  exact (List.mem_append.mp member).elim (first.proper e) (second.proper e)

/-- An adopted id is never the device's own. -/
theorem adopt_apart (r : Role) (shm : SharedMemory) (apart : s.otherVmId ≠ s.vmId) :
    (s.adopt r shm).otherVmId ≠ (s.adopt r shm).vmId := by
  simp only [IVShmemState.adopt, adoptedId]
  split
  · rename_i adopts
    exact adopts.2.2.2.2
  · exact apart

theorem aims_kick (apart : s.otherVmId ≠ s.vmId)
    (kick : idtKickPeerInterrupt r s shm = (t, effects)) :
    Aims t effects := by
  rw [kick_eq] at kick
  cases kick
  have apart := adopt_apart r shm apart
  split
  · rename_i signals
    exact aims_signal apart signals.2.1
  · exact aims_silent apart nofun

theorem aims_raise (apart : s.otherVmId ≠ s.vmId)
    (raise : idtRaisePeerInterrupt r s shm bit = (t, m, effects)) : Aims t effects := by
  cases raise
  exact aims_kick apart rfl

theorem aims_notify (apart : s.otherVmId ≠ s.vmId)
    (notify : idtNotifyPeerBarConfigChanged r s shm = (t, effects)) : Aims t effects := by
  rw [notify_eq] at notify
  cases notify
  have apart := adopt_apart r shm apart
  split
  · rename_i signals
    exact aims_signal apart signals
  · exact aims_silent apart nofun

theorem subregions_silent (calls : ∀ e ∈ effects, ∃ idx, e = .delSubregion idx ∨
    e = .addSubregion idx) (t : IVShmemState) : ∀ e ∈ effects, signalOf t e = none := by
  intro e made
  obtain ⟨idx, rfl | rfl⟩ := calls e made <;> rfl

theorem aims_aliases (only : AliasesOnly s t) (apart : s.otherVmId ≠ s.vmId)
    (calls : ∀ e ∈ effects, ∃ idx, e = .delSubregion idx ∨ e = .addSubregion idx) :
    Aims t effects := by
  obtain ⟨_, _, _, rfl⟩ := only
  exact aims_silent apart (subregions_silent calls _)

theorem aims_write (apart : s.otherVmId ≠ s.vmId)
    (handled : Handled file r s shm reg val t m effects) :
    Aims t effects := by
  cases handled with
  | raised middle bit same raise => exact aims_raise apart raise
  | outmsg i sent =>
    cases outmsg_sent sent with
    | raised free raise => exact aims_raise apart raise
    | reported => exact aims_silent apart (by simp [signalOf])
    | _ => exact aims_silent apart nofun
  | bar field i stored updated =>
    have only := updateAlias_only file s ((m.vm r).barConfig i) i
    have calls := updateAlias_calls file s ((m.vm r).barConfig i) i
    rw [updated] at only calls
    exact aims_aliases only apart fun e made => ⟨i, calls e made⟩
  | inbound data sent =>
    cases sent
    exact aims_notify apart rfl
  | _ => exact aims_silent apart nofun

/-- A connect message beyond the device's vectors is refused. -/
theorem connect_full {posn : Nat} (full : vectors ≤ s.registered posn)
    (apart : s.otherVmId ≠ s.vmId)
    (processed : processMsg vectors r s shm (.connect posn) = (t, m, effects)) :
    Aims t effects := by
  have refused : ∀ grown : IVShmemState, grown.registered = s.registered →
      grown.otherVmId = s.otherVmId → grown.vmId = s.vmId →
      processMsgConnect vectors r grown shm posn = (t, m, effects) → Aims t effects := by
    intro grown same other own processed
    simp only [processMsgConnect, ← registered_natCast, same, if_pos full] at processed
    cases processed
    exact aims_silent (by rwa [other, own]) (List.forall_mem_nil _)
  unfold processMsg at processed
  split at processed
  · cases processed
    exact aims_silent apart (List.forall_mem_nil _)
  · dsimp only at processed
    split at processed
    · exact refused _ (resize_registered ..) rfl rfl processed
    · exact refused s rfl rfl rfl processed

/-- Completing the setup: the second VM signals whom the word names. -/
theorem aims_setUp (apart : s.otherVmId ≠ s.vmId) (named : r = .vm2 →
      (shm.vm r.peer).id.toInt ≠ s.vmId ∧ eventfdVmId < s.registered (shm.vm r.peer).id.toInt)
    (ids : initVmIds r s shm = (middle, m, notified))
    (kick : idtKickPeerInterrupt r middle m = (t, kicked)) : Aims t (notified ++ kicked) := by
  cases r with
  | vm1 =>
    cases ids
    exact aims_kick apart kick
  | vm2 =>
    have word : ((shm.mapVm .vm2 fun v => { v with id := BitVec.ofInt 32 s.vmId }).vm .vm1).id =
        (shm.vm .vm1).id := by
      rw [mapVm_other _ _ (by decide)]
    obtain ⟨other, arrived⟩ := named rfl
    simp only [initVmIds, Role.peer, word] at ids other arrived
    cases ids
    -- The word is a peer's index, so the kick keeps it.
    have known : (shm.vm .vm1).id.toInt ≠ -1 := by
      have lower := (registered_bounds arrived).1
      omega
    have kept : t.otherVmId = (shm.vm .vm1).id.toInt ∧ t.registered = s.registered := by
      rw [kick_eq] at kick
      cases kick
      exact ⟨if_neg fun adopts => known adopts.1, rfl⟩
    have aims := aims_kick other kick
    refine aims_append ?_ aims
    rw [← kept.1] at arrived ⊢
    exact aims_signal aims.apart (by rwa [kept.2])

theorem aims_message (apart : s.otherVmId ≠ s.vmId)
    (named : WordNamesPeer vectors r s (shm, .message msg))
    (processed : processMsg vectors r s shm msg = (t, m, effects)) : Aims t effects := by
  cases processMsg_heard processed with
  | counted peers n counts gained own => exact aims_silent apart nofun
  | known peers other before counts kick => exact aims_kick (s := { s with peers }) apart kick
  | setUp peers own before counts ids kick =>
    by_cases enough : 1 < vectors
    · refine aims_setUp (s := { s with peers }) apart ?_ ids kick
      intro second
      obtain ⟨other, arrived⟩ := named second own before enough
      refine ⟨other, ?_⟩
      rwa [counts, Function.update_of_ne (by rwa [own])]
    · exact connect_full (by omega) apart processed

theorem aims_handle (apart : s.otherVmId ≠ s.vmId) (named : WordNamesPeer vectors r s (shm, i))
    (handled : handle vectors r s shm i = some (t, m, effects)) : Aims t effects := by
  cases i with
  | write addr val file =>
    obtain ⟨reg, -, shape⟩ := ioWrite_handled handled
    exact aims_write apart shape
  | raise bit => exact aims_raise apart (Option.some.inj handled)
  | message msg => exact aims_message apart named (Option.some.inj handled)
  | vmId file =>
    simp only [handle, ivshmemVectorNotify] at handled
    cases handled
    have only := refreshAliases_only file r { s with otherVmId := (shm.vm r.peer).id.toInt } shm
    have calls := refreshAliases_calls file r { s with otherVmId := (shm.vm r.peer).id.toInt } shm
    have refreshed := aims_aliases only named calls
    have kicked := aims_kick (r := r) refreshed.apart (Eq.refl (idtKickPeerInterrupt r _ shm))
    exact aims_append (aims_silent kicked.apart (subregions_silent calls _)) kicked
  | relocate idx base =>
    cases handled
    exact aims_silent apart nofun

theorem respond_aims (apart : s.otherVmId ≠ s.vmId) (named : WordNamesPeer vectors r s l)
    (next : respond vectors r s l = some (t, signals)) :
    t.otherVmId ≠ t.vmId ∧ ∀ e ∈ signals, e.Proper := by
  obtain ⟨⟨_, m, effects⟩, handled, same⟩ := Option.map_eq_some_iff.mp next
  cases same
  have aims := aims_handle apart named handled
  exact ⟨aims.apart, aims.proper⟩

/-- A device that does not know its peer yet signals registered descriptors of
other peers only, over any messages, stores and contents of the shared block,
as long as the id word names a peer where it is used without a check. -/
theorem signals_registered (vectors : Nat) (r : Role) (unknown : s.otherVmId = -1)
    (numbered : 0 ≤ s.vmId) (named : Along (respond vectors r) (WordNamesPeer vectors r) s ls)
    (path : run (respond vectors r) s ls = some (t, es)) : ∀ e ∈ es, e.Proper := by
  have apart : s.otherVmId ≠ s.vmId := by omega
  exact (run_reports respond_aims apart named path).2

/-- The second VM starts second: both peers' descriptors arrive, and the id word
names the first VM. -/
theorem signals_registered_second :
    ∃ t es, run (respond 2 .vm2) (.realized 1 fun _ => 0)
        ([0, 0, 1, 1].map fun posn => (.zero, .message (.connect posn))) = some (t, es) ∧
      es.map (fun e => (e.peer, e.vector)) = [(0, eventfdVmId)] ∧ ∀ e ∈ es, e.Proper := by
  have reads : (run (respond 2 .vm2) (.realized 1 fun _ => 0)
      ([0, 0, 1, 1].map fun posn => (.zero, .message (.connect posn)))).map
      (fun reached => reached.2.map fun e => (e.peer, e.vector)) = some [(0, eventfdVmId)] := by
    decide +kernel
  obtain ⟨⟨t, es⟩, path, signals⟩ := Option.map_eq_some_iff.mp reads
  refine ⟨t, es, path, signals, signals_registered 2 .vm2 rfl (by decide) ?_ path⟩
  decide +kernel

/-- The second VM starts alone over a new block, where the first VM's word reads
as its own id: it signals its own descriptor. -/
theorem own_descriptor_signalled :
    ∃ t es, run (respond 2 .vm2) (.realized 0 fun _ => 0)
        ([0, 0].map fun posn => (.zero, .message (.connect posn))) = some (t, es) ∧
      ∃ e ∈ es, e.peer = e.device.vmId ∧ ¬e.Proper := by
  have reads : (run (respond 2 .vm2) (.realized 0 fun _ => 0)
      ([0, 0].map fun posn => (.zero, .message (.connect posn)))).map
      (fun reached => reached.2.any fun e => e.peer = e.device.vmId) = some true := by
        decide +kernel
  obtain ⟨⟨t, es⟩, path, signals⟩ := Option.map_eq_some_iff.mp reads
  obtain ⟨e, member, itself⟩ := List.any_eq_true.mp signals
  have itself := of_decide_eq_true itself
  exact ⟨t, es, path, e, member, itself, fun proper => proper.other itself⟩

end IdtNtb.Fabric
