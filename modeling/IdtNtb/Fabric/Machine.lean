import IdtNtb.Fabric.Server
import IdtNtb.Lib.Transition

/-! Two devices and an ivshmem server. A device process starts with a fresh id,
handles one input at a time and may stop and start again; the shared block
outlives it. A signal on a VM_ID descriptor stays outstanding until the process
that owns the descriptor handles it. -/
namespace IdtNtb.Fabric
open Device Transition

structure Node where
  dev : IVShmemState
  vmIdPending : Bool

/-- `used` are the ids that the server has given out. -/
structure World where
  shm : SharedMemory
  node : Role → Option Node
  used : List Nat

def World.empty : World := ⟨.zero, fun _ => none, []⟩

/-- What a device handles: a guest store into BAR 0, a call that raises an
interrupt at the peer, a message of the server, its VM_ID descriptor, and the
guest moving a BAR. -/
inductive Input where
  | write (addr : Nat) (val : BitVec 32) (file : PeerRamFile)
  | raise (bit : BitVec 32)
  | message (msg : ServerMessage)
  | vmId (file : PeerRamFile)
  | relocate (idx : Fin 6) (base : BitVec 64)

inductive Action where
  | start (r : Role) (vmId : Nat)
  | stop (r : Role)
  | input (r : Role) (i : Input)

inductive Event where
  | started (r : Role) (vmId : Nat)
  | raised (r : Role) (bit : BitVec 32)
  | called (r : Role) (effect : Effect)
  deriving DecidableEq

def handle (vectors : Nat) (r : Role) (s : IVShmemState) (shm : SharedMemory) :
    Input → Option (IVShmemState × SharedMemory × List Effect)
  | .write addr val file => ivshmemIoWrite file r s shm addr (val.setWidth 64)
  | .raise bit => some (idtRaisePeerInterrupt r s shm bit)
  | .message msg => some (processMsg vectors r s shm msg)
  | .vmId file =>
      let (s, effects) := ivshmemVectorNotify file r s shm .vmId
      some (s, shm, effects)
  -- `pci_default_write_config` moves the region; nothing else follows.
  | .relocate idx base => some ({ s with bars := Function.update s.bars idx base }, shm, [])

def World.live (f : World) (vmId : Int) : Bool :=
  [Role.vm1, .vm2].any fun q => (f.node q).any fun n => n.dev.vmId = vmId

/-- The server speaks only of ids it has given out and reports no running
process as gone; a descriptor fires once it is signalled and watched. -/
def World.Accepts (f : World) (n : Node) : Input → Prop
  | .message (.connect posn) => posn ∈ f.used
  | .message (.disconnect posn) => posn ∈ f.used ∧ f.live posn = false
  | .vmId _ => n.vmIdPending = true ∧ eventfdVmId < n.dev.registered n.dev.vmId
  | _ => True

instance (f : World) (n : Node) : DecidablePred (f.Accepts n) := fun i => by
  unfold World.Accepts
  split <;> infer_instance

/-- The effects signal the VM_ID descriptor of the process with that id, which
takes effect where the device has received the descriptor. -/
def signalled (s : IVShmemState) (effects : List Effect) (vmId : Int) : Bool :=
  effects.contains (.eventNotifierSet vmId eventfdVmId) && decide (eventfdVmId < s.registered vmId)

def Input.pendingAfter (n : Node) : Input → Bool
  | .vmId _ => false
  | _ => n.vmIdPending

def World.after (f : World) (r : Role) (n : Node) (i : Input) (s : IVShmemState) (m : SharedMemory)
    (effects : List Effect) : World :=
  { f with
    shm := m
    node := fun q => (Function.update f.node r (some ⟨s, i.pendingAfter n⟩) q).map fun n =>
      { n with vmIdPending := n.vmIdPending || signalled s effects n.dev.vmId } }

def Input.events (r : Role) : Input → List Event
  | .raise bit => [.raised r bit]
  | _ => []

def World.step (vectors : Nat) (f : World) : Action → Option (World × List Event)
  | .start r vmId =>
      if (f.node r).isNone ∧ vmId ≤ ivshmemMaxPeers ∧ vmId ∉ f.used then
        some (⟨ivshmemCommonRealize r f.shm,
          Function.update f.node r (some ⟨.realized vmId fun _ => 0, false⟩), vmId :: f.used⟩,
          [.started r vmId])
      else none
  | .stop r =>
      if (f.node r).isSome then some ({ f with node := Function.update f.node r none }, [])
      else none
  | .input r i =>
      match f.node r with
      | none => none
      | some n =>
          if f.Accepts n i then
            (handle vectors r n.dev f.shm i).map fun (s, m, effects) =>
              (f.after r n i s m effects, i.events r ++ effects.map (.called r))
          else none

inductive Moves (vectors : Nat) (f : World) : Action → World → List Event → Prop
  | start (stopped : f.node r = none) (bound : vmId ≤ ivshmemMaxPeers) (fresh : vmId ∉ f.used) :
      Moves vectors f (.start r vmId)
        ⟨ivshmemCommonRealize r f.shm,
          Function.update f.node r (some ⟨.realized vmId fun _ => 0, false⟩), vmId :: f.used⟩
        [.started r vmId]
  | stop (running : f.node r = some n) :
      Moves vectors f (.stop r) { f with node := Function.update f.node r none } []
  | input (running : f.node r = some n) (accepts : f.Accepts n i)
      (handled : handle vectors r n.dev f.shm i = some (s, m, effects)) :
      Moves vectors f (.input r i) (f.after r n i s m effects)
        (i.events r ++ effects.map (.called r))

theorem step_moves (stepped : World.step vectors f action = some (g, es)) :
    Moves vectors f action g es := by
  cases action with
  | start r vmId =>
    simp only [World.step] at stepped
    split at stepped
    · rename_i enabled
      cases stepped
      exact .start (Option.isNone_iff_eq_none.mp enabled.1) enabled.2.1 enabled.2.2
    · contradiction
  | stop r =>
    simp only [World.step] at stepped
    split at stepped
    · rename_i running
      obtain ⟨n, found⟩ := Option.isSome_iff_exists.mp running
      cases stepped
      exact .stop found
    · contradiction
  | input r i =>
    simp only [World.step] at stepped
    split at stepped
    · contradiction
    · rename_i n found
      split at stepped
      · rename_i accepts
        obtain ⟨⟨s, m, effects⟩, handled, same⟩ := Option.map_eq_some_iff.mp stepped
        cases same
        exact .input found accepts handled
      · contradiction

theorem after_self (f : World) (r : Role) (n : Node) (i : Input) (s : IVShmemState)
    (m : SharedMemory) (effects : List Effect) :
    (f.after r n i s m effects).node r =
      some ⟨s, i.pendingAfter n || signalled s effects s.vmId⟩ := by
  simp [World.after]

theorem after_peer (f : World) (r : Role) (n : Node) (i : Input) (s : IVShmemState)
    (m : SharedMemory) (effects : List Effect) :
    (f.after r n i s m effects).node r.peer = (f.node r.peer).map fun n =>
      { n with vmIdPending := n.vmIdPending || signalled s effects n.dev.vmId } := by
  simp [World.after]

/-! A fact about each running device, or about each pair, after the node of one
role has changed. -/
section Nodes
variable {node : Role → Option Node} {P : Role → Node → Prop} {Q : Role → Node → Node → Prop}
    {n : Node}

theorem each_start (own : P r n) (peer : ∀ b, node r.peer = some b → P r.peer b) :
    ∀ q c, Function.update node r (some n) q = some c → P q c := by
  intro q c found
  rcases Role.eq_or_peer r q with rfl | rfl
  · rw [Function.update_self] at found
    cases found
    exact own
  · rw [Function.update_of_ne r.peer_ne] at found
    exact peer c found

theorem each_stop (peer : ∀ b, node r.peer = some b → P r.peer b) :
    ∀ q c, Function.update node r none q = some c → P q c := by
  intro q c found
  rcases Role.eq_or_peer r q with rfl | rfl
  · rw [Function.update_self] at found
    contradiction
  · rw [Function.update_of_ne r.peer_ne] at found
    exact peer c found

theorem pairs_start (own : ∀ b, node r.peer = some b → Q r n b)
    (peer : ∀ b, node r.peer = some b → Q r.peer b n) :
    ∀ q c d, Function.update node r (some n) q = some c →
      Function.update node r (some n) q.peer = some d → Q q c d := by
  intro q c d foundC foundD
  rcases Role.eq_or_peer r q with rfl | rfl
  · rw [Function.update_self] at foundC
    rw [Function.update_of_ne q.peer_ne] at foundD
    cases foundC
    exact own d foundD
  · rw [Function.update_of_ne r.peer_ne] at foundC
    rw [Role.peer_peer, Function.update_self] at foundD
    cases foundD
    exact peer c foundC

theorem pairs_stop : ∀ q c d, Function.update node r none q = some c →
    Function.update node r none q.peer = some d → Q q c d := by
  intro q c d foundC foundD
  rcases Role.eq_or_peer r q with rfl | rfl
  · simp at foundC
  · simp at foundD

end Nodes

section Signals
variable {f : World} {P : Role → Node → Prop} {Q : Role → Node → Node → Prop} {i : Input}

theorem each_after (own : P r ⟨t, i.pendingAfter a || signalled t effects t.vmId⟩)
    (peer : ∀ b, f.node r.peer = some b →
      P r.peer { b with vmIdPending := b.vmIdPending || signalled t effects b.dev.vmId }) :
    ∀ q c, (f.after r a i t m effects).node q = some c → P q c := by
  intro q c found
  rcases Role.eq_or_peer r q with rfl | rfl
  · rw [after_self] at found
    cases found
    exact own
  · rw [after_peer] at found
    obtain ⟨b, present, rfl⟩ := Option.map_eq_some_iff.mp found
    exact peer b present

theorem pairs_after
    (own : ∀ b, f.node r.peer = some b → Q r ⟨t, i.pendingAfter a || signalled t effects t.vmId⟩
      { b with vmIdPending := b.vmIdPending || signalled t effects b.dev.vmId })
    (peer : ∀ b, f.node r.peer = some b →
      Q r.peer { b with vmIdPending := b.vmIdPending || signalled t effects b.dev.vmId }
        ⟨t, i.pendingAfter a || signalled t effects t.vmId⟩) :
    ∀ q c d, (f.after r a i t m effects).node q = some c →
      (f.after r a i t m effects).node q.peer = some d → Q q c d := by
  intro q c d foundC foundD
  rcases Role.eq_or_peer r q with rfl | rfl
  · rw [after_self] at foundC
    rw [after_peer] at foundD
    cases foundC
    obtain ⟨b, present, rfl⟩ := Option.map_eq_some_iff.mp foundD
    exact own b present
  · rw [after_peer] at foundC
    rw [Role.peer_peer, after_self] at foundD
    cases foundD
    obtain ⟨b, present, rfl⟩ := Option.map_eq_some_iff.mp foundC
    exact peer b present

end Signals

end IdtNtb.Fabric
