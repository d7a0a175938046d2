import IdtNtb.Device.Handlers

/-! Messages of the ivshmem server. The N-th connect message for a peer carries
the descriptor of its vector N-1, and the device counts messages to find the
vector; its own vector 1 completes the interrupt setup and publishes its id. -/
namespace IdtNtb.Fabric
open Device

/-- A message of the server after the initial ones: a peer's next descriptor,
or the peer's departure. -/
inductive ServerMessage where
  | connect (posn : Nat)
  | disconnect (posn : Nat)
  deriving DecidableEq

def ServerMessage.posn : ServerMessage → Nat
  | .connect posn | .disconnect posn => posn

def ivshmemMaxPeers : Nat := 65535

def resizePeers (s : IVShmemState) (nbPeers : Nat) : IVShmemState :=
  { s with peers := s.peers ++ List.replicate (nbPeers - s.peers.length) ⟨0⟩ }

/-- `init_vm_ids`. Only the second VM notifies the first one. -/
def initVmIds (r : Role) (s : IVShmemState) (shm : SharedMemory) :
    IVShmemState × SharedMemory × List Effect :=
  let shm := shm.mapVm r fun v => { v with id := BitVec.ofInt 32 s.vmId }
  match r with
  | .vm1 => (s, shm, [])
  | .vm2 =>
      let s := { s with otherVmId := (shm.vm r.peer).id.toInt }
      (s, shm, [.eventNotifierSet s.otherVmId eventfdVmId])

/-- `setup_interrupt`. The MSI-X routes of further vectors have no part in the
peer protocol. -/
def setupInterrupt (r : Role) (s : IVShmemState) (shm : SharedMemory) (vector : Nat) :
    IVShmemState × SharedMemory × List Effect :=
  if vector = eventfdInterruptHost then
    let (s, shm, notified) := initVmIds r s shm
    let (s, kicked) := idtKickPeerInterrupt r s shm
    (s, shm, notified ++ kicked)
  else (s, shm, [])

def processMsgConnect (vectors : Nat) (r : Role) (s : IVShmemState) (shm : SharedMemory)
    (posn : Nat) : IVShmemState × SharedMemory × List Effect :=
  let vector := ((s.peers[posn]?).map Peer.nbEventfds).getD 0
  if vectors ≤ vector then (s, shm, [])
  else
    let s := { s with peers := s.peers.set posn ⟨vector + 1⟩ }
    if (posn : Int) = s.vmId then setupInterrupt r s shm vector
    else if vector = eventfdInterruptHost then
      let (s, kicked) := idtKickPeerInterrupt r s shm
      (s, shm, kicked)
    else (s, shm, [])

/-- The device refuses a message that its own descriptors are gone. -/
def processMsgDisconnect (s : IVShmemState) (posn : Nat) : IVShmemState :=
  if s.peers.length ≤ posn ∨ (posn : Int) = s.vmId then s
  else { s with peers := s.peers.set posn ⟨0⟩ }

def processMsg (vectors : Nat) (r : Role) (s : IVShmemState) (shm : SharedMemory)
    (msg : ServerMessage) : IVShmemState × SharedMemory × List Effect :=
  if ivshmemMaxPeers < msg.posn then (s, shm, [])
  else
    let s := if s.peers.length ≤ msg.posn then resizePeers s (msg.posn + 1) else s
    match msg with
    | .connect posn => processMsgConnect vectors r s shm posn
    | .disconnect posn => (processMsgDisconnect s posn, shm, [])

/-- What a message amounts to. It changes the count of one peer's descriptors,
and the arrival of a vector 1 kicks the peer or completes the own setup. -/
inductive Heard (r : Role) (s : IVShmemState) (shm : SharedMemory) :
    ServerMessage → IVShmemState → SharedMemory → List Effect → Prop
  | counted (peers : List Peer) (n : Nat)
      (counts : { s with peers := peers }.registered = Function.update s.registered msg.posn n)
      (gained : 1 < n → 1 < s.registered msg.posn)
      (own : (msg.posn : Int) = s.vmId → 1 < s.registered msg.posn → 1 < n) :
      Heard r s shm msg { s with peers := peers } shm []
  | known (peers : List Peer) {posn : Nat} (other : (posn : Int) ≠ s.vmId)
      (before : s.registered posn = 1)
      (counts : { s with peers := peers }.registered = Function.update s.registered posn 2)
      (kick : idtKickPeerInterrupt r { s with peers := peers } shm = (t, kicked)) :
      Heard r s shm (.connect posn) t shm kicked
  | setUp (peers : List Peer) {posn : Nat} (own : (posn : Int) = s.vmId)
      (before : s.registered posn = 1)
      (counts : { s with peers := peers }.registered = Function.update s.registered posn 2)
      (ids : initVmIds r { s with peers := peers } shm = (middle, m, notified))
      (kick : idtKickPeerInterrupt r middle m = (t, kicked)) :
      Heard r s shm (.connect posn) t m (notified ++ kicked)

theorem registered_natCast (s : IVShmemState) (n : Nat) :
    s.registered n = ((s.peers[n]?).map Peer.nbEventfds).getD 0 := by
  unfold IVShmemState.registered
  split
  · rename_i outside
    rw [List.getElem?_eq_none (by omega)]
    rfl
  · rw [Int.toNat_natCast]

theorem registered_congr {s t : IVShmemState} (same : t.peers = s.peers) :
    t.registered = s.registered := by
  unfold IVShmemState.registered
  rw [same]

theorem registered_negSucc (s : IVShmemState) (n : Nat) : s.registered (Int.negSucc n) = 0 :=
  if_pos (Or.inl (Int.negSucc_lt_zero n))

theorem resize_registered (s : IVShmemState) (nbPeers : Nat) :
    (resizePeers s nbPeers).registered = s.registered := by
  funext p
  cases p with
  | negSucc n => rw [registered_negSucc, registered_negSucc]
  | ofNat n =>
    rw [Int.ofNat_eq_natCast, registered_natCast, registered_natCast, resizePeers]
    by_cases inside : n < s.peers.length
    · rw [List.getElem?_append_left inside]
    · rw [List.getElem?_append_right (Nat.not_lt.mp inside), List.getElem?_replicate,
        List.getElem?_eq_none (Nat.not_lt.mp inside)]
      split <;> rfl

theorem set_registered (s : IVShmemState) (n : Nat) (bound : posn < s.peers.length) :
    { s with peers := s.peers.set posn ⟨n⟩ }.registered = Function.update s.registered posn n := by
  funext p
  cases p with
  | negSucc k =>
    rw [registered_negSucc, Function.update_of_ne (by omega), registered_negSucc]
  | ofNat k =>
    rw [Int.ofNat_eq_natCast, registered_natCast, List.getElem?_set]
    by_cases same : posn = k
    · subst same
      simp [bound]
    · have other : (k : Int) ≠ posn := by omega
      rw [Function.update_of_ne other, registered_natCast, if_neg same]

theorem kick_peers (r : Role) (s : IVShmemState) (shm : SharedMemory) :
    (idtKickPeerInterrupt r s shm).1.peers = s.peers ∧
    (idtKickPeerInterrupt r s shm).1.vmId = s.vmId := by
  rw [kick_eq]
  exact ⟨rfl, rfl⟩

theorem setupInterrupt_peers (r : Role) (s : IVShmemState) (shm : SharedMemory) (vector : Nat) :
    (setupInterrupt r s shm vector).1.peers = s.peers ∧
    (setupInterrupt r s shm vector).1.vmId = s.vmId := by
  unfold setupInterrupt
  split
  · cases r <;> exact kick_peers ..
  · exact ⟨rfl, rfl⟩

theorem connect_peers {s : IVShmemState} {posn : Nat} (accepted : ¬vectors ≤ s.registered posn)
    (r : Role) (shm : SharedMemory) :
    (processMsgConnect vectors r s shm posn).1.peers = s.peers.set posn ⟨s.registered posn + 1⟩ ∧
      (processMsgConnect vectors r s shm posn).1.vmId = s.vmId := by
  simp only [processMsgConnect, ← registered_natCast, if_neg accepted]
  split
  · exact setupInterrupt_peers ..
  · split
    · exact kick_peers ..
    · exact ⟨rfl, rfl⟩

theorem heard_nothing (r : Role) (s : IVShmemState) (shm : SharedMemory) (msg : ServerMessage) :
    Heard r s shm msg s shm [] := by
  refine .counted s.peers (s.registered msg.posn) ?_ id fun _ => id
  rw [Function.update_eq_self]

theorem connect_heard (bound : posn < s.peers.length)
    (processed : processMsgConnect vectors r s shm posn = (t, m, effects)) :
    Heard r s shm (.connect posn) t m effects := by
  have counts := set_registered s (s.registered posn + 1) bound
  have further : s.registered posn ≠ 1 →
      Heard r s shm (.connect posn)
        { s with peers := s.peers.set posn ⟨s.registered posn + 1⟩ } shm [] := by
    intro other
    refine .counted _ _ counts ?_ ?_ <;> simp only [ServerMessage.posn] <;> omega
  simp only [processMsgConnect, ← registered_natCast, eventfdInterruptHost,
    setupInterrupt] at processed
  by_cases full : vectors ≤ s.registered posn
  · rw [if_pos full] at processed
    cases processed
    exact heard_nothing r s shm _
  rw [if_neg full] at processed
  by_cases before : s.registered posn = 1
  · rw [before] at counts
    by_cases own : (posn : Int) = s.vmId
    · rw [if_pos own, if_pos before, before] at processed
      cases processed
      exact .setUp _ own before counts rfl rfl
    · rw [if_neg own, if_pos before, before] at processed
      cases processed
      exact .known _ own before counts rfl
  · rw [if_neg before, if_neg before, ite_self] at processed
    cases processed
    exact further before

theorem disconnect_heard (r : Role) (shm : SharedMemory) {s : IVShmemState} {posn : Nat}
    (bound : posn < s.peers.length) :
    Heard r s shm (.disconnect posn) (processMsgDisconnect s posn) shm [] := by
  unfold processMsgDisconnect
  split
  · exact heard_nothing r s shm _
  · rename_i accepted
    refine .counted _ 0 (set_registered s 0 bound) (fun none => absurd none (by decide)) ?_
    intro own
    exact absurd (Or.inr own) accepted

/-- Room for more peers changes no count. -/
theorem Heard.of_grown (same : { s with peers := peers }.registered = s.registered)
    (heard : Heard r { s with peers := peers } shm msg t m effects) :
      Heard r s shm msg t m effects := by
  cases heard with
  | counted later n counts gained own =>
    rw [same] at counts gained own
    exact .counted later n counts gained own
  | known later other before counts kick =>
    rw [same] at counts before
    exact .known later other before counts kick
  | setUp later own before counts ids kick =>
    rw [same] at counts before
    exact .setUp later own before counts ids kick

theorem processMsg_heard (processed : processMsg vectors r s shm msg = (t, m, effects)) :
    Heard r s shm msg t m effects := by
  unfold processMsg at processed
  split at processed
  · cases processed
    exact heard_nothing r s shm msg
  · dsimp only at processed
    have grown : ∃ peers, { s with peers := peers } =
        (if s.peers.length ≤ msg.posn then resizePeers s (msg.posn + 1) else s) ∧
        msg.posn < peers.length ∧ { s with peers := peers }.registered = s.registered := by
      split
      · rename_i short
        refine ⟨_, rfl, ?_, resize_registered s (msg.posn + 1)⟩
        simp
        omega
      · rename_i enough
        exact ⟨s.peers, rfl, by omega, rfl⟩
    obtain ⟨peers, same, bound, registered⟩ := grown
    rw [← same] at processed
    apply Heard.of_grown registered
    cases msg with
    | connect posn => exact connect_heard bound processed
    | disconnect posn =>
      cases processed
      exact disconnect_heard r shm bound

end IdtNtb.Fabric
