import IdtNtb.Fabric.Identity

/-! A device that starts. `ivshmem_recv_setup` handles the server's messages up to
the one with the shared memory; then realize allocates `msi_vectors` and sets
the pointers into the block, and the remaining messages arrive one by one. What a
message does depends on those before it, and some make the device use what is not
there. -/
namespace IdtNtb.Fabric
open Device

/-- A message after the version and the id: the shared memory, the next
descriptor of a peer, or a peer's departure. -/
inductive Initial where
  | shmem
  | connect (posn fd : Nat)
  | disconnect (posn : Nat)
  deriving DecidableEq

inductive Refusal where
  | invalidMessage
  | unexpectedShmem
  | sharedMemoryFailed
  | tooManyEventfds
  | invalidPeer (posn : Nat)
  deriving DecidableEq

/-- Why a start fails. Realize passes on the refusal of a message; the others are
uses of state that is not there, an index outside the peer table, the use of a
peer's array after it was freed, and a server that never sends the memory. -/
inductive Fault where
  | refused (why : Refusal)
  | msiVectorsUnset
  | vectorWatched
  | idWordsUnset
  | peerOutside (peer : Int)
  | arrayFreed (peer : Nat)
  | noSharedMemory
  deriving DecidableEq

/-- The fault is none that the device reports. -/
def Fault.crash : Fault → Bool
  | .refused _ | .noSharedMemory => false
  | _ => true

/-- The device while it starts. `eventfds` are the initialised entries of each
peer's array, `freed` says whose array has been freed, and `msiVectors` are the
watched vectors, once allocated. -/
structure Setup where
  dev : IVShmemState
  shm : SharedMemory
  mapped : Bool
  eventfds : Nat → List Nat
  freed : Nat → Bool
  msiVectors : Option (List Nat)

def Setup.identified (vmId : Nat) (bars : Fin 6 → BitVec 64) (shm : SharedMemory) : Setup :=
  ⟨{ IVShmemState.realized vmId bars with attached := false }, shm, false, fun _ => [],
    fun _ => false, none⟩

def Setup.watchVectorNotifier (s : Setup) (vector : Nat) : Except Fault Setup :=
  match s.msiVectors with
  | none => .error .msiVectorsUnset
  | some watched =>
      if vector ∈ watched then .error .vectorWatched
      else .ok { s with msiVectors := some (watched ++ [vector]) }

/-- A signal goes through the peer's array. Nothing checks the index. -/
def Setup.eventNotifierSet (s : Setup) : Effect → Except Fault Setup
  | .eventNotifierSet peer _ =>
      if peer < 0 ∨ s.dev.peers.length ≤ peer then .error (.peerOutside peer)
      else if s.freed peer.toNat then .error (.arrayFreed peer.toNat)
      else .ok s
  | _ => .ok s

def Setup.initVmIds (r : Role) (s : Setup) : Except Fault Setup :=
  if s.dev.attached then
    let (dev, shm, notified) := Fabric.initVmIds r s.dev s.shm
    notified.foldlM Setup.eventNotifierSet { s with dev, shm }
  else .error .idWordsUnset

def Setup.kick (r : Role) (s : Setup) : Except Fault Setup :=
  let (dev, kicked) := idtKickPeerInterrupt r s.dev s.shm
  kicked.foldlM Setup.eventNotifierSet { s with dev }

/-- `setup_interrupt` with MSI-X still disabled: with irqfd, further vectors wait
until the guest enables it. -/
def Setup.setupInterrupt (irqfd : Bool) (r : Role) (s : Setup) (vector : Nat) :
    Except Fault Setup :=
  if vector = eventfdVmId then s.watchVectorNotifier vector
  else if vector = eventfdInterruptHost then do
    let s ← s.watchVectorNotifier vector
    let s ← s.initVmIds r
    s.kick r
  else if irqfd then .ok s
  else s.watchVectorNotifier vector

def Setup.store (s : Setup) (posn fd vector : Nat) : Setup :=
  { s with
    dev := { s.dev with peers := s.dev.peers.set posn ⟨vector + 1⟩ }
    eventfds := Function.update s.eventfds posn (s.eventfds posn ++ [fd]) }

def Setup.processMsgConnect (vectors : Nat) (irqfd : Bool) (r : Role) (s : Setup) (posn fd : Nat) :
    Except Fault (Setup × Option Refusal) :=
  let vector := ((s.dev.peers[posn]?).map Peer.nbEventfds).getD 0
  if vectors ≤ vector then .ok (s, some .tooManyEventfds)
  else if s.freed posn then .error (.arrayFreed posn)
  else
    let s := s.store posn fd vector
    if (posn : Int) = s.dev.vmId then (s.setupInterrupt irqfd r vector).map fun s => (s, none)
    else if vector = eventfdInterruptHost then (s.kick r).map fun s => (s, none)
    else .ok (s, none)

/-- The peer's descriptors are closed and its array is freed. The pointer stays,
and an array of no entries is NULL, which `g_free` ignores. -/
def Setup.close (vectors : Nat) (s : Setup) (posn : Nat) : Setup :=
  { s with
    dev := Fabric.processMsgDisconnect s.dev posn
    eventfds := Function.update s.eventfds posn []
    freed := Function.update s.freed posn (vectors ≠ 0) }

def Setup.processMsgDisconnect (vectors : Nat) (s : Setup) (posn : Nat) :
    Except Fault (Setup × Option Refusal) :=
  if s.dev.peers.length ≤ posn ∨ (posn : Int) = s.dev.vmId then .ok (s, some (.invalidPeer posn))
  else if s.freed posn then .error (.arrayFreed posn)
  else .ok (s.close vectors posn, none)

def Setup.withRoom (s : Setup) (posn : Nat) : Setup :=
  if s.dev.peers.length ≤ posn then { s with dev := resizePeers s.dev (posn + 1) } else s

def Setup.processMsg (vectors : Nat) (irqfd : Bool) (r : Role) (s : Setup) :
    Initial → Except Fault (Setup × Option Refusal)
  | .shmem =>
      if s.mapped then .ok (s, some .unexpectedShmem) else .ok ({ s with mapped := true }, none)
  | .connect posn fd =>
      if ivshmemMaxPeers < posn then .ok (s, some .invalidMessage)
      else (s.withRoom posn).processMsgConnect vectors irqfd r posn fd
  | .disconnect posn =>
      if ivshmemMaxPeers < posn then .ok (s, some .invalidMessage)
      else (s.withRoom posn).processMsgDisconnect vectors posn

/-- The synchronous part, with the messages that it leaves to be read later. -/
def Setup.ivshmemRecvSetup (vectors : Nat) (irqfd : Bool) (r : Role) (s : Setup) :
    List Initial → Except Fault (Setup × List Initial)
  | [] => .error .noSharedMemory
  | m :: ms =>
      match s.processMsg vectors irqfd r m with
      | .error fault => .error fault
      | .ok (_, some why) => .error (.refused why)
      | .ok (s, none) => if m = .shmem then .ok (s, ms) else s.ivshmemRecvSetup vectors irqfd r ms

/-- `ivshmem_read`, message after message. It only prints an error. -/
def Setup.ivshmemRead (vectors : Nat) (irqfd : Bool) (r : Role) (s : Setup) :
    List Initial → Except Fault Setup
  | [] => .ok s
  | m :: ms =>
      match s.processMsg vectors irqfd r m with
      | .error fault => .error fault
      | .ok (s, _) => s.ivshmemRead vectors irqfd r ms

/-- `ivshmem_setup_interrupts`, and the pointers into the shared block. -/
def Setup.attach (r : Role) (s : Setup) : Setup :=
  { s with
    dev := { s.dev with attached := true }
    shm := ivshmemCommonRealize r s.shm
    msiVectors := some [] }

def Setup.start (vectors : Nat) (irqfd : Bool) (r : Role) (s : Setup) (ms : List Initial) :
    Except Fault Setup :=
  match s.ivshmemRecvSetup vectors irqfd r ms with
  | .error fault => .error fault
  | .ok (s, rest) => (s.attach r).ivshmemRead vectors irqfd r rest

def sent (posn : Nat) (ms : List Initial) : List Nat :=
  ms.filterMap fun
    | .connect p fd => if p = posn then some fd else none
    | _ => none

/-- The table has this many entries once the message has been handled. -/
def Initial.room : Initial → Nat
  | .shmem => 0
  | .connect posn _ | .disconnect posn => posn + 1

def nbPeers (done : List Initial) : Nat :=
  done.foldl (fun n m => max n m.room) 16

/-- Another peer has left. The device ignores its own departure. -/
def Departed (vmId : Nat) (done : List Initial) (p : Nat) : Prop :=
  p ≠ vmId ∧ .disconnect p ∈ done

instance (vmId : Nat) (done : List Initial) (p : Nat) : Decidable (Departed vmId done p) :=
  inferInstanceAs (Decidable (_ ∧ _))

/-- The table has an entry for the peer, with an array behind it. -/
def Held (vmId : Nat) (done : List Initial) (peer : Int) : Prop :=
  0 ≤ peer ∧ peer < nbPeers done ∧ ¬Departed vmId done peer.toNat

instance (vmId : Nat) (done : List Initial) (peer : Int) : Decidable (Held vmId done peer) :=
  inferInstanceAs (Decidable (_ ∧ _ ∧ _))

/-- After the messages `done`, a message makes the device use what is not there:
the array of a peer that has left; `msi_vectors`, when a descriptor of its own
comes before the shared memory; or, when its second descriptor comes to the
second VM, an entry for the id in the first one's word. -/
def Harms (vectors vmId : Nat) (r : Role) (shm : SharedMemory) (done : List Initial) :
    Initial → Prop
  | .shmem => False
  | .disconnect p => vectors ≠ 0 ∧ Departed vmId done p
  | .connect p fd => vectors ≠ 0 ∧ (Departed vmId done p ∨ p = vmId ∧ (.shmem ∉ done ∨
      r = .vm2 ∧ 1 < vectors ∧ (sent vmId done).length = 1 ∧
        ¬Held vmId (done ++ [.connect p fd]) (shm.vm .vm1).id.toInt))

instance (vectors vmId : Nat) (r : Role) (shm : SharedMemory) (done : List Initial) :
    DecidablePred (Harms vectors vmId r shm done)
  | .shmem => .isFalse id
  | .disconnect _ => inferInstanceAs (Decidable (_ ∧ _))
  | .connect _ _ => inferInstanceAs (Decidable (_ ∧ _))

variable {vectors vmId posn fd : Nat} {irqfd : Bool} {r : Role} {shm : SharedMemory} {s t : Setup}
  {done ms : List Initial}

theorem sent_append (posn : Nat) (ms more : List Initial) :
    sent posn (ms ++ more) = sent posn ms ++ sent posn more :=
  List.filterMap_append

theorem sent_connect_self (posn fd : Nat) (ms : List Initial) :
    sent posn (.connect posn fd :: ms) = fd :: sent posn ms :=
  List.filterMap_cons_some (if_pos rfl)

/-- A message that brings no descriptor of the peer. -/
theorem sent_other (other : ∀ fd, m ≠ .connect posn fd) (ms : List Initial) :
    sent posn (m :: ms) = sent posn ms := by
  apply List.filterMap_cons_none
  cases m with
  | connect p fd => exact if_neg fun same => other fd (by rw [same])
  | _ => rfl

theorem sent_next_self (posn fd : Nat) (done : List Initial) :
    sent posn (done ++ [.connect posn fd]) = sent posn done ++ [fd] := by
  rw [sent_append, sent_connect_self]
  rfl

theorem sent_next_other (other : ∀ fd, m ≠ .connect posn fd) (done : List Initial) :
    sent posn (done ++ [m]) = sent posn done := by
  rw [sent_append, sent_other other]
  exact List.append_nil _

theorem sent_next_disconnect (p posn : Nat) (done : List Initial) :
    sent p (done ++ [.disconnect posn]) = sent p done :=
  sent_next_other (fun _ => Initial.noConfusion) done

theorem sent_next_shmem (p : Nat) (done : List Initial) :
    sent p (done ++ [.shmem]) = sent p done :=
  sent_next_other (fun _ => Initial.noConfusion) done

theorem nbPeers_next (done : List Initial) (m : Initial) :
    nbPeers (done ++ [m]) = max (nbPeers done) m.room := by
  simp only [nbPeers, List.foldl_append, List.foldl_cons, List.foldl_nil]

theorem lt_nbPeers_iff : p < nbPeers done ↔ p < 16 ∨ ∃ m ∈ done, p < m.room := by
  induction done using List.reverseRecOn with
  | nil => simp [nbPeers]
  | append_singleton done m ih =>
    rw [nbPeers_next, lt_max_iff, ih]
    simp only [List.mem_append, List.mem_singleton, or_and_right, exists_or, exists_eq_left,
      or_assoc]

def ValidIds (ms : List Initial) : Prop :=
  ∀ m ∈ ms, m.room ≤ ivshmemMaxPeers + 1

theorem ValidIds.mono (valid : ValidIds ms) (part : ns ⊆ ms) : ValidIds ns :=
  fun m member => valid m (part member)

theorem nbPeers_le (valid : ValidIds done) : nbPeers done ≤ ivshmemMaxPeers + 1 := by
  apply Nat.le_of_not_lt
  rw [lt_nbPeers_iff]
  rintro (few | ⟨m, member, room⟩)
  · exact absurd few (by decide)
  · exact Nat.not_le.mpr room (valid m member)

theorem departed_next (vmId : Nat) (done : List Initial) (m : Initial) (p : Nat) :
    Departed vmId (done ++ [m]) p ↔ Departed vmId done p ∨ p ≠ vmId ∧ m = .disconnect p := by
  simp only [Departed, List.mem_append, List.mem_singleton, and_or_left, eq_comm]

theorem departed_own (vmId : Nat) (done : List Initial) : ¬Departed vmId done vmId :=
  fun departed => departed.1 rfl

theorem departed_same (remains : ∀ p, m ≠ .disconnect p) (p : Nat) :
    Departed vmId (done ++ [m]) p ↔ Departed vmId done p := by
  rw [departed_next]
  simp only [remains p, and_false, or_false]

/-- The peer table after the messages `done`. -/
structure Tabulates (vectors vmId : Nat) (done : List Initial) (s : Setup) : Prop where
  own : s.dev.vmId = vmId
  room : s.dev.peers.length = nbPeers done
  freed : ∀ p, s.freed p = true ↔ vectors ≠ 0 ∧ Departed vmId done p
  fds : ∀ p, s.eventfds p = if Departed vmId done p then [] else (sent p done).take vectors
  counts : ∀ p : Nat, s.dev.registered p = (s.eventfds p).length

structure SameTable (s t : Setup) : Prop where
  own : t.dev.vmId = s.dev.vmId
  peers : t.dev.peers = s.dev.peers
  eventfds : t.eventfds = s.eventfds
  freed : t.freed = s.freed

theorem Tabulates.congr (tab : Tabulates vectors vmId done s) (same : SameTable s t) :
    Tabulates vectors vmId done t := by
  refine ⟨same.own.trans tab.own, ?_, ?_, ?_, ?_⟩
  · rw [same.peers]
    exact tab.room
  · rw [same.freed]
    exact tab.freed
  · rw [same.eventfds]
    exact tab.fds
  · rw [registered_congr same.peers, same.eventfds]
    exact tab.counts

theorem Tabulates.own_fds (tab : Tabulates vectors vmId done s) :
    s.eventfds vmId = (sent vmId done).take vectors := by
  rw [tab.fds, if_neg (departed_own vmId done)]

theorem Tabulates.remaining (tab : Tabulates vectors vmId done s)
    (remains : ¬Departed vmId done p) :
    s.dev.registered p = min vectors (sent p done).length := by
  rw [tab.counts, tab.fds, if_neg remains, List.length_take]

/-- A freed array has no descriptor. -/
theorem Tabulates.emptied (tab : Tabulates vectors vmId done s) (freed : s.freed p = true) :
    s.dev.registered p = 0 := by
  rw [tab.counts, tab.fds, if_pos ((tab.freed p).mp freed).2]
  rfl

theorem Tabulates.live (tab : Tabulates vectors vmId done s) (remains : ¬Departed vmId done p) :
    s.freed p = false := by
  rw [← Bool.not_eq_true, tab.freed]
  exact fun gone => remains gone.2

theorem withRoom_length (s : Setup) (posn : Nat) :
    (s.withRoom posn).dev.peers.length = max s.dev.peers.length (posn + 1) := by
  unfold Setup.withRoom
  split
  · simp only [resizePeers, List.length_append, List.length_replicate]
    omega
  · omega

theorem withRoom_registered (s : Setup) (posn : Nat) :
    (s.withRoom posn).dev.registered = s.dev.registered := by
  unfold Setup.withRoom
  split
  · exact resize_registered ..
  · rfl

/-- Nothing else changes. -/
theorem withRoom_rest (s : Setup) (posn : Nat) :
    s.withRoom posn = { s with dev := { s.dev with peers := (s.withRoom posn).dev.peers } } := by
  unfold Setup.withRoom
  split <;> rfl

theorem withRoom_freed (s : Setup) (posn : Nat) : (s.withRoom posn).freed = s.freed := by
  rw [withRoom_rest]

theorem withRoom_eventfds (s : Setup) (posn : Nat) :
    (s.withRoom posn).eventfds = s.eventfds := by
  rw [withRoom_rest]

theorem withRoom_inside (s : Setup) (posn : Nat) : posn < (s.withRoom posn).dev.peers.length := by
  rw [withRoom_length]
  omega

theorem withRoom_own (s : Setup) (posn : Nat) : (s.withRoom posn).dev.vmId = s.dev.vmId := by
  rw [withRoom_rest]

theorem withRoom_table (tab : Tabulates vectors vmId done s) (m : Initial)
    (names : m.room = posn + 1) :
    (s.withRoom posn).dev.peers.length = nbPeers (done ++ [m]) := by
  rw [withRoom_length, tab.room, nbPeers_next, names]

/-- The entry of one peer changes with its descriptors. -/
theorem Tabulates.set_counts (tab : Tabulates vectors vmId done s) {fds : List Nat}
    (count : n = fds.length) (p : Nat) :
    { (s.withRoom posn).dev with
      peers := (s.withRoom posn).dev.peers.set posn ⟨n⟩ }.registered p =
        (Function.update s.eventfds posn fds p).length := by
  rw [set_registered _ _ (withRoom_inside s posn), withRoom_registered]
  by_cases same : p = posn
  · subst same
    rw [Function.update_self, Function.update_self, count]
  · rw [Function.update_of_ne (by omega), Function.update_of_ne same, tab.counts]

/-- A message that changes no peer's descriptors leaves the table with room for it. -/
theorem ignored_tabulates (tab : Tabulates vectors vmId done s) (names : m.room = posn + 1)
    (departed : ∀ p, Departed vmId (done ++ [m]) p ↔ Departed vmId done p)
    (same : ∀ p, ¬Departed vmId done p →
      (sent p (done ++ [m])).take vectors = (sent p done).take vectors) :
    Tabulates vectors vmId (done ++ [m]) (s.withRoom posn) := by
  refine ⟨?_, withRoom_table tab m names, ?_, ?_, ?_⟩
  · rw [withRoom_own]
    exact tab.own
  · intro p
    rw [withRoom_freed, tab.freed, departed]
  · intro p
    rw [withRoom_eventfds, tab.fds]
    simp only [departed]
    split
    · rfl
    · rename_i remains
      exact (same p remains).symm
  · rw [withRoom_registered, withRoom_eventfds]
    exact tab.counts

theorem full_tabulates (tab : Tabulates vectors vmId done s)
    (full : vectors ≤ s.dev.registered posn) (fd : Nat) :
    Tabulates vectors vmId (done ++ [.connect posn fd]) (s.withRoom posn) := by
  refine ignored_tabulates tab rfl (departed_same nofun) ?_
  intro p remains
  by_cases same : posn = p
  · subst same
    rw [tab.remaining remains] at full
    rw [sent_next_self, List.take_append_of_le_length (by omega)]
  · rw [sent_next_other (by simp [same])]

theorem stored_tabulates (tab : Tabulates vectors vmId done s)
    (accepted : ¬vectors ≤ s.dev.registered posn) (remains : ¬Departed vmId done posn) (fd : Nat) :
    Tabulates vectors vmId (done ++ [.connect posn fd])
      ((s.withRoom posn).store posn fd (s.dev.registered posn)) := by
  have few : (sent posn done).length < vectors := by
    rw [tab.remaining remains] at accepted
    omega
  have stays : ∀ p, Departed vmId (done ++ [.connect posn fd]) p ↔ Departed vmId done p :=
    departed_same nofun
  refine ⟨?_, ?_, ?_, ?_, ?_⟩
  · exact (withRoom_own s posn).trans tab.own
  · simp only [Setup.store, List.length_set]
    exact withRoom_table tab _ rfl
  · intro p
    simp only [Setup.store, withRoom_freed, stays]
    exact tab.freed p
  · intro p
    simp only [Setup.store, withRoom_eventfds, stays]
    by_cases same : posn = p
    · subst same
      rw [Function.update_self, if_neg remains, tab.fds, if_neg remains, sent_next_self,
        List.take_of_length_le few.le, List.take_of_length_le]
      rw [List.length_append, List.length_singleton]
      omega
    · rw [Function.update_of_ne (Ne.symm same), tab.fds, sent_next_other (by simp [same])]
  · simp only [Setup.store, withRoom_eventfds]
    refine tab.set_counts ?_
    rw [tab.counts, List.length_append]
    rfl

theorem closed_tabulates (tab : Tabulates vectors vmId done s) (other : posn ≠ vmId) :
    Tabulates vectors vmId (done ++ [.disconnect posn]) ((s.withRoom posn).close vectors posn) := by
  have bound := withRoom_inside s posn
  have own := (withRoom_own s posn).trans tab.own
  have closed : Fabric.processMsgDisconnect (s.withRoom posn).dev posn =
      { (s.withRoom posn).dev with peers := (s.withRoom posn).dev.peers.set posn ⟨0⟩ } :=
    if_neg (by rw [own]; omega)
  have departs : ∀ p, Departed vmId (done ++ [.disconnect posn]) p ↔
      Departed vmId done p ∨ p = posn := by
    intro p
    rw [departed_next, Initial.disconnect.injEq]
    refine or_congr_right ⟨fun left => left.2.symm, ?_⟩
    rintro rfl
    exact ⟨other, rfl⟩
  refine ⟨?_, ?_, ?_, ?_, ?_⟩
  · simp only [Setup.close, closed]
    exact own
  · simp only [Setup.close, closed, List.length_set]
    exact withRoom_table tab _ rfl
  · intro p
    simp only [Setup.close, withRoom_freed, departs]
    by_cases same : p = posn
    · subst same
      simp only [Function.update_self, decide_eq_true_eq, or_true, and_true]
    · rw [Function.update_of_ne same, tab.freed]
      simp only [same, or_false]
  · intro p
    simp only [Setup.close, withRoom_eventfds, departs]
    by_cases same : p = posn
    · subst same
      rw [Function.update_self, if_pos (Or.inr rfl)]
    · rw [Function.update_of_ne same, tab.fds, sent_next_disconnect]
      simp only [same, or_false]
  · simp only [Setup.close, closed, withRoom_eventfds]
    exact tab.set_counts rfl

theorem shmem_tabulates (tab : Tabulates vectors vmId done s) :
    Tabulates vectors vmId (done ++ [.shmem]) s := by
  have stays : ∀ p, Departed vmId (done ++ [.shmem]) p ↔ Departed vmId done p :=
    departed_same nofun
  refine ⟨tab.own, ?_, ?_, ?_, tab.counts⟩
  · rw [nbPeers_next, tab.room]
    exact (Nat.max_zero _).symm
  · intro p
    rw [stays]
    exact tab.freed p
  · intro p
    rw [sent_next_shmem, tab.fds]
    simp only [stays]

/-- A signal finds its array exactly for the entries that the table holds. -/
theorem signal_held (tab : Tabulates vectors vmId done s) (held : Held vmId done peer)
    (vector : Nat) :
    s.eventNotifierSet (.eventNotifierSet peer vector) = .ok s := by
  obtain ⟨lower, upper, remains⟩ := held
  rw [← tab.room] at upper
  simp only [Setup.eventNotifierSet, tab.live remains]
  rw [if_neg (by omega)]
  rfl

theorem signal_astray (tab : Tabulates vectors vmId done s) (some_vectors : vectors ≠ 0)
    (astray : ¬Held vmId done peer) (vector : Nat) :
    ∃ fault, s.eventNotifierSet (.eventNotifierSet peer vector) = .error fault ∧
      fault.crash = true := by
  simp only [Setup.eventNotifierSet]
  split
  · exact ⟨_, rfl, rfl⟩
  · rename_i inside
    have departed : Departed vmId done peer.toNat := by
      by_contra remains
      rw [tab.room] at inside
      exact astray ⟨by omega, by omega, remains⟩
    rw [if_pos ((tab.freed _).mpr ⟨some_vectors, departed⟩)]
    exact ⟨_, rfl, rfl⟩

/-- The same device, with another idea of who its peer is. -/
def Setup.knowing (s : Setup) (id : Int) : Setup :=
  { s with dev := { s.dev with otherVmId := id } }

theorem knowing_same (s : Setup) (id : Int) : SameTable s (s.knowing id) := ⟨rfl, rfl, rfl, rfl⟩

/-- A kick signals only a peer whose descriptors are there. -/
theorem kick_knowing (tab : Tabulates vectors vmId done s) (r : Role) :
    ∃ id, s.kick r = .ok (s.knowing id) := by
  unfold Setup.kick
  rw [kick_eq]
  refine ⟨adoptedId r s.dev s.shm, ?_⟩
  dsimp only
  split
  · rename_i ready
    obtain ⟨-, ready, -⟩ := ready
    have inside : ¬(adoptedId r s.dev s.shm < 0 ∨
        s.dev.peers.length ≤ adoptedId r s.dev s.shm) := by
      intro outside
      have none : s.dev.registered (adoptedId r s.dev s.shm) = 0 := if_pos outside
      omega
    have live : s.freed (adoptedId r s.dev s.shm).toNat = false := by
      rw [← Bool.not_eq_true]
      intro freed
      have none := tab.emptied freed
      rw [Int.toNat_of_nonneg (by omega)] at none
      omega
    simp only [List.foldlM_cons, List.foldlM_nil, Setup.eventNotifierSet, IVShmemState.adopt,
      if_neg inside, live]
    rfl
  · rfl

/-- The second VM signals whom the first one's word names. -/
theorem initVmIds_notifies (s : IVShmemState) (shm : SharedMemory) :
    (Fabric.initVmIds .vm2 s shm).2.2 =
      [.eventNotifierSet (shm.vm .vm1).id.toInt eventfdVmId] := by
  have word : ((Fabric.initVmIds .vm2 s shm).2.1.vm .vm1).id = (shm.vm .vm1).id :=
    (initVmIds_words (r := .vm2) rfl).2
  rw [← word]
  rfl

theorem initVmIds_same (r : Role) (s : Setup) : SameTable s { s with
    dev := (Fabric.initVmIds r s.dev s.shm).1
    shm := (Fabric.initVmIds r s.dev s.shm).2.1 } := by
  cases r <;> exact ⟨rfl, rfl, rfl, rfl⟩

theorem initVmIds_held (tab : Tabulates vectors vmId done s) (attached : s.dev.attached = true)
    (held : r = .vm2 → Held vmId done (s.shm.vm .vm1).id.toInt) :
    s.initVmIds r = .ok { s with
      dev := (Fabric.initVmIds r s.dev s.shm).1
      shm := (Fabric.initVmIds r s.dev s.shm).2.1 } := by
  simp only [Setup.initVmIds, if_pos attached]
  cases r with
  | vm1 => rfl
  | vm2 =>
    rw [initVmIds_notifies, List.foldlM_cons,
      signal_held (tab.congr (initVmIds_same .vm2 s)) (held rfl) eventfdVmId]
    rfl

theorem initVmIds_astray (tab : Tabulates vectors vmId done s) (attached : s.dev.attached = true)
    (some_vectors : vectors ≠ 0) (astray : ¬Held vmId done (s.shm.vm .vm1).id.toInt) :
    ∃ fault, s.initVmIds .vm2 = .error fault ∧ fault.crash = true := by
  obtain ⟨fault, signal, crash⟩ :=
    signal_astray (tab.congr (initVmIds_same .vm2 s)) some_vectors astray eventfdVmId
  refine ⟨fault, ?_, crash⟩
  simp only [Setup.initVmIds, if_pos attached]
  rw [initVmIds_notifies, List.foldlM_cons, signal]
  rfl

/-- The vectors whose descriptor the device reads itself. -/
def Watches (irqfd : Bool) (vector : Nat) : Bool :=
  vector ≤ eventfdInterruptHost || !irqfd

/-- An own descriptor is watched or left to irqfd, and vector 1 publishes the id. -/
structure Installed (irqfd : Bool) (r : Role) (n : Nat) (s t : Setup) : Prop where
  table : SameTable s t
  mapped : t.mapped = s.mapped
  attached : t.dev.attached = s.dev.attached
  watched : t.msiVectors = some ((List.range (n + 1)).filter (Watches irqfd))
  published : (t.shm.vm r).id =
    if n = eventfdInterruptHost then BitVec.ofInt 32 s.dev.vmId else (s.shm.vm r).id
  word : (t.shm.vm r.peer).id = (s.shm.vm r.peer).id

theorem watch_next (watched : s.msiVectors = some ((List.range n).filter (Watches irqfd)))
    (due : Watches irqfd n) : s.watchVectorNotifier n =
      .ok { s with msiVectors := some ((List.range (n + 1)).filter (Watches irqfd)) } := by
  have new : n ∉ (List.range n).filter (Watches irqfd) := by simp
  simp only [Setup.watchVectorNotifier, watched, if_neg new, List.range_succ, List.filter_append,
    List.filter_cons_of_pos due, List.filter_nil]

/-- A vector other than the second is at most watched. -/
theorem installed_plain (plain : n ≠ eventfdInterruptHost) :
    Installed irqfd r n s
      { s with msiVectors := some ((List.range (n + 1)).filter (Watches irqfd)) } :=
  ⟨⟨rfl, rfl, rfl, rfl⟩, rfl, rfl, rfl, (if_neg plain).symm, rfl⟩

theorem setupInterrupt_plain (plain : n ≠ eventfdInterruptHost)
    (watched : s.msiVectors = some ((List.range n).filter (Watches irqfd))) :
    s.setupInterrupt irqfd r n =
      .ok { s with msiVectors := some ((List.range (n + 1)).filter (Watches irqfd)) } := by
  by_cases first : n = eventfdVmId
  · have due : Watches irqfd n := by simp [Watches, first, eventfdVmId]
    exact (if_pos first).trans (watch_next watched due)
  cases irqfd with
  | true =>
    have late : ¬n ≤ eventfdInterruptHost := by
      simp only [eventfdVmId, eventfdInterruptHost] at first plain ⊢
      omega
    have skipped : ¬Watches true n := by simp [Watches, late]
    simp only [Setup.setupInterrupt, if_neg first, if_neg plain, if_true, List.range_succ,
      List.filter_append, List.filter_cons_of_neg skipped, List.filter_nil, List.append_nil,
      ← watched]
  | false =>
    simp only [Setup.setupInterrupt, if_neg first, if_neg plain, Bool.false_eq_true, if_false]
    exact watch_next watched (by simp [Watches])

theorem setupInterrupt_host
    (watched : s.msiVectors = some ((List.range 1).filter (Watches irqfd))) :
    s.setupInterrupt irqfd r 1 =
      ({ s with msiVectors := some ((List.range 2).filter (Watches irqfd)) }.initVmIds r).bind
        (Setup.kick r) := by
  have due : Watches irqfd 1 := by simp [Watches, eventfdInterruptHost]
  simp only [Setup.setupInterrupt, eventfdVmId, eventfdInterruptHost, one_ne_zero, if_false,
    if_true, watch_next watched due]
  rfl

/-- Once realize is done, an own descriptor is set up, if the peer that the second
VM signals then is in the table. -/
theorem setupInterrupt_ready (tab : Tabulates vectors vmId done s)
    (attached : s.dev.attached = true)
    (watched : s.msiVectors = some ((List.range n).filter (Watches irqfd)))
    (held : n = eventfdInterruptHost → r = .vm2 → Held vmId done (s.shm.vm .vm1).id.toInt) :
    ∃ t, s.setupInterrupt irqfd r n = .ok t ∧ Installed irqfd r n s t := by
  by_cases host : n = eventfdInterruptHost
  · subst host
    have table : Tabulates vectors vmId done
        { s with msiVectors := some ((List.range 2).filter (Watches irqfd)) } :=
      tab.congr ⟨rfl, rfl, rfl, rfl⟩
    obtain ⟨own, word⟩ : ((Fabric.initVmIds r s.dev s.shm).2.1.vm r).id =
        BitVec.ofInt 32 s.dev.vmId ∧
        ((Fabric.initVmIds r s.dev s.shm).2.1.vm r.peer).id = (s.shm.vm r.peer).id :=
      initVmIds_words rfl
    have linked : (Fabric.initVmIds r s.dev s.shm).1.attached = s.dev.attached := by
      cases r <;> rfl
    have same := initVmIds_same r
      { s with msiVectors := some ((List.range 2).filter (Watches irqfd)) }
    obtain ⟨known, kicked⟩ := kick_knowing (table.congr same) r
    refine ⟨Setup.knowing _ known, ?_, ⟨same.own, same.peers, rfl, rfl⟩, rfl, linked, rfl, ?_, word⟩
    · rw [eventfdInterruptHost, setupInterrupt_host watched,
        initVmIds_held table attached (held rfl)]
      exact kicked
    · rw [if_pos rfl]
      exact own
  · exact ⟨_, setupInterrupt_plain host watched, installed_plain host⟩

theorem setupInterrupt_astray (tab : Tabulates vectors vmId done s)
    (attached : s.dev.attached = true) (some_vectors : vectors ≠ 0)
    (watched : s.msiVectors = some ((List.range 1).filter (Watches irqfd)))
    (astray : ¬Held vmId done (s.shm.vm .vm1).id.toInt) :
    ∃ fault, s.setupInterrupt irqfd .vm2 1 = .error fault ∧ fault.crash = true := by
  have table : Tabulates vectors vmId done
      { s with msiVectors := some ((List.range 2).filter (Watches irqfd)) } :=
    tab.congr ⟨rfl, rfl, rfl, rfl⟩
  obtain ⟨fault, failed, crash⟩ := initVmIds_astray table attached some_vectors astray
  refine ⟨fault, ?_, crash⟩
  rw [setupInterrupt_host watched, failed]
  rfl

structure Early (vectors vmId : Nat) (shm : SharedMemory) (done : List Initial) (s : Setup) :
    Prop where
  table : Tabulates vectors vmId done s
  awaits : .shmem ∉ done
  noOwn : sent vmId done = []
  few : ∀ p, (sent p done).length ≤ vectors
  detached : s.dev.attached = false
  unmapped : s.mapped = false
  unset : s.msiVectors = none
  block : s.shm = shm

structure Ready (vectors vmId : Nat) (irqfd : Bool) (r : Role) (shm : SharedMemory)
    (done : List Initial) (s : Setup) : Prop where
  table : Tabulates vectors vmId done s
  received : .shmem ∈ done
  mapped : s.mapped = true
  attached : s.dev.attached = true
  watched : s.msiVectors = some ((List.range (s.eventfds vmId).length).filter (Watches irqfd))
  published : (s.shm.vm r).id =
    if eventfdInterruptHost < (s.eventfds vmId).length then BitVec.ofInt 32 vmId else (shm.vm r).id
  word : (s.shm.vm r.peer).id = (shm.vm r.peer).id

theorem attach_ready (earlier : Early vectors vmId shm done s) (irqfd : Bool) (r : Role) :
    Ready vectors vmId irqfd r shm (done ++ [.shmem]) ({ s with mapped := true }.attach r) := by
  have table := shmem_tabulates earlier.table
  have empty : s.eventfds vmId = [] := by
    rw [earlier.table.own_fds, earlier.noOwn, List.take_nil]
  refine ⟨table.congr ⟨rfl, rfl, rfl, rfl⟩, by simp, rfl, rfl, ?_, ?_, ?_⟩
  · simp only [Setup.attach, empty]
    rfl
  · simp only [Setup.attach, empty, realize_id, earlier.block]
    rfl
  · simp only [Setup.attach, realize_id, earlier.block]

theorem connect_full_eq (valid : posn ≤ ivshmemMaxPeers) (full : vectors ≤ s.dev.registered posn)
    (irqfd : Bool) (r : Role) (fd : Nat) :
    s.processMsg vectors irqfd r (.connect posn fd) =
      .ok (s.withRoom posn, some .tooManyEventfds) := by
  simp only [Setup.processMsg, if_neg (Nat.not_lt.mpr valid), Setup.processMsgConnect,
    ← registered_natCast, withRoom_registered, if_pos full]

theorem connect_freed (valid : posn ≤ ivshmemMaxPeers) (accepted : ¬vectors ≤ s.dev.registered posn)
    (freed : s.freed posn = true) (irqfd : Bool) (r : Role) (fd : Nat) :
    s.processMsg vectors irqfd r (.connect posn fd) = .error (.arrayFreed posn) := by
  simp only [Setup.processMsg, if_neg (Nat.not_lt.mpr valid), Setup.processMsgConnect,
    ← registered_natCast, withRoom_registered, if_neg accepted, withRoom_freed, if_pos freed]

theorem connect_eq (valid : posn ≤ ivshmemMaxPeers) (accepted : ¬vectors ≤ s.dev.registered posn)
    (live : s.freed posn = false) (irqfd : Bool) (r : Role) (fd : Nat) :
    s.processMsg vectors irqfd r (.connect posn fd) =
      let stored := (s.withRoom posn).store posn fd (s.dev.registered posn)
      if (posn : Int) = s.dev.vmId then
        (stored.setupInterrupt irqfd r (s.dev.registered posn)).map fun s => (s, none)
      else if s.dev.registered posn = eventfdInterruptHost then
        (stored.kick r).map fun s => (s, none)
      else .ok (stored, none) := by
  have own : ((s.withRoom posn).store posn fd (s.dev.registered posn)).dev.vmId = s.dev.vmId :=
    withRoom_own s posn
  simp only [Setup.processMsg, if_neg (Nat.not_lt.mpr valid), Setup.processMsgConnect,
    ← registered_natCast, withRoom_registered, if_neg accepted, withRoom_freed, live,
    Bool.false_eq_true, if_false, own]

/-- A peer that has left is not let in again: its array is gone. -/
theorem connect_departed (tab : Tabulates vectors vmId done s) (valid : posn ≤ ivshmemMaxPeers)
    (some_vectors : vectors ≠ 0) (departed : Departed vmId done posn) (irqfd : Bool) (r : Role)
    (fd : Nat) : s.processMsg vectors irqfd r (.connect posn fd) = .error (.arrayFreed posn) := by
  have freed := (tab.freed posn).mpr ⟨some_vectors, departed⟩
  refine connect_freed valid ?_ freed irqfd r fd
  rw [tab.emptied freed]
  omega

/-- A message of another peer changes its entry and nothing of the device's own. -/
theorem connect_other (tab : Tabulates vectors vmId done s) (valid : posn ≤ ivshmemMaxPeers)
    (accepted : ¬vectors ≤ s.dev.registered posn) (remains : ¬Departed vmId done posn)
    (other : posn ≠ vmId) (irqfd : Bool) (r : Role) (fd : Nat) :
    ∃ id, s.processMsg vectors irqfd r (.connect posn fd) =
      .ok (((s.withRoom posn).store posn fd (s.dev.registered posn)).knowing id, none) := by
  rw [connect_eq valid accepted (tab.live remains)]
  dsimp only
  rw [if_neg (by rw [tab.own]; omega)]
  split
  · obtain ⟨id, kicked⟩ := kick_knowing (stored_tabulates tab accepted remains fd) r
    exact ⟨id, by rw [kicked]; rfl⟩
  · exact ⟨_, rfl⟩

theorem disconnect_own (tab : Tabulates vectors vmId done s) (valid : vmId ≤ ivshmemMaxPeers)
    (irqfd : Bool) (r : Role) :
    s.processMsg vectors irqfd r (.disconnect vmId) =
      .ok (s.withRoom vmId, some (.invalidPeer vmId)) := by
  have own := (withRoom_own s vmId).trans tab.own
  simp only [Setup.processMsg, if_neg (Nat.not_lt.mpr valid), Setup.processMsgDisconnect,
    if_pos (Or.inr own.symm)]

theorem disconnect_other (tab : Tabulates vectors vmId done s) (valid : posn ≤ ivshmemMaxPeers)
    (other : posn ≠ vmId) (irqfd : Bool) (r : Role) :
    s.processMsg vectors irqfd r (.disconnect posn) =
      if s.freed posn then .error (.arrayFreed posn)
      else .ok ((s.withRoom posn).close vectors posn, none) := by
  have own := (withRoom_own s posn).trans tab.own
  have inside := withRoom_inside s posn
  simp only [Setup.processMsg, if_neg (Nat.not_lt.mpr valid), Setup.processMsgDisconnect,
    withRoom_freed]
  rw [if_neg (by rw [own]; omega)]

/-- What has nothing to do with the device's own descriptors keeps it ready. -/
theorem Ready.kept (ready : Ready vectors vmId irqfd r shm done s)
    (table : Tabulates vectors vmId ms t) (received : .shmem ∈ ms) (mapped : t.mapped = s.mapped)
    (attached : t.dev.attached = s.dev.attached) (watched : t.msiVectors = s.msiVectors)
    (block : t.shm = s.shm) (own : t.eventfds vmId = s.eventfds vmId) :
    Ready vectors vmId irqfd r shm ms t := by
  refine ⟨table, received, mapped.trans ready.mapped, attached.trans ready.attached, ?_, ?_, ?_⟩
  · rw [watched, own]
    exact ready.watched
  · rw [block, own]
    exact ready.published
  · rw [block]
    exact ready.word

theorem Ready.still (ready : Ready vectors vmId irqfd r shm done s) (m : Initial) :
    .shmem ∈ done ++ [m] :=
  List.mem_append_left _ ready.received

theorem ready_ignored (ready : Ready vectors vmId irqfd r shm done s)
    (table : Tabulates vectors vmId (done ++ [m]) (s.withRoom posn)) :
    Ready vectors vmId irqfd r shm (done ++ [m]) (s.withRoom posn) := by
  refine ready.kept table (ready.still m) ?_ ?_ ?_ ?_ ?_
  all_goals rw [withRoom_rest]

/-- The device's own next descriptor. -/
theorem ready_own (ready : Ready vectors vmId irqfd r shm done s) (valid : vmId ≤ ivshmemMaxPeers)
    (accepted : ¬vectors ≤ s.dev.registered vmId) (fd : Nat)
    (held : s.dev.registered vmId = eventfdInterruptHost → r = .vm2 →
      Held vmId (done ++ [.connect vmId fd]) (shm.vm .vm1).id.toInt) :
    ∃ t, s.processMsg vectors irqfd r (.connect vmId fd) = .ok (t, none) ∧
      Ready vectors vmId irqfd r shm (done ++ [.connect vmId fd]) t := by
  have remains := departed_own vmId done
  have rest := withRoom_rest s vmId
  have before := ready.table.counts vmId
  have stored := stored_tabulates ready.table accepted remains fd
  generalize named : s.dev.registered vmId = n at *
  generalize keeps : (s.withRoom vmId).store vmId fd n = u at *
  have after : (u.eventfds vmId).length = n + 1 := by
    simp only [← keeps, Setup.store, Function.update_self, List.length_append]
    rw [rest, ← before]
    rfl
  have block : u.shm = s.shm := by rw [← keeps, rest]; rfl
  have watching : u.msiVectors = some ((List.range n).filter (Watches irqfd)) := by
    rw [← keeps, rest, before]
    exact ready.watched
  have linked : u.dev.attached = true := by
    rw [← keeps, rest]
    exact ready.attached
  have word : r = .vm2 → (u.shm.vm .vm1).id = (shm.vm .vm1).id := by
    rintro rfl
    rw [block]
    exact ready.word
  obtain ⟨t, processed, set⟩ := setupInterrupt_ready stored linked watching (r := r)
    fun host second => by rw [word second]; exact held host second
  refine ⟨t, ?_, stored.congr set.table, ready.still _, ?_, ?_, ?_, ?_, ?_⟩
  · rw [connect_eq valid (by rwa [named]) (ready.table.live remains)]
    simp only [if_pos ready.table.own.symm, named, keeps, processed, Except.map]
  · rw [set.mapped, ← keeps, rest]
    exact ready.mapped
  · rw [set.attached, linked]
  · rw [set.watched, set.table.eventfds, after]
  · rw [set.published, set.table.eventfds, after, stored.own, block, ready.published, ← before]
    by_cases second : n = eventfdInterruptHost
    · rw [if_pos second, if_pos (by omega)]
    · have same : eventfdInterruptHost < n ↔ eventfdInterruptHost < n + 1 := by omega
      rw [if_neg second]
      simp only [same]
  · rw [set.word, block, ready.word]

theorem disconnect_attached (s : IVShmemState) (posn : Nat) :
    (Fabric.processMsgDisconnect s posn).attached = s.attached := by
  unfold Fabric.processMsgDisconnect
  split <;> rfl

/-- A descriptor is taken only when the device has vectors. -/
theorem some_vectors_of (accepted : ¬vectors ≤ n) : vectors ≠ 0 := by omega

/-- A message that does no harm is handled or refused. -/
theorem ready_step (ready : Ready vectors vmId irqfd r shm done s)
    (valid : m.room ≤ ivshmemMaxPeers + 1) (harmless : ¬Harms vectors vmId r shm done m) :
    ∃ t why, s.processMsg vectors irqfd r m = .ok (t, why) ∧
      Ready vectors vmId irqfd r shm (done ++ [m]) t := by
  have table := ready.table
  cases m with
  | shmem =>
    refine ⟨s, _, if_pos ready.mapped, ?_⟩
    exact ready.kept (shmem_tabulates table) (ready.still _) rfl rfl rfl rfl rfl
  | disconnect posn =>
    have valid : posn ≤ ivshmemMaxPeers := Nat.le_of_succ_le_succ valid
    by_cases own : posn = vmId
    · subst own
      refine ⟨_, _, disconnect_own table valid irqfd r, ready_ignored ready ?_⟩
      refine ignored_tabulates table rfl ?_ ?_
      · intro p
        rw [departed_next, Initial.disconnect.injEq]
        exact or_iff_left fun left => left.1 left.2.symm
      · intro p _
        rw [sent_next_disconnect]
    · have live : ¬s.freed posn = true := fun freed => harmless ((table.freed posn).mp freed)
      refine ⟨_, _, (disconnect_other table valid own irqfd r).trans (if_neg live), ?_⟩
      have rest := withRoom_rest s posn
      refine ready.kept (closed_tabulates table own) (ready.still _) ?_ ?_ ?_ ?_ ?_
      · rw [rest]
        rfl
      · rw [Setup.close, disconnect_attached, rest]
      · rw [rest]
        rfl
      · rw [rest]
        rfl
      · rw [rest]
        exact Function.update_of_ne (Ne.symm own) ..
  | connect posn fd =>
    have valid : posn ≤ ivshmemMaxPeers := Nat.le_of_succ_le_succ valid
    by_cases full : vectors ≤ s.dev.registered posn
    · exact ⟨_, _, connect_full_eq valid full irqfd r fd,
        ready_ignored ready (full_tabulates table full fd)⟩
    have some_vectors := some_vectors_of full
    have remains : ¬Departed vmId done posn := fun left => harmless ⟨some_vectors, Or.inl left⟩
    by_cases own : posn = vmId
    · subst own
      have held : s.dev.registered posn = eventfdInterruptHost → r = .vm2 →
          Held posn (done ++ [.connect posn fd]) (shm.vm .vm1).id.toInt := by
        intro host second
        have count := table.remaining remains
        simp only [eventfdInterruptHost] at host
        by_contra astray
        exact harmless ⟨some_vectors, Or.inr ⟨rfl, Or.inr ⟨second, by omega, by omega, astray⟩⟩⟩
      obtain ⟨t, processed, after⟩ := ready_own ready valid full fd held
      exact ⟨t, none, processed, after⟩
    · obtain ⟨id, processed⟩ := connect_other table valid full remains own irqfd r fd
      have stored := stored_tabulates table full remains fd
      have table := stored.congr (knowing_same _ id)
      refine ⟨_, _, processed, ready.kept table (ready.still _) ?_ ?_ ?_ ?_ ?_⟩
      all_goals rw [withRoom_rest]
      · rfl
      · rfl
      · rfl
      · rfl
      · exact Function.update_of_ne (Ne.symm own) ..

theorem ready_harmed (ready : Ready vectors vmId irqfd r shm done s)
    (valid : m.room ≤ ivshmemMaxPeers + 1) (harm : Harms vectors vmId r shm done m) :
    ∃ fault, s.processMsg vectors irqfd r m = .error fault ∧ fault.crash = true := by
  have table := ready.table
  cases m with
  | shmem => exact harm.elim
  | disconnect posn =>
    have freed := (table.freed posn).mpr harm
    refine ⟨.arrayFreed posn, ?_, rfl⟩
    rw [disconnect_other table (Nat.le_of_succ_le_succ valid) harm.2.1, if_pos freed]
  | connect posn fd =>
    have valid : posn ≤ ivshmemMaxPeers := Nat.le_of_succ_le_succ valid
    obtain ⟨some_vectors, departed | ⟨rfl, early | ⟨rfl, many, one, astray⟩⟩⟩ := harm
    · exact ⟨_, connect_departed table valid some_vectors departed irqfd r fd, rfl⟩
    · exact absurd ready.received early
    · have remains := departed_own posn done
      have count : s.dev.registered posn = 1 := by
        rw [table.remaining remains, one]
        omega
      have accepted : ¬vectors ≤ s.dev.registered posn := by omega
      have stored := stored_tabulates table accepted remains fd
      have rest := withRoom_rest s posn
      rw [count] at stored
      have watching : ((s.withRoom posn).store posn fd 1).msiVectors =
          some ((List.range 1).filter (Watches irqfd)) := by
        rw [rest, ← count, table.counts]
        exact ready.watched
      have linked : ((s.withRoom posn).store posn fd 1).dev.attached = true := by
        rw [rest]
        exact ready.attached
      have word : (((s.withRoom posn).store posn fd 1).shm.vm .vm1).id = (shm.vm .vm1).id := by
        rw [rest]
        exact ready.word
      obtain ⟨fault, failed, crash⟩ :=
        setupInterrupt_astray stored linked some_vectors watching (by rwa [word])
      refine ⟨fault, ?_, crash⟩
      rw [connect_eq valid accepted (table.live remains)]
      simp only [if_pos table.own.symm, count, failed, Except.map]

/-- Before the shared memory, an own descriptor finds no vectors to watch. -/
theorem early_own (earlier : Early vectors vmId shm done s) (valid : vmId ≤ ivshmemMaxPeers)
    (some_vectors : vectors ≠ 0) (irqfd : Bool) (r : Role) (fd : Nat) :
    s.processMsg vectors irqfd r (.connect vmId fd) = .error .msiVectorsUnset := by
  have table := earlier.table
  have remains := departed_own vmId done
  have count : s.dev.registered vmId = 0 := by
    rw [table.remaining remains, earlier.noOwn]
    exact Nat.min_zero _
  have unset : ((s.withRoom vmId).store vmId fd 0).msiVectors = none := by
    rw [withRoom_rest]
    exact earlier.unset
  have touched : ((s.withRoom vmId).store vmId fd 0).setupInterrupt irqfd r 0 =
      .error .msiVectorsUnset := by
    simp only [Setup.setupInterrupt, eventfdVmId, if_true, Setup.watchVectorNotifier, unset]
  rw [connect_eq valid (by omega) (table.live remains)]
  simp only [if_pos table.own.symm, count, touched, Except.map]

theorem early_connect (earlier : Early vectors vmId shm done s) (valid : posn ≤ ivshmemMaxPeers)
    (remains : ¬Departed vmId done posn) (other : posn ≠ vmId)
    (few : (sent posn done).length < vectors) (irqfd : Bool) (r : Role) (fd : Nat) :
    ∃ t, s.processMsg vectors irqfd r (.connect posn fd) = .ok (t, none) ∧
      Early vectors vmId shm (done ++ [.connect posn fd]) t := by
  have table := earlier.table
  have accepted : ¬vectors ≤ s.dev.registered posn := by
    rw [table.remaining remains]
    omega
  obtain ⟨id, processed⟩ := connect_other table valid accepted remains other irqfd r fd
  have stored := stored_tabulates table accepted remains fd
  refine ⟨_, processed, stored.congr (knowing_same ..), ?_, ?_, ?_, ?_, ?_, ?_, ?_⟩
  · simp [earlier.awaits]
  · rw [sent_next_other (by simp [other]), earlier.noOwn]
  · intro p
    by_cases same : posn = p
    · subst same
      rw [sent_next_self, List.length_append]
      exact few
    · rw [sent_next_other (by simp [same])]
      exact earlier.few p
  all_goals rw [withRoom_rest]
  · exact earlier.detached
  · exact earlier.unmapped
  · exact earlier.unset
  · exact earlier.block

theorem early_disconnect (earlier : Early vectors vmId shm done s) (valid : posn ≤ ivshmemMaxPeers)
    (other : posn ≠ vmId) (live : ¬s.freed posn = true) (irqfd : Bool) (r : Role) :
    ∃ t, s.processMsg vectors irqfd r (.disconnect posn) = .ok (t, none) ∧
      Early vectors vmId shm (done ++ [.disconnect posn]) t := by
  have table := earlier.table
  refine ⟨_, (disconnect_other table valid other irqfd r).trans (if_neg live),
    closed_tabulates table other, ?_, ?_, ?_, ?_, ?_, ?_, ?_⟩
  · simp [earlier.awaits]
  · rw [sent_next_disconnect, earlier.noOwn]
  · intro p
    rw [sent_next_disconnect]
    exact earlier.few p
  · rw [Setup.close, disconnect_attached, withRoom_rest]
    exact earlier.detached
  all_goals rw [withRoom_rest]
  · exact earlier.unmapped
  · exact earlier.unset
  · exact earlier.block

/-- Before the shared memory too a message that does no harm is handled or refused. -/
theorem early_step (earlier : Early vectors vmId shm done s)
    (valid : m.room ≤ ivshmemMaxPeers + 1) (harmless : ¬Harms vectors vmId r shm done m)
    (other : m ≠ .shmem) (irqfd : Bool) :
    (∃ t why, s.processMsg vectors irqfd r m = .ok (t, some why)) ∨
      ∃ t, s.processMsg vectors irqfd r m = .ok (t, none) ∧
        Early vectors vmId shm (done ++ [m]) t := by
  have table := earlier.table
  cases m with
  | shmem => exact absurd rfl other
  | disconnect posn =>
    have valid : posn ≤ ivshmemMaxPeers := Nat.le_of_succ_le_succ valid
    by_cases own : posn = vmId
    · subst own
      exact Or.inl ⟨_, _, disconnect_own table valid irqfd r⟩
    · have live : ¬s.freed posn = true := fun freed => harmless ((table.freed posn).mp freed)
      exact Or.inr (early_disconnect earlier valid own live irqfd r)
  | connect posn fd =>
    have valid : posn ≤ ivshmemMaxPeers := Nat.le_of_succ_le_succ valid
    by_cases full : vectors ≤ s.dev.registered posn
    · exact Or.inl ⟨_, _, connect_full_eq valid full irqfd r fd⟩
    have some_vectors := some_vectors_of full
    have remains : ¬Departed vmId done posn := fun left => harmless ⟨some_vectors, Or.inl left⟩
    have own : posn ≠ vmId :=
      fun own => harmless ⟨some_vectors, Or.inr ⟨own, Or.inl earlier.awaits⟩⟩
    have few : (sent posn done).length < vectors := by
      rw [table.remaining remains] at full
      omega
    exact Or.inr (early_connect earlier valid remains own few irqfd r fd)

theorem early_harmed (earlier : Early vectors vmId shm done s)
    (valid : m.room ≤ ivshmemMaxPeers + 1) (harm : Harms vectors vmId r shm done m) (irqfd : Bool) :
    ∃ fault, s.processMsg vectors irqfd r m = .error fault ∧ fault.crash = true := by
  have table := earlier.table
  cases m with
  | shmem => exact harm.elim
  | disconnect posn =>
    have freed := (table.freed posn).mpr harm
    refine ⟨.arrayFreed posn, ?_, rfl⟩
    rw [disconnect_other table (Nat.le_of_succ_le_succ valid) harm.2.1, if_pos freed]
  | connect posn fd =>
    have valid : posn ≤ ivshmemMaxPeers := Nat.le_of_succ_le_succ valid
    obtain ⟨some_vectors, departed | ⟨rfl, -⟩⟩ := harm
    · exact ⟨_, connect_departed table valid some_vectors departed irqfd r fd, rfl⟩
    · exact ⟨_, early_own earlier valid some_vectors irqfd r fd, rfl⟩

theorem identified_early (vectors vmId : Nat) (bars : Fin 6 → BitVec 64) (shm : SharedMemory) :
    Early vectors vmId shm [] (.identified vmId bars shm) := by
  refine ⟨⟨rfl, ?_, ?_, ?_, ?_⟩, List.not_mem_nil, rfl, fun p => Nat.zero_le _, rfl, rfl, rfl, rfl⟩
  · simp [Setup.identified, IVShmemState.realized, nbPeers]
  · intro p
    simp [Setup.identified, Departed]
  · intro p
    simp [Setup.identified, sent]
  · intro p
    exact realized_registered vmId bars p

end IdtNtb.Fabric
