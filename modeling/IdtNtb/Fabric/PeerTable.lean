import IdtNtb.Fabric.Server
import IdtNtb.Lib.Transition

/-! Life cycle of the arrays behind the peer table. `resize_peers` allocates an
array for every new peer. `close_peer_eventfds` frees it and leaves the pointer
as it is, both for a peer that has gone and for every peer when the device
exits. -/
namespace IdtNtb.Fabric
open Device Transition

/-- What `peers[p].eventfds` points to. -/
inductive Storage where
  | null
  | live
  | freed
  deriving DecidableEq

inductive Access where
  | init (vector : Nat)
  | signal (vector : Nat)
  | cleanup (vector : Nat)
  | free
  deriving DecidableEq

/-- An access to a peer's array, with what the pointer leads to then. -/
structure Touch where
  peer : Nat
  access : Access
  found : Option Storage
  deriving DecidableEq

structure PeerTable where
  dev : IVShmemState
  arrays : List Storage

/-- `g_new0` of no entries is NULL. -/
def newArray (vectors : Nat) : Storage :=
  if vectors = 0 then .null else .live

def PeerTable.touch (a : PeerTable) (peer : Nat) (access : Access) : Touch :=
  ⟨peer, access, a.arrays[peer]?⟩

def PeerTable.resizePeers (vectors : Nat) (a : PeerTable) (nbPeers : Nat) : PeerTable :=
  ⟨Fabric.resizePeers a.dev nbPeers,
    a.arrays ++ List.replicate (nbPeers - a.arrays.length) (newArray vectors)⟩

def PeerTable.withRoom (vectors : Nat) (a : PeerTable) (posn : Nat) : PeerTable :=
  if a.dev.peers.length ≤ posn then a.resizePeers vectors (posn + 1) else a

def PeerTable.allocated (vectors : Nat) (s : IVShmemState) : PeerTable :=
  PeerTable.resizePeers vectors ⟨{ s with peers := [] }, []⟩ 16

/-- `g_free` of NULL does nothing. -/
def PeerTable.closePeerEventfds (a : PeerTable) (posn : Nat) : PeerTable × List Touch :=
  let n := ((a.dev.peers[posn]?).map Peer.nbEventfds).getD 0
  let cleaned := (List.range n).map fun i => a.touch posn (.cleanup i)
  let dev := { a.dev with peers := a.dev.peers.set posn ⟨0⟩ }
  if a.arrays[posn]? = some .null then (⟨dev, a.arrays⟩, cleaned)
  else (⟨dev, a.arrays.set posn .freed⟩, cleaned ++ [a.touch posn .free])

/-- A signal of a handler. Ids outside the table have no array. -/
def PeerTable.signalled (a : PeerTable) : Effect → Option Touch
  | .eventNotifierSet peer vector =>
      if 0 ≤ peer ∧ peer < a.arrays.length then some (a.touch peer.toNat (.signal vector)) else none
  | _ => none

def PeerTable.processMsgConnect (vectors : Nat) (r : Role) (a : PeerTable) (shm : SharedMemory)
    (posn : Nat) : PeerTable × List Touch :=
  let vector := ((a.dev.peers[posn]?).map Peer.nbEventfds).getD 0
  if vectors ≤ vector then (a, [])
  else
    let (dev, _, effects) := Fabric.processMsgConnect vectors r a.dev shm posn
    (⟨dev, a.arrays⟩, a.touch posn (.init vector) :: effects.filterMap a.signalled)

def PeerTable.processMsgDisconnect (a : PeerTable) (posn : Nat) : PeerTable × List Touch :=
  if a.dev.peers.length ≤ posn ∨ (posn : Int) = a.dev.vmId then (a, [])
  else a.closePeerEventfds posn

/-- A message of the server. The one with the shared memory has no peer. -/
inductive TableMessage where
  | shmem
  | peer (msg : ServerMessage)

/-- `process_msg`, over whatever the shared block holds. -/
def PeerTable.processMsg (vectors : Nat) (r : Role) (a : PeerTable) :
    SharedMemory × TableMessage → PeerTable × List Touch
  | (_, .shmem) => (a, [])
  | (shm, .peer msg) =>
      if ivshmemMaxPeers < msg.posn then (a, [])
      else
        let a := a.withRoom vectors msg.posn
        match msg with
        | .connect posn => a.processMsgConnect vectors r shm posn
        | .disconnect posn => a.processMsgDisconnect posn

def PeerTable.step (vectors : Nat) (r : Role) (a : PeerTable) (l : SharedMemory × TableMessage) :
    Option (PeerTable × List Touch) :=
  some (a.processMsg vectors r l)

def PeerTable.closeAll (a : PeerTable) : List Nat → PeerTable × List Touch
  | [] => (a, [])
  | posn :: rest =>
      let (b, closed) := a.closePeerEventfds posn
      let (c, more) := b.closeAll rest
      (c, closed ++ more)

/-- `ivshmem_exit`, as far as the table goes. -/
def PeerTable.exit (a : PeerTable) : PeerTable × List Touch :=
  a.closeAll (List.range a.dev.peers.length)

def frees (p : Nat) (es : List Touch) : Nat :=
  es.countP fun e => e.peer = p ∧ e.access = .free

/-- A whole life of the table: every access finds a live array, and every array
that was allocated is freed exactly once. -/
structure Orderly (vectors nbPeers : Nat) (es : List Touch) : Prop where
  live : ∀ e ∈ es, e.found = some .live
  once : ∀ p < nbPeers, frees p es = if newArray vectors = .null then 0 else 1

/-- The message makes the device close another peer's descriptors. -/
def Departs (vmId : Int) : TableMessage → Prop
  | .peer (.disconnect posn) => posn ≤ ivshmemMaxPeers ∧ (posn : Int) ≠ vmId
  | _ => False

instance (vmId : Int) : DecidablePred (Departs vmId)
  | .peer (.disconnect _) => inferInstanceAs (Decidable (_ ∧ _))
  | .peer (.connect _) | .shmem => .isFalse id

variable {vectors : Nat} {r : Role} {a b : PeerTable} {es : List Touch}

/-- The arrays are not part of what the device does. -/
theorem processMsg_dev (vectors : Nat) (r : Role) (a : PeerTable) (shm : SharedMemory)
    (msg : ServerMessage) :
    (a.processMsg vectors r (shm, .peer msg)).1.dev = (processMsg vectors r a.dev shm msg).1 := by
  have room : (a.withRoom vectors msg.posn).dev =
      if a.dev.peers.length ≤ msg.posn then resizePeers a.dev (msg.posn + 1) else a.dev := by
    unfold PeerTable.withRoom
    split <;> rfl
  simp only [PeerTable.processMsg, processMsg, ← room]
  split
  · rfl
  · cases msg with
    | connect posn =>
      simp only [PeerTable.processMsgConnect]
      split
      · rename_i full
        simp only [processMsgConnect, if_pos full]
      · rfl
    | disconnect posn =>
      simp only [PeerTable.processMsgDisconnect, processMsgDisconnect, PeerTable.closePeerEventfds]
      split
      · rfl
      · split <;> rfl

/-- One array for every peer, and no more descriptors than it has entries. -/
structure Backed (vectors : Nat) (a : PeerTable) : Prop where
  sized : a.arrays.length = a.dev.peers.length
  counts : ∀ p, a.dev.registered p ≤ vectors
  null : ∀ array ∈ a.arrays, array = .null ↔ vectors = 0

def Intact (vectors : Nat) (a : PeerTable) : Prop :=
  ∀ array ∈ a.arrays, array = newArray vectors

structure Follows (vectors : Nat) (quiet : Prop) (a b : PeerTable) (es : List Touch) : Prop where
  backed : Backed vectors b
  own : b.dev.vmId = a.dev.vmId
  gone : ∀ p : Nat, a.arrays[p]? = some Storage.freed → b.arrays[p]? = some Storage.freed
  calm : quiet → Intact vectors a → Intact vectors b ∧ ∀ e ∈ es, e.found = some .live ∧
      e.access ≠ .free

theorem newArray_null (vectors : Nat) : newArray vectors = .null ↔ vectors = 0 := by
  unfold newArray
  split <;> simp [*]

theorem newArray_live (some_vectors : vectors ≠ 0) : newArray vectors = .live :=
  if_neg some_vectors

theorem Follows.refl (quiet : Prop) (backed : Backed vectors a) : Follows vectors quiet a a [] :=
  ⟨backed, rfl, fun _ => id, fun _ intact => ⟨intact, nofun⟩⟩

theorem Follows.trans (first : Follows vectors quiet a b es)
    (second : Follows vectors quiet b c more) :
    Follows vectors quiet a c (es ++ more) := by
  refine ⟨second.backed, second.own.trans first.own,
    fun p gone => second.gone p (first.gone p gone), ?_⟩
  intro calm intact
  obtain ⟨intact, before⟩ := first.calm calm intact
  obtain ⟨intact, after⟩ := second.calm calm intact
  exact ⟨intact, fun e member => (List.mem_append.mp member).elim (before e) (after e)⟩

theorem Intact.found (intact : Intact vectors a) (backed : Backed vectors a)
    (some_vectors : vectors ≠ 0) (bound : p < a.dev.peers.length) : a.arrays[p]? = some .live := by
  have inside : p < a.arrays.length := by rwa [backed.sized]
  rw [List.getElem?_eq_getElem inside, intact _ (List.getElem_mem inside),
    newArray_live some_vectors]

theorem resizePeers_follows (quiet : Prop) (backed : Backed vectors a) (nbPeers : Nat) :
    Follows vectors quiet a (a.resizePeers vectors nbPeers) [] := by
  refine ⟨⟨?_, ?_, ?_⟩, rfl, ?_, ?_⟩
  · simp only [PeerTable.resizePeers, resizePeers, List.length_append, List.length_replicate,
      backed.sized]
  · rw [PeerTable.resizePeers, resize_registered]
    exact backed.counts
  · intro array member
    rcases List.mem_append.mp member with old | new
    · exact backed.null array old
    · rw [(List.mem_replicate.mp new).2]
      exact newArray_null vectors
  · intro p gone
    have inside := (List.getElem?_eq_some_iff.mp gone).1
    rw [PeerTable.resizePeers, List.getElem?_append_left inside]
    exact gone
  · intro _ intact
    refine ⟨?_, List.forall_mem_nil _⟩
    intro array member
    rcases List.mem_append.mp member with old | new
    · exact intact array old
    · exact (List.mem_replicate.mp new).2

theorem withRoom_follows (quiet : Prop) (backed : Backed vectors a) (posn : Nat) :
    Follows vectors quiet a (a.withRoom vectors posn) [] := by
  unfold PeerTable.withRoom
  split
  · exact resizePeers_follows quiet backed (posn + 1)
  · exact .refl quiet backed

theorem withRoom_bound (vectors : Nat) (a : PeerTable) (posn : Nat) :
    posn < (a.withRoom vectors posn).dev.peers.length := by
  unfold PeerTable.withRoom
  split
  · simp only [PeerTable.resizePeers, resizePeers, List.length_append, List.length_replicate]
    omega
  · omega

theorem registered_le_set {s t : IVShmemState} (bound : posn < s.peers.length)
    (stored : t.peers = s.peers.set posn ⟨n⟩) (counts : ∀ p, s.registered p ≤ vectors)
    (le : n ≤ vectors) :
    ∀ p, t.registered p ≤ vectors := by
  intro p
  rw [registered_congr (s := { s with peers := s.peers.set posn ⟨n⟩ }) stored,
    set_registered s n bound]
  by_cases own : p = posn
  · rw [own, Function.update_self]
    exact le
  · rw [Function.update_of_ne own]
    exact counts p

theorem connect_follows (quiet : Prop) (backed : Backed vectors a)
    (bound : posn < a.dev.peers.length) (r : Role) (shm : SharedMemory) :
    Follows vectors quiet a (a.processMsgConnect vectors r shm posn).1
      (a.processMsgConnect vectors r shm posn).2 := by
  simp only [PeerTable.processMsgConnect, ← registered_natCast]
  split
  · exact .refl quiet backed
  · rename_i accepted
    obtain ⟨stored, own⟩ := connect_peers accepted r shm
    refine ⟨⟨?_, ?_, backed.null⟩, own, fun p gone => gone, ?_⟩
    · rw [stored, List.length_set, backed.sized]
    · exact registered_le_set bound stored backed.counts (by omega)
    · intro _ intact
      refine ⟨intact, ?_⟩
      have live {p : Nat} (inside : p < a.dev.peers.length) : a.arrays[p]? = some .live :=
        intact.found backed (by omega) inside
      intro e member
      rcases List.mem_cons.mp member with rfl | signal
      · exact ⟨live bound, nofun⟩
      · obtain ⟨effect, -, signals⟩ := List.mem_filterMap.mp signal
        cases effect with
        | eventNotifierSet peer vector =>
          obtain ⟨⟨lower, upper⟩, same⟩ := Option.ite_none_right_eq_some.mp signals
          cases same
          rw [backed.sized] at upper
          exact ⟨live (by omega), nofun⟩
        | _ => exact absurd signals nofun

theorem close_follows (backed : Backed vectors a) (bound : posn < a.dev.peers.length) :
    Follows vectors (vectors = 0) a (a.closePeerEventfds posn).1 (a.closePeerEventfds posn).2 := by
  have inside : posn < a.arrays.length := by rwa [backed.sized]
  have counts := registered_le_set (t := { a.dev with peers := a.dev.peers.set posn ⟨0⟩ }) bound rfl
    backed.counts (Nat.zero_le vectors)
  simp only [PeerTable.closePeerEventfds, ← registered_natCast]
  split
  · refine ⟨⟨?_, counts, backed.null⟩, rfl, fun p gone => gone, ?_⟩
    · rw [List.length_set, backed.sized]
    · intro none intact
      have empty : a.dev.registered posn = 0 := by
        have le := backed.counts posn
        omega
      rw [empty]
      exact ⟨intact, nofun⟩
  · rename_i allocated
    have some_vectors : vectors ≠ 0 := by
      intro none
      apply allocated
      rw [List.getElem?_eq_getElem inside, (backed.null _ (List.getElem_mem inside)).mpr none]
    refine ⟨⟨?_, counts, ?_⟩, rfl, ?_, fun none => absurd none some_vectors⟩
    · rw [List.length_set, List.length_set, backed.sized]
    · intro array member
      rcases List.mem_or_eq_of_mem_set member with old | rfl
      · exact backed.null array old
      · simp [some_vectors]
    · intro p gone
      rw [List.getElem?_set]
      split
      · rfl
      · exact gone

/-- An array behind a pointer that is not NULL is freed, whatever its state. -/
theorem close_allocated (allocated : a.arrays[posn]? ≠ some .null) :
    (a.closePeerEventfds posn).1.arrays = a.arrays.set posn .freed ∧
      (a.closePeerEventfds posn).2 =
        (List.range (a.dev.registered posn)).map (fun i => a.touch posn (.cleanup i)) ++
          [a.touch posn .free] := by
  rw [registered_natCast, PeerTable.closePeerEventfds]
  simp only [if_neg allocated, and_self]

theorem Backed.allocated (backed : Backed vectors a) (some_vectors : vectors ≠ 0) (p : Nat) :
    a.arrays[p]? ≠ some .null := by
  intro null
  exact some_vectors ((backed.null _ (List.mem_of_getElem? null)).mp rfl)

def Stays (vectors : Nat) (vmId : Int) (msg : TableMessage) : Prop :=
  vectors = 0 ∨ ¬Departs vmId msg

instance (vectors : Nat) (vmId : Int) (msg : TableMessage) : Decidable (Stays vectors vmId msg) :=
  inferInstanceAs (Decidable (_ ∨ _))

theorem processMsg_follows (backed : Backed vectors a) (r : Role) (shm : SharedMemory)
    (msg : TableMessage) :
    Follows vectors (Stays vectors a.dev.vmId msg) a (a.processMsg vectors r (shm, msg)).1
      (a.processMsg vectors r (shm, msg)).2 := by
  cases msg with
  | shmem => exact .refl _ backed
  | peer msg =>
    simp only [PeerTable.processMsg]
    split
    · exact .refl _ backed
    · rename_i valid
      have room := withRoom_follows (Stays vectors a.dev.vmId (.peer msg)) backed msg.posn
      have bound := withRoom_bound vectors a msg.posn
      rw [← List.nil_append (Prod.snd _)]
      refine room.trans ?_
      cases msg with
      | connect posn => exact connect_follows _ room.backed bound r shm
      | disconnect posn =>
        simp only [PeerTable.processMsgDisconnect]
        split
        · exact .refl _ room.backed
        · rename_i accepted
          have close := close_follows room.backed bound
          refine ⟨close.backed, close.own, close.gone,
            fun quiet => close.calm (quiet.resolve_right ?_)⟩
          rw [not_not]
          refine ⟨Nat.not_lt.mp valid, fun own => accepted (Or.inr ?_)⟩
          rw [room.own, own]

/-- A peer's departure leaves its pointer to a freed array. -/
theorem departs_gone (backed : Backed vectors a) (some_vectors : vectors ≠ 0) (r : Role)
    (shm : SharedMemory) (departs : Departs a.dev.vmId msg) :
    ∃ p : Nat, (a.processMsg vectors r (shm, msg)).1.arrays[p]? = some Storage.freed := by
  match msg, departs with
  | .peer (.disconnect posn), ⟨valid, other⟩ =>
    have room := withRoom_follows True backed posn
    have bound := withRoom_bound vectors a posn
    have accepted : ¬((a.withRoom vectors posn).dev.peers.length ≤ posn ∨
        (posn : Int) = (a.withRoom vectors posn).dev.vmId) := by
      rw [room.own, not_or]
      exact ⟨Nat.not_le.mpr bound, other⟩
    have closed := close_allocated (room.backed.allocated some_vectors posn)
    have processed : a.processMsg vectors r (shm, .peer (.disconnect posn)) =
        (a.withRoom vectors posn).closePeerEventfds posn :=
      (if_neg (Nat.not_lt.mpr valid)).trans (if_neg accepted)
    refine ⟨posn, ?_⟩
    rw [processed, closed.1, List.getElem?_set_self]
    rwa [room.backed.sized]

theorem step_follows (backed : Backed vectors a)
    (next : PeerTable.step vectors r a l = some (b, es)) :
    Follows vectors (Stays vectors a.dev.vmId l.2) a b es := by
  have follows := processMsg_follows backed r l.1 l.2
  rw [Option.some.inj next] at follows
  exact follows

theorem empty_backed (vectors : Nat) (s : IVShmemState) :
    Backed vectors ⟨{ s with peers := [] }, []⟩ := by
  refine ⟨rfl, ?_, by simp⟩
  intro p
  simp only [IVShmemState.registered, List.length_nil]
  split
  · exact Nat.zero_le _
  · omega

theorem allocated_follows (vectors : Nat) (s : IVShmemState) :
    Follows vectors True ⟨{ s with peers := [] }, []⟩ (.allocated vectors s) [] :=
  resizePeers_follows True (empty_backed vectors s) 16

section Run
variable {s : IVShmemState} {ls : List (SharedMemory × TableMessage)}

theorem run_backed (backed : Backed vectors a)
    (path : run (PeerTable.step vectors r) a ls = some (b, es)) :
    Backed vectors b ∧ b.dev.vmId = a.dev.vmId := by
  refine run_preserves (P := fun b => Backed vectors b ∧ b.dev.vmId = a.dev.vmId) ?_ ⟨backed, rfl⟩
    (along_true a ls) path
  intro b l c es held _ next
  have follows := step_follows held.1 next
  exact ⟨follows.backed, follows.own.trans held.2⟩

theorem run_gone {p : Nat} (backed : Backed vectors a) (gone : a.arrays[p]? = some Storage.freed)
    (path : run (PeerTable.step vectors r) a ls = some (b, es)) :
    b.arrays[p]? = some Storage.freed := by
  refine (run_preserves (P := fun b => Backed vectors b ∧ b.arrays[p]? = some Storage.freed) ?_
    ⟨backed, gone⟩
    (along_true a ls) path).2
  intro b l c es held _ next
  have follows := step_follows held.1 next
  exact ⟨follows.backed, follows.gone p held.2⟩

theorem run_departed (backed : Backed vectors a) (some_vectors : vectors ≠ 0)
    (departs : ∃ l ∈ ls, Departs a.dev.vmId l.2)
    (path : run (PeerTable.step vectors r) a ls = some (b, es)) :
    ∃ p : Nat, b.arrays[p]? = some Storage.freed := by
  induction ls generalizing a es with
  | nil => obtain ⟨_, none, _⟩ := departs; cases none
  | cons l ls ih =>
    obtain ⟨middle, first, rest, head, tail, rfl⟩ := run_cons_eq_some.mp path
    have follows := step_follows backed head
    obtain ⟨k, member, departs⟩ := departs
    rcases List.mem_cons.mp member with rfl | later
    · obtain ⟨p, gone⟩ := departs_gone backed some_vectors r k.1 departs
      rw [Option.some.inj head] at gone
      exact ⟨p, run_gone follows.backed gone tail⟩
    · exact ih follows.backed ⟨k, later, by rwa [follows.own]⟩ tail

theorem run_calm (quiet : ∀ l ∈ ls, Stays vectors s.vmId l.2)
    (path : run (PeerTable.step vectors r) (.allocated vectors s) ls = some (b, es)) :
    Intact vectors b ∧ ∀ e ∈ es, e.found = some .live ∧ e.access ≠ .free := by
  have start := allocated_follows vectors s
  have intact : Intact vectors (.allocated vectors s) := (start.calm trivial (by simp [Intact])).1
  have ended := run_reports
    (P := fun b => Intact vectors b ∧ Backed vectors b ∧ b.dev.vmId = s.vmId)
    (Q := fun e => e.found = some .live ∧ e.access ≠ .free) ?_ ⟨intact, start.backed, rfl⟩
    (along_labels quiet _) path
  · exact ⟨ended.1.1, ended.2⟩
  · rintro b l c es ⟨intact, backed, own⟩ stays next
    have follows := step_follows backed next
    obtain ⟨kept, calm⟩ := follows.calm (by rwa [own]) intact
    exact ⟨⟨kept, follows.backed, follows.own.trans own⟩, calm⟩

end Run

theorem frees_append (p : Nat) (es more : List Touch) :
    frees p (es ++ more) = frees p es + frees p more :=
  List.countP_append

theorem frees_none (none : ∀ e ∈ es, e.access ≠ .free) (p : Nat) : frees p es = 0 :=
  List.countP_eq_zero.mpr fun e member => by simp [none e member]

/-- Closing a live array frees it once. -/
theorem close_live (found : a.arrays[posn]? = some .live) :
    (a.closePeerEventfds posn).1.arrays = a.arrays.set posn .freed ∧
      (∀ e ∈ (a.closePeerEventfds posn).2, e.found = some .live) ∧
      ∀ p, frees p (a.closePeerEventfds posn).2 = if posn = p then 1 else 0 := by
  obtain ⟨arrays, touched⟩ :=
    close_allocated (show a.arrays[posn]? ≠ some .null by rw [found]; nofun)
  rw [touched]
  refine ⟨arrays, ?_, ?_⟩
  · intro e member
    rcases List.mem_append.mp member with cleaned | freed
    · obtain ⟨i, -, rfl⟩ := List.mem_map.mp cleaned
      exact found
    · rw [List.mem_singleton.mp freed]
      exact found
  · intro p
    rw [frees_append, frees_none, Nat.zero_add]
    · simp [frees, PeerTable.touch, List.countP_singleton]
    · intro e cleaned
      obtain ⟨i, -, rfl⟩ := List.mem_map.mp cleaned
      nofun

theorem closeAll_live (distinct : ps.Nodup) (found : ∀ p ∈ ps, a.arrays[p]? = some .live) :
    (∀ e ∈ (a.closeAll ps).2, e.found = some .live) ∧
      ∀ p, frees p (a.closeAll ps).2 = if p ∈ ps then 1 else 0 := by
  induction ps generalizing a with
  | nil => exact ⟨nofun, fun p => rfl⟩
  | cons posn ps ih =>
    obtain ⟨once, distinct⟩ := List.nodup_cons.mp distinct
    obtain ⟨arrays, live, freed⟩ := close_live (found posn List.mem_cons_self)
    -- The other pointers are as before.
    have others : ∀ p ∈ ps, (a.closePeerEventfds posn).1.arrays[p]? = some .live := by
      intro p member
      have other : posn ≠ p := by
        rintro rfl
        exact once member
      rw [arrays, List.getElem?_set_ne other]
      exact found p (List.mem_cons_of_mem posn member)
    obtain ⟨rest, counts⟩ := ih distinct others
    refine ⟨fun e member => (List.mem_append.mp member).elim (live e) (rest e), ?_⟩
    intro p
    simp only [PeerTable.closeAll, frees_append, freed, counts, List.mem_cons]
    by_cases same : posn = p
    · subst same
      simp [once]
    · simp [same, Ne.symm same]

theorem closeAll_null (backed : Backed 0 a) (inside : ∀ p ∈ ps, p < a.dev.peers.length) :
    (a.closeAll ps).2 = [] := by
  induction ps generalizing a with
  | nil => rfl
  | cons posn ps ih =>
    have bound := inside posn List.mem_cons_self
    have nullPointer : a.arrays[posn]? = some .null := by
      have index : posn < a.arrays.length := by rwa [backed.sized]
      rw [List.getElem?_eq_getElem index, (backed.null _ (List.getElem_mem index)).mpr rfl]
    have none : a.dev.registered posn = 0 := Nat.le_zero.mp (backed.counts posn)
    have closed : a.closePeerEventfds posn =
        (⟨{ a.dev with peers := a.dev.peers.set posn ⟨0⟩ }, a.arrays⟩, []) := by
      rw [PeerTable.closePeerEventfds, ← registered_natCast, none]
      simp only [if_pos nullPointer, List.range_zero, List.map_nil]
    have follows := close_follows backed bound
    rw [closed] at follows
    simp only [PeerTable.closeAll, closed, List.nil_append]
    apply ih follows.backed
    intro p member
    rw [List.length_set]
    exact inside p (List.mem_cons_of_mem posn member)

/-- A pointer to a freed array is passed to `g_free` again. -/
theorem closeAll_gone {p : Nat} (member : p ∈ ps) (gone : a.arrays[p]? = some Storage.freed) :
    ∃ e ∈ (a.closeAll ps).2, e.found = some .freed := by
  induction ps generalizing a with
  | nil => cases member
  | cons posn ps ih =>
    by_cases same : posn = p
    · subst same
      obtain ⟨-, touched⟩ := close_allocated (show a.arrays[posn]? ≠ some .null by rw [gone]; nofun)
      have freed : a.touch posn .free ∈ (a.closePeerEventfds posn).2 := by
        rw [touched]
        exact List.mem_append_right _ List.mem_cons_self
      exact ⟨_, List.mem_append_left _ freed, gone⟩
    · have kept : (a.closePeerEventfds posn).1.arrays[p]? = some Storage.freed := by
        simp only [PeerTable.closePeerEventfds]
        split
        · exact gone
        · rw [List.getElem?_set_ne same]
          exact gone
      obtain ⟨e, reported, found⟩ := ih ((List.mem_cons.mp member).resolve_left (Ne.symm same)) kept
      exact ⟨e, List.mem_append_right _ reported, found⟩

theorem exit_orderly (backed : Backed vectors a) (intact : Intact vectors a)
    (calm : ∀ e ∈ es, e.found = some .live ∧ e.access ≠ .free) :
    Orderly vectors a.dev.peers.length (es ++ a.exit.2) := by
  have before (p : Nat) : frees p es = 0 := frees_none (fun e member => (calm e member).2) p
  by_cases none : vectors = 0
  · subst none
    have silent : a.exit.2 = [] := closeAll_null backed fun p member => List.mem_range.mp member
    rw [silent, List.append_nil]
    refine ⟨fun e member => (calm e member).1, ?_⟩
    intro p _
    rw [before, if_pos ((newArray_null 0).mpr rfl)]
  · obtain ⟨live, counts⟩ := closeAll_live (a := a) List.nodup_range
      fun p member => intact.found backed none (List.mem_range.mp member)
    refine ⟨fun e member => (List.mem_append.mp member).elim (fun early => (calm e early).1)
      (live e), ?_⟩
    intro p bound
    rw [frees_append, before, PeerTable.exit, counts, if_pos (List.mem_range.mpr bound),
      if_neg (by rwa [newArray_null])]

/-- A device's life from its first message to its exit. The count of a peer's
descriptors never exceeds the array, and the arrays are used and freed in order
exactly when no other peer ever leaves, or there are no arrays. -/
theorem peer_table_orderly_iff {s : IVShmemState}
    (path : run (PeerTable.step vectors r) (.allocated vectors s) ls = some (a, es)) :
    (∀ p, a.dev.registered p ≤ vectors) ∧
      (Orderly vectors a.dev.peers.length (es ++ a.exit.2) ↔
        ∀ l ∈ ls, Stays vectors s.vmId l.2) := by
  have start := (allocated_follows vectors s).backed
  obtain ⟨backed, own⟩ := run_backed start path
  refine ⟨backed.counts, ?_, ?_⟩
  · intro orderly l member
    by_contra loud
    obtain ⟨some_vectors, departs⟩ := not_or.mp loud
    obtain ⟨p, gone⟩ := run_departed start some_vectors ⟨l, member, not_not.mp departs⟩ path
    have inside : p < a.dev.peers.length := by
      rw [← backed.sized]
      exact (List.getElem?_eq_some_iff.mp gone).1
    obtain ⟨e, reported, found⟩ := closeAll_gone (List.mem_range.mpr inside) gone
    have live := orderly.live e (List.mem_append_right es reported)
    rw [found] at live
    cases live
  · intro quiet
    obtain ⟨intact, calm⟩ := run_calm quiet path
    exact exit_orderly backed intact calm

/-- Both peers send their descriptors and stay. -/
theorem peer_table_orderly_pair :
    ∃ a es, run (PeerTable.step 2 .vm1) (.allocated 2 (.realized 0 fun _ => 0))
        ([0, 0, 1, 1].map fun posn => (.zero, .peer (.connect posn))) = some (a, es) ∧
      a.dev.registered 1 = 2 ∧ Orderly 2 a.dev.peers.length (es ++ a.exit.2) := by
  have reads : (run (PeerTable.step 2 .vm1) (.allocated 2 (.realized 0 fun _ => 0))
      ([0, 0, 1, 1].map fun posn => (.zero, .peer (.connect posn)))).map
      (fun reached => reached.1.dev.registered 1) = some 2 := by decide +kernel
  obtain ⟨⟨a, es⟩, path, counted⟩ := Option.map_eq_some_iff.mp reads
  exact ⟨a, es, path, counted, (peer_table_orderly_iff path).2.mpr (by decide)⟩

/-- A peer comes and goes, and the device exits: its array is freed twice. -/
theorem departed_array_freed_twice :
    ∃ a es, run (PeerTable.step 2 .vm1) (.allocated 2 (.realized 0 fun _ => 0))
        [(.zero, .peer (.connect 1)), (.zero, .peer (.disconnect 1))] = some (a, es) ∧
      frees 1 (es ++ a.exit.2) = 2 ∧ ¬Orderly 2 a.dev.peers.length (es ++ a.exit.2) := by
  have reads : (run (PeerTable.step 2 .vm1) (.allocated 2 (.realized 0 fun _ => 0))
      [(.zero, .peer (.connect 1)), (.zero, .peer (.disconnect 1))]).map
      (fun reached => (frees 1 (reached.2 ++ reached.1.exit.2), reached.1.dev.peers.length)) =
      some (2, 16) := by decide +kernel
  obtain ⟨⟨a, es⟩, path, counted⟩ := Option.map_eq_some_iff.mp reads
  obtain ⟨twice, length⟩ := Prod.mk.inj counted
  refine ⟨a, es, path, twice, ?_⟩
  intro orderly
  have once := orderly.once 1 (by rw [show a.dev.peers.length = 16 from length]; decide)
  rw [twice] at once
  exact absurd once (by decide)

end IdtNtb.Fabric
