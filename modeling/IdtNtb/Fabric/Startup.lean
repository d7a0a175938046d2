import IdtNtb.Fabric.Setup
import Mathlib.Data.List.TakeWhile

/-! The order of the initial messages. Realize takes those up to the shared memory
and the device reads the others later, so an order decides what is there when a
message is handled. -/
namespace IdtNtb.Fabric
open Device

/-- An order of the initial messages in which every peer's descriptors come in
the order of its vectors. -/
structure Delivers (fds : Nat → List Nat) (ms : List Initial) : Prop where
  shmem : ms.count .shmem = 1
  inOrder : ∀ posn, sent posn ms = fds posn
  stays : ∀ posn, .disconnect posn ∉ ms

def early (ms : List Initial) : List Initial :=
  ms.takeWhile (· ≠ .shmem)

def Harmless (vectors vmId : Nat) (r : Role) (shm : SharedMemory) :
    List Initial → List Initial → Prop
  | _, [] => True
  | done, m :: ms =>
      ¬Harms vectors vmId r shm done m ∧ Harmless vectors vmId r shm (done ++ [m]) ms

instance harmless_decidable (vectors vmId : Nat) (r : Role) (shm : SharedMemory) :
    ∀ done ms, Decidable (Harmless vectors vmId r shm done ms)
  | _, [] => .isTrue trivial
  | done, m :: ms =>
      have := harmless_decidable vectors vmId r shm (done ++ [m]) ms
      inferInstanceAs (Decidable (_ ∧ _))

/-- An order that the device gets through: before the shared memory there are not
too many descriptors of anyone, and no message does harm. -/
structure Tolerated (vectors vmId : Nat) (r : Role) (shm : SharedMemory) (ms : List Initial) :
    Prop where
  few : ∀ posn, (sent posn (early ms)).length ≤ vectors
  harmless : Harmless vectors vmId r shm [] ms

/-- Two starts end with the same peers, published id and watched vectors. -/
structure Setup.Agree (r : Role) (s t : Setup) : Prop where
  peers : s.dev.peers = t.dev.peers
  eventfds : s.eventfds = t.eventfds
  published : (s.shm.vm r).id = (t.shm.vm r).id
  watched : s.msiVectors = t.msiVectors

variable {vectors vmId posn fd : Nat} {irqfd : Bool} {r : Role} {shm : SharedMemory} {s t : Setup}
  {done ms : List Initial}

theorem harmless_append (done front rest : List Initial) :
    Harmless vectors vmId r shm done (front ++ rest) ↔
      Harmless vectors vmId r shm done front ∧
        Harmless vectors vmId r shm (done ++ front) rest := by
  induction front generalizing done with
  | nil => simp only [List.nil_append, List.append_nil, Harmless, true_and]
  | cons m front ih =>
    rw [List.cons_append, Harmless, Harmless, ih, and_assoc, List.append_assoc]
    rfl

theorem ready_read (ready : Ready vectors vmId irqfd r shm done s) (valid : ValidIds ms)
    (harmless : Harmless vectors vmId r shm done ms) :
    ∃ t, s.ivshmemRead vectors irqfd r ms = .ok t ∧
      Ready vectors vmId irqfd r shm (done ++ ms) t := by
  induction ms generalizing s done with
  | nil => exact ⟨s, rfl, by rwa [List.append_nil]⟩
  | cons m ms ih =>
    obtain ⟨t, why, processed, after⟩ := ready_step ready (valid m List.mem_cons_self) harmless.1
    obtain ⟨u, rest, ready⟩ := ih after (valid.mono (List.subset_cons_self ..)) harmless.2
    refine ⟨u, ?_, ?_⟩
    · rw [Setup.ivshmemRead, processed]
      exact rest
    · rwa [List.append_assoc] at ready

theorem ready_read_harmed (ready : Ready vectors vmId irqfd r shm done s) (valid : ValidIds ms)
    (harm : ¬Harmless vectors vmId r shm done ms) :
    ∃ fault, s.ivshmemRead vectors irqfd r ms = .error fault := by
  induction ms generalizing s done with
  | nil => exact absurd trivial harm
  | cons m ms ih =>
    rw [Setup.ivshmemRead]
    by_cases here : Harms vectors vmId r shm done m
    · obtain ⟨fault, failed, -⟩ := ready_harmed ready (valid m List.mem_cons_self) here
      exact ⟨fault, by rw [failed]⟩
    · obtain ⟨t, why, processed, after⟩ := ready_step ready (valid m List.mem_cons_self) here
      rw [processed]
      exact ih after (valid.mono (List.subset_cons_self ..)) fun later => harm ⟨here, later⟩

def Connects (ms : List Initial) : Prop :=
  ∀ m ∈ ms, ∃ posn fd, m = .connect posn fd

theorem Connects.tail (connects : Connects (m :: ms)) : Connects ms :=
  fun _ member => connects _ (List.mem_cons_of_mem _ member)

theorem recvSetup_shmem (earlier : Early vectors vmId shm done s) (irqfd : Bool) (r : Role)
    (rest : List Initial) :
    s.ivshmemRecvSetup vectors irqfd r (.shmem :: rest) =
      .ok ({ s with mapped := true }, rest) := by
  simp only [Setup.ivshmemRecvSetup, Setup.processMsg, earlier.unmapped, Bool.false_eq_true,
    if_false, if_true]

/-- The synchronous part gets to the shared memory when nothing that does harm and
nothing that is too much comes before. -/
theorem recvSetup_passes (earlier : Early vectors vmId shm done s) (valid : ValidIds front)
    (connects : Connects front) (few : ∀ posn, (sent posn (done ++ front)).length ≤ vectors)
    (harmless : Harmless vectors vmId r shm done front) (irqfd : Bool) (rest : List Initial) :
    ∃ t, s.ivshmemRecvSetup vectors irqfd r (front ++ .shmem :: rest) =
        .ok ({ t with mapped := true }, rest) ∧
      Early vectors vmId shm (done ++ front) t := by
  induction front generalizing s done with
  | nil => exact ⟨s, recvSetup_shmem earlier irqfd r rest, by rwa [List.append_nil]⟩
  | cons m front ih =>
    obtain ⟨posn, fd, rfl⟩ := connects m List.mem_cons_self
    have accepted : (sent posn done).length < vectors := by
      have bound := few posn
      rw [sent_append, sent_connect_self, List.length_append, List.length_cons] at bound
      omega
    have some_vectors := some_vectors_of (Nat.not_le.mpr accepted)
    have remains : ¬Departed vmId done posn :=
      fun left => harmless.1 ⟨some_vectors, Or.inl left⟩
    have own : posn ≠ vmId :=
      fun own => harmless.1 ⟨some_vectors, Or.inr ⟨own, Or.inl earlier.awaits⟩⟩
    have bound : posn ≤ ivshmemMaxPeers := Nat.le_of_succ_le_succ (valid _ List.mem_cons_self)
    obtain ⟨t, processed, after⟩ := early_connect earlier bound remains own accepted irqfd r fd
    rw [List.append_cons] at few
    obtain ⟨u, received, final⟩ := ih after (valid.mono (List.subset_cons_self ..)) connects.tail
      few harmless.2
    refine ⟨u, ?_, by rwa [List.append_cons]⟩
    rw [List.cons_append, Setup.ivshmemRecvSetup, processed]
    exact received

theorem recvSetup_fails (earlier : Early vectors vmId shm done s) (valid : ValidIds front)
    (connects : Connects front)
    (excess : ¬((∀ posn, (sent posn (done ++ front)).length ≤ vectors) ∧
      Harmless vectors vmId r shm done front)) (irqfd : Bool) (rest : List Initial) :
    ∃ fault, s.ivshmemRecvSetup vectors irqfd r (front ++ rest) = .error fault := by
  induction front generalizing s done with
  | nil =>
    rw [List.append_nil] at excess
    exact absurd ⟨earlier.few, trivial⟩ excess
  | cons m front ih =>
    have bound := valid _ List.mem_cons_self
    rw [List.cons_append, Setup.ivshmemRecvSetup]
    by_cases harm : Harms vectors vmId r shm done m
    · obtain ⟨fault, failed, -⟩ := early_harmed earlier bound harm irqfd
      rw [failed]
      exact ⟨fault, rfl⟩
    obtain ⟨posn, fd, rfl⟩ := connects m List.mem_cons_self
    rcases early_step earlier bound harm nofun irqfd with ⟨t, why, refused⟩ | ⟨t, processed, after⟩
    · rw [refused]
      exact ⟨_, rfl⟩
    · rw [processed]
      refine ih after (valid.mono (List.subset_cons_self ..)) connects.tail ?_
      rintro ⟨few, harmless⟩
      rw [← List.append_cons] at few
      exact excess ⟨few, harm, harmless⟩

/-- The one message with the shared memory, and what comes before and after. -/
theorem Delivers.split (delivers : Delivers fds ms) :
    ∃ rest, ms = early ms ++ .shmem :: rest ∧ .shmem ∉ early ms ∧ .shmem ∉ rest := by
  have before : .shmem ∉ early ms := by
    intro member
    simpa using List.mem_takeWhile_imp member
  have whole : early ms ++ ms.dropWhile (· ≠ .shmem) = ms := List.takeWhile_append_dropWhile
  have count := delivers.shmem
  rw [← whole, List.count_append, List.count_eq_zero_of_not_mem before, Nat.zero_add] at count
  cases after : ms.dropWhile (· ≠ .shmem) with
  | nil =>
    rw [after] at count
    simp at count
  | cons m rest =>
    have first : m = .shmem := by
      have head := List.head?_dropWhile_not (· ≠ Initial.shmem) ms
      rw [after] at head
      simpa using head
    subst first
    rw [after, List.count_cons_self] at count
    refine ⟨rest, ?_, before, List.count_eq_zero.mp (by omega)⟩
    rw [← after]
    exact whole.symm

theorem Delivers.connects (delivers : Delivers fds ms) (part : ns ⊆ ms) (other : .shmem ∉ ns) :
    Connects ns := by
  intro m member
  cases m with
  | shmem => exact absurd member other
  | connect posn fd => exact ⟨posn, fd, rfl⟩
  | disconnect posn => exact absurd (part member) (delivers.stays posn)

theorem mem_sent (member : .connect posn fd ∈ ms) : fd ∈ sent posn ms :=
  List.mem_filterMap.mpr ⟨_, member, if_pos rfl⟩

theorem Delivers.valid (delivers : Delivers fds ms) (ids : ∀ p, fds p ≠ [] → p ≤ ivshmemMaxPeers) :
    ValidIds ms := by
  intro m member
  cases m with
  | shmem => exact Nat.zero_le _
  | connect posn fd =>
    apply Nat.succ_le_succ
    apply ids
    rw [← delivers.inOrder]
    exact List.ne_nil_of_mem (mem_sent member)
  | disconnect posn => exact absurd member (delivers.stays posn)

/-- The order up to the shared memory, and what comes after it. -/
theorem harmless_split {front rest : List Initial} :
    Harmless vectors vmId r shm [] (front ++ .shmem :: rest) ↔
      Harmless vectors vmId r shm [] front ∧
        Harmless vectors vmId r shm (front ++ [.shmem]) rest := by
  rw [harmless_append, Harmless, List.nil_append]
  exact and_congr_right fun _ => and_iff_right id

theorem start_ready (delivers : Delivers fds ms) (ids : ∀ p, fds p ≠ [] → p ≤ ivshmemMaxPeers)
    (tolerated : Tolerated vectors vmId r shm ms) (irqfd : Bool) (bars : Fin 6 → BitVec 64) :
    ∃ t, (Setup.identified vmId bars shm).start vectors irqfd r ms = .ok t ∧
      Ready vectors vmId irqfd r shm ms t := by
  obtain ⟨rest, whole, before, after⟩ := delivers.split
  have valid := delivers.valid ids
  obtain ⟨few, harmless⟩ := tolerated
  rw [whole] at valid harmless
  obtain ⟨first, second⟩ := harmless_split.mp harmless
  have connects := delivers.connects (List.takeWhile_subset _) before
  obtain ⟨s, received, earlier⟩ := recvSetup_passes (identified_early vectors vmId bars shm)
    (valid.mono (List.subset_append_left ..)) connects few first irqfd rest
  obtain ⟨t, read, ready⟩ := ready_read (attach_ready earlier irqfd r)
    ((valid.mono (List.subset_append_right ..)).mono (List.subset_cons_self ..)) second
  rw [List.append_assoc, List.singleton_append, List.nil_append, ← whole] at ready
  refine ⟨t, ?_, ready⟩
  rw [whole, Setup.start, received]
  exact read

theorem start_tolerated (delivers : Delivers fds ms)
    (ids : ∀ p, fds p ≠ [] → p ≤ ivshmemMaxPeers)
    (started : (Setup.identified vmId bars shm).start vectors irqfd r ms = .ok t) :
    Tolerated vectors vmId r shm ms := by
  obtain ⟨rest, whole, before, -⟩ := delivers.split
  have valid := delivers.valid ids
  have connects := delivers.connects (List.takeWhile_subset _) before
  rw [whole] at valid started
  have earlier := identified_early vectors vmId bars shm
  have validFront := valid.mono (List.subset_append_left ..)
  by_cases passes : (∀ posn, (sent posn (early ms)).length ≤ vectors) ∧
      Harmless vectors vmId r shm [] (early ms)
  · obtain ⟨s, received, earlier⟩ :=
      recvSetup_passes earlier validFront connects passes.1 passes.2 irqfd rest
    have ready := attach_ready earlier irqfd r
    rw [Setup.start, received] at started
    refine ⟨passes.1, ?_⟩
    rw [whole]
    refine harmless_split.mpr ⟨passes.2, ?_⟩
    by_contra harm
    obtain ⟨fault, failed⟩ := ready_read_harmed ready
      ((valid.mono (List.subset_append_right ..)).mono (List.subset_cons_self ..)) harm
    have ended := failed.symm.trans started
    cases ended
  · obtain ⟨fault, failed⟩ :=
      recvSetup_fails earlier validFront connects passes irqfd (.shmem :: rest)
    rw [Setup.start, failed] at started
    cases started

/-- Without departures the length of the table is a matter of the descriptors. -/
theorem Delivers.nbPeers_iff (delivers : Delivers fds ms) :
    p < nbPeers ms ↔ p < 16 ∨ ∃ q, p ≤ q ∧ fds q ≠ [] := by
  rw [lt_nbPeers_iff]
  apply or_congr_right
  constructor
  · rintro ⟨m, member, room⟩
    cases m with
    | shmem => exact absurd room (Nat.not_lt_zero p)
    | connect posn fd =>
      refine ⟨posn, Nat.le_of_lt_succ room, ?_⟩
      rw [← delivers.inOrder]
      exact List.ne_nil_of_mem (mem_sent member)
    | disconnect posn => exact absurd member (delivers.stays posn)
  · rintro ⟨q, above, some⟩
    rw [← delivers.inOrder] at some
    obtain ⟨fd, found⟩ := List.exists_mem_of_ne_nil _ some
    obtain ⟨m, member, names⟩ := List.mem_filterMap.mp found
    refine ⟨m, member, ?_⟩
    cases m with
    | connect posn fd =>
      obtain ⟨rfl, -⟩ := Option.ite_none_right_eq_some.mp names
      exact Nat.lt_succ_of_le above
    | _ => cases names

/-- The result depends only on what each peer has sent. -/
theorem Ready.agree (first : Ready vectors vmId irqfd r shm ms s) (sends : Delivers fds ms)
    (second : Ready vectors vmId irqfd r shm ns t) (also : Delivers fds ns) : s.Agree r t := by
  have eventfds : s.eventfds = t.eventfds := by
    funext p
    rw [first.table.fds, second.table.fds, if_neg fun left => sends.stays p left.2,
      if_neg fun left => also.stays p left.2, sends.inOrder, also.inOrder]
  have length : s.dev.peers.length = t.dev.peers.length := by
    rw [first.table.room, second.table.room]
    have same (p : Nat) : p < nbPeers ms ↔ p < nbPeers ns :=
      sends.nbPeers_iff.trans also.nbPeers_iff.symm
    have lower := same (nbPeers ms)
    have upper := same (nbPeers ns)
    omega
  refine ⟨List.ext_getElem length ?_, eventfds, ?_, ?_⟩
  · intro p inside within
    have counts := (first.table.counts p).trans
      ((congrArg List.length (congrFun eventfds p)).trans (second.table.counts p).symm)
    rw [registered_natCast, registered_natCast, List.getElem?_eq_getElem inside,
      List.getElem?_eq_getElem within] at counts
    exact congrArg Peer.mk counts
  · rw [first.published, second.published, eventfds]
  · rw [first.watched, second.watched, eventfds]

/-- Two orders of the same initial messages both complete the start, with the same
result, exactly when in each of them the shared memory comes before the device's
own descriptors and before any that are too many, and the peer that the second VM
signals on its second descriptor is in the table by then. -/
theorem start_order_independent_iff (irqfd : Bool) (r : Role) (bars : Fin 6 → BitVec 64)
    (shm : SharedMemory) (ids : ∀ p, fds p ≠ [] → p ≤ ivshmemMaxPeers) (first : Delivers fds ms)
    (second : Delivers fds ns) :
    (∃ s t, (Setup.identified vmId bars shm).start vectors irqfd r ms = .ok s ∧
        (Setup.identified vmId bars shm).start vectors irqfd r ns = .ok t ∧ s.Agree r t) ↔
      Tolerated vectors vmId r shm ms ∧ Tolerated vectors vmId r shm ns := by
  constructor
  · rintro ⟨s, t, started, also, -⟩
    exact ⟨start_tolerated first ids started, start_tolerated second ids also⟩
  · rintro ⟨tolerated, also⟩
    obtain ⟨s, started, ready⟩ := start_ready first ids tolerated irqfd bars
    obtain ⟨t, restarted, again⟩ := start_ready second ids also irqfd bars
    exact ⟨s, t, started, restarted, ready.agree first again second⟩

/-- The second VM, with id 1. The first one's first descriptor comes before the
shared memory, and the others are interleaved; the stock server sends the memory
first and peer after peer. -/
theorem start_order_independent_peer_first :
    ∃ s t, (Setup.identified 1 (fun _ => 0) .zero).start 2 true .vm2
        [.connect 0 20, .shmem, .connect 1 10, .connect 0 21, .connect 1 11] = .ok s ∧
      (Setup.identified 1 (fun _ => 0) .zero).start 2 true .vm2
        [.shmem, .connect 0 20, .connect 0 21, .connect 1 10, .connect 1 11] = .ok t ∧
      s.Agree .vm2 t := by
  have sends : ∀ p, sent p [.shmem, .connect 0 20, .connect 0 21, .connect 1 10, .connect 1 11] =
      sent p [.connect 0 20, .shmem, .connect 1 10, .connect 0 21, .connect 1 11] := by
    rintro (_ | _ | p) <;> rfl
  have first : Delivers
      (fun p => sent p [.connect 0 20, .shmem, .connect 1 10, .connect 0 21, .connect 1 11])
      [.connect 0 20, .shmem, .connect 1 10, .connect 0 21, .connect 1 11] :=
    ⟨rfl, fun p => rfl, by simp⟩
  have tolerated : Tolerated 2 1 .vm2 .zero
      [.connect 0 20, .shmem, .connect 1 10, .connect 0 21, .connect 1 11] :=
    ⟨fun p => (List.length_filterMap_le ..).trans (by decide), by decide⟩
  refine (start_order_independent_iff true .vm2 _ _ ?_ first ⟨rfl, sends, by simp⟩).mpr
    ⟨tolerated, fun p => Nat.zero_le _, by decide⟩
  rintro (_ | _ | p) some
  · decide
  · decide
  · exact absurd rfl some

def namedBlock (id : BitVec 32) : SharedMemory :=
  SharedMemory.zero.mapVm .vm1 fun v => { v with id }

/-- The device's own first descriptor before the shared memory: `msi_vectors` is
used before it is allocated. The second VM's own descriptors before those of peer
20, which the first one's word names: the table ends before its entry. -/
theorem start_order_matters :
    Delivers (fun p => sent p [.shmem, .connect 0 10]) [.connect 0 10, .shmem] ∧
      Delivers (fun p => sent p [.shmem, .connect 0 10]) [.shmem, .connect 0 10] ∧
      (Setup.identified 0 (fun _ => 0) .zero).start 2 true .vm1 [.connect 0 10, .shmem] =
        .error .msiVectorsUnset ∧
      (∃ t, (Setup.identified 0 (fun _ => 0) .zero).start 2 true .vm1 [.shmem, .connect 0 10] =
        .ok t) ∧
      (Setup.identified 0 (fun _ => 0) (namedBlock 20)).start 2 true .vm2
          [.shmem, .connect 0 10, .connect 0 11, .connect 20 30, .connect 20 31] =
        .error (.peerOutside 20) ∧
      ∃ t, (Setup.identified 0 (fun _ => 0) (namedBlock 20)).start 2 true .vm2
        [.shmem, .connect 20 30, .connect 20 31, .connect 0 10, .connect 0 11] = .ok t :=
  ⟨⟨rfl, fun p => by cases p <;> rfl, by simp⟩, ⟨rfl, fun p => rfl, by simp⟩, rfl, ⟨_, rfl⟩, rfl,
    _, rfl⟩

end IdtNtb.Fabric
