import IdtNtb.Fabric.Setup
import IdtNtb.Lib.Bytes
import IdtNtb.Lib.Framing

/-! The server's byte stream. A message is a little-endian 64-bit number, with a
descriptor that comes along with its first byte. `ivshmem_recv_msg` reads the
initial messages synchronously, however short the reads are, and
`ivshmem_read` collects the later ones in `msg_buf`. -/
namespace IdtNtb.Fabric
open Device Bytes Framing

structure Message where
  value : BitVec 64
  fd : Option Nat
  deriving DecidableEq

structure Cell where
  byte : BitVec 8
  fd : Option Nat
  deriving DecidableEq

def sizeofMsg : Nat := 8

def Message.cells (m : Message) : List Cell :=
  (List.range sizeofMsg).map fun i => ⟨byte m.value.toNat i, if i = 0 then m.fd else none⟩

/-- What has been read of the current message, and the descriptor that
`qemu_chr_fe_get_msgfd` will return. -/
structure Link where
  msgBuf : List (BitVec 8)
  msgfd : Option Nat

def Link.empty : Link := ⟨[], none⟩

def le64ToCpu (bytes : List (BitVec 8)) : BitVec 64 :=
  BitVec.ofNat 64 (bytes.foldr (fun b n => b.toNat + 256 * n) 0)

/-- The character device keeps the last descriptor that has arrived. -/
def latest (fd : Option Nat) (cells : List Cell) : Option Nat :=
  cells.foldl (fun fd c => c.fd.or fd) fd

/-- Bytes are appended; a complete message is decoded and takes the descriptor. -/
def Link.receive (l : Link) (cells : List Cell) : Link × Option Message :=
  let msgBuf := l.msgBuf ++ cells.map Cell.byte
  let msgfd := latest l.msgfd cells
  if msgBuf.length < sizeofMsg then (⟨msgBuf, msgfd⟩, none)
  else (.empty, some ⟨le64ToCpu msgBuf, msgfd⟩)

/-- What a message tells the device, if `process_msg` lets it through. -/
def Message.heard (m : Message) : Option Initial :=
  let msg := m.value.toInt
  if msg < -1 ∨ (ivshmemMaxPeers : Int) < msg then none
  else if msg = -1 then some .shmem
  else match m.fd with
    | some fd => some (.connect msg.toNat fd)
    | none => some (.disconnect msg.toNat)

inductive Failure where
  | assertFailed
  | readFailed
  | wrongVersion (value : Int)
  | invalidVersion
  | invalidId
  | fault (why : Fault)
  deriving DecidableEq

inductive Read where
  | interrupted
  | failed
  | data (cells : List Cell)
  deriving DecidableEq

/-- What the device is built with. `maps` says of a descriptor whether `fstat` and
the mapping succeed. -/
structure Config where
  vectors : Nat
  irqfd : Bool
  role : Role
  bars : Fin 6 → BitVec 64
  shm : SharedMemory
  maps : Nat → Bool

inductive Phase where
  | version
  | id
  | sharedMemory (s : Setup)
  | running (s : Setup)

def ivshmemProtocolVersion : Int := 0

/-- `process_msg`. The memory may not map. -/
def Setup.receive (c : Config) (s : Setup) (m : Message) : Except Fault (Setup × Option Refusal) :=
  match m.heard with
  | none => .ok (s, some .invalidMessage)
  | some heard =>
      if heard = .shmem ∧ s.mapped = false ∧ (m.fd.map c.maps).getD false = false then
        .ok (s, some .sharedMemoryFailed)
      else s.processMsg c.vectors c.irqfd c.role heard

/-- A message by the phase it comes in: the body of `ivshmem_recv_setup` with the
part of realize after it, and of `ivshmem_read`, which only prints an error. -/
def Phase.handle (c : Config) (p : Phase) (m : Message) : Except Failure Phase :=
  match p with
  | .version =>
      if m.value.toInt ≠ ivshmemProtocolVersion then .error (.wrongVersion m.value.toInt)
      else if m.fd ≠ none then .error .invalidVersion
      else .ok .id
  | .id =>
      if m.fd ≠ none ∨ m.value.toInt < 0 ∨ (ivshmemMaxPeers : Int) < m.value.toInt then
        .error .invalidId
      else .ok (.sharedMemory (.identified m.value.toInt.toNat c.bars c.shm))
  | .sharedMemory s =>
      match s.receive c m with
      | .error why => .error (.fault why)
      | .ok (_, some why) => .error (.fault (.refused why))
      | .ok (s, none) =>
          .ok (if m.value.toInt = -1 then .running (s.attach c.role) else .sharedMemory s)
  | .running s =>
      match s.receive c m with
      | .error why => .error (.fault why)
      | .ok (s, _) => .ok (.running s)

/-- `none` where the assertion fails. -/
def ivshmemCanReceive (l : Link) : Option Nat :=
  if l.msgBuf.length < sizeofMsg then some (sizeofMsg - l.msgBuf.length) else none

def ivshmemRead (l : Link) (cells : List Cell) : Except Failure (Link × Option Message) :=
  if l.msgBuf.length + cells.length ≤ sizeofMsg then .ok (l.receive cells) else .error .assertFailed

/-- One turn of the loop in `ivshmem_recv_msg`. -/
def ivshmemRecvMsg (l : Link) : Read → Except Failure (Link × Option Message)
  | .interrupted => .ok (l, none)
  | .failed => .error .readFailed
  | .data cells => .ok (l.receive cells)

/-- A read in each phase. The handler of the running device is only called with
data. -/
def Phase.read (l : Link) (p : Phase) (read : Read) : Except Failure (Link × Option Message) :=
  match p, read with
  | .running _, .data cells => ivshmemRead l cells
  | .running _, _ => .ok (l, none)
  | _, read => ivshmemRecvMsg l read

/-- One read from the server, and the message that it completes. -/
def serverStep (c : Config) (d : Link × Phase) (read : Read) : Except Failure (Link × Phase) :=
  match d.2.read d.1 read with
  | .error why => .error why
  | .ok (l, none) => .ok (l, d.2)
  | .ok (l, some m) => (d.2.handle c m).map fun p => (l, p)

def boot (c : Config) (reads : List Read) : Except Failure (Link × Phase) :=
  reads.foldlM (serverStep c) (.empty, .version)

def chunks (reads : List Read) : List (List Cell) :=
  reads.filterMap fun
    | .data cells => some cells
    | _ => none

def Initial.message (shmfd : Nat) : Initial → Message
  | .shmem => ⟨-1, some shmfd⟩
  | .connect posn fd => ⟨BitVec.ofNat 64 posn, some fd⟩
  | .disconnect posn => ⟨BitVec.ofNat 64 posn, none⟩

def greeting (vmId shmfd : Nat) (ms : List Initial) : List Message :=
  ⟨0, none⟩ :: ⟨BitVec.ofNat 64 vmId, none⟩ :: ms.map (·.message shmfd)

variable {c : Config} {l : Link} {p : Phase} {m : Message} {s t : Setup} {reads : List Read}

theorem latest_append (fd : Option Nat) (a b : List Cell) :
    latest fd (a ++ b) = latest (latest fd a) b :=
  List.foldl_append

theorem latest_silent (fd : Option Nat) (cells : List Cell) (silent : ∀ c ∈ cells, c.fd = none) :
    latest fd cells = fd := by
  induction cells with
  | nil => rfl
  | cons c cells ih =>
    have here := silent c List.mem_cons_self
    rw [latest, List.foldl_cons, here]
    exact ih fun c member => silent c (List.mem_cons_of_mem _ member)

theorem cells_length (m : Message) : m.cells.length = sizeofMsg := by
  rw [Message.cells, List.length_map, List.length_range]

/-- The bytes of a list as a number are what a load from memory reads. -/
theorem foldr_load (m : Memory) (addr width : Nat) :
    ((List.range' addr width).map m).foldr (fun b n => b.toNat + 256 * n) 0 =
      load m addr width := by
  induction width generalizing addr with
  | zero => rfl
  | succ width ih => rw [List.range'_succ, List.map_cons, List.foldr_cons, ih, load]

theorem le64_cells (m : Message) : le64ToCpu (m.cells.map Cell.byte) = m.value := by
  have bytes : m.cells.map Cell.byte = (List.range' 0 sizeofMsg).map (byte m.value.toNat) := by
    rw [Message.cells, List.map_map, List.range_eq_range']
    rfl
  have stored : load (byte m.value.toNat) 0 sizeofMsg =
      load (store (fun _ => 0) 0 sizeofMsg m.value.toNat) 0 sizeofMsg := by
    apply load_congr
    intro x lower upper
    rw [store_inside lower upper, Nat.sub_zero]
  rw [le64ToCpu, bytes, foldr_load, stored, load_store m.value.isLt, BitVec.ofNat_toNat,
    BitVec.setWidth_eq]

theorem latest_cells (m : Message) : latest none m.cells = m.fd := by
  have first : m.cells = ⟨byte m.value.toNat 0, m.fd⟩ ::
      (List.range' 1 7).map fun i => (⟨byte m.value.toNat i, none⟩ : Cell) := rfl
  rw [first, latest, List.foldl_cons, Option.or_none]
  refine latest_silent m.fd _ ?_
  intro cell member
  obtain ⟨i, -, rfl⟩ := List.mem_map.mp member
  rfl

/-- The state of the link for the cells that a buffer of cells would hold. -/
def linkOf (buffer : List Cell) : Link := ⟨buffer.map Cell.byte, latest none buffer⟩

def Phase.handleCells (c : Config) (p : Phase) (block : List Cell) : Except Failure Phase :=
  p.handle c ⟨le64ToCpu (block.map Cell.byte), latest none block⟩

theorem receive_short {buffer chunk : List Cell} (short : (buffer ++ chunk).length < sizeofMsg) :
    (linkOf buffer).receive chunk = (linkOf (buffer ++ chunk), none) := by
  simp only [Link.receive, linkOf, ← List.map_append, ← latest_append,
    List.length_map, if_pos short]

theorem receive_full {buffer chunk : List Cell} (full : ¬(buffer ++ chunk).length < sizeofMsg) :
    (linkOf buffer).receive chunk =
      (.empty, some ⟨le64ToCpu ((buffer ++ chunk).map Cell.byte),
        latest none (buffer ++ chunk)⟩) := by
  simp only [Link.receive, linkOf, ← List.map_append, ← latest_append, List.length_map, if_neg full]

theorem read_data (p : Phase) {buffer chunk : List Cell}
    (fits : buffer.length + chunk.length ≤ sizeofMsg) :
    p.read (linkOf buffer) (.data chunk) = .ok ((linkOf buffer).receive chunk) := by
  cases p with
  | running => exact if_pos (by simpa only [linkOf, List.length_map] using fits)
  | _ => rfl

/-- A read that fits feeds the buffer, in every phase. -/
theorem serverStep_data (p : Phase) {buffer chunk : List Cell}
    (fits : buffer.length + chunk.length ≤ sizeofMsg) :
    serverStep c (linkOf buffer, p) (.data chunk) =
      (feed sizeofMsg (Phase.handleCells c) (buffer, p) chunk).map fun (buffer, p) =>
        (linkOf buffer, p) := by
  by_cases short : (buffer ++ chunk).length < sizeofMsg
  · simp only [serverStep, read_data p fits, receive_short short, feed_short short]
    rfl
  · simp only [serverStep, read_data p fits, receive_full short, feed_full (Nat.not_lt.mp short),
      Phase.handleCells]
    cases p.handle c _ <;> rfl

/-- An interrupted read changes nothing. -/
theorem serverStep_interrupted (d : Link × Phase) : serverStep c d .interrupted = .ok d := by
  obtain ⟨l, p⟩ := d
  cases p <;> rfl

theorem boot_feed (buffer : List Cell) (p : Phase) (calm : .failed ∉ reads)
    (fits : Fits sizeofMsg buffer.length (chunks reads)) :
    reads.foldlM (serverStep c) (linkOf buffer, p) =
      ((chunks reads).foldlM (feed sizeofMsg (Phase.handleCells c)) (buffer, p)).map
        fun (buffer, p) => (linkOf buffer, p) := by
  induction reads generalizing buffer p with
  | nil => rfl
  | cons read reads ih =>
    have rest := List.not_mem_of_not_mem_cons calm
    rw [List.foldlM_cons]
    cases read with
    | interrupted =>
      rw [serverStep_interrupted]
      exact ih buffer p rest fits
    | failed => exact absurd List.mem_cons_self calm
    | data cells =>
      obtain ⟨here, later⟩ := fits
      have split : chunks (.data cells :: reads) = cells :: chunks reads := rfl
      rw [serverStep_data p here, split, List.foldlM_cons]
      by_cases short : (buffer ++ cells).length < sizeofMsg
      · rw [feed_short short]
        rw [← List.length_append, if_pos short] at later
        exact ih (buffer ++ cells) p rest later
      · rw [feed_full (Nat.not_lt.mp short)]
        rw [← List.length_append, if_neg short] at later
        cases p.handleCells c (buffer ++ cells) with
        | error why => rfl
        | ok q => exact ih [] q rest later

/-- The stream of a list of messages, cut anyhow, is handled message by message. -/
theorem boot_messages (calm : .failed ∉ reads) (fits : Fits sizeofMsg 0 (chunks reads))
    (ms : List Message) (sent : (chunks reads).flatten = ms.flatMap Message.cells) :
    boot c reads = (ms.foldlM (Phase.handle c) .version).map fun p => (.empty, p) := by
  have whole : [] ++ (chunks reads).flatten = (ms.map Message.cells).flatten ++ [] := by
    rw [List.nil_append, List.append_nil, sent, List.flatMap_def]
  have sizes : ∀ b ∈ ms.map Message.cells, b.length = sizeofMsg := by
    intro b member
    obtain ⟨m, -, rfl⟩ := List.mem_map.mp member
    exact cells_length m
  have handled : (ms.map Message.cells).foldlM (Phase.handleCells c) .version =
      ms.foldlM (Phase.handle c) .version := by
    simp only [List.foldlM_map, Phase.handleCells, le64_cells, latest_cells]
  have fed : (chunks reads).foldlM (feed sizeofMsg (Phase.handleCells c)) ([], Phase.version) = _ :=
    feed_blocks (by decide) fits whole sizes (by decide) Phase.version
  refine (boot_feed [] .version calm fits).trans ?_
  rw [fed, handled]
  cases ms.foldlM (Phase.handle c) .version <;> rfl

/-- The ids of the messages are numbers that the wire can carry. -/
def Representable (ms : List Initial) : Prop :=
  ∀ m ∈ ms, m.room ≤ 2 ^ 63

theorem Representable.tail {m : Initial} (ids : Representable (m :: ms)) : Representable ms :=
  fun _ member => ids _ (List.mem_cons_of_mem m member)

theorem toInt_posn {posn : Nat} (bound : posn < 2 ^ 63) : (BitVec.ofNat 64 posn).toInt = posn := by
  have word : (BitVec.ofNat 64 posn).toNat = posn := Nat.mod_eq_of_lt (by omega)
  rw [BitVec.toInt_eq_toNat_of_lt (by omega), word]

theorem message_heard (shmfd : Nat) {m : Initial} (id : m.room ≤ 2 ^ 63) :
    (m.message shmfd).heard = if m.room ≤ ivshmemMaxPeers + 1 then some m else none := by
  cases m with
  | shmem => rfl
  | connect posn fd =>
    have value := toInt_posn (Nat.lt_of_succ_le id)
    simp only [Message.heard, Initial.message, value, Initial.room, Nat.add_le_add_iff_right]
    by_cases valid : posn ≤ ivshmemMaxPeers
    · rw [if_neg (by omega), if_neg (by omega), if_pos valid, Int.toNat_natCast]
    · rw [if_pos (by omega), if_neg valid]
  | disconnect posn =>
    have value := toInt_posn (Nat.lt_of_succ_le id)
    simp only [Message.heard, Initial.message, value, Initial.room, Nat.add_le_add_iff_right]
    by_cases valid : posn ≤ ivshmemMaxPeers
    · rw [if_neg (by omega), if_neg (by omega), if_pos valid, Int.toNat_natCast]
    · rw [if_pos (by omega), if_neg valid]

/-- A message of the wire is handled as the message it stands for. -/
theorem receive_initial (maps : c.maps shmfd = true) {m : Initial} (id : m.room ≤ 2 ^ 63)
    (s : Setup) :
    s.receive c (m.message shmfd) = s.processMsg c.vectors c.irqfd c.role m := by
  rw [Setup.receive, message_heard shmfd id]
  by_cases valid : m.room ≤ ivshmemMaxPeers + 1
  · rw [if_pos valid]
    refine if_neg ?_
    rintro ⟨rfl, -, fails⟩
    simp [Initial.message, maps] at fails
  · rw [if_neg valid]
    cases m with
    | shmem => exact absurd (Nat.zero_le _) valid
    | connect posn fd => exact (if_pos (by simpa [Initial.room] using valid)).symm
    | disconnect posn => exact (if_pos (by simpa [Initial.room] using valid)).symm

theorem message_shmem_iff {m : Initial} (id : m.room ≤ 2 ^ 63) :
    (m.message shmfd).value.toInt = -1 ↔ m = .shmem := by
  cases m with
  | shmem => simp [Initial.message]
  | _ => simp [Initial.message, toInt_posn (Nat.lt_of_succ_le id)]

theorem handle_running (maps : c.maps shmfd = true) {m : Initial} (id : m.room ≤ 2 ^ 63)
    (s : Setup) :
    (Phase.running s).handle c (m.message shmfd) =
      match s.processMsg c.vectors c.irqfd c.role m with
      | .error why => .error (.fault why)
      | .ok (s, _) => .ok (.running s) := by
  simp only [Phase.handle, receive_initial maps id]

theorem handle_sharedMemory (maps : c.maps shmfd = true) {m : Initial} (id : m.room ≤ 2 ^ 63)
    (s : Setup) :
    (Phase.sharedMemory s).handle c (m.message shmfd) =
      match s.processMsg c.vectors c.irqfd c.role m with
      | .error why => .error (.fault why)
      | .ok (_, some why) => .error (.fault (.refused why))
      | .ok (s, none) =>
          .ok (if m = .shmem then .running (s.attach c.role) else .sharedMemory s) := by
  simp only [Phase.handle, receive_initial maps id, message_shmem_iff id]

theorem running_messages (maps : c.maps shmfd = true) (ids : Representable ms) (s : Setup) :
    (ms.map (·.message shmfd)).foldlM (Phase.handle c) (.running s) =
      match s.ivshmemRead c.vectors c.irqfd c.role ms with
      | .error why => .error (.fault why)
      | .ok t => .ok (.running t) := by
  induction ms generalizing s with
  | nil => rfl
  | cons m ms ih =>
    rw [List.map_cons, List.foldlM_cons, handle_running maps (ids m List.mem_cons_self),
      Setup.ivshmemRead]
    cases s.processMsg c.vectors c.irqfd c.role m with
    | error why => rfl
    | ok out => exact ih ids.tail out.1

theorem setup_messages (maps : c.maps shmfd = true) (ids : Representable ms) (shared : .shmem ∈ ms)
    (s : Setup) :
    (ms.map (·.message shmfd)).foldlM (Phase.handle c) (.sharedMemory s) =
      match s.start c.vectors c.irqfd c.role ms with
      | .error why => .error (.fault why)
      | .ok t => .ok (.running t) := by
  induction ms generalizing s with
  | nil => exact absurd shared List.not_mem_nil
  | cons m ms ih =>
    rw [List.map_cons, List.foldlM_cons, handle_sharedMemory maps (ids m List.mem_cons_self),
      Setup.start, Setup.ivshmemRecvSetup]
    rcases s.processMsg c.vectors c.irqfd c.role m with why | ⟨t, none | why⟩
    · rfl
    · by_cases last : m = .shmem
      · simp only [if_pos last]
        exact running_messages maps ids.tail (t.attach c.role)
      · simp only [if_neg last]
        exact ih ids.tail ((List.mem_cons.mp shared).resolve_left (Ne.symm last)) t
    · rfl

/-- The device that reads the server's stream, in whatever pieces it arrives, and
through interrupted reads, ends its start as the list of messages makes it. -/
theorem stream_start_eq (c : Config) (maps : c.maps shmfd = true) (valid : vmId ≤ ivshmemMaxPeers)
    (ids : Representable ms) (shared : .shmem ∈ ms) (calm : .failed ∉ reads)
    (fits : Fits sizeofMsg 0 (chunks reads))
    (sent : (chunks reads).flatten = (greeting vmId shmfd ms).flatMap Message.cells) :
    boot c reads =
      match (Setup.identified vmId c.bars c.shm).start c.vectors c.irqfd c.role ms with
      | .error why => .error (.fault why)
      | .ok t => .ok (.empty, .running t) := by
  have value : (BitVec.ofNat 64 vmId).toInt = vmId :=
    toInt_posn (by unfold ivshmemMaxPeers at valid; omega)
  have accepted : ¬((none : Option Nat) ≠ none ∨ (vmId : Int) < 0 ∨
      (ivshmemMaxPeers : Int) < vmId) := by
    simp only [ne_eq, not_true, false_or]
    omega
  have identified : (greeting vmId shmfd ms).foldlM (Phase.handle c) .version =
      (ms.map (·.message shmfd)).foldlM (Phase.handle c)
        (.sharedMemory (.identified vmId c.bars c.shm)) := by
    have version : Phase.version.handle c ⟨0, none⟩ = .ok .id := rfl
    have id : Phase.id.handle c ⟨BitVec.ofNat 64 vmId, none⟩ =
        .ok (.sharedMemory (.identified vmId c.bars c.shm)) := by
      simp only [Phase.handle, value, if_neg accepted, Int.toNat_natCast]
    simp only [greeting, List.foldlM_cons, version, id, bind, Except.bind]
  rw [boot_messages calm fits _ sent, identified, setup_messages maps ids shared]
  cases (Setup.identified vmId c.bars c.shm).start c.vectors c.irqfd c.role ms <;> rfl

def bytewise (stream : List Cell) : List Read := .interrupted :: stream.map fun cell => .data [cell]

def twoVectors : Config := ⟨2, true, .vm1, fun _ => 0, .zero, fun _ => true⟩

/-- A peer's descriptor comes before the shared memory and the device's own after it. -/
def peerFirst : List Initial := [.connect 1 20, .shmem, .connect 0 10]

theorem stream_start_bytewise :
    ∃ t, (Setup.identified 0 (fun _ => 0) .zero).start 2 true .vm1 peerFirst = .ok t ∧
      boot twoVectors (bytewise ((greeting 0 5 peerFirst).flatMap Message.cells)) =
        .ok (.empty, .running t) := by
  have ids : Representable peerFirst := by
    simp [Representable, peerFirst, Initial.room]
  have valid : 0 ≤ ivshmemMaxPeers := Nat.zero_le _
  have maps : twoVectors.maps 5 = true := rfl
  have calm : .failed ∉ bytewise ((greeting 0 5 peerFirst).flatMap Message.cells) := by
    decide +kernel
  exact ⟨_, rfl, stream_start_eq twoVectors maps valid ids (by decide) calm (by decide +kernel)
    (by decide +kernel)⟩

def Message.ofCells (block : List Cell) : Message :=
  ⟨le64ToCpu (block.map Cell.byte), latest none block⟩

def received (reads : List Read) : List Message :=
  (blocks sizeofMsg (chunks reads).flatten).map Message.ofCells

def Failure.crash : Failure → Bool
  | .assertFailed => true
  | .fault why => why.crash
  | _ => false

def Message.vmId (m : Message) : Nat := m.value.toInt.toNat

/-- After the messages `before`, of which the second has the id, a message makes
the device use what is not there. -/
def HarmsAfter (c : Config) : List Message → Message → Prop
  | _ :: id :: rest, m =>
      ∃ heard ∈ m.heard,
        Harms c.vectors id.vmId c.role c.shm (rest.filterMap Message.heard) heard
  | _, _ => False

instance (c : Config) : ∀ before m, Decidable (HarmsAfter c before m)
  | _ :: _ :: _, _ => inferInstanceAs (Decidable (∃ _ ∈ _, _))
  | [], _ | [_], _ => .isFalse id

/-- No message does harm that comes before the start ends. -/
def Unharmed (c : Config) (before : List Message) (p : Phase) : List Message → Prop
  | [] => True
  | m :: ms => ¬HarmsAfter c before m ∧
      match p.handle c m with
      | .error _ => True
      | .ok q => Unharmed c (before ++ [m]) q ms

instance unharmed_decidable (c : Config) : ∀ before p ms, Decidable (Unharmed c before p ms)
  | _, _, [] => .isTrue trivial
  | before, p, m :: ms =>
      match handled : p.handle c m with
      | .error _ => decidable_of_iff (¬HarmsAfter c before m)
          (by simp only [Unharmed, handled, and_true])
      | .ok q =>
          have := unharmed_decidable c (before ++ [m]) q ms
          decidable_of_iff (¬HarmsAfter c before m ∧ Unharmed c (before ++ [m]) q ms)
            (by simp only [Unharmed, handled])

/-- The peer table is within what was allocated: at most as many descriptors of a
peer as the device has vectors, none in a freed array, and at most one entry for
every id. -/
structure Setup.Sound (vectors : Nat) (s : Setup) : Prop where
  counts : ∀ p : Nat, s.dev.registered p = (s.eventfds p).length
  few : ∀ p, (s.eventfds p).length ≤ vectors
  emptied : ∀ p, s.freed p = true → s.eventfds p = []
  table : s.dev.peers.length ≤ ivshmemMaxPeers + 1

/-- Before the shared memory nothing is set up; after it, the watched vectors are
those of the own descriptors that have arrived. -/
def Phase.Sound (c : Config) : Phase → Prop
  | .version | .id => True
  | .sharedMemory s => s.Sound c.vectors ∧ s.mapped = false ∧ s.msiVectors = none
  | .running s => s.Sound c.vectors ∧ s.mapped = true ∧ s.dev.attached = true ∧
      ∃ vmId : Nat, s.dev.vmId = vmId ∧
        s.msiVectors = some ((List.range (s.eventfds vmId).length).filter (Watches c.irqfd))

def Phase.isRunning : Phase → Bool
  | .running _ => true
  | _ => false

/-- The phase that the messages `before` have led to. -/
def Phase.After (c : Config) (before : List Message) : Phase → Prop
  | .version => before = []
  | .id => ∃ version, before = [version]
  | .sharedMemory s => ∃ version id rest, before = version :: id :: rest ∧
      id.vmId ≤ ivshmemMaxPeers ∧
      Early c.vectors id.vmId c.shm (rest.filterMap Message.heard) s
  | .running s => ∃ version id rest, before = version :: id :: rest ∧
      id.vmId ≤ ivshmemMaxPeers ∧
      Ready c.vectors id.vmId c.irqfd c.role c.shm (rest.filterMap Message.heard) s

section withstood
variable {before ms : List Message} {done : List Initial} {heard : Initial} {vmId : Nat}

theorem heard_room (heard : m.heard = some h) : h.room ≤ ivshmemMaxPeers + 1 := by
  simp only [Message.heard] at heard
  split at heard
  · cases heard
  split at heard
  · cases heard
    exact Nat.zero_le _
  split at heard <;> cases heard <;> simp only [Initial.room] <;> omega

theorem heard_shmem_iff (heard : m.heard = some h) : m.value.toInt = -1 ↔ h = .shmem := by
  simp only [Message.heard] at heard
  split at heard
  · cases heard
  split at heard
  · rename_i shmem
    cases heard
    simp [shmem]
  · rename_i peer
    split at heard <;> cases heard <;> simp [peer]

theorem heard_valid (rest : List Message) : ValidIds (rest.filterMap Message.heard) := by
  intro h member
  obtain ⟨m, -, heard⟩ := List.mem_filterMap.mp member
  exact heard_room heard

theorem heard_next (heard : m.heard = some h) (rest : List Message) :
    (rest ++ [m]).filterMap Message.heard = rest.filterMap Message.heard ++ [h] := by
  rw [List.filterMap_append, List.filterMap_cons_some heard, List.filterMap_nil]

theorem unheard_next (ignored : m.heard = none) (rest : List Message) :
    (rest ++ [m]).filterMap Message.heard = rest.filterMap Message.heard := by
  rw [List.filterMap_append, List.filterMap_cons_none ignored, List.filterMap_nil,
    List.append_nil]

theorem Tabulates.sound (tab : Tabulates vectors vmId done s) (valid : ValidIds done) :
    s.Sound vectors := by
  refine ⟨tab.counts, ?_, ?_, ?_⟩
  · intro p
    rw [tab.fds]
    split
    · exact Nat.zero_le _
    · rw [List.length_take]
      exact Nat.min_le_left ..
  · intro p freed
    rw [tab.fds, if_pos ((tab.freed p).mp freed).2]
  · rw [tab.room]
    exact nbPeers_le valid

theorem Phase.After.sound (after : p.After c before) : p.Sound c := by
  cases p with
  | version | id => trivial
  | sharedMemory s =>
    obtain ⟨_, _, rest, -, -, earlier⟩ := after
    exact ⟨earlier.table.sound (heard_valid rest), earlier.unmapped, earlier.unset⟩
  | running s =>
    obtain ⟨_, id, rest, -, -, ready⟩ := after
    exact ⟨ready.table.sound (heard_valid rest), ready.mapped, ready.attached, id.vmId,
      ready.table.own, ready.watched⟩

/-- Once the memory is mapped, or for another message, nothing can fail to map. -/
theorem receive_heard (heard : m.heard = some h) (maps : h = .shmem → s.mapped = true) :
    s.receive c m = s.processMsg c.vectors c.irqfd c.role h := by
  rw [Setup.receive, heard]
  refine if_neg ?_
  rintro ⟨shmem, unmapped, -⟩
  rw [maps shmem] at unmapped
  cases unmapped

/-- A message before the shared memory ends the start with a report, or the start
goes on, with the memory or without it. -/
theorem sharedMemory_unharmed {s : Setup} (after : (Phase.sharedMemory s).After c before)
    (unharmed : ¬HarmsAfter c before m) :
    (∃ why, (Phase.sharedMemory s).handle c m = .error why ∧ why.crash = false) ∨
      ∃ q, (Phase.sharedMemory s).handle c m = .ok q ∧ q.After c (before ++ [m]) := by
  obtain ⟨version, id, rest, rfl, valid, earlier⟩ := after
  simp only [Phase.handle]
  cases heard : m.heard with
  | none =>
    simp only [Setup.receive, heard]
    exact Or.inl ⟨_, rfl, rfl⟩
  | some h =>
    have harmless : ¬Harms c.vectors id.vmId c.role c.shm (rest.filterMap Message.heard) h :=
      fun harm => unharmed ⟨h, heard, harm⟩
    simp only [heard_shmem_iff heard]
    by_cases shmem : h = .shmem
    · subst shmem
      by_cases maps : (m.fd.map c.maps).getD false = false
      · have failed : s.receive c m = .ok (s, some .sharedMemoryFailed) := by
          rw [Setup.receive, heard]
          exact if_pos ⟨rfl, earlier.unmapped, maps⟩
        rw [failed]
        exact Or.inl ⟨_, rfl, rfl⟩
      · have mapped : s.receive c m = .ok ({ s with mapped := true }, none) := by
          rw [Setup.receive, heard]
          refine (if_neg fun fails => maps fails.2.2).trans ?_
          simp only [Setup.processMsg, earlier.unmapped, Bool.false_eq_true, if_false]
        rw [mapped]
        refine Or.inr ⟨_, rfl, version, id, rest ++ [m], rfl, valid, ?_⟩
        rw [heard_next heard]
        exact attach_ready earlier c.irqfd c.role
    · rw [receive_heard heard fun same => absurd same shmem]
      simp only [if_neg shmem]
      rcases early_step earlier (heard_room heard) harmless shmem c.irqfd with
        ⟨t, why, refused⟩ | ⟨t, processed, next⟩
      · rw [refused]
        exact Or.inl ⟨_, rfl, rfl⟩
      · rw [processed]
        refine Or.inr ⟨_, rfl, version, id, rest ++ [m], rfl, valid, ?_⟩
        rwa [heard_next heard]

/-- A running device only prints what is wrong with a message. -/
theorem running_unharmed {s : Setup} (after : (Phase.running s).After c before)
    (unharmed : ¬HarmsAfter c before m) :
    ∃ t, (Phase.running s).handle c m = .ok (.running t) ∧
      (Phase.running t).After c (before ++ [m]) := by
  obtain ⟨version, id, rest, rfl, valid, ready⟩ := after
  simp only [Phase.handle]
  cases heard : m.heard with
  | none =>
    simp only [Setup.receive, heard]
    refine ⟨_, rfl, version, id, rest ++ [m], rfl, valid, ?_⟩
    rwa [unheard_next heard]
  | some h =>
    have harmless : ¬Harms c.vectors id.vmId c.role c.shm (rest.filterMap Message.heard) h :=
      fun harm => unharmed ⟨h, heard, harm⟩
    obtain ⟨t, why, processed, next⟩ := ready_step ready (heard_room heard) harmless
    rw [receive_heard heard fun _ => ready.mapped, processed]
    refine ⟨_, rfl, version, id, rest ++ [m], rfl, valid, ?_⟩
    rwa [heard_next heard]

theorem handle_unharmed (after : p.After c before) (unharmed : ¬HarmsAfter c before m) :
    (∃ why, p.handle c m = .error why ∧ why.crash = false ∧ p.isRunning = false) ∨
      ∃ q, p.handle c m = .ok q ∧ q.After c (before ++ [m]) ∧ (p.isRunning → q.isRunning) := by
  have starting {q : Phase} (running : false = true) : q.isRunning = true :=
    absurd running Bool.false_ne_true
  cases p with
  | version =>
    obtain rfl : before = [] := after
    unfold Phase.handle
    dsimp only
    split
    · exact Or.inl ⟨_, rfl, rfl, rfl⟩
    split
    · exact Or.inl ⟨_, rfl, rfl, rfl⟩
    · exact Or.inr ⟨_, rfl, ⟨m, rfl⟩, starting⟩
  | id =>
    obtain ⟨version, rfl⟩ := after
    unfold Phase.handle
    dsimp only
    split
    · exact Or.inl ⟨_, rfl, rfl, rfl⟩
    · rename_i accepted
      refine Or.inr ⟨_, rfl, ⟨version, m, [], rfl, ?_, ?_⟩, starting⟩
      · simp only [Message.vmId]
        omega
      · exact identified_early c.vectors m.vmId c.bars c.shm
  | sharedMemory s =>
    rcases sharedMemory_unharmed after unharmed with ⟨why, failed, reported⟩ | ⟨q, handled, next⟩
    · exact Or.inl ⟨why, failed, reported, rfl⟩
    · exact Or.inr ⟨q, handled, next, starting⟩
  | running s =>
    obtain ⟨t, handled, next⟩ := running_unharmed after unharmed
    exact Or.inr ⟨_, handled, next, id⟩

theorem handle_harmed (after : p.After c before) (harm : HarmsAfter c before m) :
    ∃ why, p.handle c m = .error why ∧ why.crash = true := by
  cases p with
  | version =>
    obtain rfl : before = [] := after
    exact harm.elim
  | id =>
    obtain ⟨version, rfl⟩ := after
    exact harm.elim
  | sharedMemory s =>
    obtain ⟨version, id, rest, rfl, valid, earlier⟩ := after
    obtain ⟨h, heard, harm⟩ := harm
    have other : h ≠ .shmem := by
      rintro rfl
      exact harm
    obtain ⟨fault, failed, crash⟩ := early_harmed earlier (heard_room heard) harm c.irqfd
    refine ⟨.fault fault, ?_, crash⟩
    simp only [Phase.handle, receive_heard heard fun same => absurd same other, failed]
  | running s =>
    obtain ⟨version, id, rest, rfl, valid, ready⟩ := after
    obtain ⟨h, heard, harm⟩ := harm
    obtain ⟨fault, failed, crash⟩ := ready_harmed ready (heard_room heard) harm
    refine ⟨.fault fault, ?_, crash⟩
    simp only [Phase.handle, receive_heard heard fun _ => ready.mapped, failed]

theorem messages_unharmed (after : p.After c before) (unharmed : Unharmed c before p ms) :
    (∃ why, ms.foldlM (Phase.handle c) p = .error why ∧ why.crash = false ∧
        p.isRunning = false) ∨
      ∃ q, ms.foldlM (Phase.handle c) p = .ok q ∧ q.After c (before ++ ms) ∧
        (p.isRunning → q.isRunning) := by
  induction ms generalizing before p with
  | nil => exact Or.inr ⟨p, rfl, by rwa [List.append_nil], id⟩
  | cons m ms ih =>
    obtain ⟨here, later⟩ := unharmed
    rw [List.foldlM_cons]
    rcases handle_unharmed after here with ⟨why, failed, rest⟩ | ⟨q, handled, next, runs⟩
    · rw [failed]
      exact Or.inl ⟨why, rfl, rest⟩
    · rw [handled] at later ⊢
      rcases ih next later with ⟨why, failed, reported, starting⟩ | ⟨u, finished, last, on⟩
      · refine Or.inl ⟨why, failed, reported, ?_⟩
        rw [← Bool.not_eq_true] at starting ⊢
        exact fun running => starting (runs running)
      · rw [List.append_assoc] at last
        exact Or.inr ⟨u, finished, last, fun running => on (runs running)⟩

theorem messages_harmed (after : p.After c before) (harm : ¬Unharmed c before p ms) :
    ∃ why, ms.foldlM (Phase.handle c) p = .error why ∧ why.crash = true := by
  induction ms generalizing before p with
  | nil => exact absurd trivial harm
  | cons m ms ih =>
    rw [List.foldlM_cons]
    by_cases here : HarmsAfter c before m
    · obtain ⟨why, failed, crash⟩ := handle_harmed after here
      rw [failed]
      exact ⟨why, rfl, crash⟩
    · rcases handle_unharmed after here with ⟨why, failed, -⟩ | ⟨q, handled, next, -⟩
      · exact absurd ⟨here, by simp only [failed]⟩ harm
      · rw [handled]
        refine ih next fun later => harm ⟨here, ?_⟩
        simp only [handled]
        exact later

theorem messages_after (after : p.After c before)
    (handled : ms.foldlM (Phase.handle c) p = .ok q) : q.After c (before ++ ms) := by
  have unharmed : Unharmed c before p ms := by
    by_contra harm
    obtain ⟨why, failed, -⟩ := messages_harmed after harm
    rw [failed] at handled
    cases handled
  rcases messages_unharmed after unharmed with ⟨why, failed, -⟩ | ⟨u, finished, last, -⟩
  · rw [failed] at handled
    cases handled
  · rw [finished] at handled
    cases handled
    exact last

theorem Unharmed.rest (unharmed : Unharmed c before p (ms ++ more))
    (handled : ms.foldlM (Phase.handle c) p = .ok q) : Unharmed c (before ++ ms) q more := by
  induction ms generalizing before p with
  | nil =>
    cases handled
    rwa [List.append_nil]
  | cons m ms ih =>
    obtain ⟨-, later⟩ := unharmed
    rw [List.foldlM_cons] at handled
    cases head : p.handle c m with
    | error why =>
      rw [head] at handled
      cases handled
    | ok u =>
      rw [head] at handled later
      rw [List.append_cons]
      exact ih later handled

end withstood

/-- Whatever is read, the messages are the stream's blocks. -/
theorem boot_received (calm : .failed ∉ reads) (fits : Fits sizeofMsg 0 (chunks reads)) :
    boot c reads = ((received reads).foldlM (Phase.handle c) .version).map fun p =>
      (linkOf (remainder sizeofMsg (chunks reads).flatten), p) := by
  have fed : (chunks reads).foldlM (feed sizeofMsg (Phase.handleCells c)) ([], Phase.version) = _ :=
    feed_stream (by decide) fits Phase.version
  have handled : (blocks sizeofMsg (chunks reads).flatten).foldlM (Phase.handleCells c) .version =
      (received reads).foldlM (Phase.handle c) .version := by
    simp only [received, List.foldlM_map]
    rfl
  refine (boot_feed [] .version calm fits).trans ?_
  rw [fed, handled]
  cases (received reads).foldlM (Phase.handle c) .version <;> rfl

theorem received_begin (front back : List Read) : received front <+: received (front ++ back) := by
  have split : chunks (front ++ back) = chunks front ++ chunks back := List.filterMap_append
  rw [received, received, split, List.flatten_append]
  exact (blocks_begin sizeofMsg ..).map _

/-- The device withstands what it reads. If its start ends, it reports why; the
buffer has room for the next read and the peer table is within its bounds; and
once the device runs, it goes on. -/
structure Withstands (c : Config) (reads : List Read) : Prop where
  reported : ∀ why, boot c reads = .error why → why.crash = false
  sound : ∀ l p, boot c reads = .ok (l, p) →
    ivshmemCanReceive l = some (sizeofMsg - l.msgBuf.length) ∧ p.Sound c
  runs : ∀ front back l s, reads = front ++ back → boot c front = .ok (l, .running s) →
    ∃ l' t, boot c reads = .ok (l', .running t)

/-- Every stream of bytes and descriptors, in pieces no longer than
`ivshmem_can_receive` allows, is withstood exactly when no message does harm that
comes before the start ends. -/
theorem stream_withstood_iff (c : Config) (calm : .failed ∉ reads)
    (fits : Fits sizeofMsg 0 (chunks reads)) :
    Withstands c reads ↔ Unharmed c [] .version (received reads) := by
  have start : Phase.version.After c [] := rfl
  have booted := boot_received (c := c) calm fits
  constructor
  · intro withstands
    by_contra harm
    obtain ⟨why, failed, crash⟩ := messages_harmed start harm
    rw [failed] at booted
    rw [withstands.reported why booted] at crash
    cases crash
  · intro unharmed
    refine ⟨?_, ?_, ?_⟩
    · intro why ended
      rcases messages_unharmed start unharmed with ⟨cause, failed, reported, -⟩ | ⟨q, finished, -⟩
      · rw [booted, failed] at ended
        cases ended
        exact reported
      · rw [booted, finished] at ended
        cases ended
    · intro l p reached
      rcases messages_unharmed start unharmed with ⟨cause, failed, -⟩ | ⟨q, finished, after, -⟩
      · rw [booted, failed] at reached
        cases reached
      · rw [booted, finished] at reached
        cases reached
        refine ⟨if_pos ?_, after.sound⟩
        rw [linkOf, List.length_map]
        exact remainder_short (by decide) _
    · rintro front back l s rfl running
      have split : chunks (front ++ back) = chunks front ++ chunks back := List.filterMap_append
      rw [split] at fits
      have first := boot_received (c := c)
        (fun failed => calm (List.mem_append_left back failed)) fits.front
      obtain ⟨more, whole⟩ := received_begin front back
      cases led : (received front).foldlM (Phase.handle c) .version with
      | error why =>
        rw [first, led] at running
        cases running
      | ok p =>
        rw [first, led] at running
        cases running
        rw [← whole] at unharmed booted
        have after : (Phase.running s).After c (received front) := messages_after start led
        rcases messages_unharmed after (unharmed.rest led) with
          ⟨-, -, -, starting⟩ | ⟨q, finished, -, on⟩
        · cases starting
        · cases q with
          | running t =>
            rw [booted, List.foldlM_append, led]
            exact ⟨_, t, congrArg _ finished⟩
          | _ => exact absurd (on rfl) Bool.false_ne_true

def garbage : List Cell :=
  (Message.mk (-7) (some 3)).cells ++ (Message.mk 1 none).cells.take 4

/-- The other half, and the same message again. -/
def departures : List Cell :=
  (Message.mk 1 none).cells.drop 4 ++ (Message.mk 1 none).cells

/-- The device ignores the id and waits for the half; a peer that leaves twice has
its array freed twice. -/
theorem stream_withstood_garbage :
    Withstands twoVectors (bytewise ((greeting 0 5 peerFirst).flatMap Message.cells ++ garbage)) ∧
      ¬Withstands twoVectors (bytewise ((greeting 0 5 peerFirst).flatMap Message.cells ++
        garbage ++ departures)) := by
  constructor
  · refine (stream_withstood_iff twoVectors ?_ ?_).mpr ?_
    all_goals decide +kernel
  · intro withstands
    refine absurd ((stream_withstood_iff twoVectors ?_ ?_).mp withstands) ?_
    all_goals decide +kernel

end IdtNtb.Fabric
