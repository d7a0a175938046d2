import IdtNtb.App.Frames

/-! Frame integrity. A write on A starts to overwrite B's only buffer as soon as
A's mutex is free, whether or not B is done with the frame before it. Frames
arrive whole in every run in which a write finds B drained; an overlapping write
shows what happens otherwise. -/
namespace IdtNtb.App.Frame
open Bytes Kernel Transition

/-- Nothing of an earlier frame is left on B: no KICK is waiting or being
handled, no frame is on offer, no read is copying. -/
structure Drained (s : Frames n) : Prop where
  inbox : s.inbox = none
  worker : s.worker = .idle
  offered : s.b.rxAvail = false
  readers : ∀ id, s.readers id = none

instance (s : Frames n) : Decidable (Drained s) :=
  decidable_of_iff
    (s.inbox = none ∧ s.worker = .idle ∧ s.b.rxAvail = false ∧ ∀ id, s.readers id = none)
    ⟨fun ⟨inbox, worker, offered, readers⟩ => ⟨inbox, worker, offered, readers⟩,
      fun ⟨inbox, worker, offered, readers⟩ => ⟨inbox, worker, offered, readers⟩⟩

/-- A write that passes its checks finds B drained. -/
def OneAtATime (s : Frames n) : Label n → Prop
  | .write payload =>
      payload.length ≠ 0 → (s.a.checkTx payload.length).isOk → Drained s
  | _ => True

instance (s : Frames n) (l : Label n) : Decidable (OneAtATime s l) := by
  cases l <;> unfold OneAtATime <;> infer_instance

def PayloadIn (mem : Memory) (payload : Payload) (done : Nat) : Prop :=
  ∀ i < done, payload[i]? = some (mem (frameSize + i))

/-- A complete frame as `complete_rx` and `read` see it. -/
structure Holds (mem : Memory) (payload : Payload) : Prop where
  len : load mem 4 4 = payload.length
  bytes : PayloadIn mem payload payload.length

def Written (mem : Memory) : WriteCall → Prop
  | .copy payload done =>
      payload.length ≤ u32Max ∧ done ≤ payload.length ∧ PayloadIn mem payload done
  | .header payload seq done =>
      payload.length ≤ u32Max ∧ PayloadIn mem payload payload.length ∧ done < frameSize ∧
        ∀ i < done, mem i = headerByte payload.length seq i
  | .kick payload => Holds mem payload

def Copying (payload : Payload) (call : ReadCall) : Prop :=
  call.len = payload.length ∧ call.copied = payload.take call.copied.length

/-- B is at work on one complete frame whose KICK it was given. -/
structure Delivered (s : Frames n) (payload : Payload) : Prop where
  writer : s.writer = none
  holds : Holds s.mem payload
  worker : ∀ len, s.worker = .publish len → len = payload.length
  offered : s.b.rxAvail = true → s.b.rxLen = payload.length
  readers : ∀ id call, s.readers id = some call → Copying payload call

def Intact (es : List Event) : Prop :=
  ∀ payload, Event.read (.ok payload) ∈ es → Event.kicked payload ∈ es

inductive Phase (es : List Event) (s : Frames n) : Prop where
  | writing (drained : Drained s) (written : ∀ call, s.writer = some call → Written s.mem call)
  | delivered (payload : Payload) (kicked : Event.kicked payload ∈ es)
      (at_work : Delivered s payload)

structure Inv (es : List Event) (s : Frames n) : Prop where
  intact : Intact es
  phase : Phase es s

theorem load_header (written : ∀ i < frameSize, mem i = headerByte len seq i)
    (fits : len ≤ u32Max) :
    load mem 4 4 = len := by
  have same : load mem 4 4 = load (store mem 4 4 len) 4 4 := by
    apply load_congr
    intro x lower upper
    rw [written x (by simp only [frameSize]; omega), store_inside lower upper]
    simp only [headerByte, show ¬x < 4 by omega, show x < 8 by omega, if_false, if_true]
  rw [same]
  exact load_store (by simp only [u32Max] at fits; omega)

theorem payloadIn_update (before : PayloadIn mem payload done)
    (next : payload[done]? = some value) :
    PayloadIn (Function.update mem (frameSize + done) value) payload (done + 1) := by
  intro i below
  rcases Nat.lt_succ_iff_lt_or_eq.mp below with earlier | rfl
  · rw [Function.update_of_ne (by omega)]
    exact before i earlier
  · rw [Function.update_self]
    exact next

/-- The header lies below the payload. -/
theorem payloadIn_header (before : PayloadIn mem payload done) (low : x < frameSize) :
    PayloadIn (Function.update mem x value) payload done := by
  intro i below
  rw [Function.update_of_ne (by omega)]
  exact before i below

theorem checkTx_len {app : AppDev} (passed : app.checkTx len = .ok ()) : len ≤ u32Max := by
  simp only [AppDev.checkTx] at passed
  split_ifs at passed with _ _ long
  omega

/-- Reporting anything but a payload keeps what was returned intact. -/
theorem Intact.append (intact : Intact es) (quiet : ∀ payload, Event.read (.ok payload) ∉ more) :
    Intact (es ++ more) := by
  intro payload member
  rcases List.mem_append.mp member with earlier | later
  · exact List.mem_append_left _ (intact payload earlier)
  · exact absurd later (quiet payload)

theorem Phase.append (phase : Phase es s) : Phase (es ++ more) s := by
  cases phase with
  | writing drained written => exact .writing drained written
  | delivered payload kicked at_work =>
    exact .delivered payload (List.mem_append_left _ kicked) at_work

/-- A report that changes nothing. -/
theorem Inv.report (held : Inv es s) (quiet : ∀ payload, Event.read (.ok payload) ∉ more) :
    Inv (es ++ more) s :=
  ⟨held.intact.append quiet, held.phase.append⟩

/-- A's own record plays no part in the invariant. -/
theorem Inv.device {s : Frames n} (held : Inv es s) (a : AppDev) : Inv (es ++ []) { s with a } := by
  refine ⟨held.intact.append (by simp), ?_⟩
  cases held.phase with
  | writing drained written =>
    exact .writing ⟨drained.inbox, drained.worker, drained.offered, drained.readers⟩ written
  | delivered payload kicked at_work =>
    exact .delivered payload (List.mem_append_left _ kicked)
      ⟨at_work.writer, at_work.holds, at_work.worker, at_work.offered, at_work.readers⟩

theorem write_inv {s : Frames n} (held : Inv es s) (alone : OneAtATime s (.write payload))
    (stepped : writeStart s payload = (t, more)) : Inv (es ++ more) t := by
  unfold writeStart at stepped
  split_ifs at stepped with empty
  · obtain ⟨rfl, rfl⟩ := Prod.mk.inj stepped
    exact held.report (by simp)
  · cases checked : s.a.checkTx payload.length with
    | error e =>
      rw [checked] at stepped
      obtain ⟨rfl, rfl⟩ := Prod.mk.inj stepped
      exact held.report (by simp)
    | ok done =>
      rw [checked] at stepped
      obtain ⟨rfl, rfl⟩ := Prod.mk.inj stepped
      have drained : Drained s := alone empty (by rw [checked]; rfl)
      refine ⟨held.intact.append (by simp), .writing ⟨drained.inbox, drained.worker,
        drained.offered, drained.readers⟩ ?_⟩
      intro call entered
      obtain rfl := Option.some.inj entered
      exact ⟨checkTx_len checked, Nat.zero_le _, fun i below => absurd below (Nat.not_lt_zero i)⟩

/-- While a write is in progress B is drained. -/
theorem Inv.writing {s : Frames n} (held : Inv es s) (active : s.writer = some call) :
    Drained s ∧ Written s.mem call := by
  cases held.phase with
  | writing drained written => exact ⟨drained, written call active⟩
  | delivered payload _ at_work => rw [at_work.writer] at active; cases active

/-- A step of the write that neither ends in a KICK nor touches B's record. -/
theorem Inv.written {s : Frames n} (held : Inv es s) (drained : Drained s) (a : AppDev)
    (mem : Memory) (writer : Option WriteCall) (quiet : ∀ payload, Event.read (.ok payload) ∉ more)
    (written : ∀ call, writer = some call → Written mem call) :
    Inv (es ++ more) { s with a, mem, writer } :=
  ⟨held.intact.append quiet,
    .writing ⟨drained.inbox, drained.worker, drained.offered, drained.readers⟩ written⟩

theorem copy_inv {s : Frames n} (held : Inv es s) (active : s.writer = some (.copy payload done))
    (stepped : writeNext s ok (.copy payload done) = some (t, more)) : Inv (es ++ more) t := by
  obtain ⟨drained, fits, below, before⟩ := held.writing active
  simp only [writeNext] at stepped
  cases next : payload[done]? with
  | some value =>
    rw [next] at stepped
    cases ok with
    | true =>
      cases stepped
      refine held.written drained s.a _ _ (by simp) ?_
      intro call entered
      obtain rfl := Option.some.inj entered
      exact ⟨fits, (List.getElem?_eq_some_iff.mp next).1, payloadIn_update before next⟩
    | false =>
      cases stepped
      exact held.written drained s.a s.mem none (by simp) (nofun)
  | none =>
    rw [next] at stepped
    have complete : done = payload.length :=
      Nat.le_antisymm below (List.getElem?_eq_none_iff.mp next)
    cases committed : (if ok then s.a.checkTx payload.length else .error .enodev) with
    | error e =>
      rw [committed] at stepped
      cases stepped
      exact held.written drained s.a s.mem none (by simp) (nofun)
    | ok passed =>
      rw [committed] at stepped
      cases stepped
      refine held.written drained _ s.mem _ (by simp) ?_
      intro call entered
      obtain rfl := Option.some.inj entered
      exact ⟨fits, complete ▸ before, by decide, fun i below => absurd below (Nat.not_lt_zero i)⟩

theorem header_inv {s : Frames n} (held : Inv es s)
    (active : s.writer = some (.header payload seq done))
    (stepped : writeNext s ok (.header payload seq done) = some (t, more)) :
    Inv (es ++ more) t := by
  obtain ⟨drained, fits, complete, below, before⟩ := held.writing active
  cases stepped
  have extended : ∀ i < done + 1,
      Function.update s.mem done (headerByte payload.length seq done) i =
        headerByte payload.length seq i := by
    intro i bound
    rcases Nat.lt_succ_iff_lt_or_eq.mp bound with earlier | rfl
    · rw [Function.update_of_ne (by omega)]
      exact before i earlier
    · rw [Function.update_self]
  refine held.written drained s.a _ _ (by simp) ?_
  intro call entered
  obtain rfl := Option.some.inj entered
  split_ifs with more
  · exact ⟨fits, payloadIn_header complete below, more, extended⟩
  · have last : done + 1 = frameSize := by omega
    exact ⟨load_header (last ▸ extended) fits, payloadIn_header complete below⟩

/-- The KICK makes the frame B's. -/
theorem kick_inv {s : Frames n} (held : Inv es s) (active : s.writer = some (.kick payload))
    (stepped : writeNext s ok (.kick payload) = some (t, more)) : Inv (es ++ more) t := by
  obtain ⟨drained, whole⟩ := held.writing active
  cases ok with
  | true =>
    simp only [writeNext, drained.inbox] at stepped
    cases stepped
    refine ⟨held.intact.append (by simp), .delivered payload (by simp) ⟨rfl, whole, ?_, ?_, ?_⟩⟩
    · intro len publishing
      exact absurd (drained.worker.symm.trans publishing) (nofun)
    · intro offered
      exact absurd (drained.offered.symm.trans offered) (nofun)
    · intro id call reading
      exact absurd ((drained.readers id).symm.trans reading) (nofun)
  | false =>
    cases stepped
    exact held.written drained s.a s.mem none (by simp) (nofun)

theorem writeNext_inv {s : Frames n} (held : Inv es s) (active : s.writer = some call)
    (stepped : writeNext s ok call = some (t, more)) : Inv (es ++ more) t := by
  cases call with
  | copy payload done => exact copy_inv held active stepped
  | header payload seq done => exact header_inv held active stepped
  | kick payload => exact kick_inv held active stepped

/-- A step of B on the frame it was given. -/
theorem Inv.worked {s t : Frames n} (held : Inv es s)
    (quiet : ∀ payload, Event.read (.ok payload) ∉ more) (kicked : Event.kicked payload ∈ es)
    (at_work : Delivered t payload) : Inv (es ++ more) t :=
  ⟨held.intact.append quiet, .delivered payload (List.mem_append_left _ kicked) at_work⟩

theorem workNext_inv {s : Frames n} (held : Inv es s)
    (stepped : workNext s s.worker = some (t, more)) : Inv (es ++ more) t := by
  cases held.phase with
  | writing drained written =>
    rw [drained.worker, workNext, drained.inbox] at stepped
    cases stepped
  | delivered payload kicked at_work =>
    obtain ⟨writer, whole, publishing, offered, readers⟩ := at_work
    cases working : s.worker with
    | idle =>
      rw [working, workNext] at stepped
      obtain ⟨data, _, moved⟩ := Option.map_eq_some_iff.mp stepped
      cases moved
      exact held.worked (by simp) kicked ⟨writer, whole, nofun, offered, readers⟩
    | magic data =>
      rw [working] at stepped
      cases stepped
      exact held.worked (by simp) kicked ⟨writer, whole, nofun, offered, readers⟩
    | len data magic =>
      rw [working, workNext] at stepped
      split_ifs at stepped with accepted
      · cases stepped
        refine held.worked (by simp) kicked ⟨writer, whole, ?_, offered, readers⟩
        intro len entered
        exact (RxWork.publish.inj entered).symm.trans whole.len
      · cases stepped
        exact held.worked (by simp) kicked ⟨writer, whole, nofun, offered, readers⟩
    | publish len =>
      rw [working] at stepped
      cases stepped
      exact held.worked (by simp) kicked
        ⟨writer, whole, nofun, fun _ => publishing len working, readers⟩

theorem readers_update {readers : Fin n → Option ReadCall}
    (before : ∀ id call, readers id = some call → Copying payload call)
    (changed : Option ReadCall) (new : ∀ call, changed = some call → Copying payload call)
    (id : Fin n) :
    ∀ i call, Function.update readers id changed i = some call → Copying payload call := by
  intro i call found
  by_cases same : i = id
  · subst same
    rw [Function.update_self] at found
    exact new call found
  · rw [Function.update_of_ne same] at found
    exact before i call found

theorem readStart_inv {s : Frames n} {id : Fin n} (held : Inv es s)
    (stepped : readStart s id count = (t, more)) : Inv (es ++ more) t := by
  unfold readStart at stepped
  split_ifs at stepped with empty removed offered long
  · obtain ⟨rfl, rfl⟩ := Prod.mk.inj stepped
    exact held.report (by simp)
  · obtain ⟨rfl, rfl⟩ := Prod.mk.inj stepped
    exact held.report (by simp)
  · obtain ⟨rfl, rfl⟩ := Prod.mk.inj stepped
    exact held.report (by simp)
  · obtain ⟨rfl, rfl⟩ := Prod.mk.inj stepped
    exact held.report (by simp)
  · obtain ⟨rfl, rfl⟩ := Prod.mk.inj stepped
    have available : s.b.rxAvail = true := by simpa using offered
    cases held.phase with
    | writing drained written => rw [drained.offered] at available; cases available
    | delivered payload kicked at_work =>
      refine held.worked (by simp) kicked ⟨at_work.writer, at_work.holds, at_work.worker,
        at_work.offered, readers_update at_work.readers _ ?_ id⟩
      intro call entered
      obtain rfl := Option.some.inj entered
      exact ⟨at_work.offered available, rfl⟩

/-- The next byte of a whole frame extends what a read has copied. -/
theorem Copying.next (copying : Copying payload call) (whole : Holds mem payload)
    (below : call.copied.length < call.len) :
    Copying payload { call with copied := call.copied ++
      [mem (frameSize + call.copied.length)] } := by
  obtain ⟨length, same⟩ := copying
  refine ⟨length, ?_⟩
  have found := whole.bytes call.copied.length (length ▸ below)
  dsimp only
  rw [List.length_append, List.length_singleton, List.take_add_one, found, ← same]
  rfl

theorem Copying.complete (copying : Copying payload call) (done : ¬call.copied.length < call.len) :
    call.copied = payload := by
  obtain ⟨length, same⟩ := copying
  rw [same]
  exact List.take_of_length_le (by omega)

theorem readNext_inv {s : Frames n} {id : Fin n} (held : Inv es s)
    (active : s.readers id = some call)
    (stepped : readNext s id ok call = (t, more)) : Inv (es ++ more) t := by
  cases held.phase with
  | writing drained written => rw [drained.readers id] at active; cases active
  | delivered payload kicked at_work =>
    obtain ⟨writer, whole, publishing, offered, readers⟩ := at_work
    have copying := readers id call active
    unfold readNext at stepped
    dsimp only at stepped
    split_ifs at stepped with below fine
    · obtain ⟨rfl, rfl⟩ := Prod.mk.inj stepped
      refine held.worked (by simp) kicked
        ⟨writer, whole, publishing, offered, readers_update readers _ ?_ id⟩
      intro call' entered
      obtain rfl := Option.some.inj entered
      exact copying.next whole below
    · obtain ⟨rfl, rfl⟩ := Prod.mk.inj stepped
      exact held.worked (by simp) kicked
        ⟨writer, whole, publishing, offered, readers_update readers none nofun id⟩
    · obtain ⟨rfl, rfl⟩ := Prod.mk.inj stepped
      have still : Event.kicked payload ∈ es ++ [Event.read (.ok call.copied)] :=
        List.mem_append_left _ kicked
      refine ⟨?_, .delivered payload still
        ⟨writer, whole, publishing, nofun, readers_update readers none nofun id⟩⟩
      intro payload' member
      rcases List.mem_append.mp member with earlier | now
      · exact List.mem_append_left _ (held.intact payload' earlier)
      · have returned : payload' = call.copied := by simpa using now
        obtain rfl : payload' = payload := returned.trans (copying.complete below)
        exact still

theorem step_inv {s : Frames n} (held : Inv es s) (alone : OneAtATime s l)
    (stepped : s.step l = some (t, more)) : Inv (es ++ more) t := by
  cases l with
  | write payload =>
    simp only [Frames.step] at stepped
    split at stepped
    · cases stepped
    · exact write_inv held alone (Option.some.inj stepped)
  | writer ok =>
    obtain ⟨call, active, moved⟩ := Option.bind_eq_some_iff.mp stepped
    exact writeNext_inv held active moved
  | worker => exact workNext_inv held stepped
  | read id count =>
    simp only [Frames.step] at stepped
    split at stepped
    · cases stepped
    · exact readStart_inv held (Option.some.inj stepped)
  | reader id ok =>
    obtain ⟨call, active, moved⟩ := Option.map_eq_some_iff.mp stepped
    exact readNext_inv held active moved
  | link up =>
    simp only [Frames.step] at stepped
    split at stepped
    · cases stepped
    · cases stepped
      exact held.device _
  | announced xlat ntb =>
    simp only [Frames.step] at stepped
    split at stepped
    · cases stepped
      exact held.device _
    · cases stepped

/-- Before the first write: the buffer may hold anything. -/
structure Fresh (s : Frames n) : Prop where
  writer : s.writer = none
  drained : Drained s

theorem Fresh.inv (fresh : Fresh s) : Inv [] s :=
  ⟨nofun, .writing fresh.drained (fun _ active => absurd (fresh.writer.symm.trans active) nofun)⟩

/-- Every payload a read returns is, byte for byte and in full, the payload of
one write whose KICK was delivered. -/
theorem frames_intact {s : Frames n} (fresh : Fresh s) (alone : Along Frames.step OneAtATime s ls)
    (path : run Frames.step s ls = some (t, es)) (returned : Event.read (.ok payload) ∈ es) :
    Event.kicked payload ∈ es :=
  (run_invariant step_inv fresh.inv alone path).intact payload returned

/-- Two connected drivers, each with a 32-byte buffer, and one reading process. -/
def connected : Frames 1 where
  a := { AppDev.probed with linkUp := true, peerReady := true, peerIo := true, peerSize := 32 }
  b := { AppDev.probed with linkUp := true, rx := some ⟨0x1000, 32, by decide⟩ }
  mem := fun _ => 0
  writer := none
  inbox := none
  worker := .idle
  readers := fun _ => none

theorem connected_fresh : Fresh connected := ⟨rfl, by decide⟩

def writeSchedule (payload : Payload) : List (Label 1) :=
  .write payload :: List.replicate (payload.length + 1 + frameSize + 1) (.writer true)

def receiveSchedule : List (Label 1) := List.replicate 4 .worker

def readSchedule (length : Nat) : List (Label 1) :=
  .read 0 64 :: List.replicate (length + 1) (.reader 0 true)

def turnsSchedule : List (Label 1) :=
  writeSchedule [1, 2] ++ receiveSchedule ++ readSchedule 2 ++
    writeSchedule [3] ++ receiveSchedule ++ readSchedule 1

theorem frames_intact_in_turns :
    ∃ t es, run Frames.step connected turnsSchedule = some (t, es) ∧
      Event.read (.ok [1, 2]) ∈ es ∧ Event.kicked [1, 2] ∈ es := by
  have outcome : (run Frames.step connected turnsSchedule).map (·.2) =
      some [.kicked [1, 2], .wrote (.ok 2), .read (.ok [1, 2]),
        .kicked [3], .wrote (.ok 1), .read (.ok [3])] := by decide +kernel
  obtain ⟨⟨t, es⟩, path, reported⟩ := Option.map_eq_some_iff.mp outcome
  have returned : Event.read (.ok [1, 2]) ∈ es := by
    rw [show es = _ from reported]
    decide
  have alone : Along Frames.step OneAtATime connected turnsSchedule := by decide +kernel
  exact ⟨t, es, path, returned, frames_intact connected_fresh alone path returned⟩

/-- The second write's first byte lands between the KICK of the first and its
read. -/
def overlapSchedule : List (Label 1) :=
  writeSchedule [1] ++ receiveSchedule ++ [Label.write [2, 3], .writer true] ++ readSchedule 1 ++
    List.replicate (2 + frameSize + 1) (Label.writer true)

theorem read_returns_overwritten :
    ∃ t es, run Frames.step connected overlapSchedule = some (t, es) ∧
      Event.read (.ok [2]) ∈ es ∧ Event.kicked [2] ∉ es := by
  have outcome : (run Frames.step connected overlapSchedule).map (·.2) =
      some [.kicked [1], .wrote (.ok 1), .read (.ok [2]), .kicked [2, 3], .wrote (.ok 2)] := by
    decide +kernel
  obtain ⟨⟨t, es⟩, path, reported⟩ := Option.map_eq_some_iff.mp outcome
  refine ⟨t, es, path, ?_, ?_⟩
  · rw [show es = _ from reported]
    decide
  · rw [show es = _ from reported]
    decide

end IdtNtb.App.Frame
