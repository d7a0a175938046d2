import IdtNtb.Sisci.Machine
import IdtNtb.Lib.History

/-! Releasing a segment. `publish_unavailable_locked` clears the published flag
before it knows that the UNAVAIL was accepted, and a link change clears it too;
from then on REMOVE_SEGMENT and CREATE_SEGMENT free the buffer without a word to
the peer. While no revoking command fails and the worker sees no link down, no
segment is freed behind a peer that was told it is available. -/
namespace IdtNtb.Sisci
open Kernel Parties Transition History

def Revokes (segment : Segment) : Note → Prop
  | .accepted (.segid _) _ => True
  | .accepted (.unavail id) _ => id = segment.id
  | _ => False

/-- The peer was told that `segment` is available, and nothing that revokes it
was accepted since. -/
def Exposed (notes : List Note) (segment : Segment) : Prop :=
  ∃ before after, notes = before ++ Note.accepted (.avail segment.id) (some segment) :: after ∧
    ∀ note ∈ after, ¬Revokes segment note

def Released (notes : List Note) : Prop :=
  ∀ before after segment, notes = before ++ Note.freed segment :: after → ¬Exposed before segment

/-- The task is about to send a command that revokes. -/
def Task.revoking : Task → Bool
  | .publish .segid => true
  | .unavail _ _ => true
  | _ => false

/-- While its segment is exposed, no revoking command of a VM fails and its
worker does not see the link down. -/
def Revocable (own _peer : Vm) : Action → Prop
  | .fail => own.task.revoking = true → own.exposed = none
  | .service => own.link = false → own.exposed = none
  | _ => True

instance (own peer : Vm) (action : Action) : Decidable (Revocable own peer action) := by
  cases action <;> unfold Revocable <;> infer_instance

variable {segment : Segment}

theorem exposed_iff :
    Exposed notes segment ↔
      Outstanding (· = Note.accepted (.avail segment.id) (some segment))
        (Revokes segment) notes := by
  constructor
  · rintro ⟨before, after, same, kept⟩
    exact ⟨before, _, after, same, rfl, kept⟩
  · rintro ⟨before, _, after, same, rfl, kept⟩
    exact ⟨before, after, same, kept⟩

theorem exposed_append_one :
    Exposed (notes ++ [note]) segment ↔
      note = .accepted (.avail segment.id) (some segment) ∨
        Exposed notes segment ∧ ¬Revokes segment note := by
  rw [exposed_iff, exposed_iff, outstanding_append_one]

theorem released_append_one (released : Released notes)
    (safe : ∀ segment, note = .freed segment → ¬Exposed notes segment) :
    Released (notes ++ [note]) := by
  intro before after segment same
  rcases List.eq_nil_or_concat after with rfl | ⟨rest, last, rfl⟩
  · obtain ⟨rfl, tail⟩ := List.append_inj' same rfl
    exact safe segment (List.cons.inj tail).1
  · rw [List.concat_eq_append, ← List.cons_append, ← List.append_assoc] at same
    obtain ⟨rfl, _⟩ := List.append_inj' same rfl
    exact released before rest segment rfl

/-- An exposed segment will be revoked before it can go: the flag says so, or the
task is about to. -/
def Guards (published : Bool) : Task → Prop
  | .idle => published = true
  | .recv => published = true
  | .publish stage => stage = .segid
  | .unavail _ _ => True
  | .freeing => False

structure Sound (offer : SisciDev.Offer) (task : Task) (exposed : Option Segment) : Prop where
  published : offer.published = true → offer.available = true
  publishing : ∀ stage, task = .publish stage → offer.available = true ∧ offer.linkUp = true
  withdrawing : ∀ id remove, task = .unavail id remove →
    ∃ segment, offer.segment = some segment ∧ segment.id = id
  exposed : ∀ segment, exposed = some segment →
    offer.segment = some segment ∧ offer.linkUp = true ∧ Guards offer.published task

structure Guarded (mine : List Note) (own : Vm) : Prop where
  released : Released mine
  tracked : ∀ segment, Exposed mine segment → own.exposed = some segment
  sound : Sound own.dev.offer own.task own.exposed

variable {mine notes : List Note} {own peer own' peer' : Vm} {offer : SisciDev.Offer} {task : Task}
  {exposed : Option Segment}

/-- A step that reports nothing and leaves `exposed` alone. -/
theorem Guarded.silent (held : Guarded mine own) (same : own'.exposed = own.exposed)
    (sound : Sound own'.dev.offer own'.task own'.exposed) : Guarded (mine ++ []) own' := by
  rw [List.append_nil]
  exact ⟨held.released, fun segment told => same.trans (held.tracked segment told), sound⟩

/-- An offer alone tells the peer nothing. -/
theorem Guarded.offers (held : Guarded mine own) (same : own'.exposed = own.exposed)
    (sound : Sound own'.dev.offer own'.task own'.exposed) :
    Guarded (mine ++ [.offered segment]) own' := by
  refine ⟨released_append_one held.released nofun, ?_, sound⟩
  intro other told
  rcases exposed_append_one.mp told with note | ⟨before, _⟩
  · cases note
  · exact same.trans (held.tracked other before)

/-- A free of a segment that is not exposed, if there is one. -/
theorem Guarded.frees {old : Option Segment} (held : Guarded mine own)
    (same : own'.exposed = own.exposed)
    (safe : ∀ segment, old = some segment → own.exposed ≠ some segment)
    (sound : Sound own'.dev.offer own'.task own'.exposed) :
    Guarded (mine ++ old.toList.map .freed) own' := by
  cases old with
  | none => exact held.silent same sound
  | some segment =>
    refine ⟨released_append_one held.released ?_, ?_, sound⟩
    · intro other same told
      obtain rfl := Note.freed.inj same
      exact safe segment rfl (held.tracked segment told)
    · intro other told
      rcases exposed_append_one.mp told with note | ⟨before, _⟩
      · cases note
      · exact same.trans (held.tracked other before)

/-- `exposed` follows what the peer's registers accept. -/
theorem Guarded.told (held : Guarded mine own) (same : own'.exposed = own.tell command)
    (sound : Sound own'.dev.offer own'.task own'.exposed) :
    Guarded (mine ++ [.accepted command own.dev.segment]) own' := by
  refine ⟨released_append_one held.released nofun, ?_, sound⟩
  intro segment told
  rw [same]
  rcases exposed_append_one.mp told with note | ⟨before, kept⟩
  · obtain ⟨rfl, current⟩ := Note.accepted.inj note
    exact current
  · have known := held.tracked segment before
    cases command with
    | segid id => exact absurd trivial kept
    | unavail id =>
      have other : segment.id ≠ id := fun same => kept same.symm
      simp only [Vm.tell, known, Option.filter_some, other, ne_eq, not_false_eq_true, decide_true,
        if_true]
    | avail id => exact (held.sound.exposed segment known).1
    | size data => exact known
    | xlat data => exact known
    | unknown cmd data => exact known

/-- With nothing exposed only the flags have to be in order. -/
theorem sound_unexposed (published : offer.published = true → offer.available = true)
    (publishing : ∀ stage, task = .publish stage → offer.available = true ∧ offer.linkUp = true)
    (withdrawing : ∀ id remove, task = .unavail id remove →
      ∃ segment, offer.segment = some segment ∧ segment.id = id) : Sound offer task none :=
  ⟨published, publishing, withdrawing, nofun⟩

/-- What nothing guards is not exposed. -/
theorem Sound.unexposed (sound : Sound offer task exposed)
    (unguarded : ∀ segment, offer.segment = some segment → offer.linkUp = true →
      ¬Guards offer.published task) : exposed = none := by
  cases exposed with
  | none => rfl
  | some segment =>
    obtain ⟨found, up, guards⟩ := sound.exposed segment rfl
    exact absurd guards (unguarded segment found up)

/-- A segment that is not available is not exposed. -/
theorem Guarded.unexposed_create (held : Guarded mine own) (idle : own.task = .idle)
    (unavailable : own.dev.segment.isSome → own.dev.localAvailable = false) :
    own.exposed = none := by
  refine held.sound.unexposed fun segment found _ guards => ?_
  rw [idle] at guards
  have flag := unavailable (by rw [show own.dev.segment = some segment from found]; rfl)
  exact absurd (flag.symm.trans (held.sound.published guards)) nofun

theorem create_guarded (held : Guarded mine own) (idle : own.task = .idle)
    (unavailable : own.dev.segment.isSome → own.dev.localAvailable = false)
    (segment : Option Segment) (inbound : Option (Nat × Nat)) :
    Guarded (mine ++ own.dev.segment.toList.map .freed)
      { own with
        dev := { own.dev with
          segment, inbound, localAvailable := false, localPublished := false } } := by
  have hidden := held.unexposed_create idle unavailable
  refine held.frees rfl (fun old _ told => absurd (hidden.symm.trans told) nofun) ?_
  show Sound _ own.task own.exposed
  rw [hidden, idle]
  exact sound_unexposed nofun nofun nofun

/-- SET_AVAILABLE goes through a new SEGID whenever the link is up. -/
theorem setAvailable_sound (held : Guarded mine own) (found : own.dev.segment = some segment)
    (dev : SisciDev)
    (marked : dev = { own.dev with localAvailable := true, localPublished := false }) :
    Sound dev.offer (if dev.shouldPublish then .publish .segid else .idle) own.exposed := by
  have should : dev.shouldPublish = own.dev.linkUp := by
    simp [marked, SisciDev.shouldPublish, found]
  rw [should, marked]
  cases link : own.dev.linkUp with
  | true =>
    refine ⟨nofun, fun _ _ => ⟨rfl, link⟩, nofun, ?_⟩
    intro other told
    obtain ⟨current, up, _⟩ := held.sound.exposed other told
    exact ⟨current, up, rfl⟩
  | false =>
    refine ⟨nofun, nofun, nofun, ?_⟩
    intro other told
    obtain ⟨_, up, _⟩ := held.sound.exposed other told
    exact absurd (link.symm.trans up) nofun

/-- What is exposed is published and the link is up, so an UNAVAIL is sent. -/
theorem withdraw_sound (held : Guarded mine own) (idle : own.task = .idle)
    (found : own.dev.segment = some segment) (remove : Bool) :
    Sound (own.publishUnavailableLocked segment.id remove).dev.offer
      (own.publishUnavailableLocked segment.id remove).task own.exposed := by
  unfold Vm.publishUnavailableLocked
  cases should : own.dev.shouldWithdraw with
  | true =>
    refine ⟨nofun, nofun, ?_, ?_⟩
    · intro other again sending
      cases sending
      exact ⟨segment, found, rfl⟩
    · intro other told
      obtain ⟨current, up, _⟩ := held.sound.exposed other told
      exact ⟨current, up, trivial⟩
  | false =>
    have hidden : own.exposed = none := by
      refine held.sound.unexposed fun _ _ up guards => ?_
      rw [idle] at guards
      have both : own.dev.shouldWithdraw = true :=
        Bool.and_eq_true_iff.mpr ⟨up, guards⟩
      exact absurd (should.symm.trans both) nofun
    rw [hidden]
    cases remove with
    | true => exact sound_unexposed nofun nofun nofun
    | false => exact sound_unexposed nofun nofun nofun

theorem service_exposed (vm : Vm) : vm.service.exposed = vm.exposed := by
  unfold Vm.service
  split_ifs
  · rfl
  · rfl

theorem recv_exposed (vm : Vm) (ntb : Ntb) : (vm.recv ntb).exposed = vm.exposed := by
  unfold Vm.recv
  split
  · rfl
  · rfl

theorem service_sound (held : Guarded mine own) (idle : own.task = .idle)
    (seen : own.link = false → own.exposed = none) :
    Sound own.service.dev.offer own.service.task own.exposed := by
  unfold Vm.service
  cases link : own.link with
  | true =>
    refine ⟨held.sound.published, nofun, nofun, ?_⟩
    intro segment told
    obtain ⟨current, _, guards⟩ := held.sound.exposed segment told
    rw [idle] at guards
    exact ⟨current, rfl, guards⟩
  | false =>
    rw [seen link]
    refine sound_unexposed nofun ?_ ?_
    · intro stage running
      exact absurd (idle.symm.trans running) nofun
    · intro id remove running
      exact absurd (idle.symm.trans running) nofun

theorem recv_sound (held : Guarded mine own) (receiving : own.task = .recv) (ntb : Ntb) :
    Sound (own.recv ntb).dev.offer (own.recv ntb).task own.exposed := by
  unfold Vm.recv
  cases own.inbox with
  | some command =>
    show Sound (own.dev.handle ntb command).offer own.task own.exposed
    rw [own.dev.handle_offer ntb command]
    exact held.sound
  | none =>
    have guards : ∀ segment, own.exposed = some segment →
        own.dev.segment = some segment ∧ own.dev.linkUp = true ∧ own.dev.localPublished = true := by
      intro segment told
      obtain ⟨current, up, guards⟩ := held.sound.exposed segment told
      rw [receiving] at guards
      exact ⟨current, up, guards⟩
    show Sound own.dev.offer (if own.dev.shouldPublish then .publish .segid else .idle) own.exposed
    cases should : own.dev.shouldPublish with
    | true =>
      simp only [SisciDev.shouldPublish, Bool.and_eq_true] at should
      refine ⟨held.sound.published, fun _ _ => ⟨should.1.1.2, should.1.1.1⟩, nofun, ?_⟩
      intro segment told
      obtain ⟨current, up, _⟩ := guards segment told
      exact ⟨current, up, rfl⟩
    | false => exact ⟨held.sound.published, nofun, nofun, guards⟩

/-- Past its SEGID a publication has nothing exposed. -/
theorem Guarded.unexposed_publishing (held : Guarded mine own) (running : own.task = .publish stage)
    (later : stage ≠ .segid) : own.exposed = none := by
  refine held.sound.unexposed fun _ _ _ guards => ?_
  rw [running] at guards
  exact later guards

theorem publish_sound (held : Guarded mine own) (running : own.task = .publish stage)
    (segment : Segment) :
    Sound { own.dev.offer with published := own.dev.localPublished || stage = .avail } stage.next
      (own.tell (stage.command segment)) := by
  obtain ⟨available, up⟩ := held.sound.publishing stage running
  cases stage with
  | segid => exact sound_unexposed (fun _ => available) (fun _ _ => ⟨available, up⟩) nofun
  | size =>
    show Sound _ _ own.exposed
    rw [held.unexposed_publishing running nofun]
    exact sound_unexposed (fun _ => available) (fun _ _ => ⟨available, up⟩) nofun
  | xlat =>
    show Sound _ _ own.exposed
    rw [held.unexposed_publishing running nofun]
    exact sound_unexposed (fun _ => available) (fun _ _ => ⟨available, up⟩) nofun
  | avail =>
    refine ⟨fun _ => available, nofun, nofun, ?_⟩
    intro other told
    exact ⟨told, up, Bool.or_true _⟩

theorem unavail_sound {id : BitVec 32} (held : Guarded mine own)
    (running : own.task = .unavail id remove) :
    Sound own.dev.offer (if remove then .freeing else .idle) (own.tell (.unavail id)) := by
  have revoked : own.tell (.unavail id) = none := by
    obtain ⟨segment, found, named⟩ := held.sound.withdrawing id remove running
    cases exposed : own.exposed with
    | none => simp only [Vm.tell, exposed, Option.filter_none]
    | some other =>
      obtain ⟨current, _, _⟩ := held.sound.exposed other exposed
      obtain rfl : segment = other := Option.some.inj (found.symm.trans current)
      simp only [Vm.tell, exposed, Option.filter_some, named, ne_eq,
        not_true_eq_false, decide_false, Bool.false_eq_true, if_false]
  rw [revoked]
  cases remove with
  | true => exact sound_unexposed held.sound.published nofun nofun
  | false => exact sound_unexposed held.sound.published nofun nofun

theorem fail_guarded (held : Guarded mine own)
    (revocable : own.task.revoking = true → own.exposed = none)
    (sending : (∃ stage, own.task = .publish stage) ∨ ∃ id remove, own.task = .unavail id remove) :
    Guarded (mine ++ []) { own with task := .idle } := by
  have hidden : own.exposed = none := by
    rcases sending with ⟨stage, running⟩ | ⟨id, remove, running⟩
    · by_cases first : stage = .segid
      · exact revocable (by rw [running, first]; rfl)
      · exact held.unexposed_publishing running first
    · exact revocable (by rw [running]; rfl)
  refine held.silent rfl ?_
  show Sound own.dev.offer .idle own.exposed
  rw [hidden]
  exact sound_unexposed held.sound.published nofun nofun

theorem free_guarded (held : Guarded mine own) (freeing : own.task = .freeing) :
    Guarded (mine ++ own.dev.segment.toList.map .freed)
      { own with dev := own.dev.freeLocalSegmentLocked, task := .idle } := by
  have hidden : own.exposed = none := by
    refine held.sound.unexposed fun _ _ _ guards => ?_
    rw [freeing] at guards
    exact guards
  refine held.frees rfl (fun old _ told => absurd (hidden.symm.trans told) nofun) ?_
  show Sound _ .idle own.exposed
  rw [hidden]
  exact sound_unexposed nofun nofun nofun

theorem act_guarded (held : Guarded mine own) (revocable : Revocable own peer action)
    (moved : Moves own peer action own' peer' notes) : Guarded (mine ++ notes) own' := by
  cases moved with
  | refused action idle => exact held.silent rfl held.sound
  | created idle unavailable segment inbound =>
    exact create_guarded held idle unavailable segment inbound
  | offered idle found => exact held.offers rfl (setAvailable_sound held found _ rfl)
  | withdrawn action idle found remove =>
    exact held.silent rfl (withdraw_sound held idle found remove)
  | served idle =>
    have sound := service_sound held idle revocable
    rw [← service_exposed own] at sound
    exact held.silent (service_exposed own) sound
  | received ntb receiving =>
    have sound := recv_sound held receiving ntb
    rw [← recv_exposed own ntb] at sound
    exact held.silent (recv_exposed own ntb) sound
  | @published stage segment empty running found =>
    exact held.told rfl (publish_sound held running segment)
  | revoked empty running => exact held.told rfl (unavail_sound held running)
  | failed sending => exact fail_guarded held revocable sending
  | freed freeing => exact free_guarded held freeing
  | linked up => exact held.silent rfl held.sound

/-- An action leaves the peer's record, task and history alone. -/
theorem peer_guarded (held : Guarded mine peer) (moved : Moves own peer action own' peer' notes) :
    Guarded mine peer' := by
  cases moved with
  | published => exact ⟨held.released, held.tracked, held.sound⟩
  | revoked => exact ⟨held.released, held.tracked, held.sound⟩
  | _ => exact held

theorem guarded_kept : Keeps Vm.act Revocable
    (fun mine own theirs peer => Guarded mine own ∧ Guarded theirs peer) where
  acted := by
    intro own peer mine theirs action own' peer' notes held revocable stepped
    exact ⟨act_guarded held.1 revocable (act_moves stepped),
      peer_guarded held.2 (act_moves stepped)⟩
  symm := And.symm

theorem loaded_guarded : Guarded [] Vm.loaded := by
  refine ⟨?_, ?_, sound_unexposed nofun nofun nofun⟩
  · intro before after segment same
    simp at same
  · rintro segment ⟨before, after, same, _⟩
    simp at same

/-- No VM frees a segment that its peer was told is available, unless a command
that revokes it was accepted since. -/
theorem segments_released (revocable : Along System.step (Acting Revocable) .start ls)
    (path : run System.step .start ls = some (t, es)) (p : Party) : Released (notesOf p es) := by
  have held := guarded_kept.run revocable path ⟨loaded_guarded, loaded_guarded⟩
  exact (guarded_kept.get held p).1.released

def publishSchedule : List (Party × Action) :=
  linkUp ++
    [(Party.first, Action.createSegment (.paged 0x10000) 0x1000 7 0x4000),
      (.first, .setAvailable 7)] ++
    deliver ++ deliver ++ deliver ++ deliver

def withdrawSchedule : List (Party × Action) :=
  publishSchedule ++ [(Party.first, Action.removeSegment 7), (.first, .send), (.first, .free)]

theorem segments_released_withdrawn :
    ∃ t es, run System.step .start withdrawSchedule = some (t, es) ∧
      Note.freed ⟨7, 0x10000, 0x4000, by decide⟩ ∈ notesOf .first es ∧
      Released (notesOf .first es) := by
  have outcome : (run System.step .start withdrawSchedule).map (fun r =>
      decide (Note.freed ⟨7, 0x10000, 0x4000, by decide⟩ ∈ notesOf .first r.2)) = some true := by
    decide +kernel
  obtain ⟨⟨t, es⟩, path, reached⟩ := Option.map_eq_some_iff.mp outcome
  have revocable : Along System.step (Acting Revocable) .start withdrawSchedule := by decide +kernel
  exact ⟨t, es, path, of_decide_eq_true reached, segments_released revocable path .first⟩

/-- The UNAVAIL of a SET_UNAVAILABLE fails, and the segment is removed. -/
def forgetSchedule : List (Party × Action) :=
  publishSchedule ++
    [(Party.first, Action.setUnavailable 7), (.first, .fail), (.first, .removeSegment 7),
      (.first, .free)]

theorem segment_freed_behind_peer :
    ∃ t es, run System.step .start forgetSchedule = some (t, es) ∧
      t.first.link = true ∧ t.second.link = true ∧ t.second.dev.peerReady = true ∧
      t.second.dev.trans = some (0x10000, 0x4000) ∧ ¬Released (notesOf .first es) := by
  let segment : Segment := ⟨7, 0x10000, 0x4000, by decide⟩
  let told : List Note :=
    [.offered segment, .accepted (.segid 7) (some segment), .accepted (.size 0x4000) (some segment),
      .accepted (.xlat 0x10000) (some segment), .accepted (.avail 7) (some segment)]
  have outcome : (run System.step .start forgetSchedule).map (fun r =>
      (decide (r.1.first.link = true ∧ r.1.second.link = true ∧ r.1.second.dev.peerReady = true ∧
        r.1.second.dev.trans = some (0x10000, 0x4000)), notesOf .first r.2)) =
      some (true, told ++ [.freed segment]) := by decide +kernel
  obtain ⟨⟨t, es⟩, path, reached⟩ := Option.map_eq_some_iff.mp outcome
  simp only [Prod.mk.injEq, decide_eq_true_eq] at reached
  obtain ⟨⟨link1, link2, ready, trans⟩, notes⟩ := reached
  refine ⟨t, es, path, link1, link2, ready, trans, ?_⟩
  intro released
  have exposed : Exposed told segment := ⟨told.take 4, [], rfl, nofun⟩
  exact released told [] segment notes exposed

end IdtNtb.Sisci
