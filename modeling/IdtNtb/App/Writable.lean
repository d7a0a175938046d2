import IdtNtb.App.Bounds

/-! What a ready device promises. A SIZE or an XLAT on a ready device takes the old
window down first and leaves `peer_ready` alone if the new one does not come up. -/
namespace IdtNtb.App.Bounds
open Kernel Transition

/-- A ready device has a window mapped that holds more than a header. -/
def Usable (app : AppDev) : Prop :=
  app.peerReady = true → app.peerIo = true ∧ frameSize < app.peerSize

/-- A device that `can_write` and `poll` report takes some write. -/
def Takes (app : AppDev) : Prop :=
  app.canWrite = true → app.removed = false → ∃ len, 0 < len ∧ app.checkTx len = .ok ()

theorem Usable.takes (usable : Usable app) : Takes app := by
  intro reported present
  have ready : app.peerReady = true := by
    simp only [AppDev.canWrite, present, Bool.or_false, Bool.and_eq_true] at reported
    exact reported.1
  obtain ⟨mapped, roomy⟩ := usable ready
  refine ⟨1, Nat.one_pos, ?_⟩
  have room : ¬(1 > u32Max ∨ 1 > app.txPayloadSize) := by
    unfold AppDev.txPayloadSize
    rw [if_neg (by omega)]
    simp only [u32Max]
    omega
  simp only [AppDev.checkTx, present, ready, mapped, Bool.not_true, Bool.or_self,
    Bool.false_eq_true, if_false, if_neg room]

/-- The record with a number just announced: no ready device is told a size that holds
no frame, a ready device gets its new window, and a window holds a frame. -/
structure Sound (ntb : Ntb) (app : AppDev) : Prop where
  announced : app.peerReady = true → frameSize < app.peerSize
  renewed : app.peerXlat ≠ 0 → frameSize < app.peerSize → app.peerReady = true →
      (app.peerWindow ntb).isSome
  roomy : app.peerXlat ≠ 0 → frameSize < app.peerSize →
      ∀ bar ∈ app.peerWindow ntb, frameSize < bar.2

def Announces (s : Host n) : Label n → Prop
  | .recv (.size data) ntb _ => Sound ntb { s.app with peerSize := data }
  | .recv (.xlat data) ntb _ => Sound ntb { s.app with peerXlat := data }
  | _ => True

theorem usable_setup_iff {app : AppDev} (mapped : app.peerReady = true → app.peerIo = true) :
    Usable (app.trySetupPeerLocked ntb) ↔ Sound ntb app := by
  rw [AppDev.trySetupPeerLocked_eq]
  by_cases unknown : app.peerXlat = 0 ∨ app.peerSize ≤ frameSize
  · rw [if_pos unknown]
    constructor
    · intro usable
      refine ⟨fun ready => (usable ready).2, ?_, ?_⟩
      · intro xlat holds
        omega
      · intro xlat holds
        omega
    · intro sound ready
      exact ⟨mapped ready, sound.announced ready⟩
  · have xlat : app.peerXlat ≠ 0 := fun zero => unknown (Or.inl zero)
    have holds : frameSize < app.peerSize := by omega
    rw [if_neg unknown]
    cases window : app.peerWindow ntb with
    | none =>
      constructor
      · intro usable
        have unready : app.peerReady = true → False := fun ready => absurd (usable ready).1 nofun
        exact ⟨fun ready => (unready ready).elim,
          fun _ _ ready => (unready ready).elim, by simp [window]⟩
      · intro sound ready
        have opened := sound.renewed xlat holds ready
        rw [window] at opened
        cases opened
    | some bar =>
      constructor
      · intro usable
        have room := (usable rfl).2
        refine ⟨fun _ => holds, fun _ _ _ => by rw [window]; rfl, ?_⟩
        intro _ _ other found
        rw [window, Option.mem_some_iff] at found
        rw [← found]
        exact (Nat.lt_min.mp room).2
      · intro sound _
        exact ⟨rfl, Nat.lt_min.mpr ⟨holds, sound.roomy xlat holds bar window⟩⟩

theorem service_usable (held : Usable s.app) (up : Bool) (ntb : Ntb) (bufferSize : Nat) :
    Usable (service s up ntb bufferSize : Host n).app := by
  have linked : Usable (s.app.setLink up) := by
    intro ready
    exact held (Bool.and_eq_true_iff.mp ready).1
  simp only [service]
  split_ifs
  · exact held
  · split
    · exact linked
    · rename_i app allocated
      obtain ⟨buffer, rfl, -⟩ := AppDev.setupInboundMw_ok allocated
      exact linked
  · exact linked

theorem recv_usable_iff {s : Host n} (held : Usable s.app) (command : Command) (ntb : Ntb)
    (header : Header) :
    Usable (handle s.app ntb header command) ↔ Announces s (.recv command ntb header) := by
  cases command with
  | size data => exact usable_setup_iff fun ready => (held ready).1
  | xlat data => exact usable_setup_iff fun ready => (held ready).1
  | kick data =>
    refine iff_of_true ?_ trivial
    simp only [handle, completeRx]
    split_ifs
    · exact held
    · exact held
  | unknown cmd data => exact iff_of_true held trivial

theorem txCommitLocked_usable {app : AppDev} (held : Usable app) (len : Nat) :
    Usable (txCommitLocked app len).1 := by
  unfold txCommitLocked
  cases app.checkTx len with
  | error e => exact held
  | ok done => exact held

theorem write_usable {s : Host n} (held : Usable s.app) (count : Nat) (ok : Bool) :
    Usable (write s count ok).1.app := by
  unfold write
  by_cases empty : count = 0
  · rw [if_pos empty]
    exact held
  · rw [if_neg empty]
    cases s.app.checkTx count with
    | error e => exact held
    | ok done => exact held

theorem reader_usable {s : Host n} (held : Usable s.app) (id : Fin n) (ok : Bool)
    (call : ReadCall) :
    Usable (reader s id ok call).1.app := by
  cases call with
  | copy len => exact held
  | retire => exact held

/-- Only a SIZE or an XLAT can make a ready device useless. -/
theorem step_usable_iff {s : Host n} (held : Usable s.app)
    (stepped : step s l = some (t, accesses)) :
    Usable t.app ↔ Announces s l := by
  cases l with
  | service up ntb bufferSize =>
    obtain ⟨_, same⟩ := Option.ite_none_right_eq_some.mp stepped
    cases same
    exact iff_of_true (service_usable held up ntb bufferSize) trivial
  | recv command ntb header =>
    obtain ⟨_, same⟩ := Option.ite_none_right_eq_some.mp stepped
    cases same
    exact recv_usable_iff held command ntb header
  | finish =>
    obtain ⟨_, same⟩ := Option.ite_none_right_eq_some.mp stepped
    cases same
    exact iff_of_true held trivial
  | write count ok =>
    obtain ⟨_, same⟩ := Option.ite_none_right_eq_some.mp stepped
    have kept := write_usable held count ok
    rw [Option.some.inj same] at kept
    exact iff_of_true kept trivial
  | commit =>
    simp only [step] at stepped
    split at stepped
    · cases stepped
      exact iff_of_true (txCommitLocked_usable held _) trivial
    · cases stepped
  | txCommit len =>
    obtain ⟨_, same⟩ := Option.ite_none_right_eq_some.mp stepped
    cases same
    exact iff_of_true (txCommitLocked_usable held len) trivial
  | read id count =>
    obtain ⟨_, same⟩ := Option.ite_none_right_eq_some.mp stepped
    cases same
    refine iff_of_true ?_ trivial
    unfold read
    split_ifs
    · exact held
    · exact held
  | rxWait id ok =>
    obtain ⟨_, same⟩ := Option.ite_none_right_eq_some.mp stepped
    cases same
    refine iff_of_true ?_ trivial
    unfold rxWait
    split_ifs
    · exact held
    · exact held
  | reader id ok =>
    obtain ⟨call, _, same⟩ := Option.map_eq_some_iff.mp stepped
    have kept := reader_usable held id ok call
    rw [same] at kept
    exact iff_of_true kept trivial
  | remove =>
    cases stepped
    exact iff_of_true (fun ready => absurd ready Bool.false_ne_true) trivial

/-- In every state of a run a ready device has a usable window, and a device reported
writable takes a write, exactly when every SIZE and XLAT is met soundly. -/
theorem ready_usable_iff (path : run step (probed : Host n) ls = some (t, accesses)) :
    (∀ front u es, front <+: ls → run step probed front = some (u, es) → Usable u.app ∧
      Takes u.app) ↔ Along step Announces (probed : Host n) ls := by
  have both (app : AppDev) : Usable app ∧ Takes app ↔ Usable app := and_iff_left_of_imp Usable.takes
  simp only [both]
  exact run_keeps_iff step_usable_iff nofun path

instance (ntb : Ntb) (app : AppDev) : Decidable (Sound ntb app) :=
  decidable_of_iff ((app.peerReady = true → frameSize < app.peerSize) ∧
      (app.peerXlat ≠ 0 → frameSize < app.peerSize → app.peerReady = true →
        (app.peerWindow ntb).isSome) ∧
      (app.peerXlat ≠ 0 → frameSize < app.peerSize → ∀ bar ∈ app.peerWindow ntb, frameSize < bar.2))
    ⟨fun h => ⟨h.1, h.2.1, h.2.2⟩, fun h => ⟨h.announced, h.renewed, h.roomy⟩⟩

instance (s : Host n) : ∀ l, Decidable (Announces s l)
  | .recv (.size data) ntb _ =>
      inferInstanceAs (Decidable (Sound ntb { s.app with peerSize := data }))
  | .recv (.xlat data) ntb _ =>
      inferInstanceAs (Decidable (Sound ntb { s.app with peerXlat := data }))
  | .recv (.kick _) _ _ | .recv (.unknown _ _) _ _ => .isTrue trivial
  | .service .. | .finish | .write .. | .commit | .txCommit _ => .isTrue trivial
  | .read .. | .rxWait .. | .reader .. | .remove => .isTrue trivial

theorem ready_usable_exchange :
    ∃ t accesses, run step probed (exchange (0 : Fin 1)) = some (t, accesses) ∧
      t.app.canWrite = true ∧ Usable t.app ∧ Takes t.app := by
  have outcome : (run step probed (exchange (0 : Fin 1))).map (·.1.app.canWrite) = some true := by
    decide +kernel
  obtain ⟨⟨t, accesses⟩, path, writable⟩ := Option.map_eq_some_iff.mp outcome
  have met : Along step Announces (probed : Host 1) (exchange 0) := by decide +kernel
  exact ⟨t, accesses, path, writable,
    (ready_usable_iff path).mpr met _ t accesses List.prefix_rfl path⟩

/-- The peer announces its window again, and this time it cannot be mapped. -/
def remapped : List (Label 1) :=
  received [.size 0x1000, .xlat 0x80000] ++
    [.service true bar 0x1000, .recv (.size 0x1000) { bar with ioremap := false } noHeader, .finish]

def withdrawn : List (Label 1) := received [.size 0x1000, .xlat 0x80000] ++ received [.size 0]

theorem checkTx_unmapped {app : AppDev} (present : app.removed = false)
    (unmapped : app.peerIo = false) (len : Nat) : app.checkTx len = .error .enolink := by
  simp only [AppDev.checkTx, present, unmapped, Bool.not_false, Bool.or_true, Bool.false_eq_true,
    if_true, if_false]

theorem checkTx_small {app : AppDev} (present : app.removed = false) (ready : app.peerReady = true)
    (mapped : app.peerIo = true) (small : app.peerSize ≤ frameSize) (nonempty : 0 < len) :
    app.checkTx len = .error .emsgsize := by
  have long : len > u32Max ∨ len > app.txPayloadSize := by
    refine Or.inr ?_
    rw [AppDev.txPayloadSize, if_pos small]
    exact nonempty
  simp only [AppDev.checkTx, present, ready, mapped, Bool.not_true, Bool.or_self,
    Bool.false_eq_true, if_false, if_pos long]

def unmappedApp : AppDev :=
  { AppDev.probed with linkUp := true, peerReady := true, rx := some page }

def shortApp : AppDev :=
  { unmappedApp with
    peerIo := true, peerPhys := 0xF0000000, peerMapSize := 0x2000, peerXlat := 0x80000,
    trans := some (0x80000, 0x1000) }

/-- Both devices are reported writable after the run and refuse every write. -/
theorem reported_writable_refuses :
    (∃ t, run step probed remapped = some (t, []) ∧ t.lock = .free ∧ t.app = unmappedApp ∧
        t.app.canWrite = true ∧ ∀ len, t.app.checkTx len = .error .enolink) ∧
      ∃ t, run step probed withdrawn = some (t, []) ∧ t.lock = .free ∧ t.app = shortApp ∧
        t.app.canWrite = true ∧ ∀ len > 0, t.app.checkTx len = .error .emsgsize := by
  have first : (run step probed remapped).map (fun out => (out.1.lock, out.1.app, out.2)) =
      some (.free, unmappedApp, []) := by decide +kernel
  have second : (run step probed withdrawn).map (fun out => (out.1.lock, out.1.app, out.2)) =
      some (.free, shortApp, []) := by decide +kernel
  obtain ⟨⟨t, accesses⟩, path, reached⟩ := Option.map_eq_some_iff.mp first
  obtain ⟨⟨t', accesses'⟩, path', reached'⟩ := Option.map_eq_some_iff.mp second
  simp only [Prod.mk.injEq] at reached reached'
  obtain ⟨free, app, rfl⟩ := reached
  obtain ⟨free', app', rfl⟩ := reached'
  refine ⟨⟨t, path, free, app, ?_, ?_⟩, t', path', free', app', ?_, ?_⟩
  · rw [app]
    rfl
  · rw [app]
    exact checkTx_unmapped rfl rfl
  · rw [app']
    rfl
  · rw [app']
    exact fun _ => checkTx_small rfl rfl rfl (by decide)

end IdtNtb.App.Bounds
