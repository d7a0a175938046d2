import IdtNtb.Lib.Transition

/-! A one-place mailbox between one sender and one receiver, over an arbitrary
message type. It is the abstract purpose of a command register set: a send
either posts its message into the empty slot or fails without trace, and the
receiver takes whole messages. The `drop` operation is a slot cleared from
outside; without it delivery is exactly once and in order. -/
namespace IdtNtb.Mailbox
variable {M : Type}

/-- `sending` holds the message of the call in progress, and whether that call
has already posted it. -/
structure Box (M : Type) where
  slot : Option M
  sending : Option (M × Bool)

inductive Op (M : Type) where
  | begin (m : M)
  | post
  | finish
  | abort
  | take
  | drop

inductive Event (M : Type) where
  | begun (m : M)
  | sent (m : M)
  | failed (m : M)
  | received (m : M)

def step : Box M → Op M → Option (Box M × List (Event M))
  | ⟨slot, none⟩, .begin m => some (⟨slot, some (m, false)⟩, [.begun m])
  | ⟨none, some (m, false)⟩, .post => some (⟨some m, some (m, true)⟩, [])
  | ⟨slot, some (m, true)⟩, .finish => some (⟨slot, none⟩, [.sent m])
  | ⟨slot, some (m, false)⟩, .abort => some (⟨slot, none⟩, [.failed m])
  | ⟨some m, sending⟩, .take => some (⟨none, sending⟩, [.received m])
  | ⟨_, sending⟩, .drop => some (⟨none, sending⟩, [])
  | _, _ => none

def begun : List (Event M) → List M := List.filterMap fun
  | .begun m => some m
  | _ => none

def sent : List (Event M) → List M := List.filterMap fun
  | .sent m => some m
  | _ => none

def received : List (Event M) → List M := List.filterMap fun
  | .received m => some m
  | _ => none

/-- The message that the call in progress has already put into the slot. -/
def Box.posted (b : Box M) : List M :=
  match b.sending with
  | some (m, true) => [m]
  | _ => []

def empty : Box M := ⟨none, none⟩

@[simp] theorem begun_append (es fs : List (Event M)) : begun (es ++ fs) = begun es ++ begun fs :=
  List.filterMap_append

@[simp] theorem sent_append (es fs : List (Event M)) : sent (es ++ fs) = sent es ++ sent fs :=
  List.filterMap_append

@[simp] theorem received_append (es fs : List (Event M)) :
    received (es ++ fs) = received es ++ received fs :=
  List.filterMap_append

/-- What one operation can do, guards included. -/
theorem step_cases (stepped : step b op = some (c, es)) :
    (∃ m, op = .begin m ∧ b.sending = none ∧ c = ⟨b.slot, some (m, false)⟩ ∧ es = [.begun m]) ∨
    (∃ m, op = .post ∧ b = ⟨none, some (m, false)⟩ ∧ c = ⟨some m, some (m, true)⟩ ∧ es = []) ∨
    (∃ m, op = .finish ∧ b.sending = some (m, true) ∧ c = ⟨b.slot, none⟩ ∧ es = [.sent m]) ∨
    (∃ m, op = .abort ∧ b.sending = some (m, false) ∧ c = ⟨b.slot, none⟩ ∧ es = [.failed m]) ∨
    (∃ m, op = .take ∧ b.slot = some m ∧ c = ⟨none, b.sending⟩ ∧ es = [.received m]) ∨
    (op = .drop ∧ c = ⟨none, b.sending⟩ ∧ es = []) := by
  unfold step at stepped
  split at stepped
  all_goals simp_all

/-- Exactly once and in order: what has been received, followed by the slot, is
what has been sent, followed by the message a call in progress has posted. -/
def Delivered (es : List (Event M)) (b : Box M) : Prop :=
  received es ++ b.slot.toList = sent es ++ b.posted

theorem step_delivered (held : Delivered es b) (kept : op ≠ .drop)
    (stepped : step b op = some (c, fs)) : Delivered (es ++ fs) c := by
  unfold Delivered at held ⊢
  rcases step_cases stepped with ⟨m, _, idle, rfl, rfl⟩ | ⟨m, _, rfl, rfl, rfl⟩ |
    ⟨m, _, busy, rfl, rfl⟩ | ⟨m, _, busy, rfl, rfl⟩ | ⟨m, _, full, rfl, rfl⟩ | ⟨dropped, _⟩
  · simpa [Box.posted, received, sent, idle] using held
  · simpa [Box.posted, received, sent] using held
  · simpa [Box.posted, received, sent, busy] using held
  · simpa [Box.posted, received, sent, busy] using held
  · simpa [Box.posted, received, sent, full] using held
  · exact absurd dropped kept

theorem exactly_once {ops : List (Op M)} (kept : ∀ op ∈ ops, op ≠ .drop)
    (path : Transition.run step empty ops = some (b, es)) : Delivered es b := by
  have initial : Delivered [] (empty : Box M) := rfl
  exact Transition.run_invariant (fun held kept stepped => step_delivered held kept stepped) initial
    (Transition.along_labels kept empty) path

/-- Every message in the box or handed to the receiver was passed to a send. -/
def Genuine (es : List (Event M)) (b : Box M) : Prop :=
  (∀ m ∈ received es, m ∈ begun es) ∧ (∀ m ∈ b.slot, m ∈ begun es) ∧
    ∀ m posted, b.sending = some (m, posted) → m ∈ begun es

theorem step_genuine (held : Genuine es b) (stepped : step b op = some (c, fs)) :
    Genuine (es ++ fs) c := by
  obtain ⟨taken, stored, busy⟩ := held
  have grows : ∀ m ∈ begun es, m ∈ begun (es ++ fs) := by
    intro m member
    rw [begun_append]
    exact List.mem_append_left _ member
  have quiet : received fs = [] → ∀ m ∈ received (es ++ fs), m ∈ begun (es ++ fs) := by
    intro none m member
    rw [received_append, none, List.append_nil] at member
    exact grows m (taken m member)
  rcases step_cases stepped with ⟨m, _, _, rfl, rfl⟩ | ⟨m, _, rfl, rfl, rfl⟩ |
    ⟨m, _, _, rfl, rfl⟩ | ⟨m, _, _, rfl, rfl⟩ | ⟨m, _, full, rfl, rfl⟩ | ⟨_, rfl, rfl⟩
  · refine ⟨quiet rfl, fun n member => grows n (stored n member), ?_⟩
    rintro n posted same
    cases same
    rw [begun_append]
    exact List.mem_append_right _ List.mem_cons_self
  · have own := grows m (busy m false rfl)
    refine ⟨quiet rfl, ?_, ?_⟩
    · rintro n same
      cases same
      exact own
    · rintro n posted same
      cases same
      exact own
  · exact ⟨quiet rfl, fun n member => grows n (stored n member), fun _ _ same => nomatch same⟩
  · exact ⟨quiet rfl, fun n member => grows n (stored n member), fun _ _ same => nomatch same⟩
  · refine ⟨?_, by simp, fun n posted same => grows n (busy n posted same)⟩
    intro n member
    rw [received_append, List.mem_append] at member
    rcases member with earlier | now
    · exact grows n (taken n earlier)
    · obtain rfl := List.mem_singleton.mp now
      exact grows n (stored n full)
  · exact ⟨quiet rfl, by simp, fun n posted same => grows n (busy n posted same)⟩

/-- No message is invented or assembled from two, even when the slot is
cleared from outside. -/
theorem genuine {ops : List (Op M)} (path : Transition.run step empty ops = some (b, es)) :
    ∀ m ∈ received es, m ∈ begun es := by
  have initial : Genuine [] (empty : Box M) := by simp [Genuine, received, empty]
  have held := Transition.run_invariant (P := Genuine)
    (fun held _ stepped => step_genuine held stepped) initial (Transition.along_true _ _) path
  exact held.1

end IdtNtb.Mailbox
