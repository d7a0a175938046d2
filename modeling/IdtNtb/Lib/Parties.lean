import IdtNtb.Lib.Transition

/-! Two parties of one kind that take turns in any order. The code is given once,
as what the acting party does to itself and to its peer; a label names the party
that acts, and an event the party it comes from. An invariant is stated once, of
an acting party and its peer with their histories, and carried to every run. -/
namespace IdtNtb.Parties
open Transition

inductive Party where
  | first
  | second
  deriving DecidableEq

def Party.other : Party → Party
  | .first => .second
  | .second => .first

structure Pair (V : Type) where
  first : V
  second : V
  deriving DecidableEq

variable {V A N : Type}

def Pair.get (s : Pair V) : Party → V
  | .first => s.first
  | .second => s.second

def step (act : V → V → A → Option (V × V × List N)) (s : Pair V) :
    Party × A → Option (Pair V × List (Party × N))
  | (.first, action) =>
      (act s.first s.second action).map fun (own, peer, notes) =>
        (⟨own, peer⟩, notes.map (Party.first, ·))
  | (.second, action) =>
      (act s.second s.first action).map fun (own, peer, notes) =>
        (⟨peer, own⟩, notes.map (Party.second, ·))

/-- A condition on the acting party, its peer and the action. -/
def Acting (ok : V → V → A → Prop) (s : Pair V) : Party × A → Prop
  | (.first, action) => ok s.first s.second action
  | (.second, action) => ok s.second s.first action

instance (ok : V → V → A → Prop) [∀ own peer action, Decidable (ok own peer action)]
    (s : Pair V) : ∀ l, Decidable (Acting ok s l)
  | (.first, action) => inferInstanceAs (Decidable (ok s.first s.second action))
  | (.second, action) => inferInstanceAs (Decidable (ok s.second s.first action))

theorem acting_always {ok : V → V → A → Prop} (always : ∀ own peer action, ok own peer action)
    (s : Pair V) (l : Party × A) : Acting ok s l := by
  obtain ⟨party, action⟩ := l
  cases party with
  | first => exact always _ _ _
  | second => exact always _ _ _

def notesOf (p : Party) (es : List (Party × N)) : List N :=
  es.filterMap fun (q, note) => if q = p then some note else none

theorem notesOf_append (p : Party) (es fs : List (Party × N)) :
    notesOf p (es ++ fs) = notesOf p es ++ notesOf p fs :=
  List.filterMap_append

theorem mem_notesOf {p : Party} {es : List (Party × N)} : note ∈ notesOf p es ↔ (p, note) ∈ es := by
  simp [notesOf]

theorem notesOf_own (p : Party) (notes : List N) : notesOf p (notes.map (p, ·)) = notes := by
  simp [notesOf, List.filterMap_map]

theorem notesOf_other {p q : Party} (distinct : q ≠ p) (notes : List N) :
    notesOf p (notes.map (q, ·)) = [] := by
  simp [notesOf, List.filterMap_map, distinct]

variable {act : V → V → A → Option (V × V × List N)} {ok : V → V → A → Prop}
  {P : List N → V → List N → V → Prop}

/-- An invariant of both parties, seen from either, that each action keeps. -/
structure Keeps (act : V → V → A → Option (V × V × List N)) (ok : V → V → A → Prop)
    (P : List N → V → List N → V → Prop) : Prop where
  acted : ∀ {own peer mine theirs action own' peer' notes}, P mine own theirs peer →
    ok own peer action → act own peer action = some (own', peer', notes) →
      P (mine ++ notes) own' theirs peer'
  symm : ∀ {mine own theirs peer}, P mine own theirs peer → P theirs peer mine own

/-- The invariant of the pair after the events `es`. -/
def Both (P : List N → V → List N → V → Prop) (es : List (Party × N)) (s : Pair V) : Prop :=
  P (notesOf .first es) s.first (notesOf .second es) s.second

theorem Keeps.step {s : Pair V} (keeps : Keeps act ok P) (held : Both P es s)
    (admitted : Acting ok s l) (stepped : Parties.step act s l = some (t, fs)) :
    Both P (es ++ fs) t := by
  unfold Both
  rw [notesOf_append, notesOf_append]
  obtain ⟨party, action⟩ := l
  cases party with
  | first =>
    obtain ⟨⟨own, peer, notes⟩, acted, same⟩ := Option.map_eq_some_iff.mp stepped
    cases same
    rw [notesOf_own, notesOf_other (show Party.first ≠ .second from nofun), List.append_nil]
    exact keeps.acted held admitted acted
  | second =>
    obtain ⟨⟨own, peer, notes⟩, acted, same⟩ := Option.map_eq_some_iff.mp stepped
    cases same
    rw [notesOf_own, notesOf_other (show Party.second ≠ .first from nofun), List.append_nil]
    exact keeps.symm (keeps.acted (keeps.symm held) admitted acted)

theorem Keeps.run {s : Pair V} (keeps : Keeps act ok P)
    (meets : Along (Parties.step act) (Acting ok) s ls)
    (path : run (Parties.step act) s ls = some (t, es)) (initial : P [] s.first [] s.second) :
    Both P es t :=
  run_invariant (P := Both P) keeps.step initial meets path

/-- The invariant from the side of either party. -/
theorem Keeps.get {s : Pair V} (keeps : Keeps act ok P) (held : Both P es s) (p : Party) :
    P (notesOf p es) (s.get p) (notesOf p.other es) (s.get p.other) := by
  cases p with
  | first => exact held
  | second => exact keeps.symm held

end IdtNtb.Parties
