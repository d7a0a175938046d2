import IdtNtb.Lib.Strtoull

/-! `strtol` with base 0 and a 64-bit `long`, on the numerals that `strtoull`
reads. The two differ in the type of the result and so in what is out of range. -/
namespace IdtNtb.Strtoull

/-- The sign, the number and the suffix behind it, if the text starts with a
numeral. -/
def scanNumeral (text : List Byte) : Option (Sign × Nat × List Byte) :=
  let (sign, body) := readSign (text.dropWhile isspace)
  let (base, digits) := base0 body
  let taken := digits.takeWhile (isDigit base)
  if taken = [] then none else some (sign, value base taken, digits.dropWhile (isDigit base))

def Sign.signed : Sign → Nat → Int
  | .minus, n => -n
  | _, n => n

structure SignedConversion where
  value : Int
  erange : Bool
  rest : List Byte
  deriving DecidableEq

def longMax : Int := 0x7FFFFFFFFFFFFFFF

def longMin : Int := -0x8000000000000000

def strtol (text : List Byte) : SignedConversion :=
  match scanNumeral text with
  | none => ⟨0, false, text⟩
  | some (sign, n, rest) =>
      if longMax < sign.signed n then ⟨longMax, true, rest⟩
      else if sign.signed n < longMin then ⟨longMin, true, rest⟩
      else ⟨sign.signed n, false, rest⟩

/-- A text that is one numeral, with white space before it. -/
def Numeral (sign : Sign) (text : List Byte) (n : Nat) : Prop :=
  ∃ lead numeral, text = lead ++ (sign.text ++ numeral) ∧ (∀ c ∈ lead, isspace c = true) ∧
    Number numeral n

theorem scanNumeral_sound (scanned : scanNumeral text = some (sign, n, [])) :
    Numeral sign text n := by
  have signed := readSign_sound (text.dropWhile isspace)
  rcases found : base0 (readSign (text.dropWhile isspace)).2 with ⟨base, digits⟩
  by_cases none : digits.takeWhile (isDigit base) = []
  · simp only [scanNumeral, found, if_pos none] at scanned
    contradiction
  simp only [scanNumeral, found, if_neg none, Option.some.injEq, Prod.mk.injEq] at scanned
  obtain ⟨rfl, rfl, ended⟩ := scanned
  obtain ⟨numeral, consumed, number⟩ := base0_sound found none
  rw [ended, List.append_nil] at consumed
  refine ⟨text.takeWhile isspace, numeral, ?_, takeWhile_all, number⟩
  rw [← consumed, ← signed, List.takeWhile_append_dropWhile]

theorem scanNumeral_complete (numeral : Numeral sign text n) :
    scanNumeral text = some (sign, n, []) := by
  obtain ⟨lead, body, rfl, white, number⟩ := numeral
  have signed := readSign_reached sign white number.starts
  obtain ⟨base, digits, found, some, denotes, all, -⟩ := number.read ⟨.nil, .nil⟩
  rw [List.append_nil, List.append_nil] at found
  have taken := takeWhile_exact all Stops.nil
  have left := dropWhile_exact all Stops.nil
  rw [List.append_nil] at taken left
  simp only [scanNumeral, signed, found, taken, left, denotes, if_neg some]

/-- The call has read the whole of a text, and its number is in range. -/
theorem strtol_whole :
    (strtol text).erange = false ∧ (strtol text).rest ≠ text ∧ (strtol text).rest = [] ∧
        (strtol text).value = z ↔
      ∃ sign n, Numeral sign text n ∧ z = sign.signed n ∧ longMin ≤ z ∧ z ≤ longMax := by
  constructor
  · rintro ⟨fits, moved, ended, rfl⟩
    rcases scanned : scanNumeral text with _ | ⟨sign, n, rest⟩
    · simp only [strtol, scanned, ne_eq, not_true_eq_false] at moved
    simp only [strtol, scanned] at fits ended ⊢
    split_ifs at fits ended ⊢ with above below
    subst ended
    exact ⟨sign, n, scanNumeral_sound scanned, rfl, Int.not_lt.mp below, Int.not_lt.mp above⟩
  · rintro ⟨sign, n, numeral, rfl, lower, upper⟩
    have result : strtol text = ⟨sign.signed n, false, []⟩ := by
      simp only [strtol, scanNumeral_complete numeral, if_neg (Int.not_lt.mpr upper),
        if_neg (Int.not_lt.mpr lower)]
    rw [result]
    refine ⟨rfl, ?_, rfl, rfl⟩
    obtain ⟨lead, body, rfl, -, number⟩ := numeral
    obtain ⟨c, more, rfl, -⟩ := number.starts
    simp

end IdtNtb.Strtoull
