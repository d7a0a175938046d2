import Mathlib.Data.List.TakeWhile
import Mathlib.Data.Nat.Basic
import Mathlib.Tactic.Ring

/-! `strtoull` with base 0, as the C standard describes it in the "C" locale,
against rules for the numerals of the language. A string is the list of its
bytes before the terminating NUL, and a pointer into it is the suffix it points
at. -/
namespace IdtNtb.Strtoull

abbrev Byte := BitVec 8

structure CString where
  bytes : List Byte
  terminated : ∀ c ∈ bytes, c ≠ 0

def code (c : Char) : Byte := BitVec.ofNat 8 c.toNat

def isspace (c : Byte) : Bool := c = code ' ' || (9 ≤ c && c ≤ 13)

def tolower (c : Byte) : Byte := if code 'A' ≤ c ∧ c ≤ code 'Z' then c + 32 else c

def digit (c : Byte) : Option Nat :=
  if code '0' ≤ c ∧ c ≤ code '9' then some (c.toNat - (code '0').toNat)
  else if code 'a' ≤ tolower c ∧ tolower c ≤ code 'f' then
    some ((tolower c).toNat - (code 'a').toNat + 10)
  else none

def isDigit (base : Nat) (c : Byte) : Bool := (digit c).any (· < base)

def value (base : Nat) (digits : List Byte) : Nat :=
  digits.foldl (fun v c => v * base + (digit c).getD 0) 0

def isX (c : Byte) : Bool := tolower c = code 'x'

/-- A numeral of the language without its sign, and the number it denotes. -/
inductive Number : List Byte → Nat → Prop where
  | decimal {c : Byte} {digits : List Byte} (first : isDigit 10 c) (nonzero : c ≠ code '0')
      (all : ∀ d ∈ digits, isDigit 10 d) : Number (c :: digits) (value 10 (c :: digits))
  | octal {digits : List Byte} (all : ∀ d ∈ digits, isDigit 8 d) :
      Number (code '0' :: digits) (value 8 (code '0' :: digits))
  | hex {x c : Byte} {digits : List Byte} (marked : isX x) (first : isDigit 16 c)
      (all : ∀ d ∈ digits, isDigit 16 d) :
      Number (code '0' :: x :: c :: digits) (value 16 (c :: digits))

inductive Sign where
  | none
  | plus
  | minus
  deriving DecidableEq

def Sign.text : Sign → List Byte
  | .none => []
  | .plus => [code '+']
  | .minus => [code '-']

/-- A minus sign negates in the unsigned type of the result. -/
def Sign.apply : Sign → Nat → Nat
  | .minus, n => (2 ^ 64 - n) % 2 ^ 64
  | _, n => n

def readSign : List Byte → Sign × List Byte
  | [] => (.none, [])
  | c :: rest =>
    if c = code '+' then (.plus, rest)
    else if c = code '-' then (.minus, rest)
    else (.none, c :: rest)

/-- A hexadecimal digit has to follow the mark, or the numeral is the zero before it. -/
def hexStart : List Byte → Bool
  | z :: x :: c :: _ => z = code '0' && isX x && isDigit 16 c
  | _ => false

/-- The base a numeral is in, and where its digits start. -/
def base0 (body : List Byte) : Nat × List Byte :=
  if hexStart body then (16, body.drop 2)
  else if body.head? = some (code '0') then (8, body)
  else (10, body)

/-- What a call returns, whether it set `errno`, and the suffix `*end` points at. -/
structure Conversion where
  value : Nat
  erange : Bool
  rest : List Byte
  deriving DecidableEq

def strtoull (text : List Byte) : Conversion :=
  let (sign, body) := readSign (text.dropWhile isspace)
  let (base, digits) := base0 body
  let taken := digits.takeWhile (isDigit base)
  let rest := digits.dropWhile (isDigit base)
  if taken = [] then ⟨0, false, text⟩
  else if 2 ^ 64 ≤ value base taken then ⟨2 ^ 64 - 1, true, rest⟩
  else ⟨sign.apply (value base taken), false, rest⟩

/-! ## Characters -/

theorem isspace_other : ∀ c : Byte, isspace c = true →
    isDigit 16 c = false ∧ isX c = false := by
  decide +kernel

theorem isDigit_other : ∀ c : Byte, isDigit 10 c = true →
    isspace c = false ∧ c ≠ code '+' ∧ c ≠ code '-' := by
  decide +kernel

theorem isDigit_mono {a b : Nat} (le : a ≤ b) {c : Byte} (held : isDigit a c = true) :
    isDigit b c = true := by
  unfold isDigit at held ⊢
  cases read : digit c with
  | none => simp [read] at held
  | some d =>
    simp only [read, Option.any_some, decide_eq_true_eq] at held ⊢
    omega

/-! ## Runs of characters -/

/-- The text that follows does not start with such a character. -/
def Stops (p : Byte → Bool) (rest : List Byte) : Prop := ∀ c ∈ rest.head?, p c = false

theorem Stops.nil {p : Byte → Bool} : Stops p [] := by
  intro c at_
  simp at at_

theorem Stops.cons {p : Byte → Bool} {c : Byte} {rest : List Byte} (stops : p c = false) :
    Stops p (c :: rest) := by
  intro d first
  simp only [List.head?_cons, Option.mem_def, Option.some.injEq] at first
  exact first ▸ stops

theorem Stops.dropWhile {p : Byte → Bool} {rest : List Byte} (stops : Stops p rest) :
    rest.dropWhile p = rest := by
  cases rest with
  | nil => rfl
  | cons c rest => simp [stops c rfl]

theorem Stops.takeWhile {p : Byte → Bool} {rest : List Byte} (stops : Stops p rest) :
    rest.takeWhile p = [] := by
  cases rest with
  | nil => rfl
  | cons c rest => simp [stops c rfl]

theorem dropWhile_exact {p : Byte → Bool} {front rest : List Byte} (all : ∀ c ∈ front, p c = true)
    (stops : Stops p rest) : (front ++ rest).dropWhile p = rest := by
  rw [List.dropWhile_append_of_pos all, stops.dropWhile]

theorem takeWhile_exact {p : Byte → Bool} {front rest : List Byte} (all : ∀ c ∈ front, p c = true)
    (stops : Stops p rest) : (front ++ rest).takeWhile p = front := by
  rw [List.takeWhile_append_of_pos all, stops.takeWhile, List.append_nil]

theorem takeWhile_all {p : Byte → Bool} {text : List Byte} :
    ∀ c ∈ text.takeWhile p, p c = true := fun _ at_ => List.mem_takeWhile_imp at_

/-! ## Signs and numerals -/

theorem readSign_sound (text : List Byte) :
    text = (readSign text).1.text ++ (readSign text).2 := by
  cases text with
  | nil => rfl
  | cons c rest =>
    by_cases plus : c = code '+'
    · simp [readSign, plus, Sign.text]
    · by_cases minus : c = code '-'
      · rw [readSign, if_neg plus, if_pos minus, minus]
        rfl
      · simp [readSign, plus, minus, Sign.text]

/-- A numeral starts with a decimal digit. -/
theorem Number.starts {text : List Byte} {n : Nat} (number : Number text n) :
    ∃ c rest, text = c :: rest ∧ isDigit 10 c = true := by
  cases number with
  | decimal first nonzero all => exact ⟨_, _, rfl, first⟩
  | octal all => exact ⟨_, _, rfl, by decide⟩
  | hex marked first all => exact ⟨_, _, rfl, by decide⟩

theorem Number.starts_append {text : List Byte} {n : Nat} (number : Number text n)
    (rest : List Byte) : ∃ c more, text ++ rest = c :: more ∧ isDigit 10 c = true := by
  obtain ⟨c, more, rfl, isDigit⟩ := number.starts
  exact ⟨c, more ++ rest, rfl, isDigit⟩

theorem readSign_complete (sign : Sign) {body : List Byte}
    (starts : ∃ c rest, body = c :: rest ∧ isDigit 10 c = true) :
    readSign (sign.text ++ body) = (sign, body) := by
  obtain ⟨c, rest, rfl, isDigit⟩ := starts
  obtain ⟨-, plus, minus⟩ := isDigit_other c isDigit
  cases sign with
  | none => simp [Sign.text, readSign, plus, minus]
  | plus => simp [Sign.text, readSign]
  | minus => rfl

/-- The sign is reached behind the white space, and a numeral's first digit is no sign. -/
theorem readSign_reached (sign : Sign) {lead body : List Byte}
    (white : ∀ c ∈ lead, isspace c = true)
    (starts : ∃ c rest, body = c :: rest ∧ isDigit 10 c = true) :
    readSign ((lead ++ (sign.text ++ body)).dropWhile isspace) = (sign, body) := by
  have stops : Stops isspace (sign.text ++ body) := by
    cases sign with
    | none =>
      obtain ⟨c, rest, rfl, isDigit⟩ := starts
      exact .cons (isDigit_other c isDigit).1
    | plus => exact .cons (by decide)
    | minus => exact .cons (by decide)
  rw [dropWhile_exact white stops, readSign_complete sign starts]

/-- What follows a numeral neither continues it nor makes a hexadecimal mark of it. -/
structure Ends (rest : List Byte) : Prop where
  digits : Stops (isDigit 16) rest
  mark : Stops isX rest

theorem Ends.isDigit {rest : List Byte} (ends : Ends rest) {base : Nat} (le : base ≤ 16) :
    Stops (isDigit base) rest := by
  intro c first
  by_contra isDigit
  have := isDigit_mono le (Bool.not_eq_false _ ▸ isDigit)
  rw [ends.digits c first] at this
  cases this

/-- The digits of a numeral: its base is found, and its digits are the longest run. -/
theorem Number.read {text rest : List Byte} {n : Nat} (number : Number text n) (ends : Ends rest) :
    ∃ base digits, base0 (text ++ rest) = (base, digits ++ rest) ∧ digits ≠ [] ∧
      value base digits = n ∧ (∀ d ∈ digits, isDigit base d = true) ∧ base ≤ 16 := by
  cases number with
  | @decimal c digits first nonzero all =>
    have notHex : hexStart (c :: (digits ++ rest)) = false := by
      rcases tail : digits ++ rest with _ | ⟨x, _ | ⟨d, more⟩⟩ <;>
        simp [hexStart, nonzero]
    refine ⟨10, c :: digits, ?_, by simp, rfl, ?_, by omega⟩
    · simp [base0, notHex, nonzero]
    · exact List.forall_mem_cons.mpr ⟨first, all⟩
  | @octal digits all =>
    have notHex : hexStart (code '0' :: (digits ++ rest)) = false := by
      cases digits with
      | nil =>
        rcases rest with _ | ⟨x, _ | ⟨d, more⟩⟩
        · rfl
        · rfl
        · simp [hexStart, ends.mark x rfl]
      | cons x digits =>
        have notMark : isX x = false :=
          (by decide +kernel : ∀ c : Byte, Strtoull.isDigit 8 c = true → isX c = false) x
            (all x List.mem_cons_self)
        rcases tail : digits ++ rest with _ | ⟨d, more⟩ <;> simp [tail, hexStart, notMark]
    refine ⟨8, code '0' :: digits, ?_, by simp, rfl, ?_, by omega⟩
    · simp [base0, notHex]
    · exact List.forall_mem_cons.mpr ⟨by decide, all⟩
  | @hex x c digits marked first all =>
    refine ⟨16, c :: digits, ?_, by simp, rfl, ?_, by omega⟩
    · simp [base0, hexStart, marked, first]
    · exact List.forall_mem_cons.mpr ⟨first, all⟩

/-- The run of digits after the base was found is a numeral, with what stands before it. -/
theorem base0_sound {body digits : List Byte} {base : Nat} (found : base0 body = (base, digits))
    (some : digits.takeWhile (isDigit base) ≠ []) :
    ∃ text, body = text ++ digits.dropWhile (isDigit base) ∧
      Number text (value base (digits.takeWhile (isDigit base))) := by
  unfold base0 at found
  split_ifs at found with isHex isOctal
  · obtain ⟨rfl, rfl⟩ := Prod.mk.inj found
    match body, isHex with
    | z :: x :: c :: rest, isHex =>
      simp only [hexStart, Bool.and_eq_true, decide_eq_true_eq] at isHex
      obtain ⟨⟨rfl, marked⟩, first⟩ := isHex
      simp only [List.drop_succ_cons, List.drop_zero, List.takeWhile_cons_of_pos first,
        List.dropWhile_cons_of_pos first]
      refine ⟨code '0' :: x :: c :: rest.takeWhile (isDigit 16), ?_,
        .hex marked first takeWhile_all⟩
      simp [List.takeWhile_append_dropWhile]
  · obtain ⟨rfl, rfl⟩ := Prod.mk.inj found
    obtain ⟨rest, rfl⟩ := List.head?_eq_some_iff.mp isOctal
    have first : isDigit 8 (code '0') = true := by decide
    simp only [List.takeWhile_cons_of_pos first, List.dropWhile_cons_of_pos first]
    refine ⟨code '0' :: rest.takeWhile (isDigit 8), ?_, .octal takeWhile_all⟩
    simp [List.takeWhile_append_dropWhile]
  · obtain ⟨rfl, rfl⟩ := Prod.mk.inj found
    cases body with
    | nil => exact absurd rfl some
    | cons c rest =>
      by_cases first : isDigit 10 c = true
      · have nonzero : c ≠ code '0' := fun zero => isOctal (congrArg Option.some zero)
        simp only [List.takeWhile_cons_of_pos first, List.dropWhile_cons_of_pos first]
        refine ⟨c :: rest.takeWhile (isDigit 10), ?_, .decimal first nonzero takeWhile_all⟩
        simp [List.takeWhile_append_dropWhile]
      · exact absurd (List.takeWhile_cons_of_neg first) some

/-! ## The conversion -/

/-- The text a successful call has consumed. -/
theorem strtoull_sound {text : List Byte} (fits : (strtoull text).erange = false)
    (moved : (strtoull text).rest ≠ text) :
    ∃ lead sign numeral n, text = lead ++ (Sign.text sign ++ (numeral ++ (strtoull text).rest)) ∧
      (∀ c ∈ lead, isspace c = true) ∧ Number numeral n ∧ n < 2 ^ 64 ∧
      (strtoull text).value = sign.apply n := by
  have split : text.takeWhile isspace ++ text.dropWhile isspace = text :=
    List.takeWhile_append_dropWhile
  have signed := readSign_sound (text.dropWhile isspace)
  rcases found : base0 (readSign (text.dropWhile isspace)).2 with ⟨base, digits⟩
  by_cases none : digits.takeWhile (isDigit base) = []
  · exact absurd (by simp [strtoull, found, none]) moved
  by_cases large : 2 ^ 64 ≤ value base (digits.takeWhile (isDigit base))
  · simp only [strtoull, found, if_neg none, if_pos large] at fits
    cases fits
  obtain ⟨numeral, consumed, number⟩ := base0_sound found none
  have result : strtoull text =
      ⟨(readSign (text.dropWhile isspace)).1.apply (value base (digits.takeWhile (isDigit base))),
        false, digits.dropWhile (isDigit base)⟩ := by
    simp only [strtoull, found, if_neg none, if_neg large]
  rw [result]
  refine ⟨text.takeWhile isspace, _, numeral, _, ?_, takeWhile_all, number, by omega, rfl⟩
  rw [← consumed, ← signed, split]

theorem strtoull_complete {lead numeral rest : List Byte} {n : Nat} (sign : Sign)
    (white : ∀ c ∈ lead, isspace c = true) (number : Number numeral n) (fits : n < 2 ^ 64)
    (ends : Ends rest) :
    strtoull (lead ++ (sign.text ++ (numeral ++ rest))) = ⟨sign.apply n, false, rest⟩ := by
  have signed := readSign_reached sign white (number.starts_append rest)
  obtain ⟨base, digits, found, some, denotes, all, le⟩ := number.read ends
  have taken := takeWhile_exact all (ends.isDigit le)
  have left := dropWhile_exact all (ends.isDigit le)
  simp only [strtoull, signed, found, taken, left, denotes]
  rw [if_neg some, if_neg (by omega)]

end IdtNtb.Strtoull
