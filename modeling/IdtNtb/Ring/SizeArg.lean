import IdtNtb.Lib.Strtoull
import IdtNtb.Ring.Layout

/-! The size arguments of the profiling program, `--window`, `--total` and
`--chunk`: what `ntb_parse_size_arg` accepts, against a grammar of its own. -/
namespace IdtNtb.Ring
open Strtoull

/-! ## The parser -/

/-- The `switch` on the letter of a suffix. -/
def suffixMultiplier (c : Byte) : Option Nat :=
  if tolower c = code 'k' then some 1024
  else if tolower c = code 'm' then some (1024 * 1024)
  else if tolower c = code 'g' then some (1024 * 1024 * 1024)
  else none

/-- `if (tolower(end[0]) == letter) end++`. -/
def skipLetter (letter : Char) : List Byte → List Byte
  | [] => []
  | c :: rest => if tolower c = code letter then rest else c :: rest

/-- The multiplier of the text that follows the number, unless it is refused. -/
def scanSuffix (text : List Byte) : Option Nat :=
  match text.dropWhile isspace with
  | [] => some 1
  | c :: rest => do
    let multiplier ← suffixMultiplier c
    if (skipLetter 'b' (skipLetter 'i' rest)).dropWhile isspace = [] then some multiplier else none

/-- The value returned, and what `*value` holds afterwards. -/
def ntbParseSizeArg (text : List Byte) (value : Nat) : Int × Nat :=
  let base := strtoull text
  if base.erange = true ∨ base.rest = text then (-1, value)
  else
    match scanSuffix base.rest with
    | none => (-1, value)
    | some multiplier =>
      if (2 ^ 64 - 1) / multiplier < base.value then (-1, value)
      else (0, u64 (base.value * multiplier))

/-! ## The grammar -/

def White (text : List Byte) : Prop := ∀ c ∈ text, isspace c = true

def Optionally (lower upper : Char) (text : List Byte) : Prop :=
  text = [] ∨ text = [code lower] ∨ text = [code upper]

inductive Letter : Byte → Nat → Prop where
  | kilo {c : Byte} (letter : c = code 'k' ∨ c = code 'K') : Letter c (2 ^ 10)
  | mega {c : Byte} (letter : c = code 'm' ∨ c = code 'M') : Letter c (2 ^ 20)
  | giga {c : Byte} (letter : c = code 'g' ∨ c = code 'G') : Letter c (2 ^ 30)

inductive Suffix : List Byte → Nat → Prop where
  | none : Suffix [] 1
  | scaled {c : Byte} {i b : List Byte} {multiplier : Nat} (letter : Letter c multiplier)
      (binary : Optionally 'i' 'I' i) (bytes : Optionally 'b' 'B' b) :
      Suffix (c :: (i ++ b)) multiplier

/-- A size with the given sign: the number it shows and the multiplier of its suffix. -/
inductive SizeText (sign : Sign) : List Byte → Nat → Nat → Prop where
  | intro {lead numeral gap suffix trail : List Byte} {number multiplier : Nat}
      (leads : White lead) (shows : Number numeral number) (gaps : White gap)
      (ends : Suffix suffix multiplier) (trails : White trail) :
      SizeText sign (lead ++ (sign.text ++ (numeral ++ (gap ++ (suffix ++ trail)))))
        number multiplier

/-- A size argument: no sign or a plus sign. -/
def SizeArg (text : List Byte) (number multiplier : Nat) : Prop :=
  SizeText .none text number multiplier ∨ SizeText .plus text number multiplier

/-! ## The suffix -/

theorem tolower_unit : ∀ c : Byte,
    (tolower c = code 'k' ↔ c = code 'k' ∨ c = code 'K') ∧
    (tolower c = code 'm' ↔ c = code 'm' ∨ c = code 'M') ∧
    (tolower c = code 'g' ↔ c = code 'g' ∨ c = code 'G') := by
  decide +kernel

theorem tolower_i : ∀ c : Byte, tolower c = code 'i' ↔ c = code 'i' ∨ c = code 'I' := by
  decide +kernel

theorem tolower_b : ∀ c : Byte, tolower c = code 'b' ↔ c = code 'b' ∨ c = code 'B' := by
  decide +kernel

theorem suffixMultiplier_iff {c : Byte} {multiplier : Nat} :
    suffixMultiplier c = some multiplier ↔ Letter c multiplier := by
  obtain ⟨kilo, mega, giga⟩ := tolower_unit c
  constructor
  · intro found
    unfold suffixMultiplier at found
    split_ifs at found with isKilo isMega isGiga
    · cases found
      exact .kilo (kilo.mp isKilo)
    · cases found
      exact .mega (mega.mp isMega)
    · cases found
      exact .giga (giga.mp isGiga)
  · intro letter
    cases letter with
    | kilo letter => rcases letter with rfl | rfl <;> rfl
    | mega letter => rcases letter with rfl | rfl <;> rfl
    | giga letter => rcases letter with rfl | rfl <;> rfl

theorem Letter.other {c : Byte} {multiplier : Nat} (letter : Letter c multiplier) :
    isspace c = false ∧ isDigit 16 c = false ∧ isX c = false := by
  cases letter with
  | kilo letter => rcases letter with rfl | rfl <;> decide
  | mega letter => rcases letter with rfl | rfl <;> decide
  | giga letter => rcases letter with rfl | rfl <;> decide

theorem skipLetter_sound {lower upper : Char}
    (cases : ∀ c : Byte, tolower c = code lower ↔ c = code lower ∨ c = code upper)
    (text : List Byte) :
    ∃ skipped, Optionally lower upper skipped ∧ text = skipped ++ skipLetter lower text := by
  match text with
  | [] => exact ⟨[], .inl rfl, rfl⟩
  | c :: rest =>
    by_cases letter : tolower c = code lower
    · refine ⟨[c], ?_, by rw [skipLetter, if_pos letter]; rfl⟩
      rcases (cases c).mp letter with rfl | rfl
      · exact .inr (.inl rfl)
      · exact .inr (.inr rfl)
    · exact ⟨[], .inl rfl, by rw [skipLetter, if_neg letter]; rfl⟩

theorem skipLetter_complete {lower upper : Char}
    (cases : ∀ c : Byte, tolower c = code lower ↔ c = code lower ∨ c = code upper)
    {skipped rest : List Byte} (optionally : Optionally lower upper skipped)
    (stops : Stops (tolower · = code lower) rest) : skipLetter lower (skipped ++ rest) = rest := by
  rcases optionally with rfl | rfl | rfl
  · match rest with
    | [] => rfl
    | c :: rest =>
      have other : ¬tolower c = code lower := of_decide_eq_false (stops c rfl)
      rw [List.nil_append, skipLetter, if_neg other]
  · rw [List.singleton_append, skipLetter, if_pos ((cases _).mpr (.inl rfl))]
  · rw [List.singleton_append, skipLetter, if_pos ((cases _).mpr (.inr rfl))]

theorem dropWhile_white {text : List Byte} : text.dropWhile isspace = [] ↔ White text :=
  List.dropWhile_eq_nil_iff

theorem White.stops {p : Byte → Bool} (other : ∀ c, isspace c = true → p c = false)
    {text : List Byte} (white : White text) : Stops p text := by
  intro c first
  exact other c (white c (List.mem_of_mem_head? first))

theorem white_notLetter : ∀ c : Byte, isspace c = true →
    decide (tolower c = code 'i') = false ∧ decide (tolower c = code 'b') = false := by
  decide +kernel

/-- After an optional `b` and white space no `i` follows. -/
theorem stops_binary {b trail : List Byte} (bytes : Optionally 'b' 'B' b) (trails : White trail) :
    Stops (tolower · = code 'i') (b ++ trail) := by
  rcases bytes with rfl | rfl | rfl
  · exact trails.stops fun c white => (white_notLetter c white).1
  · exact .cons (by decide)
  · exact .cons (by decide)

theorem scanSuffix_sound {text : List Byte} {multiplier : Nat}
    (scanned : scanSuffix text = some multiplier) :
    ∃ gap suffix trail, text = gap ++ (suffix ++ trail) ∧ White gap ∧ Suffix suffix multiplier ∧
      White trail := by
  have split : text.takeWhile isspace ++ text.dropWhile isspace = text :=
    List.takeWhile_append_dropWhile
  unfold scanSuffix at scanned
  rcases tail : text.dropWhile isspace with _ | ⟨c, rest⟩
  · rw [tail] at scanned
    cases scanned
    exact ⟨text, [], [], by simp, dropWhile_white.mp tail, .none, List.forall_mem_nil _⟩
  · rw [tail] at scanned split
    obtain ⟨found, letter, scanned⟩ := Option.bind_eq_some_iff.mp scanned
    split_ifs at scanned with ended
    cases scanned
    obtain ⟨i, binary, skipped⟩ := skipLetter_sound tolower_i rest
    obtain ⟨b, bytes, skippedAgain⟩ :=
      skipLetter_sound tolower_b (skipLetter 'i' rest)
    refine ⟨text.takeWhile isspace, c :: (i ++ b), skipLetter 'b' (skipLetter 'i' rest), ?_,
      takeWhile_all, .scaled (suffixMultiplier_iff.mp letter) binary bytes,
        dropWhile_white.mp ended⟩
    rw [List.cons_append, List.append_assoc, ← skippedAgain, ← skipped, split]

theorem scanSuffix_complete {gap suffix trail : List Byte} {multiplier : Nat} (gaps : White gap)
    (ends : Suffix suffix multiplier) (trails : White trail) :
    scanSuffix (gap ++ (suffix ++ trail)) = some multiplier := by
  cases ends with
  | none =>
    have white : (gap ++ ([] ++ trail)).dropWhile isspace = [] :=
      dropWhile_white.mpr (List.forall_mem_append.mpr ⟨gaps, trails⟩)
    rw [scanSuffix, white]
  | @scaled c i b multiplier letter binary bytes =>
    have reached : (gap ++ (c :: (i ++ b) ++ trail)).dropWhile isspace =
        c :: (i ++ (b ++ trail)) := by
      rw [List.cons_append, List.append_assoc]
      exact dropWhile_exact gaps (.cons letter.other.1)
    have afterI : skipLetter 'i' (i ++ (b ++ trail)) = b ++ trail :=
      skipLetter_complete tolower_i binary (stops_binary bytes trails)
    have afterB : skipLetter 'b' (b ++ trail) = trail :=
      skipLetter_complete tolower_b bytes
        (trails.stops fun c white => (white_notLetter c white).2)
    simp only [scanSuffix, reached, afterI, afterB, suffixMultiplier_iff.mpr letter,
      dropWhile_white.mpr trails, if_true, Option.bind_eq_bind, Option.bind_some]

/-- Nothing that may follow the number continues it. -/
theorem Suffix.ends {gap suffix trail : List Byte} {multiplier : Nat} (gaps : White gap)
    (ends : Suffix suffix multiplier) (trails : White trail) : Ends (gap ++ (suffix ++ trail)) := by
  have digits := fun c white => (isspace_other c white).1
  have mark := fun c white => (isspace_other c white).2
  cases gap with
  | cons c gap =>
    have white := gaps c List.mem_cons_self
    exact ⟨.cons (digits c white), .cons (mark c white)⟩
  | nil =>
    cases ends with
    | none => exact ⟨trails.stops digits, trails.stops mark⟩
    | scaled letter binary bytes => exact ⟨.cons letter.other.2.1, .cons letter.other.2.2⟩

theorem Suffix.positive {suffix : List Byte} {multiplier : Nat} (ends : Suffix suffix multiplier) :
    0 < multiplier := by
  cases ends with
  | none => omega
  | scaled letter binary bytes => cases letter <;> decide

/-! ## The whole argument -/

/-- The text with the sign denotes this size, as the parser reads the sign. -/
def Reads (sign : Sign) (text : List Byte) (size : Nat) : Prop :=
  ∃ number multiplier, SizeText sign text number multiplier ∧ number < 2 ^ 64 ∧
    sign.apply number * multiplier < 2 ^ 64 ∧ size = sign.apply number * multiplier

theorem multiplier_fits {base multiplier : Nat} (positive : 0 < multiplier) :
    ¬(2 ^ 64 - 1) / multiplier < base ↔ base * multiplier < 2 ^ 64 := by
  rw [not_lt, Nat.le_div_iff_mul_le positive]
  omega

theorem ntbParseSizeArg_sound {text : List Byte} {old size : Nat}
    (parsed : ntbParseSizeArg text old = (0, size)) : ∃ sign, Reads sign text size := by
  unfold ntbParseSizeArg at parsed
  by_cases refused : (strtoull text).erange = true ∨ (strtoull text).rest = text
  · simp [refused] at parsed
  rw [if_neg refused] at parsed
  obtain ⟨fits, moved⟩ := not_or.mp refused
  obtain ⟨lead, sign, numeral, number, consumed, leads, shows, small, result⟩ :=
    strtoull_sound (Bool.not_eq_true _ ▸ fits) moved
  rcases scanned : scanSuffix (strtoull text).rest with _ | multiplier
  · simp [scanned] at parsed
  obtain ⟨gap, suffix, trail, tail, gaps, ends, trails⟩ := scanSuffix_sound scanned
  by_cases large : (2 ^ 64 - 1) / multiplier < (strtoull text).value
  · simp only [scanned, if_pos large] at parsed
    cases parsed
  simp only [scanned, if_neg large] at parsed
  have bound := (multiplier_fits ends.positive).mp large
  have same : u64 ((strtoull text).value * multiplier) = size := congrArg Prod.snd parsed
  rw [u64, Nat.mod_eq_of_lt bound] at same
  rw [result] at bound same
  rw [tail] at consumed
  refine ⟨sign, number, multiplier, ?_, small, bound, same.symm⟩
  rw [consumed]
  exact .intro leads shows gaps ends trails

theorem ntbParseSizeArg_complete {text : List Byte} {sign : Sign} {size : Nat} (old : Nat)
    (reads : Reads sign text size) : ntbParseSizeArg text old = (0, size) := by
  obtain ⟨number, multiplier, shown, small, bound, rfl⟩ := reads
  cases shown with
  | @intro lead numeral gap suffix trail _ _ leads shows gaps ends trails =>
    have converted := strtoull_complete sign leads shows small (ends.ends gaps trails)
    obtain ⟨c, more, starts, -⟩ := shows.starts
    have moved : gap ++ (suffix ++ trail) ≠
        lead ++ (sign.text ++ (numeral ++ (gap ++ (suffix ++ trail)))) := by
      intro same
      have lengths := congrArg List.length same
      simp only [starts, List.length_append, List.length_cons] at lengths
      omega
    simp only [ntbParseSizeArg, converted, scanSuffix_complete gaps ends trails]
    rw [if_neg (by simp only [Bool.false_eq_true, false_or]; exact moved),
      if_neg ((multiplier_fits ends.positive).mpr bound), u64, Nat.mod_eq_of_lt bound]

theorem ntbParseSizeArg_iff {text : List Byte} {old size : Nat} :
    ntbParseSizeArg text old = (0, size) ↔ ∃ sign, Reads sign text size := by
  constructor
  · exact ntbParseSizeArg_sound
  · rintro ⟨sign, reads⟩
    exact ntbParseSizeArg_complete old reads

-- " +0x10 KiB"
example : ntbParseSizeArg (" +0x10 KiB".toList.map code) 0 = (0, 16384) := by decide +kernel

theorem ntbParseSizeArg_fails (text : List Byte) (old : Nat) :
    (ntbParseSizeArg text old).1 = 0 ∨ ntbParseSizeArg text old = (-1, old) := by
  unfold ntbParseSizeArg
  by_cases refused : (strtoull text).erange = true ∨ (strtoull text).rest = text
  · exact .inr (if_pos refused)
  rw [if_neg refused]
  cases scanSuffix (strtoull text).rest with
  | none => exact .inr rfl
  | some multiplier =>
    by_cases large : (2 ^ 64 - 1) / multiplier < (strtoull text).value
    · exact .inr (if_pos large)
    · exact .inl (congrArg Prod.fst (if_neg large))

/-- What the first byte after the white space says of the sign. -/
theorem SizeText.sign {sign : Sign} {text : List Byte} {number multiplier : Nat}
    (shown : SizeText sign text number multiplier) :
    (readSign (text.dropWhile isspace)).1 = sign := by
  cases shown with
  | @intro lead numeral gap suffix trail _ _ leads shows gaps ends trails =>
    rw [readSign_reached sign leads (shows.starts_append _)]

/-- The parser accepts exactly the size arguments that fit, with their size, and leaves
`*value` alone when it fails. -/
structure ParsesSizes (text : List Byte) : Prop where
  accepts : ∀ old size, ntbParseSizeArg text old = (0, size) ↔
    ∃ number multiplier, SizeArg text number multiplier ∧ number < 2 ^ 64 ∧
      number * multiplier < 2 ^ 64 ∧ size = number * multiplier
  fails : ∀ old, (ntbParseSizeArg text old).1 ≠ 0 → ntbParseSizeArg text old = (-1, old)

/-- The law fails on exactly the texts with a minus sign that the conversion turns into
a size that fits. -/
theorem parses_sizes_iff (text : CString) :
    ParsesSizes text.bytes ↔ ¬∃ size, Reads .minus text.bytes size := by
  constructor
  · rintro law ⟨size, reads⟩
    obtain ⟨number, multiplier, shown, -⟩ :=
      (law.accepts 0 size).mp (ntbParseSizeArg_complete 0 reads)
    obtain ⟨_, _, minus, -⟩ := reads
    have signed := minus.sign
    rcases shown with shown | shown
    · cases shown.sign.symm.trans signed
    · cases shown.sign.symm.trans signed
  · intro unsigned
    refine ⟨fun old size => ?_, fun old failed =>
      (ntbParseSizeArg_fails text.bytes old).resolve_left failed⟩
    rw [ntbParseSizeArg_iff]
    constructor
    · rintro ⟨sign, reads⟩
      cases sign with
      | none =>
        obtain ⟨number, multiplier, shown, small, bound, same⟩ := reads
        exact ⟨number, multiplier, .inl shown, small, bound, same⟩
      | plus =>
        obtain ⟨number, multiplier, shown, small, bound, same⟩ := reads
        exact ⟨number, multiplier, .inr shown, small, bound, same⟩
      | minus => exact absurd ⟨size, reads⟩ unsigned
    · rintro ⟨number, multiplier, shown | shown, small, bound, same⟩
      · exact ⟨.none, number, multiplier, shown, small, bound, same⟩
      · exact ⟨.plus, number, multiplier, shown, small, bound, same⟩

def minusOne : CString := ⟨[code '-', code '1'], by decide⟩

/-- `-1` is no size argument, and the parser reads it as the largest size there is. -/
theorem minus_one_accepted :
    ntbParseSizeArg minusOne.bytes 0 = (0, 2 ^ 64 - 1) ∧
      (∀ number multiplier, ¬SizeArg minusOne.bytes number multiplier) ∧
      ¬ParsesSizes minusOne.bytes := by
  have read : ntbParseSizeArg minusOne.bytes 0 = (0, 2 ^ 64 - 1) := by decide +kernel
  have none : ∀ number multiplier, ¬SizeArg minusOne.bytes number multiplier := by
    rintro number multiplier (shown | shown)
    · cases (shown.sign.symm.trans (by decide) : Sign.none = .minus)
    · cases (shown.sign.symm.trans (by decide) : Sign.plus = .minus)
  refine ⟨read, none, fun law => ?_⟩
  obtain ⟨number, multiplier, shown, -⟩ := (law.accepts 0 _).mp read
  exact none number multiplier shown

end IdtNtb.Ring
