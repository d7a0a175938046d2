import IdtNtb.Lib.Strtol
import IdtNtb.Ring.Geometry
import IdtNtb.Ring.SizeArg

/-! The command line of the profiling program: `parse_options` with the readers
of its values, and `select_backend`, against a grammar of command lines. -/
namespace IdtNtb.Profile
open Strtoull IdtNtb.Ring

abbrev Text := List Byte

def bytes (s : String) : Text := s.toList.map code

inductive ProfileRole where
  | rx
  | tx
  deriving DecidableEq

structure ProfileOptions where
  role : ProfileRole
  backendName : Text
  devicePath : Text
  devicePathSet : Bool
  segmentId : BitVec 32
  peerNode : BitVec 32
  windowSize : Nat
  totalSize : Nat
  chunkSize : Nat
  timeoutSec : Int
  noModprobe : Bool
  deriving DecidableEq

/-- What `parse_options` starts from. -/
def ProfileOptions.default : ProfileOptions where
  role := .rx
  backendName := bytes "generic"
  devicePath := []
  devicePathSet := false
  segmentId := 1
  peerNode := 0
  windowSize := 4 * 1024 * 1024
  totalSize := 64 * 1024 * 1024
  chunkSize := 1024 * 1024
  timeoutSec := 30
  noModprobe := false

inductive Valued where
  | backend
  | device
  | segment
  | peerNode
  | timeout
  | window
  | total
  | chunk
  deriving DecidableEq

/-- Why the program stops before it opens a device, with what its message quotes. -/
inductive Exit where
  | help
  | usage
  | tooLong (what : Text)
  | invalidInt (name value : Text)
  | invalidSize (option : Text)
  | unknown (arg : Text)
  | zeroSize
  | tooLarge
  | unknownBackend (name : Text)
  deriving DecidableEq

/-! ## The parser -/

def intMax : Int := 0x7FFFFFFF

/-- `sizeof(opt->backend_name)` and `sizeof(opt->device_path)`. -/
def backendNameSize : Nat := 32

def pathMax : Nat := 4096

def ntbParseIntArg (text : Text) (minValue maxValue : Int) (name : Text) : Except Exit Int :=
  let parsed := strtol text
  if parsed.erange = true ∨ parsed.rest = text ∨ parsed.rest ≠ [] ∨ parsed.value < minValue ∨
      maxValue < parsed.value then .error (.invalidInt name text)
  else .ok parsed.value

/-- `ntb_parse_size_arg` as the three size options call it. -/
def sizeValue (option text : Text) (old : Nat) : Except Exit Nat :=
  match ntbParseSizeArg text old with
  | (0, size) => .ok size
  | _ => .error (.invalidSize option)

/-- `snprintf` into a field of `capacity` bytes, with the check of its result. -/
def copyText (capacity : Nat) (what text : Text) : Except Exit Text :=
  if capacity ≤ text.length then .error (.tooLong what) else .ok text

/-- The body of an option's branch, with the argument that follows it. -/
def Valued.set (opt : ProfileOptions) (text : Text) : Valued → Except Exit ProfileOptions
  | .backend =>
      (copyText backendNameSize (bytes "--backend value") text).map ({ opt with backendName := · })
  | .device => (copyText pathMax (bytes "--dev path") text).map
      ({ opt with devicePath := ·, devicePathSet := true })
  | .segment =>
      (ntbParseIntArg text 0 intMax (bytes "segment")).map
        ({ opt with segmentId := BitVec.ofInt 32 · })
  | .peerNode =>
      (ntbParseIntArg text 0 intMax (bytes "peer-node")).map
        ({ opt with peerNode := BitVec.ofInt 32 · })
  | .timeout => (ntbParseIntArg text 1 86400 (bytes "timeout")).map ({ opt with timeoutSec := · })
  | .window => (sizeValue (bytes "--window") text opt.windowSize).map ({ opt with windowSize := · })
  | .total => (sizeValue (bytes "--total") text opt.totalSize).map ({ opt with totalSize := · })
  | .chunk => (sizeValue (bytes "--chunk") text opt.chunkSize).map ({ opt with chunkSize := · })

inductive Word where
  | role (role : ProfileRole)
  | help
  | noModprobe
  | valued (option : Valued)
  deriving DecidableEq

/-- The chain of comparisons. A role is known only while none is set. -/
def word (roleSet : Bool) (arg : Text) : Option Word :=
  if (arg = bytes "rx" ∨ arg = bytes "receiver") ∧ roleSet = false then some (.role .rx)
  else if (arg = bytes "tx" ∨ arg = bytes "sender") ∧ roleSet = false then some (.role .tx)
  else if arg = bytes "--help" ∨ arg = bytes "-h" then some .help
  else if arg = bytes "--backend" ∨ arg = bytes "--mode" then some (.valued .backend)
  else if arg = bytes "--no-modprobe" then some .noModprobe
  else if arg = bytes "--dev" ∨ arg = bytes "--device" then some (.valued .device)
  else if arg = bytes "--segment" then some (.valued .segment)
  else if arg = bytes "--peer-node" then some (.valued .peerNode)
  else if arg = bytes "--timeout" then some (.valued .timeout)
  else if arg = bytes "--window" then some (.valued .window)
  else if arg = bytes "--total" then some (.valued .total)
  else if arg = bytes "--chunk" then some (.valued .chunk)
  else none

/-- The loop over the arguments. An option without a value falls through to the
last branch, as no later comparison holds for it. -/
def parseArgs (opt : ProfileOptions) (roleSet : Bool) :
    List Text → Except Exit (ProfileOptions × Bool)
  | [] => .ok (opt, roleSet)
  | arg :: rest =>
      match word roleSet arg with
      | none => .error (.unknown arg)
      | some (.role role) => parseArgs { opt with role } true rest
      | some .help => .error .help
      | some .noModprobe => parseArgs { opt with noModprobe := true } roleSet rest
      | some (.valued option) =>
          match rest with
          | [] => .error (.unknown arg)
          | value :: more =>
              match option.set opt value with
              | .error stopped => .error stopped
              | .ok opt => parseArgs opt roleSet more

/-- `parse_options` on the arguments behind the program's name. A `uint64_t` fits
`size_t`. -/
def parseOptions (args : List Text) : Except Exit ProfileOptions :=
  if args = [] then .error .usage
  else match parseArgs .default false args with
    | .error stopped => .error stopped
    | .ok (opt, roleSet) =>
        if roleSet = false then .error .usage
        else if opt.windowSize = 0 ∨ opt.totalSize = 0 ∨ opt.chunkSize = 0 then .error .zeroSize
        else if 2 ^ 32 ≤ opt.chunkSize then .error .tooLarge
        else .ok opt

/-- `strcasecmp(a, b) == 0`. -/
def sameIgnoringCase (a b : Text) : Bool := a.map tolower = b.map tolower

def defaultDevicePath : Backend → Text
  | .generic => bytes "/dev/ntb_idt_app"
  | .sisci => bytes "/dev/ntb_idt_sisci"

/-- The end of `select_backend`. -/
def ProfileOptions.atDevice (opt : ProfileOptions) (backend : Backend) : ProfileOptions :=
  if opt.devicePathSet then opt else { opt with devicePath := defaultDevicePath backend }

def selectBackend (opt : ProfileOptions) : Except Exit (Backend × ProfileOptions) :=
  if sameIgnoringCase opt.backendName (bytes "generic") then .ok (.generic, opt.atDevice .generic)
  else if sameIgnoringCase opt.backendName (bytes "sisci") then .ok (.sisci, opt.atDevice .sisci)
  else .error (.unknownBackend opt.backendName)

/-- `main` up to `run_rx` or `run_tx`. -/
def configure (args : List Text) : Except Exit (Backend × ProfileOptions) :=
  match parseOptions args with
  | .error stopped => .error stopped
  | .ok opt => selectBackend opt

/-! ## The grammar -/

def ProfileRole.names : ProfileRole → List Text
  | .rx => [bytes "rx", bytes "receiver"]
  | .tx => [bytes "tx", bytes "sender"]

def Valued.names : Valued → List Text
  | .backend => [bytes "--backend", bytes "--mode"]
  | .device => [bytes "--dev", bytes "--device"]
  | .segment => [bytes "--segment"]
  | .peerNode => [bytes "--peer-node"]
  | .timeout => [bytes "--timeout"]
  | .window => [bytes "--window"]
  | .total => [bytes "--total"]
  | .chunk => [bytes "--chunk"]

inductive Item where
  | role (role : ProfileRole) (name : Text)
  | noModprobe
  | valued (option : Valued) (name text : Text)

def Item.words : Item → List Text
  | .role _ name => [name]
  | .noModprobe => [bytes "--no-modprobe"]
  | .valued _ name text => [name, text]

def Item.isRole : Item → Bool
  | .role .. => true
  | _ => false

def IntText (minValue maxValue : Int) (text : Text) (z : Int) : Prop :=
  ∃ sign n, Numeral sign text n ∧ z = sign.signed n ∧ minValue ≤ z ∧ z ≤ maxValue

/-- A size, as the parser reads its sign. -/
def SizeValue (text : Text) (size : Nat) : Prop := ∃ sign, Reads sign text size

/-- What the value of an option makes of the options. -/
def Valued.Sets (opt : ProfileOptions) (text : Text) (after : ProfileOptions) : Valued → Prop
  | .backend => text.length < backendNameSize ∧ { opt with backendName := text } = after
  | .device =>
      text.length < pathMax ∧ { opt with devicePath := text, devicePathSet := true } = after
  | .segment => ∃ z, IntText 0 intMax text z ∧ { opt with segmentId := BitVec.ofInt 32 z } = after
  | .peerNode => ∃ z, IntText 0 intMax text z ∧ { opt with peerNode := BitVec.ofInt 32 z } = after
  | .timeout => ∃ z, IntText 1 86400 text z ∧ { opt with timeoutSec := z } = after
  | .window => ∃ size, SizeValue text size ∧ { opt with windowSize := size } = after
  | .total => ∃ size, SizeValue text size ∧ { opt with totalSize := size } = after
  | .chunk => ∃ size, SizeValue text size ∧ { opt with chunkSize := size } = after

inductive Item.Sets (opt : ProfileOptions) : Item → ProfileOptions → Prop where
  | role {role : ProfileRole} {name : Text} (named : name ∈ role.names) :
      Sets opt (.role role name) { opt with role }
  | noModprobe : Sets opt .noModprobe { opt with noModprobe := true }
  | valued {option : Valued} {name text : Text} {after : ProfileOptions}
      (named : name ∈ option.names)
      (sets : Valued.Sets opt text after option) : Sets opt (.valued option name text) after

/-- The options after the items, one after the other: of an option that is given
twice, the later value stays. -/
inductive Entered : ProfileOptions → List Item → ProfileOptions → Prop where
  | nil (opt : ProfileOptions) : Entered opt [] opt
  | cons {opt after last : ProfileOptions} {item : Item} {items : List Item}
      (sets : item.Sets opt after)
      (rest : Entered after items last) : Entered opt (item :: items) last

/-! ## Values -/

theorem ntbParseIntArg_iff (lower : longMin ≤ minValue) (upper : maxValue ≤ longMax) (name : Text) :
    ntbParseIntArg text minValue maxValue name = .ok z ↔ IntText minValue maxValue text z := by
  have whole : (strtol text).erange = false ∧ (strtol text).rest ≠ text ∧ (strtol text).rest = [] ∧
      (strtol text).value = z ↔ ∃ sign n, Numeral sign text n ∧ z = sign.signed n ∧ longMin ≤ z ∧
        z ≤ longMax :=
    strtol_whole
  unfold ntbParseIntArg IntText
  constructor
  · intro parsed
    dsimp only at parsed
    split_ifs at parsed with refused
    simp only [not_or, Bool.not_eq_true, ne_eq, not_not, Int.not_lt] at refused
    obtain ⟨fits, moved, ended, least, most⟩ := refused
    obtain ⟨sign, n, numeral, same, -⟩ := whole.mp ⟨fits, moved, ended, Except.ok.inj parsed⟩
    rw [Except.ok.inj parsed] at least most
    exact ⟨sign, n, numeral, same, least, most⟩
  · rintro ⟨sign, n, numeral, same, least, most⟩
    obtain ⟨fits, moved, ended, value⟩ := whole.mpr ⟨sign, n, numeral, same, by omega, by omega⟩
    rw [if_neg, value]
    simp only [fits, ended, value, not_or, ne_eq, not_true_eq_false, Bool.false_eq_true,
      not_false_eq_true, true_and]
    exact ⟨fun same => moved (ended.trans same), by omega, by omega⟩

theorem sizeValue_iff (option : Text) (old : Nat) : sizeValue option text old = .ok size ↔
    SizeValue text size := by
  have parses : ntbParseSizeArg text old = (0, size) ↔ SizeValue text size := ntbParseSizeArg_iff
  rw [← parses, sizeValue]
  rcases ntbParseSizeArg_fails text old with done | failed
  · rw [← Prod.eta (ntbParseSizeArg text old), done]
    simp only [Except.ok.injEq, Prod.mk.injEq, true_and]
  · rw [failed]
    constructor
    · nofun
    · nofun

theorem copyText_iff (what : Text) :
    copyText capacity what text = .ok copied ↔ text.length < capacity ∧ copied = text := by
  unfold copyText
  split_ifs with long
  · constructor
    · nofun
    · rintro ⟨short, -⟩
      omega
  · rw [Except.ok.injEq]
    exact ⟨fun same => ⟨Nat.not_le.mp long, same.symm⟩, fun same => same.2.symm⟩

theorem map_eq_ok {x : Except ε α} {f : α → β} : x.map f = .ok b ↔ ∃ a, x = .ok a ∧ f a = b := by
  cases x with
  | error e => simp [Except.map]
  | ok a => simp [Except.map]

theorem valued_set_iff (option : Valued) : option.set opt text = .ok after ↔
    option.Sets opt text after := by
  have wide : longMin ≤ 0 ∧ longMin ≤ 1 ∧ intMax ≤ longMax ∧ (86400 : Int) ≤ longMax := by decide
  obtain ⟨zero, one, int, day⟩ := wide
  cases option with
  | backend =>
    simp only [Valued.set, Valued.Sets, map_eq_ok, copyText_iff, and_assoc, exists_and_left,
      exists_eq_left]
  | device =>
    simp only [Valued.set, Valued.Sets, map_eq_ok, copyText_iff, and_assoc, exists_and_left,
      exists_eq_left]
  | segment => simp only [Valued.set, Valued.Sets, map_eq_ok, ntbParseIntArg_iff zero int]
  | peerNode => simp only [Valued.set, Valued.Sets, map_eq_ok, ntbParseIntArg_iff zero int]
  | timeout => simp only [Valued.set, Valued.Sets, map_eq_ok, ntbParseIntArg_iff one day]
  | window => simp only [Valued.set, Valued.Sets, map_eq_ok, sizeValue_iff]
  | total => simp only [Valued.set, Valued.Sets, map_eq_ok, sizeValue_iff]
  | chunk => simp only [Valued.set, Valued.Sets, map_eq_ok, sizeValue_iff]

/-! ## Words -/

theorem word_role (role : ProfileRole) (named : name ∈ role.names) :
    word false name = some (.role role) := by
  cases role with
  | rx =>
    exact (by decide : ∀ name ∈ ProfileRole.rx.names, word false name = some (.role .rx)) name named
  | tx =>
    exact (by decide : ∀ name ∈ ProfileRole.tx.names, word false name = some (.role .tx)) name named

theorem word_valued (roleSet : Bool) (option : Valued) (named : name ∈ option.names) :
    word roleSet name = some (.valued option) := by
  cases roleSet <;> cases option <;> revert name <;> decide

theorem word_noModprobe (roleSet : Bool) :
    word roleSet (bytes "--no-modprobe") = some .noModprobe := by
  cases roleSet <;> decide

/-- What an argument is taken for is what it names. -/
def Word.Named (roleSet : Bool) (arg : Text) : Word → Prop
  | .role r => roleSet = false ∧ arg ∈ r.names
  | .help => True
  | .noModprobe => arg = bytes "--no-modprobe"
  | .valued option => arg ∈ option.names

/-- One comparison of the chain. -/
theorem named_ite {c : Prop} [Decidable c] {rest : Option Word} (named : c → w.Named roleSet arg)
    (later : ∀ v, rest = some v → v.Named roleSet arg) :
    ∀ v, (if c then some w else rest) = some v → v.Named roleSet arg := by
  intro v found
  split_ifs at found with here
  · exact Option.some.inj found ▸ named here
  · exact later v found

theorem word_named : ∀ w, word roleSet arg = some w → w.Named roleSet arg := by
  have pair {a b : Text} (either : arg = a ∨ arg = b) : arg ∈ [a, b] := by
    rcases either with rfl | rfl
    · exact List.mem_cons_self
    · exact List.mem_cons_of_mem _ List.mem_cons_self
  have single {a : Text} (same : arg = a) : arg ∈ [a] := List.mem_singleton.mpr same
  unfold word
  refine named_ite (fun rx => ⟨rx.2, pair rx.1⟩) ?_
  refine named_ite (fun tx => ⟨tx.2, pair tx.1⟩) ?_
  refine named_ite (fun _ => trivial) ?_
  refine named_ite (fun either => pair either) ?_
  refine named_ite (fun same => same) ?_
  refine named_ite (fun either => pair either) ?_
  refine named_ite (fun same => single same) ?_
  refine named_ite (fun same => single same) ?_
  refine named_ite (fun same => single same) ?_
  refine named_ite (fun same => single same) ?_
  refine named_ite (fun same => single same) ?_
  refine named_ite (fun same => single same) ?_
  intro w found
  contradiction

/-! ## Command lines -/

/-- What the loop has read are items, and a role at most once in all. -/
theorem parseArgs_sound (parsed : parseArgs opt roleSet args = .ok (last, known)) :
    ∃ items, args = items.flatMap Item.words ∧ Entered opt items last ∧
      roleSet.toNat + items.countP Item.isRole = known.toNat := by
  fun_induction parseArgs opt roleSet args with
  | case1 opt roleSet =>
    cases parsed
    exact ⟨[], rfl, .nil last, rfl⟩
  | case2 => contradiction
  | case3 opt roleSet arg rest role found ih =>
    obtain ⟨unset, named⟩ := word_named _ found
    obtain ⟨items, rfl, entered, once⟩ := ih parsed
    refine ⟨.role role arg :: items, rfl, .cons (.role named) entered, ?_⟩
    rw [List.countP_cons_of_pos rfl, unset, ← once, Bool.toNat_false, Bool.toNat_true]
    omega
  | case4 => contradiction
  | case5 opt roleSet arg rest found ih =>
    obtain rfl : arg = bytes "--no-modprobe" := word_named _ found
    obtain ⟨items, rfl, entered, once⟩ := ih parsed
    refine ⟨.noModprobe :: items, rfl, .cons .noModprobe entered, ?_⟩
    rwa [List.countP_cons_of_neg Bool.false_ne_true]
  | case6 => contradiction
  | case7 => contradiction
  | case8 opt roleSet arg option found value more after set ih =>
    obtain ⟨items, rfl, entered, once⟩ := ih parsed
    refine ⟨.valued option arg value :: items, rfl, .cons (.valued (word_named _ found) ?_) entered,
      ?_⟩
    · exact (valued_set_iff option).mp set
    · rwa [List.countP_cons_of_neg Bool.false_ne_true]

theorem parseArgs_complete (entered : Entered opt items last)
    (once : roleSet.toNat + items.countP Item.isRole = known.toNat) :
    parseArgs opt roleSet (items.flatMap Item.words) = .ok (last, known) := by
  induction entered generalizing roleSet with
  | nil opt =>
    have same : roleSet = known := by
      revert once
      cases roleSet <;> cases known <;> decide
    rw [same]
    rfl
  | @cons opt after last item items sets rest ih =>
    cases sets with
    | @role role name named =>
      rw [List.countP_cons_of_pos rfl] at once
      have unset : roleSet = false := by
        cases roleSet with
        | false => rfl
        | true =>
          have := known.toNat_le
          simp only [Bool.toNat_true] at once
          omega
      subst unset
      simp only [List.flatMap_cons, Item.words, List.singleton_append, parseArgs,
        word_role role named]
      apply ih
      rw [← once, Bool.toNat_false, Bool.toNat_true]
      omega
    | noModprobe =>
      rw [List.countP_cons_of_neg Bool.false_ne_true] at once
      simp only [List.flatMap_cons, Item.words, List.singleton_append, parseArgs, word_noModprobe]
      exact ih once
    | @valued option name text after named sets =>
      rw [List.countP_cons_of_neg Bool.false_ne_true] at once
      simp only [List.flatMap_cons, Item.words, List.cons_append, List.nil_append, parseArgs,
        word_valued roleSet option named, (valued_set_iff option).mpr sets]
      exact ih once

/-- The sizes that the last two checks let pass. -/
structure ProfileOptions.Sized (opt : ProfileOptions) : Prop where
  window : opt.windowSize ≠ 0
  total : opt.totalSize ≠ 0
  chunk : opt.chunkSize ≠ 0
  chunk_lt : opt.chunkSize < 2 ^ 32

theorem parseOptions_iff : parseOptions args = .ok opt ↔
    ∃ items, args = items.flatMap Item.words ∧ items.countP Item.isRole = 1 ∧
      Entered .default items opt ∧ opt.Sized := by
  unfold parseOptions
  constructor
  · intro parsed
    split_ifs at parsed
    rcases read : parseArgs .default false args with stopped | ⟨last, known⟩
    · rw [read] at parsed
      contradiction
    rw [read] at parsed
    dsimp only at parsed
    split_ifs at parsed with unset zero large
    obtain rfl := Except.ok.inj parsed
    obtain ⟨items, rfl, entered, once⟩ := parseArgs_sound read
    simp only [not_or] at zero
    rw [Bool.not_eq_false] at unset
    rw [unset, Bool.toNat_false, Nat.zero_add] at once
    exact ⟨items, rfl, once, entered, zero.1, zero.2.1, zero.2.2, Nat.not_le.mp large⟩
  · rintro ⟨items, rfl, once, entered, window, total, chunk, small⟩
    have read : parseArgs .default false (items.flatMap Item.words) = .ok (opt, true) :=
      parseArgs_complete entered ((Nat.zero_add _).trans once)
    have some : items.flatMap Item.words ≠ [] := by
      intro empty
      rw [empty] at read
      cases read
    rw [if_neg some, read]
    simp only [window, total, chunk, or_self, if_false, Bool.true_eq_false,
      if_neg (Nat.not_le.mpr small)]

/-! ## What is accepted -/

/-- Every field is within its type, and every text within its array. -/
structure ProfileOptions.Bounded (opt : ProfileOptions) : Prop where
  backendName : opt.backendName.length < backendNameSize
  devicePath : opt.devicePath.length < pathMax
  segmentId : opt.segmentId.toNat < 2 ^ 31
  peerNode : opt.peerNode.toNat < 2 ^ 31
  windowSize : opt.windowSize < 2 ^ 64
  totalSize : opt.totalSize < 2 ^ 64
  chunkSize : opt.chunkSize < 2 ^ 64
  timeoutSec : 1 ≤ opt.timeoutSec ∧ opt.timeoutSec ≤ 86400

theorem default_bounded : ProfileOptions.default.Bounded := by
  constructor <;> decide

theorem SizeValue.bounded (reads : SizeValue text size) : size < 2 ^ 64 := by
  obtain ⟨sign, number, multiplier, -, -, fits, rfl⟩ := reads
  exact fits

theorem IntText.bounded (reads : IntText 0 intMax text z) : (BitVec.ofInt 32 z).toNat < 2 ^ 31 := by
  obtain ⟨-, -, -, -, least, most⟩ := reads
  rw [BitVec.toNat_ofInt]
  unfold intMax at most
  omega

theorem Valued.Sets.bounded (sets : Valued.Sets opt text after option) (bounded : opt.Bounded) :
    after.Bounded := by
  cases option with
  | backend =>
    obtain ⟨short, rfl⟩ := sets
    exact { bounded with backendName := short }
  | device =>
    obtain ⟨short, rfl⟩ := sets
    exact { bounded with devicePath := short }
  | segment =>
    obtain ⟨z, reads, rfl⟩ := sets
    exact { bounded with segmentId := reads.bounded }
  | peerNode =>
    obtain ⟨z, reads, rfl⟩ := sets
    exact { bounded with peerNode := reads.bounded }
  | timeout =>
    obtain ⟨z, ⟨-, -, -, -, least, most⟩, rfl⟩ := sets
    exact { bounded with timeoutSec := ⟨least, most⟩ }
  | window =>
    obtain ⟨size, reads, rfl⟩ := sets
    exact { bounded with windowSize := reads.bounded }
  | total =>
    obtain ⟨size, reads, rfl⟩ := sets
    exact { bounded with totalSize := reads.bounded }
  | chunk =>
    obtain ⟨size, reads, rfl⟩ := sets
    exact { bounded with chunkSize := reads.bounded }

theorem Entered.bounded (entered : Entered opt items last) (bounded : opt.Bounded) :
    last.Bounded := by
  induction entered with
  | nil opt => exact bounded
  | cons sets rest ih =>
    apply ih
    cases sets with
    | role named => exact { bounded with }
    | noModprobe => exact { bounded with }
    | valued named sets => exact sets.bounded bounded

def backendName : Backend → Text
  | .generic => bytes "generic"
  | .sisci => bytes "sisci"

theorem selectBackend_iff : selectBackend opt = .ok (backend, last) ↔
    opt.backendName.map tolower = backendName backend ∧ opt.atDevice backend = last := by
  have lower : (bytes "generic").map tolower = backendName .generic ∧
      (bytes "sisci").map tolower = backendName .sisci := by decide
  have apart : backendName .generic ≠ backendName .sisci := by decide
  unfold selectBackend sameIgnoringCase
  rw [lower.1, lower.2]
  simp only [decide_eq_true_eq]
  split_ifs with generic sisci
  · rw [generic]
    cases backend with
    | generic => simp
    | sisci => simp [apart]
  · rw [sisci]
    cases backend with
    | generic => simp [apart.symm]
    | sisci => simp
  · cases backend with
    | generic => simp [generic]
    | sisci => simp [sisci]

/-- The program goes on to `run_rx` or `run_tx` exactly for the command lines of
the grammar, with the defaults as the items have changed them. -/
theorem command_line_iff : configure args = .ok (backend, opt) ↔
    ∃ items given, args = items.flatMap Item.words ∧ items.countP Item.isRole = 1 ∧
      Entered .default items given ∧ given.Sized ∧
      given.backendName.map tolower = backendName backend ∧
      given.atDevice backend = opt := by
  unfold configure
  constructor
  · intro configured
    rcases parsed : parseOptions args with stopped | given
    · rw [parsed] at configured
      contradiction
    rw [parsed] at configured
    obtain ⟨items, words, once, entered, sized⟩ := parseOptions_iff.mp parsed
    obtain ⟨named, same⟩ := selectBackend_iff.mp configured
    exact ⟨items, given, words, once, entered, sized, named, same⟩
  · rintro ⟨items, given, words, once, entered, sized, named, same⟩
    rw [parseOptions_iff.mpr ⟨items, words, once, entered, sized⟩]
    exact selectBackend_iff.mpr ⟨named, same⟩

-- A value is taken as it stands, even where it looks like an option.
example :
    (configure (["--dev", "--help", "tx", "--chunk", "0x10 KiB", "--mode",
      "SISCI"].map bytes)).toOption.map
    (fun out => (out.1, out.2.role, out.2.devicePath, out.2.chunkSize)) =
      some (.sisci, .tx, bytes "--help", 16384) := by decide +kernel

theorem ProfileOptions.Bounded.atDevice {opt : ProfileOptions} (bounded : opt.Bounded)
    (backend : Backend) :
    (opt.atDevice backend).Bounded := by
  unfold ProfileOptions.atDevice
  split
  · exact bounded
  · have short : (defaultDevicePath backend).length < pathMax := by cases backend <;> decide
    exact { bounded with devicePath := short }

theorem ProfileOptions.Sized.atDevice {opt : ProfileOptions} (sized : opt.Sized)
    (backend : Backend) :
    (opt.atDevice backend).Sized := by
  unfold ProfileOptions.atDevice
  split
  · exact sized
  · exact { sized with }

theorem configured_accepted (configured : configure args = .ok (backend, opt)) :
    opt.Bounded ∧ opt.Sized := by
  unfold configure at configured
  rcases parsed : parseOptions args with stopped | given
  · rw [parsed] at configured
    contradiction
  rw [parsed] at configured
  obtain ⟨items, -, -, entered, sized⟩ := parseOptions_iff.mp parsed
  obtain ⟨-, rfl⟩ := selectBackend_iff.mp configured
  exact ⟨(entered.bounded default_bounded).atDevice backend, sized.atDevice backend⟩

/-- The ring that a receiver and a sender use with a mapping of `capacity` bytes. -/
def transfer (rx tx : ProfileOptions) (capacity : Nat) (mapped : capacity < 2 ^ 64)
    (receiver : rx.Sized) (sender : tx.Sized) (bounded : tx.Bounded) : Options where
  capacity := capacity
  rxChunk := rx.chunkSize
  txChunk := tx.chunkSize
  total := tx.totalSize
  capacity_lt := mapped
  rxChunk_lt := receiver.chunk_lt
  txChunk_pos := Nat.pos_of_ne_zero sender.chunk
  txChunk_lt := sender.chunk_lt
  total_lt := bounded.totalSize

/-- Two command lines that are accepted on their own give a ring whose slots take
the sender's chunks exactly when the sender's chunk is at most the receiver's and
the mapping has room for the header and one slot of that size. No timeout in
milliseconds leaves `int`. -/
theorem command_lines_agree_iff (receives : configure rxArgs = .ok (rxBackend, rx))
    (sends : configure txArgs = .ok (txBackend, tx)) (mapped : capacity < 2 ^ 64)
    (m : Bytes.Memory) :
    (0 < tx.timeoutSec * 1000 ∧ tx.timeoutSec * 1000 ≤ intMax) ∧
      ∃ o : Options, o.capacity = capacity ∧ o.rxChunk = rx.chunkSize ∧ o.txChunk = tx.chunkSize ∧
        o.total = tx.totalSize ∧ 0 < o.total ∧
        ((∃ n, publishRing o m = some n ∧ o.txChunk ≤ get n .slotSize) ↔
          tx.chunkSize ≤ rx.chunkSize ∧ sizeofHeader + sizeofSlot + tx.chunkSize ≤ capacity) := by
  obtain ⟨-, receiver⟩ := configured_accepted receives
  obtain ⟨bounded, sender⟩ := configured_accepted sends
  have seconds := bounded.timeoutSec
  refine ⟨⟨by omega, by unfold intMax; omega⟩, ?_⟩
  refine ⟨transfer rx tx capacity mapped receiver sender bounded, rfl, rfl, rfl, rfl,
    Nat.pos_of_ne_zero sender.total, ?_⟩
  have slots (roomy : sizeofHeader + sizeofSlot < capacity) :=
    publishRing_tiles (transfer rx tx capacity mapped receiver sender bounded) m roomy
      (Nat.pos_of_ne_zero receiver.chunk)
  have size (roomy : sizeofHeader + sizeofSlot < capacity) :
      ringSlotSize (transfer rx tx capacity mapped receiver sender bounded) =
        min rx.chunkSize (capacity - sizeofHeader - sizeofSlot) := by
    rw [ringSlotSize, ntbRingMaxSlotSize]
    exact congrArg (min _) (if_neg (Nat.not_le.mpr roomy))
  constructor
  · rintro ⟨n, published, fits⟩
    obtain ⟨roomy, -⟩ := publishRing_roomy published
    obtain ⟨n', same, tiles⟩ := slots roomy
    obtain rfl := Option.some.inj (published.symm.trans same)
    rw [tiles.size, size roomy, Nat.le_min] at fits
    change tx.chunkSize ≤ _ ∧ tx.chunkSize ≤ _ at fits
    change _ < capacity at roomy
    omega
  · rintro ⟨smaller, room⟩
    have positive := Nat.pos_of_ne_zero sender.chunk
    have roomy : sizeofHeader + sizeofSlot < capacity := by omega
    obtain ⟨n, published, tiles⟩ := slots roomy
    refine ⟨n, published, ?_⟩
    rw [tiles.size, size roomy, Nat.le_min]
    exact ⟨smaller, by change tx.chunkSize ≤ _; omega⟩

/-- The lines of the documentation, with a chunk for each side. -/
theorem command_lines_agree_default :
    ∃ rx tx, configure (["rx"].map bytes) = .ok (.generic, rx) ∧
      configure (["tx", "--chunk", "64k"].map bytes) = .ok (.generic, tx) ∧
      ∃ o : Options, o.capacity = 0x3FFFF0 ∧ o.txChunk = 0x10000 ∧
        ∃ n, publishRing o (fun _ => 0) = some n ∧ o.txChunk ≤ get n .slotSize := by
  obtain ⟨rx, receives⟩ : ∃ rx, configure (["rx"].map bytes) = .ok (.generic, rx) := ⟨_, rfl⟩
  have sends : configure (["tx", "--chunk", "64k"].map bytes) =
      .ok (.generic, { ProfileOptions.default with
        role := .tx, chunkSize := 0x10000, devicePath := bytes "/dev/ntb_idt_app" }) := by
          decide +kernel
  have large : 0x10000 ≤ rx.chunkSize := by
    obtain ⟨-, rfl⟩ := Prod.mk.inj (Except.ok.inj receives)
    decide
  obtain ⟨-, o, capacity, -, chunk, -, -, agree⟩ :=
    command_lines_agree_iff receives sends (by decide : 0x3FFFF0 < 2 ^ 64) (fun _ => 0)
  exact ⟨rx, _, receives, sends, o, capacity, chunk, agree.mpr ⟨large, by decide⟩⟩

end IdtNtb.Profile
