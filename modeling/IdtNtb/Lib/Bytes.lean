import Mathlib.Data.Nat.Basic
import Mathlib.Tactic.Ring

/-! Byte-addressed memory with little-endian loads and stores of any width.
Offsets are natural numbers, so a range never wraps; a client that computes an
address modulo a word size does so before it reaches the memory. -/
namespace IdtNtb.Bytes

abbrev Memory := Nat → BitVec 8

/-- The little-endian value of the `width` bytes at `addr`. -/
def load (m : Memory) (addr : Nat) : Nat → Nat
  | 0 => 0
  | width + 1 => (m addr).toNat + 256 * load m (addr + 1) width

def byte (value i : Nat) : BitVec 8 := BitVec.ofNat 8 (value / 256 ^ i)

def store (m : Memory) (addr width value : Nat) : Memory :=
  fun x => if addr ≤ x ∧ x < addr + width then byte value (x - addr) else m x

/-- Two ranges, each given by its start and its length, share no byte. -/
def Separate (a m b n : Nat) : Prop := a + m ≤ b ∨ b + n ≤ a

instance (a m b n : Nat) : Decidable (Separate a m b n) := inferInstanceAs (Decidable (_ ∨ _))

theorem store_outside (outside : x < addr ∨ addr + width ≤ x) :
    store m addr width value x = m x := by
  simp only [store, ite_eq_right_iff]
  intro inside
  omega

theorem store_inside (lower : addr ≤ x) (upper : x < addr + width) :
    store m addr width value x = byte value (x - addr) := by
  simp only [store, lower, upper, and_self, if_true]

theorem load_congr (same : ∀ x, addr ≤ x → x < addr + width → m x = n x) :
    load m addr width = load n addr width := by
  induction width generalizing addr with
  | zero => rfl
  | succ width ih =>
    have tail : load m (addr + 1) width = load n (addr + 1) width :=
      ih (fun x lower upper => same x (by omega) (by omega))
    simp only [load, tail, same addr (Nat.le_refl _) (by omega)]

theorem load_lt (m : Memory) (addr width : Nat) : load m addr width < 256 ^ width := by
  induction width generalizing addr with
  | zero => exact Nat.one_pos
  | succ width ih =>
    have rest := ih (addr + 1)
    have first := (m addr).isLt
    rw [load, Nat.pow_succ]
    omega

/-- A store leaves every load from a separate range unchanged. -/
theorem load_store_disjoint (separate : Separate a w b v) :
    load (store m b v value) a w = load m a w := by
  apply load_congr
  intro x lower upper
  apply store_outside
  rcases separate with before | after
  · exact Or.inl (by omega)
  · exact Or.inr (by omega)

theorem load_store_mod (m : Memory) (addr width value : Nat) :
    load (store m addr width value) addr width = value % 256 ^ width := by
  -- Generalized to the tail of a wider store, which is what the recursion of `load` visits.
  have tail : ∀ k,
      load (store m addr (k + width) value) (addr + k) width = value / 256 ^ k % 256 ^ width := by
    induction width with
    | zero => intro k; simp [load, Nat.mod_one]
    | succ width ih =>
      intro k
      have next := ih (k + 1)
      rw [show k + 1 + width = k +
        (width + 1) by omega, show addr + (k + 1) = addr + k + 1 by omega] at next
      simp only [load, next]
      rw [store_inside (by omega) (by omega)]
      simp only [byte, Nat.add_sub_cancel_left, BitVec.toNat_ofNat]
      rw [show (2 : Nat) ^ 8 = 256 by rfl, Nat.pow_succ 256 k, ← Nat.div_div_eq_div_mul,
        show 256 ^ (width + 1) = 256 * 256 ^ width by ring, Nat.mod_mul]
  simpa using tail 0

theorem load_store (fits : value < 256 ^ width) :
    load (store m addr width value) addr width = value := by
  rw [load_store_mod, Nat.mod_eq_of_lt fits]

theorem load_eq_zero (zero : ∀ x, addr ≤ x → x < addr + width → m x = 0) :
    load m addr width = 0 := by
  induction width generalizing addr with
  | zero => rfl
  | succ width ih =>
    have rest : load m (addr + 1) width = 0 :=
      ih (fun x lower upper => zero x (by omega) (by omega))
    simp only [load, zero addr (Nat.le_refl _) (by omega), rest]
    rfl

/-- Every load from a zero-filled range is zero. -/
theorem load_zeroed (m : Memory) (lower : start ≤ addr) (upper : addr + width ≤ start + length) :
    load (store m start length 0) addr width = 0 := by
  apply load_eq_zero
  intro x above below
  rw [store_inside (by omega) (by omega)]
  simp [byte]

theorem byte_load (m : Memory) (inside : i < width) :
    byte (load m addr width) i = m (addr + i) := by
  induction width generalizing addr i with
  | zero => exact absurd inside (Nat.not_lt_zero i)
  | succ width ih =>
    have first := (m addr).isLt
    cases i with
    | zero =>
      apply BitVec.eq_of_toNat_eq
      simp only [load, byte, Nat.pow_zero, Nat.div_one, BitVec.toNat_ofNat, Nat.add_zero]
      omega
    | succ i =>
      have rest : byte (load m (addr + 1) width) i = m (addr + 1 + i) :=
        ih (Nat.lt_of_succ_lt_succ inside)
      have shifted : ((m addr).toNat + 256 * load m (addr + 1) width) / 256 = load m (addr + 1)
          width := by omega
      rw [byte, load, Nat.pow_succ', ← Nat.div_div_eq_div_mul, shifted]
      rw [show addr + (i + 1) = addr + 1 + i by omega]
      exact rest

/-- What was stored, read back and stored elsewhere. -/
theorem store_load (m n : Memory) (addr width value target : Nat) :
    store n target width (load (store m addr width value) addr width) =
      store n target width value := by
  funext x
  by_cases inside : target ≤ x ∧ x < target + width
  · rw [store_inside inside.1 inside.2, store_inside inside.1 inside.2, byte_load _ (by omega),
      store_inside (by omega) (by omega), Nat.add_sub_cancel_left]
  · rw [store_outside (by omega), store_outside (by omega)]

def behind (m : Memory) (start : Nat) : Memory := fun x => m (start + x)

theorem store_behind (m : Memory) (start addr width value : Nat) :
    behind (store m (start + addr) width value) start =
      store (behind m start) addr width value := by
  funext x
  unfold behind store
  rw [Nat.add_sub_add_left]
  have same : (start + addr ≤ start + x ∧ start + x < start + addr + width) = (addr ≤ x ∧
      x < addr + width) := by
    rw [eq_iff_iff]
    omega
  simp only [same]

end IdtNtb.Bytes
