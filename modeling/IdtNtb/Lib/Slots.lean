import IdtNtb.Lib.Bytes

/-! A circular array of equal slots in byte memory. Unbounded indices name the
slots; an index window no longer than the array names each slot once. -/
namespace IdtNtb.Slots
open Bytes

def slotAt (base stride count i : Nat) : Nat := base + i % count * stride

/-- The next index to be filled reuses no slot of the window below it. -/
theorem mod_ne {t i h n : Nat} (lower : t ≤ i) (upper : i < h) (room : h < t + n) :
    i % n ≠ h % n := by
  intro same
  have apart : (h - i) % n = 0 := Nat.sub_mod_eq_zero_of_mod_eq same.symm
  have short : (h - i) % n = h - i := Nat.mod_eq_of_lt (by omega)
  omega

theorem slotAt_end (base stride i : Nat) (nonempty : 0 < count) :
    slotAt base stride count i + stride ≤ base + count * stride := by
  have inside : i % count + 1 ≤ count := Nat.mod_lt i nonempty
  have scaled := Nat.mul_le_mul_right stride inside
  rw [Nat.add_mul, Nat.one_mul] at scaled
  unfold slotAt
  omega

/-- Ranges inside two different slots share no byte. -/
theorem slotAt_disjoint (base count : Nat) (different : i % count ≠ j % count)
    (first : x + w ≤ stride) (second : y + v ≤ stride) :
    Separate (slotAt base stride count i + x) w (slotAt base stride count j + y) v := by
  unfold Separate slotAt
  rcases Nat.lt_or_gt_of_ne different with before | after
  · have scaled := Nat.mul_le_mul_right stride (Nat.succ_le_of_lt before)
    rw [Nat.succ_mul] at scaled
    omega
  · have scaled := Nat.mul_le_mul_right stride (Nat.succ_le_of_lt after)
    rw [Nat.succ_mul] at scaled
    omega

end IdtNtb.Slots
