import Mathlib.Data.Nat.ModEq

/-!
# Fields of half bytes

Bytes are read as a row of half bytes, the low half of a byte in front of the high one. A field is
the number that some neighbouring half bytes form, the first of them the lowest.
-/
namespace Verif.Nibbles

def nibble (b : Nat → UInt8) (k : Nat) : Nat :=
  if k % 2 = 0 then (b (k / 2)).toNat % 16 else (b (k / 2)).toNat / 16

def field (b : Nat → UInt8) : Nat → Nat → Nat
  | _, 0 => 0
  | k, w + 1 => nibble b k + 16 * field b (k + 1) w

variable {b b' : Nat → UInt8} {k w val : Nat}

theorem nibble_lt : nibble b k < 16 := by
  rw [nibble]
  have hb := (b (k / 2)).toNat_lt
  split <;> omega

theorem field_lt : field b k w < 16 ^ w := by
  induction w generalizing k with
  | zero => exact Nat.one_pos
  | succ w ih =>
    have hn := nibble_lt (b := b) (k := k)
    have hf := ih (k := k + 1)
    rw [field, Nat.pow_succ]
    omega

theorem field_congr (h : ∀ j, k ≤ j → j < k + w → nibble b' j = nibble b j) :
    field b' k w = field b k w := by
  induction w generalizing k with
  | zero => rfl
  | succ w ih =>
    rw [field, field, h k le_rfl (by omega), ih fun j hlo hhi => h j (by omega) (by omega)]

theorem nibble_low (i : Nat) : nibble b (2 * i) = (b i).toNat % 16 := by
  rw [nibble, if_pos (Nat.mul_mod_right 2 i), Nat.mul_div_cancel_left i Nat.two_pos]

theorem nibble_high (i : Nat) : nibble b (2 * i + 1) = (b i).toNat / 16 := by
  have hodd : ¬(2 * i + 1) % 2 = 0 := by omega
  have hbyte : (2 * i + 1) / 2 = i := by omega
  rw [nibble, if_neg hodd, hbyte]

theorem field_low (i : Nat) : field b (2 * i) 1 = (b i).toNat % 16 := by
  rw [field, field, nibble_low, Nat.mul_zero, Nat.add_zero]

/-- A field that starts with a byte. -/
theorem field_byte (i w : Nat) :
    field b (2 * i) (w + 2) = (b i).toNat + 256 * field b (2 * (i + 1)) w := by
  have hnext : 2 * i + 1 + 1 = 2 * (i + 1) := rfl
  rw [field, field, nibble_low, nibble_high, hnext]
  omega

/-- A field that starts with the high half of a byte. -/
theorem field_high (i w : Nat) :
    field b (2 * i + 1) (w + 1) = (b i).toNat / 16 + 16 * field b (2 * (i + 1)) w := by
  have hnext : 2 * i + 1 + 1 = 2 * (i + 1) := rfl
  rw [field, nibble_high, hnext]

theorem field_two (i : Nat) : field b (2 * i) 2 = (b i).toNat := by
  rw [field_byte, field, Nat.mul_zero, Nat.add_zero]

end Verif.Nibbles
