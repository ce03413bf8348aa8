import Mathlib.Tactic

/-!
# Hexadecimal numbers

Lower case digits, the most significant one first, in a field of known width.
-/
namespace Verif.Hex

def digit (d : Nat) : UInt8 := if d < 10 then UInt8.ofNat (48 + d) else UInt8.ofNat (87 + d)

def ofDigit (c : UInt8) : Option Nat :=
  if 0x61 ≤ c ∧ c ≤ 0x66 then some (c.toNat - 87)
  else if 0x30 ≤ c ∧ c ≤ 0x39 then some (c.toNat - 48)
  else none

/-- The last `n` digits of a number. -/
def text : Nat → Nat → List UInt8
  | 0, _ => []
  | n + 1, v => text n (v / 16) ++ [digit (v % 16)]

def push (v : Nat) (c : UInt8) : Option Nat := (ofDigit c).map (16 * v + ·)

/-- The value of a text. -/
def value (ds : List UInt8) : Option Nat := ds.foldlM push 0

theorem ofDigit_digit {d : Nat} (h : d < 16) : ofDigit (digit d) = some d := by
  have hall : ∀ d : Fin 16, ofDigit (digit d) = some d.1 := by decide
  exact hall ⟨d, h⟩

theorem ofDigit_lt {c : UInt8} {d : Nat} (h : ofDigit c = some d) : d < 16 := by
  rw [ofDigit] at h
  split_ifs at h with h1 h2
  · obtain rfl := Option.some.inj h
    have := UInt8.le_iff_toNat_le.mp h1.2
    change c.toNat ≤ 102 at this
    omega
  · obtain rfl := Option.some.inj h
    have := UInt8.le_iff_toNat_le.mp h2.2
    change c.toNat ≤ 57 at this
    omega

@[simp] theorem length_text (n v : Nat) : (text n v).length = n := by
  induction n generalizing v with
  | zero => rfl
  | succ n ih => rw [text, List.length_append, ih, List.length_singleton]

theorem value_append (ds : List UInt8) (c : UInt8) :
    value (ds ++ [c]) = (value ds).bind fun v => push v c := by
  rw [value, List.foldlM_append]
  change (value ds).bind (fun v => (push v c).bind some) = _
  simp only [Option.bind_fun_some]

/-- Reading a field back gives the number that fits it. -/
theorem value_text {n v : Nat} (h : v < 16 ^ n) : value (text n v) = some v := by
  induction n generalizing v with
  | zero =>
    obtain rfl : v = 0 := by omega
    rfl
  | succ n ih =>
    rw [text, value_append, ih (by rw [pow_succ] at h; omega), Option.bind_some, push,
      ofDigit_digit (Nat.mod_lt v (by decide)), Option.map_some]
    congr 1
    omega

end Verif.Hex
