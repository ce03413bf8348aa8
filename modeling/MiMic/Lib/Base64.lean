import Mathlib.Tactic

/-!
# Base64

The text for a list of bytes: every 24 bits become four characters. A last group of
one or two bytes is filled with zero bits up to a whole character, and with pads up to four.
-/
namespace Verif.Base64

/-- The character for a value of six bits. -/
def char (v : Nat) : UInt8 :=
  UInt8.ofNat <|
    if v < 26 then 0x41 + v
    else if v < 52 then 0x61 + (v - 26)
    else if v < 62 then 0x30 + (v - 52)
    else if v = 62 then 0x2b
    else 0x2f

def pad : UInt8 := 0x3d

/-- The last `n` characters of a number, the most significant one first. -/
def chars : Nat → Nat → List UInt8
  | 0, _ => []
  | n + 1, v => chars n (v / 64) ++ [char (v % 64)]

def encode : List UInt8 → List UInt8
  | [] => []
  | [a] => chars 2 (a.toNat * 16) ++ [pad, pad]
  | [a, b] => chars 3 ((a.toNat * 256 + b.toNat) * 4) ++ [pad]
  | a :: b :: c :: rest => chars 4 ((a.toNat * 256 + b.toNat) * 256 + c.toNat) ++ encode rest

@[simp] theorem length_chars (n v : Nat) : (chars n v).length = n := by
  induction n generalizing v with
  | zero => rfl
  | succ n ih => rw [chars, List.length_append, ih, List.length_singleton]

theorem char_ne_zero (v : Nat) : char v ≠ 0 := by
  intro h
  have hv := congrArg UInt8.toNat h
  unfold char at hv
  split_ifs at hv <;> simp at hv <;> omega

theorem ne_zero_of_mem_chars {n v : Nat} {c : UInt8} (h : c ∈ chars n v) : c ≠ 0 := by
  induction n generalizing v with
  | zero => cases h
  | succ n ih =>
    rcases List.mem_append.mp h with h | h
    · exact ih h
    · rw [List.mem_singleton.mp h]
      exact char_ne_zero _

/-- A text has no terminator inside. -/
theorem ne_zero_of_mem_encode {bs : List UInt8} {c : UInt8} (h : c ∈ encode bs) : c ≠ 0 := by
  induction bs using encode.induct with
  | case1 => cases h
  | case2 a =>
    rcases List.mem_append.mp h with h | h
    · exact ne_zero_of_mem_chars h
    · obtain rfl : c = pad := by simpa using h
      decide
  | case3 a b =>
    rcases List.mem_append.mp h with h | h
    · exact ne_zero_of_mem_chars h
    · obtain rfl : c = pad := List.mem_singleton.mp h
      decide
  | case4 a b c' rest ih =>
    rcases List.mem_append.mp h with h | h
    · exact ne_zero_of_mem_chars h
    · exact ih h

/-- Four characters for every three bytes that have begun. -/
theorem length_encode (bs : List UInt8) : (encode bs).length = 4 * ((bs.length + 2) / 3) := by
  induction bs using encode.induct with
  | case1 => rfl
  | case2 a => simp [encode]
  | case3 a b => simp [encode]
  | case4 a b c rest ih =>
    rw [encode, List.length_append, length_chars, ih]
    simp only [List.length_cons]
    omega

end Verif.Base64
