import Mathlib.Tactic

/-!
# Decimal numbers

The text of a number without leading zeros, and the value of a text.
-/
namespace Verif.Decimal

def isDigit (c : UInt8) : Bool := 0x30 ≤ c && c ≤ 0x39

def digit (d : Nat) : UInt8 := UInt8.ofNat (48 + d)

/-- The text of a number. -/
def decimal (n : Nat) : List UInt8 :=
  if n = 0 then [0x30] else ((Nat.digits 10 n).map digit).reverse

/-- One more digit at the end of a number. -/
def push (v : Nat) (c : UInt8) : Nat := v * 10 + (c.toNat - 48)

/-- The value of a text. -/
def value (ds : List UInt8) : Nat := ds.foldl push 0

/-- The text of an integer. -/
def decimalInt (z : Int) : List UInt8 :=
  if z < 0 then 0x2d :: decimal z.natAbs else decimal z.natAbs

theorem toNat_digit {d : Nat} (h : d < 10) : (digit d).toNat = 48 + d := by
  rw [digit, UInt8.toNat_ofNat']
  omega

theorem isDigit_iff {c : UInt8} : isDigit c = true ↔ 48 ≤ c.toNat ∧ c.toNat ≤ 57 := by
  rw [isDigit, Bool.and_eq_true, decide_eq_true_iff, decide_eq_true_iff, UInt8.le_iff_toNat_le,
    UInt8.le_iff_toNat_le]
  rfl

theorem isDigit_digit {d : Nat} (h : d < 10) : isDigit (digit d) = true := by
  rw [isDigit_iff, toNat_digit h]
  omega

theorem decimal_lt {n : Nat} (h : n < 10) : decimal n = [digit n] := by
  rw [decimal]
  split_ifs with h0
  · subst h0
    rfl
  · rw [Nat.digits_of_lt 10 n h0 h]
    rfl

theorem decimal_ge {n : Nat} (h : 10 ≤ n) : decimal n = decimal (n / 10) ++ [digit (n % 10)] := by
  rw [decimal, decimal, if_neg (by omega), if_neg (by omega),
    Nat.digits_def' (by omega) (by omega), List.map_cons, List.reverse_cons]

theorem decimal_ne_nil (n : Nat) : decimal n ≠ [] := by
  by_cases h : n < 10
  · rw [decimal_lt h]
    exact List.cons_ne_nil _ _
  · rw [decimal_ge (by omega)]
    exact List.append_ne_nil_of_right_ne_nil _ (List.cons_ne_nil _ _)

/-- Only digits stand in the text of a number. -/
theorem isDigit_decimal (n : Nat) : ∀ c ∈ decimal n, isDigit c = true := by
  induction n using Nat.strong_induction_on with
  | _ n ih =>
    intro c hc
    by_cases h : n < 10
    · rw [decimal_lt h] at hc
      obtain rfl := List.mem_singleton.mp hc
      exact isDigit_digit h
    · rw [decimal_ge (by omega), List.mem_append] at hc
      rcases hc with hc | hc
      · exact ih (n / 10) (by omega) c hc
      · obtain rfl := List.mem_singleton.mp hc
        exact isDigit_digit (by omega)

theorem value_append (ds : List UInt8) (c : UInt8) : value (ds ++ [c]) = push (value ds) c :=
  List.foldl_concat ..

@[simp] theorem value_decimal (n : Nat) : value (decimal n) = n := by
  induction n using Nat.strong_induction_on with
  | _ n ih =>
    by_cases h : n < 10
    · rw [decimal_lt h]
      change push 0 (digit n) = n
      rw [push, toNat_digit h]
      omega
    · rw [decimal_ge (by omega), value_append, ih (n / 10) (by omega), push,
        toNat_digit (by omega)]
      omega

/-- A number of two digits or more does not begin with a zero. -/
theorem decimal_cases (n : Nat) :
    decimal n = [0x30] ∨ ∃ c cs, decimal n = c :: cs ∧ c ≠ 0x30 ∧ isDigit c = true := by
  induction n using Nat.strong_induction_on with
  | _ n ih =>
    by_cases h : n < 10
    · rw [decimal_lt h]
      by_cases h0 : n = 0
      · subst h0
        exact Or.inl rfl
      · refine Or.inr ⟨digit n, [], rfl, fun hd => ?_, isDigit_digit h⟩
        have hn := congrArg UInt8.toNat hd
        rw [toNat_digit h] at hn
        change 48 + n = 48 at hn
        omega
    · rw [decimal_ge (by omega)]
      rcases ih (n / 10) (by omega) with h0 | ⟨c, cs, hc, hne, hd⟩
      · -- the front of the number would be zero
        have hv := congrArg value h0
        rw [value_decimal] at hv
        change n / 10 = 0 at hv
        omega
      · rw [hc]
        exact Or.inr ⟨c, cs ++ [digit (n % 10)], rfl, hne, hd⟩

/-- How long the text of a number is. -/
theorem length_decimal_le {n k : Nat} (hk : 0 < k) (h : n < 10 ^ k) : (decimal n).length ≤ k := by
  induction k generalizing n with
  | zero => exact absurd hk (Nat.lt_irrefl 0)
  | succ k ih =>
    by_cases hn : n < 10
    · rw [decimal_lt hn, List.length_singleton]
      omega
    · have hk' : 0 < k := by
        rcases Nat.eq_zero_or_pos k with rfl | hpos
        · omega
        · exact hpos
      have hdiv : n / 10 < 10 ^ k := by
        rw [Nat.pow_succ] at h
        omega
      rw [decimal_ge (by omega), List.length_append, List.length_singleton]
      exact Nat.succ_le_succ (ih hk' hdiv)

end Verif.Decimal
