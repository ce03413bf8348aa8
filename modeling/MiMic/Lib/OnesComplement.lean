import Mathlib.Data.List.Basic
import Mathlib.Tactic

/-!
# One's-complement sums of 16-bit words

A byte string is read as big-endian 16-bit words, an odd last byte padded with
zero. `normalize` is the end-around-carry form of a total: zero only for a total
of zero, and otherwise a residue between `1` and `65535`.
-/
namespace Verif.OnesComplement

/-- The words of a byte string, added up without carries. -/
def wordTotal : List UInt8 → Nat
  | [] => 0
  | [a] => a.toNat * 256
  | a :: b :: rest => a.toNat * 256 + b.toNat + wordTotal rest

def normalize (n : Nat) : Nat := if n = 0 then 0 else (n - 1) % 65535 + 1

/-- Addition with end-around carry. -/
def add (a b : Nat) : Nat := if a + b < 65536 then a + b else a + b - 65535

theorem normalize_le (n : Nat) : normalize n ≤ 65535 := by
  unfold normalize
  split
  · omega
  · have := Nat.mod_lt (n - 1) (show 0 < 65535 by omega)
    omega

theorem normalize_of_le {n : Nat} (h : n ≤ 65535) : normalize n = n := by
  unfold normalize
  split <;> omega

theorem normalize_pos {n : Nat} (h : 0 < n) : 0 < normalize n := by
  unfold normalize
  rw [if_neg (by omega)]
  omega

theorem normalize_mod (n : Nat) : normalize n % 65535 = n % 65535 := by
  unfold normalize
  split <;> omega

/-- A total is all ones exactly when it is a positive multiple of `65535`. -/
theorem normalize_eq_ones {n : Nat} : normalize n = 65535 ↔ 0 < n ∧ n % 65535 = 0 := by
  unfold normalize
  split <;> omega

theorem add_normalize (a n : Nat) (ha : a ≤ 65535) :
    add (normalize n) a = normalize (n + a) := by
  have hn := normalize_le n
  have hm := normalize_mod n
  by_cases h0 : n + a = 0
  · have hn0 : n = 0 := by omega
    have ha0 : a = 0 := by omega
    subst hn0 ha0
    rfl
  · unfold add normalize at *
    split at hn <;> split <;> split <;> omega

theorem wordTotal_append {xs : List UInt8} (ys : List UInt8) (h : xs.length % 2 = 0) :
    wordTotal (xs ++ ys) = wordTotal xs + wordTotal ys := by
  induction xs using wordTotal.induct with
  | case1 => simp [wordTotal]
  | case2 a => simp at h
  | case3 a b rest ih =>
    have h' : rest.length % 2 = 0 := by
      simp only [List.length_cons] at h
      omega
    simp only [List.cons_append, wordTotal, ih h']
    omega

/-- Pieces that end between two words, but for the last, add up to the total of the whole. -/
theorem wordTotal_flatten {pieces : List (List UInt8)}
    (h : ∀ piece ∈ pieces.dropLast, piece.length % 2 = 0) :
    wordTotal pieces.flatten = (pieces.map wordTotal).sum := by
  induction pieces with
  | nil => rfl
  | cons piece pieces ih =>
    cases pieces with
    | nil => simp
    | cons next rest =>
      rw [List.dropLast_cons_of_ne_nil (List.cons_ne_nil _ _)] at h
      have hrest := ih fun p hp => h p (List.mem_cons_of_mem _ hp)
      rw [List.flatten_cons, wordTotal_append _ (h piece List.mem_cons_self), hrest,
        List.map_cons (l := next :: rest), List.sum_cons]

/-- A total of words brought down to 16 bits: the part above them is added to the rest
until nothing is above. -/
def foldCarries (n : Nat) : Nat :=
  if n < 65536 then n else foldCarries (n % 65536 + n / 65536)
termination_by n

theorem normalize_congr {a b : Nat} (h0 : a = 0 ↔ b = 0) (h : a % 65535 = b % 65535) :
    normalize a = normalize b := by
  unfold normalize
  split <;> split <;> omega

/-- Folding the carries in one by one comes to the same. -/
theorem foldCarries_eq (n : Nat) : foldCarries n = normalize n := by
  induction n using foldCarries.induct with
  | case1 n h =>
    rw [foldCarries, if_pos h]
    unfold normalize
    split <;> omega
  | case2 n h ih =>
    rw [foldCarries, if_neg h, ih]
    apply normalize_congr <;> omega

/-- The sum verifies once the complement of the sum with that word zero is filled in. -/
theorem normalize_complement {total : Nat} (h : 0 < total) :
    normalize (total + (65535 - normalize total)) = 65535 := by
  have hle := normalize_le total
  have hmod := normalize_mod total
  rw [normalize_eq_ones]
  omega

end Verif.OnesComplement
