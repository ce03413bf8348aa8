import Mathlib.Tactic

/-!
# Type-length-value options

Options one behind the other, each a code, a length and as many bytes. A pad is a code without a
length; behind the stop code nothing is an option.
-/
namespace Verif.Tlv

/-- The codes that stand without a length. -/
structure Marks where
  pad : UInt8
  stop : UInt8

variable (m : Marks) (code size : UInt8)

/-- The value of the first option with the code and of the size. -/
def lookup : List UInt8 → Option (List UInt8)
  | [] => none
  | [_] => none
  | c :: n :: body =>
      if c = m.pad then lookup (n :: body)
      else if c = m.stop then none
      else if body.length < n.toNat then none
      else if c = code ∧ n = size then some (body.take n.toNat)
      else lookup (body.drop n.toNat)
termination_by bs => bs.length
decreasing_by
  · simp
  · simp
    omega

variable {m code size} {c n : UInt8} {body : List UInt8}

theorem lookup_stop (hc : c ≠ m.pad) (hs : c = m.stop) :
    lookup m code size (c :: n :: body) = none := by
  rw [lookup, if_neg hc, if_pos hs]

theorem lookup_found (hpad : code ≠ m.pad) (hstop : code ≠ m.stop)
    (hlen : size.toNat ≤ body.length) :
    lookup m code size (code :: size :: body) = some (body.take size.toNat) := by
  rw [lookup, if_neg hpad, if_neg hstop, if_neg (Nat.not_lt.mpr hlen), if_pos ⟨rfl, rfl⟩]

/-- A whole option of another code does not matter. -/
theorem lookup_skip (hpad : c ≠ m.pad) (hstop : c ≠ m.stop) (hcode : c ≠ code)
    (hlen : n.toNat ≤ body.length) :
    lookup m code size (c :: n :: body) = lookup m code size (body.drop n.toNat) := by
  rw [lookup, if_neg hpad, if_neg hstop, if_neg (Nat.not_lt.mpr hlen),
    if_neg fun h => hcode h.1]

end Verif.Tlv
