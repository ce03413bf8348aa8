import Mathlib.Tactic

/-!
# Numerals of bounded size

A reader that takes digits one at a time into a machine number and gives up when the number does
not fit. `Reader.Exact` is what one digit has to do; the loop then accepts exactly the numerals
below the bound.
-/
namespace Verif.Numeral

structure Base where
  base : Nat
  isDigit : UInt8 → Bool
  digit : UInt8 → Nat
  base_pos : 0 < base

variable {α : Type} (b : Base)

def valueFrom (v : Nat) (ds : List UInt8) : Nat := ds.foldl (fun v c => v * b.base + b.digit c) v

/-- The value of a text of digits. -/
def value (ds : List UInt8) : Nat := valueFrom b 0 ds

/-- Take digits as long as there are any. -/
def scan (push : α → UInt8 → Option α) : α → List UInt8 → Option (α × List UInt8)
  | r, [] => some (r, [])
  | r, c :: p => if b.isDigit c then (push r c).bind fun r' => scan push r' p else some (r, c :: p)

/-- One more digit is taken when the number stays below the bound, and refused otherwise. -/
structure Exact (bound : Nat) (Stands : α → Nat → Prop) (push : α → UInt8 → Option α) : Prop where
  take : ∀ r v c, Stands r v → v < bound → b.isDigit c = true → v * b.base + b.digit c < bound →
    ∃ r', push r c = some r' ∧ Stands r' (v * b.base + b.digit c)
  refuse : ∀ r v c, Stands r v → v < bound → b.isDigit c = true →
    bound ≤ v * b.base + b.digit c → push r c = none

variable {b}

theorem le_valueFrom (v : Nat) (ds : List UInt8) : v ≤ valueFrom b v ds := by
  induction ds generalizing v with
  | nil => exact le_rfl
  | cons c ds ih =>
    have hmul : v ≤ v * b.base := Nat.le_mul_of_pos_right v b.base_pos
    exact (hmul.trans (Nat.le_add_right _ _)).trans (ih _)

variable {bound : Nat} {Stands : α → Nat → Prop} {push : α → UInt8 → Option α}

/-- The digits of a number below the bound are taken up to the first other character. -/
theorem scan_of_lt (h : Exact b bound Stands push) {r : α} {v : Nat} (hr : Stands r v)
    {p : List UInt8} (hlt : valueFrom b v (p.takeWhile b.isDigit) < bound) :
    ∃ r', scan b push r p = some (r', p.dropWhile b.isDigit) ∧
      Stands r' (valueFrom b v (p.takeWhile b.isDigit)) := by
  induction p generalizing r v with
  | nil => exact ⟨r, rfl, hr⟩
  | cons c p ih =>
    by_cases hc : b.isDigit c = true
    · rw [List.takeWhile_cons_of_pos hc] at hlt ⊢
      rw [List.dropWhile_cons_of_pos hc, scan, if_pos hc]
      have hstep : v * b.base + b.digit c < bound := (le_valueFrom _ _).trans_lt hlt
      have hv : v < bound := (le_valueFrom v (c :: p.takeWhile b.isDigit)).trans_lt hlt
      obtain ⟨r', hpush, hr'⟩ := h.take r v c hr hv hc hstep
      rw [hpush, Option.bind_some]
      exact ih hr' hlt
    · rw [List.takeWhile_cons_of_neg hc, List.dropWhile_cons_of_neg hc, scan, if_neg hc]
      exact ⟨r, rfl, hr⟩

theorem scan_of_le (h : Exact b bound Stands push) {r : α} {v : Nat} (hr : Stands r v)
    (hv : v < bound) {p : List UInt8}
    (hle : bound ≤ valueFrom b v (p.takeWhile b.isDigit)) : scan b push r p = none := by
  induction p generalizing r v with
  | nil => exact absurd (hv.trans_le hle) (lt_irrefl v)
  | cons c p ih =>
    by_cases hc : b.isDigit c = true
    · rw [List.takeWhile_cons_of_pos hc] at hle
      rw [scan, if_pos hc]
      rcases Nat.lt_or_ge (v * b.base + b.digit c) bound with hlt | hge
      · obtain ⟨r', hpush, hr'⟩ := h.take r v c hr hv hc hlt
        rw [hpush, Option.bind_some]
        exact ih hr' hlt hle
      · rw [h.refuse r v c hr hv hc hge, Option.bind_none]
    · rw [List.takeWhile_cons_of_neg hc] at hle
      exact absurd (hv.trans_le hle) (lt_irrefl v)

end Verif.Numeral
