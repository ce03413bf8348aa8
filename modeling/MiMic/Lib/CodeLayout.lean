import Mathlib.Tactic

/-!
# Instructions laid out one after another

A text of words in which every instruction starts where the one before it ends. `head` says what
is at the start of an instruction, `size` how many words it takes; both are read off the memory.
-/
namespace Verif

inductive Laid (head : Nat → Prop) (size : Nat → Nat) : Nat → Nat → Prop
  | nil (a : Nat) : Laid head size a a
  | cons {a b : Nat} : head a → 0 < size a → Laid head size (a + size a) b → Laid head size a b

namespace Laid

variable {head head' : Nat → Prop} {size size' : Nat → Nat} {a b c : Nat}

theorem le (h : Laid head size a b) : a ≤ b := by
  induction h with
  | nil => exact le_refl _
  | cons _ _ _ ih => exact Nat.le_of_add_right_le ih

/-- Inside the text there is an instruction, and behind it the text goes on. -/
theorem next (h : Laid head size a b) (hlt : a < b) :
    head a ∧ 0 < size a ∧ Laid head size (a + size a) b := by
  cases h with
  | nil => exact absurd hlt (lt_irrefl _)
  | cons hh hs ht => exact ⟨hh, hs, ht⟩

theorem trans (h : Laid head size a b) (h' : Laid head size b c) : Laid head size a c := by
  induction h with
  | nil => exact h'
  | cons hh hs _ ih => exact .cons hh hs (ih h')

/-- One more instruction at the end. -/
theorem snoc (h : Laid head size a b) (hh : head b) (hs : 0 < size b) :
    Laid head size a (b + size b) :=
  h.trans (.cons hh hs (.nil _))

/-- The layout is a matter of the words inside the text. -/
theorem congr (h : Laid head size a b) (hh : ∀ i < b, head i → head' i)
    (hs : ∀ i < b, size' i = size i) : Laid head' size' a b := by
  induction h with
  | nil => exact .nil _
  | cons h1 h2 h3 ih =>
    have hlt := Nat.lt_of_lt_of_le (Nat.lt_add_of_pos_right h2) h3.le
    refine .cons (hh _ hlt h1) (by rw [hs _ hlt]; exact h2) ?_
    rw [hs _ hlt]
    exact ih hh hs

end Laid

end Verif
