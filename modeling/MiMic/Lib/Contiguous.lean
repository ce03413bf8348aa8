import Mathlib.Data.List.Basic

/-!
# Lists of adjacent intervals

Every element covers an interval from `first` to `last`. The list is contiguous up
to `e` when each interval ends where the next one begins and the last one ends at `e`.
-/
namespace Verif

variable {α β : Type}

/-- Where the list begins; `e` when it is empty. -/
def startOf (first : α → β) (e : β) : List α → β
  | [] => e
  | a :: _ => first a

def Contiguous (first last : α → β) (e : β) : List α → Prop
  | [] => True
  | a :: rest => last a = startOf first e rest ∧ Contiguous first last e rest

namespace Contiguous

variable {first last first' last' : α → β} {e e' : β} {l : List α}

theorem drop (h : Contiguous first last e l) (k : Nat) : Contiguous first last e (l.drop k) := by
  induction k generalizing l with
  | zero => exact h
  | succ k ih =>
    cases l with
    | nil => exact trivial
    | cons a rest => exact ih h.2

/-- A new interval from the old end on moves the end. -/
theorem append (h : Contiguous first last e l) {a : α} (hf : first a = e) (hl : last a = e') :
    Contiguous first last e' (l ++ [a]) := by
  induction l with
  | nil => exact ⟨hl, trivial⟩
  | cons b rest ih =>
    refine ⟨?_, ih h.2⟩
    cases rest with
    | nil => exact h.1.trans hf.symm
    | cons c rest => exact h.1

theorem congr (h : Contiguous first last e l) (hf : ∀ a ∈ l, first' a = first a)
    (hl : ∀ a ∈ l, last' a = last a) : Contiguous first' last' e l := by
  induction l with
  | nil => exact trivial
  | cons a rest ih =>
    refine ⟨?_, ih h.2 (fun b hb => hf b (List.mem_cons_of_mem _ hb))
      fun b hb => hl b (List.mem_cons_of_mem _ hb)⟩
    rw [hl a List.mem_cons_self, h.1]
    cases rest with
    | nil => rfl
    | cons b rest => exact (hf b (by simp)).symm

end Contiguous

end Verif
