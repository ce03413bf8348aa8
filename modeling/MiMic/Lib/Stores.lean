import Mathlib.Data.List.Basic
import Mathlib.Logic.Function.Basic
import Mathlib.Tactic

/-!
# Stores into a memory

A program that writes through a pointer is a list of stores, each with the index it goes to. What
it leaves in the memory, how many stores there are and where the last of them lies can then be
asked of the same list.
-/
namespace Verif.Stores

variable {ι α : Type} [DecidableEq ι]

/-- Indices may be negative where the program computes them from a signed number. -/
abbrev Log (ι α : Type) := List (ι × α)

/-- The memory behind the stores. -/
def run (m : ι → α) (log : Log ι α) : ι → α := log.foldl (fun m s => Function.update m s.1 s.2) m

/-- The text `t` at the front of a memory. -/
def overlay (m : Nat → α) (t : List α) : Nat → α := fun i => t.getD i (m i)

/-- The text `t` over a memory from index `n` on. -/
def laid (m : Int → α) (n : Int) (t : List α) : Int → α :=
  fun i => if n ≤ i then t.getD (i - n).toNat (m i) else m i

/-- No store goes to index `n` or behind it. -/
def Inside (n : Nat) (log : Log Nat α) : Prop := ∀ s ∈ log, s.1 < n

/-- The text, one element after the other, from index `k` on. -/
def ascending : Nat → List α → Log Nat α
  | _, [] => []
  | k, x :: xs => (k, x) :: ascending (k + 1) xs

theorem run_append (m : ι → α) (log log' : Log ι α) : run m (log ++ log') = run (run m log) log' :=
  List.foldl_append ..

theorem run_concat (m : ι → α) (log : Log ι α) (i : ι) (x : α) :
    run m (log ++ [(i, x)]) = Function.update (run m log) i x := run_append m log [(i, x)]

@[simp] theorem length_ascending (k : Nat) (t : List α) : (ascending k t).length = t.length := by
  induction t generalizing k with
  | nil => rfl
  | cons x xs ih => rw [ascending, List.length_cons, ih, List.length_cons]

theorem ascending_append (k : Nat) (t u : List α) :
    ascending k (t ++ u) = ascending k t ++ ascending (k + t.length) u := by
  induction t generalizing k with
  | nil => rfl
  | cons x xs ih =>
    rw [List.cons_append, ascending, ih, ascending, List.cons_append, List.length_cons,
      Nat.add_right_comm, Nat.add_assoc]

theorem inside_ascending (k : Nat) (t : List α) : Inside (k + t.length) (ascending k t) := by
  induction t generalizing k with
  | nil => exact fun s hs => nomatch hs
  | cons x xs ih =>
    intro s hs
    rw [List.length_cons]
    rcases List.mem_cons.mp hs with rfl | hs
    · omega
    · have := ih (k + 1) s hs
      omega

theorem run_ascending_from (m : Nat → α) (k : Nat) (t : List α) (i : Nat) :
    run m (ascending k t) i = if k ≤ i then t.getD (i - k) (m i) else m i := by
  induction t generalizing k m with
  | nil => simp [ascending, run]
  | cons x xs ih =>
    show run (Function.update m k x) (ascending (k + 1) xs) i = _
    rw [ih]
    rcases Nat.lt_trichotomy i k with hlt | rfl | hgt
    · rw [if_neg (by omega), if_neg (by omega), Function.update_of_ne (by omega)]
    · rw [if_neg (by omega), if_pos le_rfl, Nat.sub_self, Function.update_self]
      rfl
    · obtain ⟨j, rfl⟩ := Nat.exists_eq_add_of_lt hgt
      rw [if_pos (by omega), if_pos (by omega), Function.update_of_ne (by omega),
        show k + j + 1 - (k + 1) = j by omega, show k + j + 1 - k = j + 1 by omega]
      rfl

/-- One store after the other lays the text over the front of the memory. -/
theorem run_ascending (m : Nat → α) (t : List α) : run m (ascending 0 t) = overlay m t := by
  funext i
  rw [run_ascending_from, if_pos (Nat.zero_le i)]
  rfl

theorem overlay_of_lt (m : Nat → α) {t : List α} {i : Nat} (h : i < t.length) :
    overlay m t i = t[i] := by
  rw [overlay, List.getD_eq_getElem?_getD, List.getElem?_eq_getElem h, Option.getD_some]

theorem laid_nil (m : Int → α) (n : Int) : laid m n [] = m := by
  funext i
  simp [laid]

/-- The first element can be stored ahead of the others. -/
theorem laid_update (m : Int → α) (n : Int) (x : α) (t : List α) :
    laid (Function.update m n x) (n + 1) t = laid m n (x :: t) := by
  funext i
  unfold laid
  rcases Int.lt_trichotomy i n with hlt | rfl | hgt
  · rw [if_neg (by omega), if_neg (by omega), Function.update_of_ne (by omega)]
  · rw [if_neg (by omega), if_pos le_rfl, Function.update_self, Int.sub_self]
    rfl
  · rw [if_pos (by omega), if_pos (by omega), Function.update_of_ne (by omega),
      show (i - n).toNat = (i - (n + 1)).toNat + 1 by omega]
    rfl

/-- What the first element is laid over does not matter. -/
theorem laid_update_self (m : Int → α) (n : Int) (x : α) {t : List α} (h : t ≠ []) :
    laid (Function.update m n x) n t = laid m n t := by
  obtain ⟨y, t, rfl⟩ := List.exists_cons_of_ne_nil h
  rw [← laid_update, ← laid_update, Function.update_idem]

theorem laid_getElem (m : Int → α) (n : Int) {t : List α} {i : Nat} (h : i < t.length) :
    laid m n t (n + i) = t[i] := by
  rw [laid, if_pos (by omega), show (n + i - n).toNat = i by omega, List.getD_eq_getElem?_getD,
    List.getElem?_eq_getElem h, Option.getD_some]

theorem laid_of_le (m : Int → α) (n : Int) {t : List α} {i : Nat} (h : t.length ≤ i) :
    laid m n t (n + i) = m (n + i) := by
  rw [laid, if_pos (by omega), show (n + i - n).toNat = i by omega, List.getD_eq_getElem?_getD,
    List.getElem?_eq_none h, Option.getD_none]

end Verif.Stores
