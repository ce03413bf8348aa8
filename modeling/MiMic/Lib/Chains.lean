import Mathlib.Data.List.Chain
import Mathlib.Data.List.Nodup
import Mathlib.Logic.Function.Basic

/-!
# Chains in a table of links

Each cell of a table is free, the last of a chain, or is followed by another cell. A chain is the
list of its cells; a layout is a family of chains that share none.
-/
namespace Verif

variable {κ ι : Type*}

inductive Link (κ : Type*)
  | free
  | next (k : κ)
  | last

structure Chain (link : κ → Link κ) (l : List κ) : Prop where
  steps : l.IsChain fun a b => link a = .next b
  last : ∀ k ∈ l.getLast?, link k = .last

namespace Chain

variable {link link' : κ → Link κ} {l r : List κ} {a b k : κ}

theorem nil : Chain link [] := ⟨.nil, fun _ h => absurd h (Option.not_mem_none _)⟩

theorem singleton (h : link a = .last) : Chain link [a] := by
  refine ⟨.singleton a, fun k hk => ?_⟩
  obtain rfl := Option.some.inj hk
  exact h

theorem cons_cons : Chain link (a :: b :: l) ↔ link a = .next b ∧ Chain link (b :: l) := by
  constructor
  · intro h
    refine ⟨(List.isChain_cons_cons.mp h.steps).1, (List.isChain_cons_cons.mp h.steps).2, fun k hk => ?_⟩
    exact h.last k (by rwa [List.getLast?_cons_cons])
  · intro h
    refine ⟨List.isChain_cons_cons.mpr ⟨h.1, h.2.steps⟩, fun k hk => h.2.last k ?_⟩
    rwa [List.getLast?_cons_cons] at hk

theorem cons (h : Chain link (a :: l)) : Chain link l := by
  cases l with
  | nil => exact nil
  | cons b l => exact (cons_cons.mp h).2

/-- A chain in front of a cell, with the cell it leads to. -/
theorem append_cons : Chain link (l ++ b :: r) ↔
    Chain link (b :: r) ∧ (l ++ [b]).IsChain fun a b => link a = .next b := by
  induction l with
  | nil => simp
  | cons a l ih =>
    cases l with
    | nil => simp [cons_cons, and_comm]
    | cons c l =>
      rw [List.cons_append, List.cons_append, cons_cons, ← List.cons_append, ih]
      simp only [List.cons_append, List.isChain_cons_cons]
      exact and_left_comm

/-- The cells of a chain are followed by each other, the last one apart. -/
theorem next_of_mem (h : Chain link l) (hk : k ∈ l) : link k = .last ∨ ∃ j ∈ l, link k = .next j := by
  obtain ⟨s, t, rfl⟩ := List.append_of_mem hk
  cases t with
  | nil =>
    refine Or.inl (h.last k ?_)
    rw [List.getLast?_append]
    rfl
  | cons j t => exact Or.inr ⟨j, by simp, (cons_cons.mp (append_cons.mp h).1).1⟩

theorem ne_free (h : Chain link l) (hk : k ∈ l) : link k ≠ .free := by
  intro hfree
  rcases h.next_of_mem hk with hlast | ⟨j, -, hnext⟩
  · cases hlast.symm.trans hfree
  · cases hnext.symm.trans hfree

/-- From a cell on there is one chain only. -/
theorem unique (h : Chain link (a :: l)) (h' : Chain link (a :: r)) : l = r := by
  induction l generalizing a r with
  | nil =>
    have hlast := h.last a rfl
    cases r with
    | nil => rfl
    | cons c r => cases hlast.symm.trans (cons_cons.mp h').1
  | cons b l ih =>
    obtain ⟨hb, hl⟩ := cons_cons.mp h
    cases r with
    | nil => cases hb.symm.trans (h'.last a rfl)
    | cons c r =>
      obtain ⟨hc, hr⟩ := cons_cons.mp h'
      obtain rfl := Link.next.inj (hb.symm.trans hc)
      rw [ih hl hr]

/-- A chain that ends meets no cell twice. -/
theorem nodup (h : Chain link l) : l.Nodup := by
  induction l with
  | nil => exact List.nodup_nil
  | cons a l ih =>
    refine List.nodup_cons.mpr ⟨fun ha => ?_, ih h.cons⟩
    obtain ⟨s, t, rfl⟩ := List.append_of_mem ha
    have htail : Chain link (a :: t) := (append_cons.mp h.cons).1
    have hlen := congrArg List.length (h.unique htail)
    rw [List.length_append, List.length_cons] at hlen
    omega

theorem congr (h : Chain link l) (heq : ∀ k ∈ l, link' k = link k) : Chain link' l := by
  constructor
  · refine h.steps.imp_of_mem_imp fun x y hx _ hxy => ?_
    rw [heq x hx, hxy]
  · intro k hk
    rw [heq k (List.mem_of_getLast? hk), h.last k hk]

/-- The links up to a cell stay, when the table changes on none in front of it. -/
theorem steps_congr (h : (l ++ [a]).IsChain fun a b => link a = .next b)
    (hsame : ∀ j ∈ l, link' j = link j) : (l ++ [a]).IsChain fun a b => link' a = .next b := by
  obtain ⟨hl, -, hjoin⟩ := List.isChain_append.mp h
  refine List.isChain_append.mpr ⟨?_, .singleton a, fun x hx y hy => ?_⟩
  · refine hl.imp_of_mem_imp fun x y hx _ hxy => ?_
    rw [hsame x hx, hxy]
  · rw [hsame x (List.mem_of_getLast? hx)]
    exact hjoin x hx y hy

/-- A new last cell behind the old one. -/
theorem extend (h : Chain link (l ++ [a])) (ha : link' a = .next k) (hk : link' k = .last)
    (hsame : ∀ j ∈ l, link' j = link j) : Chain link' (l ++ [a, k]) :=
  append_cons.mpr ⟨cons_cons.mpr ⟨ha, singleton hk⟩, steps_congr (append_cons.mp h).2 hsame⟩

/-- A chain may be ended at each of its cells. -/
theorem cut (h : Chain link (l ++ a :: r)) (ha : link' a = .last) (hsame : ∀ j ∈ l, link' j = link j) :
    Chain link' (l ++ [a]) :=
  append_cons.mpr ⟨singleton ha, steps_congr (append_cons.mp h).2 hsame⟩

theorem next_getElem (h : Chain link l) {i : Nat} (hi : i + 1 < l.length) : link l[i] = .next l[i + 1] :=
  h.steps.getElem i hi

end Chain

/-- Chains that share no cell. -/
structure Layout (link : κ → Link κ) (chains : ι → List κ) : Prop where
  chain : ∀ i, Chain link (chains i)
  disjoint : Pairwise fun i j => (chains i).Disjoint (chains j)

namespace Layout

variable {link link' : κ → Link κ} {chains : ι → List κ} {i : ι} {l : List κ}

/-- One chain is replaced by one over its own cells and free ones, and the table is changed on no
cell of the others. -/
theorem update [DecidableEq ι] (h : Layout link chains) (hl : Chain link' l)
    (hsame : ∀ j, j ≠ i → ∀ k ∈ chains j, link' k = link k)
    (hcells : ∀ k ∈ l, k ∈ chains i ∨ link k = .free) : Layout link' (Function.update chains i l) := by
  have hapart : ∀ j, j ≠ i → ∀ k ∈ l, k ∉ chains j := by
    intro j hj k hk hmem
    rcases hcells k hk with hi | hfree
    · exact h.disjoint hj hmem hi
    · exact (h.chain j).ne_free hmem hfree
  constructor
  · intro j
    by_cases hj : j = i
    · rw [hj, Function.update_self]
      exact hl
    · rw [Function.update_of_ne hj]
      exact (h.chain j).congr (hsame j hj)
  · intro j k hjk
    by_cases hj : j = i
    · have hk : k ≠ i := fun hk => hjk (hj.trans hk.symm)
      rw [hj, Function.update_self, Function.update_of_ne hk]
      exact fun x hx => hapart k hk x hx
    · rw [Function.update_of_ne hj]
      by_cases hk : k = i
      · rw [hk, Function.update_self]
        exact fun x hx hx' => hapart j hj x hx' hx
      · rw [Function.update_of_ne hk]
        exact h.disjoint hjk

end Layout

end Verif
