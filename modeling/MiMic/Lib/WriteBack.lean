import Mathlib.Data.Set.Function

/-!
# One slot before a store

A store is read and written through a slot that holds a copy of one place. The slot is written back
before it holds another place, and a write back may reach further places, the copies, which nobody
reads. What a reader finds is the view: the slot where it is newer, the store elsewhere.
-/
namespace Verif.WriteBack

variable {κ α : Type*} [DecidableEq κ]

/-- The place the slot stands for, what it holds and whether that is newer than the store. -/
structure Slot (κ α : Type*) where
  place : Option κ
  data : α
  dirty : Bool

structure Cached (κ α : Type*) where
  slot : Slot κ α
  store : κ → α

namespace Cached

variable {c d : Cached κ α} {copies : Set κ} {k j : κ}

def view (c : Cached κ α) : κ → α := fun k =>
  if c.slot.dirty = true ∧ c.slot.place = some k then c.slot.data else c.store k

/-- A slot that stands for a place holds what a reader is to find there. -/
def Current (c : Cached κ α) : Prop := ∀ k, c.slot.place = some k → c.slot.data = c.view k

/-- What the slot may do of itself: it is written back, with anything in the copies; it is dropped or
filled once there is nothing to write back. -/
inductive Step (copies : Set κ) : Cached κ α → Cached κ α → Prop
  | flush {slot : Slot κ α} {store store' : κ → α} {k : κ} : slot.place = some k →
      (∀ j ∉ copies, store' j = Function.update store k slot.data j) →
      Step copies ⟨slot, store⟩ ⟨{ slot with dirty := false }, store'⟩
  | load {slot : Slot κ α} {store : κ → α} (k : κ) : slot.dirty = false →
      Step copies ⟨slot, store⟩ ⟨⟨some k, store k, false⟩, store⟩
  | drop {slot : Slot κ α} {store : κ → α} (data : α) : slot.dirty = false →
      Step copies ⟨slot, store⟩ ⟨⟨none, data, false⟩, store⟩

theorem view_of_clean (h : c.slot.dirty = false) : c.view = c.store := by
  funext k
  rw [view, if_neg]
  rw [h]
  exact fun hc => Bool.false_ne_true hc.1

theorem view_of_dirty (h : c.slot.dirty = true) (hk : c.slot.place = some k) :
    c.view = Function.update c.store k c.slot.data := by
  funext j
  by_cases hj : j = k
  · rw [hj, Function.update_self, view, if_pos ⟨h, hk⟩]
  · rw [Function.update_of_ne hj, view, if_neg]
    rw [hk]
    exact fun hc => hj (Option.some.inj hc.2).symm

/-- A slot that is written back holds what it held: the update is seen in the store now. -/
theorem update_of_current (h : c.Current) (hk : c.slot.place = some k) :
    Function.update c.store k c.slot.data = c.view := by
  cases hd : c.slot.dirty with
  | true => exact (view_of_dirty hd hk).symm
  | false =>
    rw [h k hk, view_of_clean hd, Function.update_eq_self]

/-- No step of the slot changes what is read, the copies apart. -/
theorem Step.view_eq (h : Step copies c d) (hc : c.Current) (hj : j ∉ copies) : d.view j = c.view j := by
  cases h with
  | flush hk hstore =>
    rw [view_of_clean rfl]
    exact (hstore j hj).trans (congrFun (update_of_current hc hk) j)
  | load k hd => rw [view_of_clean rfl, view_of_clean hd]
  | drop data hd => rw [view_of_clean rfl, view_of_clean hd]

theorem Step.current (h : Step copies c d) (hc : c.Current) (hplace : ∀ k, c.slot.place = some k → k ∉ copies) :
    d.Current := by
  cases h with
  | @flush slot store store' k hk hstore =>
    intro j hj
    rw [view_of_clean rfl]
    obtain rfl := Option.some.inj (hk.symm.trans hj)
    exact ((hstore k (hplace k hk)).trans (Function.update_self ..)).symm
  | load k hd =>
    intro j hj
    obtain rfl := Option.some.inj hj
    rw [view_of_clean rfl]
  | drop data hd =>
    intro j hj
    cases hj

/-- The place the slot stands for gets new contents, in the slot only. -/
def modify (c : Cached κ α) (data : α) : Cached κ α := ⟨{ c.slot with data := data, dirty := true }, c.store⟩

theorem view_modify (hk : c.slot.place = some k) (data : α) :
    (c.modify data).view = Function.update c.view k data := by
  have hview : (c.modify data).view = Function.update c.store k data := view_of_dirty rfl hk
  rw [hview]
  cases hd : c.slot.dirty with
  | true => rw [view_of_dirty hd hk, Function.update_idem]
  | false => rw [view_of_clean hd]

theorem current_of_dirty (hd : c.slot.dirty = true) : c.Current := by
  intro k hk
  rw [view_of_dirty hd hk, Function.update_self]

end Cached

end Verif.WriteBack
