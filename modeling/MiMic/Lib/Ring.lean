import Mathlib.Data.List.Basic
import Mathlib.Data.Nat.ModEq
import Mathlib.Logic.Function.Basic
import Mathlib.Tactic

/-!
# A ring of `N` slots read as a queue

The ring keeps a read index and a write index; equal indices mean an empty ring,
so it holds at most `N - 1` elements. `walk` visits the slots in the order of a
loop `while (rp != wp) rp = (rp + 1) % N`, and `items` is the queue it visits.
-/
namespace Verif

structure Ring (α : Type) (N : Nat) where
  rp : Nat
  wp : Nat
  slot : Nat → α

namespace Ring

variable {α : Type} {N : Nat}

/-- Both indices name a slot. -/
structure InRange (r : Ring α N) : Prop where
  rp_lt : r.rp < N
  wp_lt : r.wp < N

/-- How many slots lie between `i` and the write index. -/
def distance (r : Ring α N) (i : Nat) : Nat := (r.wp + N - i) % N

/-- The loop body's view of the ring: at most `fuel` slots from `i` on. -/
def walk (r : Ring α N) : Nat → Nat → List α
  | 0, _ => []
  | fuel + 1, i => if i = r.wp then [] else r.slot i :: walk r fuel ((i + 1) % N)

def items (r : Ring α N) : List α := r.walk N r.rp

/-- The queue as positions counted from the read index. -/
def window (r : Ring α N) (i n : Nat) : List α :=
  (List.range n).map fun k => r.slot ((i + k) % N)

theorem next_lt {i : Nat} (hi : i < N) : (i + 1) % N < N := Nat.mod_lt _ (by omega)

theorem distance_lt (r : Ring α N) {i : Nat} (hi : i < N) : r.distance i < N :=
  Nat.mod_lt _ (by omega)

theorem distance_of_le {r : Ring α N} (hw : r.wp < N) {i : Nat} (h : i ≤ r.wp) :
    r.distance i = r.wp - i := by
  rw [distance, show r.wp + N - i = (r.wp - i) + N from by omega, Nat.add_mod_right,
    Nat.mod_eq_of_lt (by omega)]

theorem distance_of_lt {r : Ring α N} {i : Nat} (hi : i < N) (h : r.wp < i) :
    r.distance i = r.wp + N - i := by
  rw [distance, Nat.mod_eq_of_lt (by omega)]

theorem distance_eq_zero {r : Ring α N} (hw : r.wp < N) {i : Nat} (hi : i < N) :
    r.distance i = 0 ↔ i = r.wp := by
  unfold distance
  constructor
  · intro h
    rcases Nat.lt_or_ge r.wp i with hlt | hge
    · rw [Nat.mod_eq_of_lt (by omega)] at h
      omega
    · rw [show r.wp + N - i = (r.wp - i) + N from by omega, Nat.add_mod_right,
        Nat.mod_eq_of_lt (by omega)] at h
      omega
  · rintro rfl
    simp

theorem distance_next {r : Ring α N} (hw : r.wp < N) {i : Nat} (hi : i < N) (hne : i ≠ r.wp) :
    r.distance ((i + 1) % N) + 1 = r.distance i := by
  have hstep : (i + 1) % N = if i + 1 = N then 0 else i + 1 := by
    split
    · next h => rw [h, Nat.mod_self]
    · exact Nat.mod_eq_of_lt (by omega)
  unfold distance
  rw [hstep]
  rcases Nat.lt_or_ge r.wp i with hlt | hge
  · rw [Nat.mod_eq_of_lt (show r.wp + N - i < N from by omega)]
    split
    · rw [Nat.sub_zero, Nat.add_mod_right, Nat.mod_eq_of_lt hw]
      omega
    · rw [Nat.mod_eq_of_lt (by omega)]
      omega
  · rw [if_neg (by omega), show r.wp + N - (i + 1) = (r.wp - i - 1) + N from by omega,
      show r.wp + N - i = (r.wp - i) + N from by omega, Nat.add_mod_right, Nat.add_mod_right,
      Nat.mod_eq_of_lt (by omega), Nat.mod_eq_of_lt (by omega)]
    omega

theorem window_succ (r : Ring α N) (i n : Nat) :
    r.window i (n + 1) = r.slot (i % N) :: r.window ((i + 1) % N) n := by
  simp only [window, List.range_succ_eq_map, List.map_cons, List.map_map, Nat.add_zero]
  congr 1
  apply List.map_congr_left
  intro k _
  simp only [Function.comp, Nat.mod_add_mod, Nat.succ_eq_add_one]
  congr 2
  omega

/-- Enough fuel visits exactly the slots before the write index. -/
theorem walk_eq_window {r : Ring α N} (hw : r.wp < N) :
    ∀ {fuel i : Nat}, i < N → r.distance i ≤ fuel → r.walk fuel i = r.window i (r.distance i) := by
  intro fuel
  induction fuel with
  | zero =>
    intro i _ hf
    have h0 : r.distance i = 0 := by omega
    simp [walk, window, h0]
  | succ fuel ih =>
    intro i hi hf
    by_cases he : i = r.wp
    · rw [walk, if_pos he, (distance_eq_zero hw hi).mpr he]
      rfl
    · have hd := distance_next hw hi he
      rw [walk, if_neg he, ih (next_lt hi) (by omega), ← hd, window_succ, Nat.mod_eq_of_lt hi]

theorem items_eq_window {r : Ring α N} (h : r.InRange) :
    r.items = r.window r.rp (r.distance r.rp) :=
  walk_eq_window h.wp_lt h.rp_lt (distance_lt r h.rp_lt).le

theorem length_items {r : Ring α N} (h : r.InRange) : r.items.length = r.distance r.rp := by
  simp [items_eq_window h, window]

/-- One slot is always left free. -/
theorem length_items_lt {r : Ring α N} (h : r.InRange) : r.items.length < N := by
  rw [length_items h]
  exact distance_lt r h.rp_lt

theorem items_eq_nil {r : Ring α N} (h : r.InRange) : r.items = [] ↔ r.rp = r.wp := by
  rw [← List.length_eq_zero_iff, length_items h, distance_eq_zero h.wp_lt h.rp_lt]

/-- A run of slots from the read index on is the front of the queue. -/
theorem window_eq_take {r : Ring α N} (h : r.InRange) {n : Nat} (hn : n ≤ r.distance r.rp) :
    r.window r.rp n = r.items.take n := by
  obtain ⟨k, hk⟩ := Nat.exists_eq_add_of_le hn
  have hsplit : r.window r.rp (n + k) =
      r.window r.rp n ++ (List.range k).map fun j => r.slot ((r.rp + (n + j)) % N) := by
    simp only [window, List.range_add, List.map_append, List.map_map]
    rfl
  rw [items_eq_window h, hk, hsplit, List.take_left' (by simp [window])]

/-- The loop from the next slot visits the rest of the queue. -/
theorem items_step {r : Ring α N} (h : r.InRange) (hne : r.rp ≠ r.wp) :
    r.items = r.slot r.rp :: ({ r with rp := (r.rp + 1) % N } : Ring α N).items := by
  have hd := distance_next h.wp_lt h.rp_lt hne
  have h' : ({ r with rp := (r.rp + 1) % N } : Ring α N).InRange := ⟨next_lt h.rp_lt, h.wp_lt⟩
  rw [items_eq_window h, items_eq_window h', ← hd, window_succ, Nat.mod_eq_of_lt h.rp_lt]
  rfl

/-- Skip the `k` oldest elements. -/
def advance (r : Ring α N) (k : Nat) : Ring α N := { r with rp := (r.rp + k) % N }

theorem InRange.advance {r : Ring α N} (h : r.InRange) (k : Nat) : (r.advance k).InRange :=
  ⟨Nat.mod_lt _ (Nat.lt_of_le_of_lt (Nat.zero_le _) h.rp_lt), h.wp_lt⟩

/-- Moving the read index on drops the oldest elements of the queue. -/
theorem items_advance {r : Ring α N} (h : r.InRange) :
    ∀ {k : Nat}, k ≤ r.items.length → (r.advance k).items = r.items.drop k := by
  intro k
  induction k with
  | zero =>
    intro _
    rw [Ring.advance, Nat.add_zero, Nat.mod_eq_of_lt h.rp_lt]
    rfl
  | succ k ih =>
    intro hk
    have hdrop := ih (by omega)
    have hr := h.advance k
    have hne : (r.advance k).rp ≠ (r.advance k).wp := by
      intro he
      have hnil := (items_eq_nil hr).mpr he
      rw [hdrop, List.drop_eq_nil_iff] at hnil
      omega
    have hstep := items_step hr hne
    have hnext : ({ r.advance k with rp := ((r.advance k).rp + 1) % N } : Ring α N) =
        r.advance (k + 1) := by
      simp [Ring.advance, Nat.add_assoc]
    rw [hnext, hdrop] at hstep
    rw [List.drop_add_one_eq_tail_drop, hstep, List.tail_cons]

def full (r : Ring α N) : Bool := (r.wp + 1) % N == r.rp

/-- Fill the slot at the write index and move the index on. -/
def push (r : Ring α N) (x : α) : Ring α N where
  rp := r.rp
  wp := (r.wp + 1) % N
  slot := Function.update r.slot r.wp x

def reset (r : Ring α N) : Ring α N := { r with rp := 0, wp := 0 }

/-- The loop `for (i = rp; i != wp; i = (i + 1) % N) slot[i] = f(slot[i])`. -/
def updateFrom (f : α → α) : Nat → Nat → Ring α N → Ring α N
  | 0, _, r => r
  | fuel + 1, i, r =>
      if i = r.wp then r
      else updateFrom f fuel ((i + 1) % N) { r with slot := Function.update r.slot i (f (r.slot i)) }

def updateAll (r : Ring α N) (f : α → α) : Ring α N := updateFrom f N r.rp r

def updateHead (r : Ring α N) (f : α → α) : Ring α N :=
  { r with slot := Function.update r.slot r.rp (f (r.slot r.rp)) }

theorem InRange.push {r : Ring α N} (h : r.InRange) (x : α) : (r.push x).InRange :=
  ⟨h.rp_lt, next_lt h.wp_lt⟩

theorem InRange.reset {r : Ring α N} (h : r.InRange) : r.reset.InRange :=
  ⟨Nat.lt_of_le_of_lt (Nat.zero_le _) h.rp_lt, Nat.lt_of_le_of_lt (Nat.zero_le _) h.rp_lt⟩

@[simp] theorem items_reset {r : Ring α N} (h : r.InRange) : r.reset.items = [] :=
  (items_eq_nil h.reset).mpr rfl

theorem full_iff {r : Ring α N} (h : r.InRange) : r.full = true ↔ r.items.length + 1 = N := by
  have hn : (r.wp + 1) % N = if r.wp + 1 = N then 0 else r.wp + 1 := by
    split
    · next h => rw [h, Nat.mod_self]
    · exact Nat.mod_eq_of_lt (by have := h.wp_lt; omega)
  have hr := h.rp_lt
  have hw := h.wp_lt
  rw [length_items h, full, beq_iff_eq, hn, distance]
  rcases Nat.lt_or_ge r.wp r.rp with hlt | hge
  · rw [Nat.mod_eq_of_lt (show r.wp + N - r.rp < N from by omega)]
    split <;> omega
  · rw [show r.wp + N - r.rp = (r.wp - r.rp) + N from by omega, Nat.add_mod_right,
      Nat.mod_eq_of_lt (by omega)]
    split <;> omega

/-- A push on a ring that is not full appends one element to the queue. -/
theorem items_push {r : Ring α N} (h : r.InRange) (hf : r.full = false) (x : α) :
    (r.push x).items = r.items ++ [x] := by
  have hlen : ¬ r.items.length + 1 = N := fun he => by
    simp [(full_iff h).mpr he] at hf
  have hlt := length_items_lt h
  have hd : (r.push x).distance r.rp = r.distance r.rp + 1 := by
    rw [length_items h] at hlen hlt
    have hr := h.rp_lt
    have hw := h.wp_lt
    have key : ((r.wp + 1) % N + N - r.rp) % N = (r.wp + N - r.rp + 1) % N := by
      by_cases hN : r.wp + 1 = N
      · rw [hN, Nat.mod_self, show r.wp + N - r.rp + 1 = (0 + N - r.rp) + N from by omega,
          Nat.add_mod_right]
      · rw [Nat.mod_eq_of_lt (show r.wp + 1 < N from by omega)]
        congr 1
        omega
    unfold distance at hlen hlt ⊢
    simp only [push]
    rw [key, Nat.add_mod, Nat.mod_eq_of_lt (show 1 < N from by omega)]
    exact Nat.mod_eq_of_lt (by omega)
  have hwp : r.wp = (r.rp + r.distance r.rp) % N := by
    have hr := h.rp_lt
    have hw := h.wp_lt
    unfold distance
    rw [Nat.add_mod_mod, show r.rp + (r.wp + N - r.rp) = r.wp + N from by omega, Nat.add_mod_right,
      Nat.mod_eq_of_lt hw]
  rw [items_eq_window (h.push x), items_eq_window h]
  show (r.push x).window r.rp ((r.push x).distance r.rp) = _
  rw [hd, window, List.range_succ, List.map_append]
  congr 1
  · apply List.map_congr_left
    intro k hk
    have hk' : k < r.distance r.rp := List.mem_range.mp hk
    have hdl := distance_lt r h.rp_lt
    have hne : (r.rp + k) % N ≠ r.wp := by
      rw [hwp]
      intro he
      have hm : k ≡ r.distance r.rp [MOD N] := Nat.ModEq.add_left_cancel' r.rp he
      exact absurd (hm.eq_of_lt_of_lt (by omega) hdl) (by omega)
    simp [push, Function.update_of_ne hne]
  · simp [push, ← hwp]

/-- Fill the slots from the write index on. -/
def pushAll (r : Ring α N) (xs : List α) : Ring α N := xs.foldl push r

theorem InRange.pushAll {r : Ring α N} (h : r.InRange) (xs : List α) : (r.pushAll xs).InRange := by
  induction xs generalizing r with
  | nil => exact h
  | cons x xs ih => exact ih (h.push x)

/-- As many pushes as the ring has room for append their elements to the queue. -/
theorem items_pushAll {xs : List α} : ∀ {r : Ring α N}, r.InRange →
    r.items.length + xs.length < N → (r.pushAll xs).items = r.items ++ xs := by
  induction xs with
  | nil =>
    intro r _ _
    rw [List.append_nil]
    rfl
  | cons x xs ih =>
    intro r h hlen
    rw [List.length_cons] at hlen
    have hfull : r.full = false := by
      rw [← Bool.not_eq_true, full_iff h]
      omega
    have hpush := items_push h hfull x
    have hroom : (r.push x).items.length + xs.length < N := by
      rw [hpush, List.length_append, List.length_singleton]
      omega
    show ((r.push x).pushAll xs).items = _
    rw [ih (h.push x) hroom, hpush, List.append_assoc, List.singleton_append]

/-- The walk does not reach a slot that lies outside the window. -/
theorem walk_update_outside {r : Ring α N} (hw : r.wp < N) {fuel i j : Nat} (hi : i < N)
    (hf : r.distance i ≤ fuel) (hout : ∀ k < r.distance i, (i + k) % N ≠ j) (x : α) :
    ({ r with slot := Function.update r.slot j x } : Ring α N).walk fuel i = r.walk fuel i := by
  rw [walk_eq_window hw hi hf,
    walk_eq_window (r := { r with slot := Function.update r.slot j x }) hw hi hf]
  apply List.map_congr_left
  intro k hk
  exact Function.update_of_ne (hout k (List.mem_range.mp hk)) _ _

theorem next_add_ne {i : Nat} (hi : i < N)
    (k : Nat) (hk : k + 1 < N) : ((i + 1) % N + k) % N ≠ i := by
  rw [Nat.mod_add_mod, show i + 1 + k = i + (k + 1) from by omega]
  intro he
  have hm : k + 1 ≡ 0 [MOD N] :=
    Nat.ModEq.add_left_cancel' i (he.trans (Nat.mod_eq_of_lt hi).symm)
  exact absurd (hm.eq_of_lt_of_lt hk (by omega)) (by omega)

theorem updateFrom_spec (f : α → α) :
    ∀ (fuel i : Nat) (r : Ring α N), r.wp < N → i < N → r.distance i ≤ fuel →
      (updateFrom f fuel i r).rp = r.rp ∧ (updateFrom f fuel i r).wp = r.wp ∧
      (updateFrom f fuel i r).walk fuel i = (r.walk fuel i).map f ∧
      ∀ j, (∀ k < r.distance i, (i + k) % N ≠ j) → (updateFrom f fuel i r).slot j = r.slot j := by
  intro fuel
  induction fuel with
  | zero => intro i r _ _ _; simp [updateFrom, walk]
  | succ fuel ih =>
    intro i r hw hi hf
    by_cases he : i = r.wp
    · simp [updateFrom, he, walk]
    · let r' : Ring α N := { r with slot := Function.update r.slot i (f (r.slot i)) }
      have hd : r.distance ((i + 1) % N) + 1 = r.distance i := distance_next hw hi he
      have hdl := distance_lt r hi
      have hout : ∀ k < r.distance ((i + 1) % N), ((i + 1) % N + k) % N ≠ i :=
        fun k hk => next_add_ne hi k (by omega)
      obtain ⟨hrp, hwp, hwalk, hslot⟩ := ih ((i + 1) % N) r' hw (next_lt hi)
        (show r.distance ((i + 1) % N) ≤ fuel by omega)
      have hwalk' : r'.walk fuel ((i + 1) % N) = r.walk fuel ((i + 1) % N) :=
        walk_update_outside hw (next_lt hi) (by omega) hout _
      have hstep : updateFrom f (fuel + 1) i r = updateFrom f fuel ((i + 1) % N) r' := by
        rw [updateFrom, if_neg he]
      rw [hstep]
      refine ⟨hrp, hwp, ?_, ?_⟩
      · rw [walk, walk, hwp, if_neg he, if_neg he, hwalk, hwalk', hslot i hout, List.map_cons]
        simp [r']
      · intro j hj
        have hij : j ≠ i := by
          have h0 := hj 0 (by omega)
          rw [Nat.add_zero, Nat.mod_eq_of_lt hi] at h0
          exact h0.symm
        rw [hslot j]
        · exact Function.update_of_ne hij _ _
        · intro k hk
          have := hj (k + 1) (by have : k < r.distance ((i + 1) % N) := hk; omega)
          rwa [Nat.mod_add_mod, show i + 1 + k = i + (k + 1) from by omega]

theorem InRange.updateAll {r : Ring α N} (h : r.InRange) (f : α → α) : (r.updateAll f).InRange := by
  obtain ⟨hrp, hwp, -⟩ := updateFrom_spec f N r.rp r h.wp_lt h.rp_lt (distance_lt r h.rp_lt).le
  exact ⟨by rw [Ring.updateAll, hrp]; exact h.rp_lt, by rw [Ring.updateAll, hwp]; exact h.wp_lt⟩

theorem items_updateAll {r : Ring α N} (h : r.InRange) (f : α → α) :
    (r.updateAll f).items = r.items.map f := by
  obtain ⟨hrp, -, hwalk, -⟩ := updateFrom_spec f N r.rp r h.wp_lt h.rp_lt (distance_lt r h.rp_lt).le
  rw [items, updateAll, hrp]
  exact hwalk

/-- A change of the oldest slot changes the head of the queue alone. -/
theorem items_updateHead {r : Ring α N} (h : r.InRange) (f : α → α) (hne : r.rp ≠ r.wp) :
    (r.updateHead f).items =
      f (r.slot r.rp) :: ({ r with rp := (r.rp + 1) % N } : Ring α N).items := by
  have h' : (r.updateHead f).InRange := ⟨h.rp_lt, h.wp_lt⟩
  have hd := distance_next h.wp_lt h.rp_lt hne
  have hdl := distance_lt r h.rp_lt
  rw [items_step h' hne]
  congr 1
  · simp [updateHead]
  · exact walk_update_outside (r := { r with rp := (r.rp + 1) % N }) h.wp_lt (next_lt h.rp_lt)
      (show r.distance ((r.rp + 1) % N) ≤ N by omega)
      (fun k hk => next_add_ne h.rp_lt k
        (by have : k < r.distance ((r.rp + 1) % N) := hk; omega)) _

end Ring

end Verif
