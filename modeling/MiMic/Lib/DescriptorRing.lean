import Mathlib.Data.List.Basic
import Mathlib.Tactic

/-!
# A ring of descriptors between a driver and its hardware

The driver enters blocks, the hardware takes them out in order. `log` is every entry ever
made and `c` how many of them the hardware has taken: entry number `n` stands in slot
`n % N`. A slot that is no longer pending may still name its block, which stays locked
until the driver clears the slot.
-/
namespace Verif.DescriptorRing

variable {β : Type} [DecidableEq β]

/-- Empty one slot. -/
def clearSlot (packet : Nat → Option β) (k : Nat) : Nat → Option β :=
  fun i => if i = k then none else packet i

omit [DecidableEq β] in
theorem clearSlot_none {packet : Nat → Option β} {k i : Nat} (h : packet i = none) :
    clearSlot packet k i = none := by
  rw [clearSlot]
  split
  · rfl
  · exact h

/-- Take the lock from the block of one slot. -/
def unlockSlot (lock : β → Bool) (packet : Nat → Option β) (k : Nat) : β → Bool :=
  fun b => if packet k = some b then false else lock b

def setSlot {α : Type} (f : Nat → α) (k : Nat) (a : α) : Nat → α := fun i => if i = k then a else f i

def lockBlock (lock : β → Bool) (b : β) : β → Bool := fun b' => if b' = b then true else lock b'

/-- Some entry that the hardware has not taken stands in the slot. -/
def Pending (N : Nat) (log : List (β × Nat)) (c k : Nat) : Prop :=
  ∃ n, c ≤ n ∧ n < log.length ∧ n % N = k

structure Ok (N : Nat) (packet : Nat → Option β) (size : Nat → Nat) (lock : β → Bool)
    (log : List (β × Nat)) (c : Nat) : Prop where
  c_le : c ≤ log.length
  le_c : log.length ≤ c + N
  pending : ∀ n e, c ≤ n → log[n]? = some e → packet (n % N) = some e.1 ∧ size (n % N) = e.2
  locked : ∀ b, lock b = true ↔ ∃ k, k < N ∧ packet k = some b
  inj : ∀ k k' b, k < N → k' < N → packet k = some b → packet k' = some b → k = k'

/-- Within one lap a slot determines the entry. -/
theorem mod_inj {N a m n : Nat} (hm : a ≤ m) (hm' : m < a + N) (hn : a ≤ n) (hn' : n < a + N)
    (h : m % N = n % N) : m = n := by
  by_contra hne
  rcases Nat.lt_or_gt_of_ne hne with hlt | hgt
  · have hd := Nat.sub_mod_eq_zero_of_mod_eq h.symm
    have hz := Nat.eq_zero_of_dvd_of_lt (Nat.dvd_of_mod_eq_zero hd) (by omega)
    omega
  · have hd := Nat.sub_mod_eq_zero_of_mod_eq h
    have hz := Nat.eq_zero_of_dvd_of_lt (Nat.dvd_of_mod_eq_zero hd) (by omega)
    omega

namespace Ok

variable {N : Nat} {packet : Nat → Option β} {size : Nat → Nat} {lock : β → Bool}
  {log : List (β × Nat)} {c : Nat}

omit [DecidableEq β] in
theorem empty (N : Nat) (size : Nat → Nat) :
    Ok N (fun _ => none) size (fun _ : β => false) [] 0 where
  c_le := Nat.le_refl 0
  le_c := Nat.zero_le _
  pending := fun n e _ h => by simp at h
  locked := fun b => by simp
  inj := fun k k' b _ _ h => by cases h

omit [DecidableEq β] in
/-- The oldest pending entry is what the hardware finds in its slot. -/
theorem oldest (h : Ok N packet size lock log c) (hc : c < log.length) :
    packet (c % N) = some log[c].1 ∧ size (c % N) = log[c].2 :=
  h.pending c log[c] le_rfl (List.getElem?_eq_getElem hc)

omit [DecidableEq β] in
theorem consume (h : Ok N packet size lock log c) (hc : c < log.length) :
    Ok N packet size lock log (c + 1) where
  c_le := hc
  le_c := by
    have hle := h.le_c
    omega
  pending := fun n e hn he => h.pending n e (by omega) he
  locked := h.locked
  inj := h.inj

/-- A slot that is not pending may be cleared, and the block it names unlocked. -/
theorem clear (h : Ok N packet size lock log c) {k : Nat} (hk : k < N)
    (hp : ¬ Pending N log c k) :
    Ok N (clearSlot packet k) size (unlockSlot lock packet k) log c where
  c_le := h.c_le
  le_c := h.le_c
  pending := by
    intro n e hn he
    have hlt : n < log.length := (List.getElem?_eq_some_iff.mp he).1
    have hne : n % N ≠ k := fun heq => hp ⟨n, hn, hlt, heq⟩
    rw [clearSlot, if_neg hne]
    exact h.pending n e hn he
  locked := by
    intro b
    by_cases hb : packet k = some b
    · rw [unlockSlot, if_pos hb]
      constructor
      · intro hf
        cases hf
      · rintro ⟨j, hj, hpj⟩
        rw [clearSlot] at hpj
        split at hpj
        · cases hpj
        · next hne => exact absurd (h.inj j k b hj hk hpj hb) hne
    · rw [unlockSlot, if_neg hb, h.locked b]
      constructor
      · rintro ⟨j, hj, hpj⟩
        refine ⟨j, hj, ?_⟩
        rw [clearSlot, if_neg]
        · exact hpj
        · rintro rfl
          exact hb hpj
      · rintro ⟨j, hj, hpj⟩
        rw [clearSlot] at hpj
        split at hpj
        · cases hpj
        · exact ⟨j, hj, hpj⟩
  inj := by
    intro j j' b hj hj' hp hp'
    rw [clearSlot] at hp hp'
    split at hp
    · cases hp
    · split at hp'
      · cases hp'
      · exact h.inj j j' b hj hj' hp hp'

/-- A block that is not locked goes into the next slot, if that is empty. -/
theorem enqueue (h : Ok N packet size lock log c) (hfull : log.length < c + N)
    (hempty : packet (log.length % N) = none) {b : β} (hb : lock b = false) (len : Nat) :
    Ok N (setSlot packet (log.length % N) (some b)) (setSlot size (log.length % N) len)
      (lockBlock lock b) (log ++ [(b, len)]) c where
  c_le := by
    have hle := h.c_le
    rw [List.length_append, List.length_singleton]
    omega
  le_c := by
    rw [List.length_append, List.length_singleton]
    omega
  pending := by
    intro n e hn he
    by_cases hlt : n < log.length
    · rw [List.getElem?_append_left hlt] at he
      have hne : n % N ≠ log.length % N := by
        intro heq
        have heq' := mod_inj (a := c) hn (by omega) h.c_le hfull heq
        omega
      rw [setSlot, if_neg hne, setSlot, if_neg hne]
      exact h.pending n e hn he
    · have hlen := (List.getElem?_eq_some_iff.mp he).1
      rw [List.length_append, List.length_singleton] at hlen
      obtain rfl : n = log.length := by omega
      rw [List.getElem?_concat_length] at he
      obtain rfl := Option.some.inj he
      rw [setSlot, if_pos rfl, setSlot, if_pos rfl]
      exact ⟨rfl, rfl⟩
  locked := by
    intro b'
    have hN : 0 < N := by
      have hle := h.c_le
      omega
    rw [lockBlock]
    split
    · next heq =>
      subst heq
      refine iff_of_true rfl ⟨log.length % N, Nat.mod_lt _ hN, ?_⟩
      rw [setSlot, if_pos rfl]
    · next hne =>
      rw [h.locked b']
      constructor
      · rintro ⟨k, hk, hp⟩
        refine ⟨k, hk, ?_⟩
        rw [setSlot, if_neg]
        · exact hp
        · rintro rfl
          rw [hempty] at hp
          cases hp
      · rintro ⟨k, hk, hp⟩
        rw [setSlot] at hp
        split at hp
        · exact absurd (Option.some.inj hp).symm hne
        · exact ⟨k, hk, hp⟩
  inj := by
    have hfresh : ∀ k, k < N → packet k ≠ some b := by
      intro k hk hp
      have ht := (h.locked b).mpr ⟨k, hk, hp⟩
      rw [hb] at ht
      cases ht
    intro k k' b' hk hk' hp hp'
    rw [setSlot] at hp hp'
    split at hp
    · next heq =>
      obtain rfl := Option.some.inj hp
      split at hp'
      · next heq' => rw [heq, heq']
      · exact absurd hp' (hfresh k' hk')
    · split at hp'
      · obtain rfl := Option.some.inj hp'
        exact absurd hp (hfresh k hk)
      · exact h.inj k k' b' hk hk' hp hp'

omit [DecidableEq β] in
theorem pending_locked (h : Ok N packet size lock log c) {e : β × Nat} (he : e ∈ log.drop c) :
    lock e.1 = true := by
  obtain ⟨i, hi, rfl⟩ := List.mem_iff_getElem.mp he
  have hN : 0 < N := by
    have hle := h.le_c
    rw [List.length_drop] at hi
    omega
  have hget : log[c + i]? = some (log.drop c)[i] := by
    rw [List.getElem_drop]
    exact List.getElem?_eq_getElem _
  exact (h.locked _).mpr ⟨(c + i) % N, Nat.mod_lt _ hN, (h.pending _ _ (by omega) hget).1⟩

end Ok

end Verif.DescriptorRing
