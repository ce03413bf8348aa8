import Mathlib.Data.List.Perm.Basic
import Mathlib.Data.List.Nodup

/-!
# Keys held by the entries of a table

Every entry of a table holds some keys, and the table holds all of them. An update
of one entry exchanges what that entry holds and leaves the rest alone; when no key
is held twice, a key names its holder.
-/
namespace Verif

variable {α κ : Type} {keys : α → List κ} {table : List α} {i j : Nat} {a a' b : α} {k : κ}

/-- The keys of the whole table, in order. -/
def heldKeys (keys : α → List κ) (table : List α) : List κ := table.flatMap keys

theorem heldKeys_split (h : table[i]? = some a) :
    heldKeys keys table =
      heldKeys keys (table.take i) ++ (keys a ++ heldKeys keys (table.drop (i + 1))) := by
  obtain ⟨hi, ha⟩ := List.getElem?_eq_some_iff.mp h
  have hsplit : table = table.take i ++ a :: table.drop (i + 1) := by
    rw [← ha, List.getElem_cons_drop, List.take_append_drop]
  have hflat := congrArg (heldKeys keys) hsplit
  rw [hflat]
  simp only [heldKeys, List.flatMap_append, List.flatMap_cons]

theorem heldKeys_set (h : table[i]? = some a) :
    heldKeys keys (table.set i a') =
      heldKeys keys (table.take i) ++ (keys a' ++ heldKeys keys (table.drop (i + 1))) := by
  have hi := (List.getElem?_eq_some_iff.mp h).1
  rw [List.set_eq_take_append_cons_drop, if_pos hi]
  simp only [heldKeys, List.flatMap_append, List.flatMap_cons]

/-- An entry that gives keys up, or keeps them. -/
theorem heldKeys_keep (h : table[i]? = some a) (hk : (keys a').Sublist (keys a)) :
    (heldKeys keys (table.set i a')).Sublist (heldKeys keys table) := by
  rw [heldKeys_set h, heldKeys_split h]
  exact (List.Sublist.refl _).append (hk.append (List.Sublist.refl _))

/-- An entry that takes one more key. -/
theorem heldKeys_acquire (h : table[i]? = some a) (hk : (keys a').Perm (k :: keys a)) :
    (heldKeys keys (table.set i a')).Perm (k :: heldKeys keys table) := by
  rw [heldKeys_set h, heldKeys_split h]
  exact ((hk.append_right _).append_left _).trans List.perm_middle

/-- An entry that gives one key up. -/
theorem heldKeys_release (h : table[i]? = some a) (hk : (keys a).Perm (k :: keys a')) :
    (heldKeys keys table).Perm (k :: heldKeys keys (table.set i a')) := by
  rw [heldKeys_set h, heldKeys_split h]
  exact ((hk.append_right _).append_left _).trans List.perm_middle

theorem mem_heldKeys (h : table[i]? = some a) (hk : k ∈ keys a) : k ∈ heldKeys keys table :=
  List.mem_flatMap.mpr ⟨a, List.mem_of_getElem? h, hk⟩

theorem exists_of_mem_heldKeys (h : k ∈ heldKeys keys table) :
    ∃ (i : Nat) (a : α), table[i]? = some a ∧ k ∈ keys a := by
  obtain ⟨a, ha, hk⟩ := List.mem_flatMap.mp h
  obtain ⟨i, hi⟩ := List.mem_iff_getElem?.mp ha
  exact ⟨i, a, hi, hk⟩

/-- No key is held twice, so it has one holder. -/
theorem holder_unique (hn : (heldKeys keys table).Nodup) (hi : table[i]? = some a)
    (hj : table[j]? = some b) (ha : k ∈ keys a) (hb : k ∈ keys b) : i = j := by
  -- two holders would leave the key on both sides of the later one
  have hlt : ∀ {i j : Nat} {a b : α}, table[i]? = some a → table[j]? = some b →
      k ∈ keys a → k ∈ keys b → ¬ i < j := by
    intro i j a b hi hj ha hb hij
    rw [heldKeys_split hj] at hn
    have hfront : (table.take j)[i]? = some a := by rw [List.getElem?_take_of_lt hij, hi]
    exact (List.nodup_append.mp hn).2.2 k (mem_heldKeys hfront ha) k
      (List.mem_append_left _ hb) rfl
  have h1 := hlt hi hj ha hb
  have h2 := hlt hj hi hb ha
  omega

theorem heldKeys_replicate (n : Nat) (h : keys a = []) :
    heldKeys keys (List.replicate n a) = [] :=
  List.flatMap_eq_nil_iff.mpr fun x hx => by rw [List.eq_of_mem_replicate hx, h]

end Verif
