import Mathlib.Data.List.Perm.Basic
import Mathlib.Data.List.Nodup
import Mathlib.Data.List.Count

/-!
# Accounting for allocated resources

A pool lists what is allocated, a list of owners what each holder accounts for.
The books balance when the two are permutations of each other without repetition:
then nothing is leaked, nothing has two owners, and an owner may release what it
holds. Moving a resource between owners is a permutation.
-/
namespace Verif

variable {β : Type}

structure Balanced (pool owners : List β) : Prop where
  nodup : pool.Nodup
  perm : pool.Perm owners

namespace Balanced

variable {pool owners owners' : List β} {b : β}

theorem nil : Balanced ([] : List β) [] := ⟨List.nodup_nil, List.Perm.refl _⟩

theorem owners_nodup (h : Balanced pool owners) : owners.Nodup := h.perm.nodup_iff.mp h.nodup

theorem mem_iff (h : Balanced pool owners) : b ∈ pool ↔ b ∈ owners := h.perm.mem_iff

/-- A fresh resource and its new owner. -/
theorem alloc (h : Balanced pool owners) (hfresh : b ∉ pool) (hp : owners'.Perm (b :: owners)) :
    Balanced (b :: pool) owners' :=
  ⟨List.nodup_cons.mpr ⟨hfresh, h.nodup⟩, (h.perm.cons b).trans hp.symm⟩

/-- A release by the owner. -/
theorem release [DecidableEq β] (h : Balanced pool owners) (hp : owners.Perm (b :: owners')) :
    Balanced (pool.erase b) owners' := by
  refine ⟨h.nodup.erase b, ?_⟩
  have he : (pool.erase b).Perm (owners.erase b) := h.perm.erase b
  have hr : (owners.erase b).Perm ((b :: owners').erase b) := hp.erase b
  rw [List.erase_cons_head] at hr
  exact he.trans hr

/-- Resources change hands. -/
theorem transfer (h : Balanced pool owners) (hp : owners.Perm owners') : Balanced pool owners' :=
  ⟨h.nodup, h.perm.trans hp⟩

end Balanced

end Verif
