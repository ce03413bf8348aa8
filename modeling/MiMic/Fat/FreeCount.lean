import MiMic.Fat.Clusters
import Mathlib.Order.Interval.Finset.SuccPred

/-!
# The free clusters, counted

`f_getfree` counts the free entries: one by one for a 12-bit table, else straight out of the sectors of
the table, which leaves out `get_fat` and its checks. Both come to the same.
-/
namespace MiMic.Fat

open Verif Verif.Prog

variable {v : Volume} {fs fs' : Fs} {clst n : Nat}

/-- The free entries in front of one. -/
def freeBelow (v : Volume) (view : Nat → Bytes) (lo c : Nat) : Nat :=
  ((Finset.Ico lo c).filter fun d => v.entry view d = 0).card

theorem freeBelow_still {lo c : Nat} (h : Still v fs fs') (hc : c ≤ v.nFatent) :
    freeBelow v fs'.view lo c = freeBelow v fs.view lo c := by
  rw [freeBelow, freeBelow]
  refine congrArg Finset.card (Finset.filter_congr fun d hd => ?_)
  rw [h.entry (Nat.lt_of_lt_of_le (Finset.mem_Ico.mp hd).2 hc)]

/-- What a scan comes to: the count, or a failed command. -/
def Scanned (v : Volume) (lo : Nat) (fs : Fs) (r : Option FResult × Nat) (fs' : Fs) : Prop :=
  Still v fs fs' ∧ (r = (none, freeBelow v fs.view lo v.nFatent) ∨ r.1 = some .diskErr ∧ Failed fs.disk fs'.disk)

theorem Scanned.of_still {lo : Nat} {fs1 : Fs} {r : Option FResult × Nat} (h : Still v fs fs1)
    (h' : Scanned v lo fs1 r fs') : Scanned v lo fs r fs' := by
  refine ⟨h.trans h'.1, h'.2.imp (fun hr => ?_) fun hf => ⟨hf.1, hf.2.of_later h.later⟩⟩
  rw [hr, freeBelow_still h le_rfl]

end MiMic.Fat
