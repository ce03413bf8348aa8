import Mathlib.Tactic

/-!
# Caches whose entries age

What a cache ought to hold is judged against a history: for every key the value that was
last learned for it, and how many ticks ago. A cache of bounded size forgets an entry at
its last tick, and otherwise only to make room when no entry is older.
-/
namespace Verif.AgingCache

/-- The value last learned for a key and the ticks since. -/
abbrev History (κ β : Type) := κ → Option (β × Nat)

namespace History

variable {κ β : Type} [DecidableEq κ]

def empty : History κ β := fun _ => none

def learn (h : History κ β) (k : κ) (v : β) : History κ β :=
  fun k' => if k' = k then some (v, 0) else h k'

def tick (h : History κ β) : History κ β := fun k => (h k).map fun p => (p.1, p.2 + 1)

/-- Zero for a key that was never learned. -/
def age (h : History κ β) (k : κ) : Nat := ((h k).map Prod.snd).getD 0

omit [DecidableEq κ] in
theorem age_eq {h : History κ β} {k : κ} {v : β} {n : Nat} (hk : h k = some (v, n)) :
    h.age k = n := by
  rw [age, hk]
  rfl

@[simp] theorem learn_self (h : History κ β) (k : κ) (v : β) : h.learn k v k = some (v, 0) :=
  if_pos rfl

theorem learn_other (h : History κ β) {k k' : κ} (v : β) (hne : k' ≠ k) :
    h.learn k v k' = h k' :=
  if_neg hne

omit [DecidableEq κ] in
theorem tick_some {h : History κ β} {k : κ} {v : β} {n : Nat} (hk : h k = some (v, n)) :
    h.tick k = some (v, n + 1) := by
  rw [tick, hk]
  rfl

end History

section

variable {κ β : Type} [DecidableEq κ]

/-- What the cache may give up when it learns `k`: nothing unless it is full, and then one
of its oldest keys. It takes up `k` and nothing else. -/
structure LearnStep (usable : κ → Prop) (full : Prop) (h : History κ β) (live live' : κ → Prop)
    (k : κ) : Prop where
  taken : usable k → live' k
  kept : ∀ b, b ≠ k → live b → ¬ live' b → full ∧ ∀ c, live c → h.age c ≤ h.age b
  only : ∀ b, b ≠ k → live' b → live b

/-- At a tick exactly the keys that reach `maxAge` are given up. -/
def TickStep (maxAge : Nat) (h : History κ β) (live live' : κ → Prop) : Prop :=
  ∀ b, live' b ↔ live b ∧ h.age b + 1 < maxAge

/-- A lookup finds the value that was last learned, for the keys that are live. -/
def LookupOk (h : History κ β) (live : κ → Prop) (k : κ) (answer : Option β) : Prop :=
  ∀ v, answer = some v ↔ live k ∧ ∃ n, h k = some (v, n)

end

section

variable {ι : Type}

/-- One step of a scan for the largest positive value. -/
def scanStep (f : ι → Int) (acc : Int × ι) (i : ι) : Int × ι :=
  if acc.1 < f i then (f i, i) else acc

/-- The scan ends with a bound of all values that the index it returns attains, unless no
value is positive. -/
theorem scan_spec (f : ι → Int) (d : ι) (l : List ι) :
    (∀ i ∈ l, f i ≤ (l.foldl (scanStep f) (0, d)).1) ∧
      ((l.foldl (scanStep f) (0, d) = (0, d)) ∨
        (0 < (l.foldl (scanStep f) (0, d)).1 ∧
          f (l.foldl (scanStep f) (0, d)).2 = (l.foldl (scanStep f) (0, d)).1)) := by
  induction l using List.reverseRecOn with
  | nil => exact ⟨(fun i hi => nomatch hi), Or.inl rfl⟩
  | append_singleton l a ih =>
    obtain ⟨hle, hatt⟩ := ih
    rw [List.foldl_append, List.foldl_cons, List.foldl_nil]
    generalize l.foldl (scanStep f) (0, d) = acc at hle hatt
    have hnonneg : 0 ≤ acc.1 := by
      obtain rfl | ⟨hpos, -⟩ := hatt
      · exact le_rfl
      · exact hpos.le
    unfold scanStep
    split
    · next hlt =>
      refine ⟨?_, Or.inr ⟨by omega, rfl⟩⟩
      intro i hi
      obtain hi | hi := List.mem_append.mp hi
      · exact (hle i hi).trans hlt.le
      · rw [List.mem_singleton.mp hi]
    · next hlt =>
      refine ⟨?_, hatt⟩
      intro i hi
      obtain hi | hi := List.mem_append.mp hi
      · exact hle i hi
      · rw [List.mem_singleton.mp hi]
        omega

end

end Verif.AgingCache
