import Mathlib.Data.List.Basic

/-!
# A flash memory behind calls that may fail

Erasing sets the bits of a range and programming clears some of them. A call that fails says so,
and leaves anything in the range that it was to change and nothing elsewhere.
-/
namespace Verif.NorFlash

abbrev Cells := Nat → UInt8

/-- `f` on the `n` cells from `a`, and `m` elsewhere. -/
def patch (m : Cells) (a n : Nat) (f : Cells) : Cells := fun x =>
  if a ≤ x ∧ x < a + n then f x else m x

inductive Outcome
  | success
  | failure (left : Cells)

/-- The memory, and how the next calls come out; those behind the end of the script succeed. -/
structure Device where
  memory : Cells
  script : List Outcome

def Device.call (d : Device) (a n : Nat) (f : Cells) : Device × Bool :=
  match d.script with
  | [] => (⟨patch d.memory a n f, []⟩, true)
  | .success :: script => (⟨patch d.memory a n f, script⟩, true)
  | .failure left :: script => (⟨patch d.memory a n left, script⟩, false)

def Device.erase (d : Device) (a n : Nat) : Device × Bool := d.call a n fun _ => 0xff

/-- `f` counts from the first cell that is programmed. -/
def Device.program (d : Device) (a n : Nat) (f : Nat → UInt8) : Device × Bool :=
  d.call a n fun x => d.memory x &&& f (x - a)

/-- Programming an erased cell stores the value. -/
theorem erased_and (v : UInt8) : 0xff &&& v = v := by
  rw [UInt8.and_comm]
  apply UInt8.toBitVec_inj.mp
  rw [UInt8.toBitVec_and]
  exact BitVec.and_allOnes

/-- The next `n` calls succeed. -/
def Succeeds (script : List Outcome) (n : Nat) : Prop := ∀ o ∈ script.take n, o = .success

theorem patch_zero (m : Cells) (a : Nat) (f : Cells) : patch m a 0 f = m := by
  funext x
  rw [patch, if_neg (by omega)]

theorem patch_inside {m : Cells} {a n x : Nat} {f : Cells} (hlo : a ≤ x) (hhi : x < a + n) :
    patch m a n f x = f x := if_pos ⟨hlo, hhi⟩

theorem patch_outside {m : Cells} {a n x : Nat} {f : Cells} (h : x < a ∨ a + n ≤ x) :
    patch m a n f x = m x := if_neg (by omega)

theorem succeeds_nil (n : Nat) : Succeeds [] n := by
  intro o ho
  rw [List.take_nil] at ho
  cases ho

theorem Succeeds.head {o : Outcome} {script : List Outcome} {n : Nat}
    (h : Succeeds (o :: script) (n + 1)) : o = .success := h o List.mem_cons_self

theorem Succeeds.tail {script : List Outcome} {n : Nat} (h : Succeeds script (n + 1)) :
    Succeeds script.tail n := by
  cases script with
  | nil => exact succeeds_nil n
  | cons o script => exact fun p hp => h p (List.mem_cons_of_mem o hp)

theorem Succeeds.of_tail {script : List Outcome} {n : Nat} (h : Succeeds script 1)
    (htail : Succeeds script.tail n) : Succeeds script (n + 1) := by
  cases script with
  | nil => exact succeeds_nil _
  | cons o script =>
    intro p hp
    rw [List.take_succ_cons] at hp
    rcases List.mem_cons.mp hp with rfl | hp
    · exact h p List.mem_cons_self
    · exact htail p hp

/-- Something is left behind a success only if the success was there. -/
theorem Succeeds.eq_cons {script rest : List Outcome} {o : Outcome} (h : Succeeds script 1)
    (htail : script.tail = o :: rest) : script = .success :: o :: rest := by
  cases script with
  | nil => cases htail
  | cons p script =>
    obtain rfl := h p List.mem_cons_self
    rw [List.tail_cons] at htail
    rw [htail]

theorem Succeeds.mono {script : List Outcome} {m n : Nat} (h : Succeeds script n) (hmn : m ≤ n) :
    Succeeds script m := fun o ho => h o ((List.take_prefix_take_left hmn).subset ho)

namespace Device

variable (d : Device) (a n : Nat) (f : Cells)

/-- A call has its effect, or is reported as a failure. -/
theorem call_cases :
    (d.call a n f = (⟨patch d.memory a n f, d.script.tail⟩, true) ∧ Succeeds d.script 1) ∨
      ∃ left script, d.script = .failure left :: script ∧
        d.call a n f = (⟨patch d.memory a n left, script⟩, false) := by
  cases hs : d.script with
  | nil => exact Or.inl ⟨by simp only [call, hs, List.tail_nil], succeeds_nil 1⟩
  | cons o script =>
    cases o with
    | success =>
      refine Or.inl ⟨by simp only [call, hs, List.tail_cons], ?_⟩
      intro o ho
      exact List.mem_singleton.mp ho
    | failure left => exact Or.inr ⟨left, script, rfl, by simp only [call, hs]⟩

theorem call_of_succeeds {k : Nat} (h : Succeeds d.script (k + 1)) :
    d.call a n f = (⟨patch d.memory a n f, d.script.tail⟩, true) ∧ Succeeds d.script.tail k := by
  cases hs : d.script with
  | nil => exact ⟨by simp only [call, hs, List.tail_nil], succeeds_nil k⟩
  | cons o script =>
    rw [hs] at h
    obtain rfl := h.head
    exact ⟨by simp only [call, hs, List.tail_cons], h.tail⟩

end Device

end Verif.NorFlash
