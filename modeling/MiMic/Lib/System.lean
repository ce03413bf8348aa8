import Mathlib.Data.List.Basic

/-!
# Executable transition systems and their runs

A step is a function, so that one definition serves a replay of a concrete run
and the proof of an invariant. `Reaches ok` are the states of the runs all of
whose steps meet `ok`; `fun _ _ => True` gives every run. An observer adds a
history that no step reads, and never changes which runs there are.
-/
namespace Verif

structure System (σ ε : Type) where
  init : σ → Prop
  step : σ → ε → Option σ

namespace System

variable {σ ε η : Type}

/-- States reached from an initial one by steps that all meet `ok`. -/
inductive Reaches (S : System σ ε) (ok : σ → ε → Prop) : σ → Prop
  | init {s : σ} : S.init s → Reaches S ok s
  | step {s s' : σ} {e : ε} : Reaches S ok s → ok s e → S.step s e = some s' → Reaches S ok s'

/-- The steps of every run. -/
abbrev anyStep : σ → ε → Prop := fun _ _ => True

/-- What holds at first and is kept by every step that meets `ok` holds all along. -/
theorem Reaches.invariant {S : System σ ε} {ok : σ → ε → Prop} {P : σ → Prop}
    (hinit : ∀ s, S.init s → P s)
    (hstep : ∀ s e s', P s → ok s e → S.step s e = some s' → P s')
    {s : σ} (h : S.Reaches ok s) : P s := by
  induction h with
  | init h0 => exact hinit _ h0
  | step _ hok hs ih => exact hstep _ _ _ ih hok hs

/-- An invariant may use what is already known of every reached state. -/
theorem Reaches.invariant_of {S : System σ ε} {ok : σ → ε → Prop} {Q P : σ → Prop}
    (hQ : ∀ s, S.Reaches ok s → Q s)
    (hinit : ∀ s, S.init s → P s)
    (hstep : ∀ s e s', Q s → P s → ok s e → S.step s e = some s' → P s')
    {s : σ} (h : S.Reaches ok s) : P s := by
  induction h with
  | init h0 => exact hinit _ h0
  | step hr hok hs ih => exact hstep _ _ _ (hQ _ hr) ih hok hs

theorem Reaches.mono {S : System σ ε} {ok ok' : σ → ε → Prop} (hok : ∀ s e, ok s e → ok' s e)
    {s : σ} (h : S.Reaches ok s) : S.Reaches ok' s := by
  induction h with
  | init h0 => exact .init h0
  | step _ ho hs ih => exact ih.step (hok _ _ ho) hs

/-- Replay a list of events; `none` when one of them is disabled. -/
def run (S : System σ ε) : σ → List ε → Option σ
  | s, [] => some s
  | s, e :: es => (S.step s e).bind fun s' => S.run s' es

theorem run_reaches {S : System σ ε} {es : List ε} :
    ∀ {s s' : σ}, S.Reaches anyStep s → S.run s es = some s' → S.Reaches anyStep s' := by
  induction es with
  | nil =>
    intro s s' h hr
    obtain rfl := Option.some.inj hr
    exact h
  | cons e es ih =>
    intro s s' h hr
    obtain ⟨s₁, hs, hrest⟩ := Option.bind_eq_some_iff.mp hr
    exact ih (h.step trivial hs) hrest

/-- A replay shows that a state with a decidable property is reached. -/
theorem exists_of_run {S : System σ ε} {s : σ} {es : List ε} {p : σ → Bool} (hi : S.init s)
    (h : (S.run s es).any p = true) : ∃ t, S.Reaches anyStep t ∧ p t = true := by
  cases hr : S.run s es with
  | none => simp [hr] at h
  | some t => exact ⟨t, run_reaches (.init hi) hr, by simpa [hr] using h⟩

/-- A replay that checks a guard before every step. -/
def runChecked (S : System σ ε) (ok : σ → ε → Bool) : σ → List ε → Option σ
  | s, [] => some s
  | s, e :: es => if ok s e then (S.step s e).bind fun s' => S.runChecked ok s' es else none

theorem runChecked_reaches {S : System σ ε} {ok : σ → ε → Prop} {okb : σ → ε → Bool}
    (hok : ∀ s e, okb s e = true → ok s e) {es : List ε} :
    ∀ {s s' : σ}, S.Reaches ok s → S.runChecked okb s es = some s' → S.Reaches ok s' := by
  induction es with
  | nil =>
    intro s s' h hr
    obtain rfl := Option.some.inj hr
    exact h
  | cons e es ih =>
    intro s s' h hr
    rw [runChecked] at hr
    split at hr
    · next hs =>
      obtain ⟨s₁, hs₁, hrest⟩ := Option.bind_eq_some_iff.mp hr
      exact ih (h.step (hok s e hs) hs₁) hrest
    · cases hr

theorem exists_of_runChecked {S : System σ ε} {ok : σ → ε → Prop} {okb : σ → ε → Bool}
    (hok : ∀ s e, okb s e = true → ok s e) {s : σ} {es : List ε} {p : σ → Bool} (hi : S.init s)
    (h : (S.runChecked okb s es).any p = true) : ∃ t, S.Reaches ok t ∧ p t = true := by
  cases hr : S.runChecked okb s es with
  | none => simp [hr] at h
  | some t => exact ⟨t, runChecked_reaches hok (.init hi) hr, by simpa [hr] using h⟩

/-- Run a history `η` beside the system. -/
def observe (S : System σ ε) (h0 : η) (upd : η → σ → ε → σ → η) : System (σ × η) ε where
  init p := S.init p.1 ∧ p.2 = h0
  step p e := (S.step p.1 e).map fun s' => (s', upd p.2 p.1 e s')

theorem observe_step {S : System σ ε} {h0 : η} {upd : η → σ → ε → σ → η}
    {s s' : σ} {h h' : η} {e : ε} :
    (S.observe h0 upd).step (s, h) e = some (s', h') ↔
      S.step s e = some s' ∧ h' = upd h s e s' := by
  simp only [observe, Option.map_eq_some_iff, Prod.mk.injEq]
  constructor
  · rintro ⟨t, ht, rfl, rfl⟩
    exact ⟨ht, rfl⟩
  · rintro ⟨ht, rfl⟩
    exact ⟨s', ht, rfl, rfl⟩

/-- Forgetting the history gives a run of the system itself. -/
theorem Reaches.forget {S : System σ ε} {h0 : η} {upd : η → σ → ε → σ → η}
    {ok : σ × η → ε → Prop} {p : σ × η} (h : (S.observe h0 upd).Reaches ok p) :
    S.Reaches anyStep p.1 := by
  induction h with
  | init h0 => exact .init h0.1
  | @step p q e _ _ hs ih =>
    obtain ⟨hs', _⟩ := observe_step.mp (show (S.observe h0 upd).step (p.1, p.2) e = some (q.1, q.2) from hs)
    exact ih.step trivial hs'

end System

end Verif
