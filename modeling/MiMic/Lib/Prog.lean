import Mathlib.Logic.Basic

/-!
# Stateful code whose steps may fail

A program reads and writes a state and returns a value or an error; the state at an error is the
one the failing step left. `wp m Q E s` says how `m` ends when it is started in `s`: with a value
and a state that meet `Q`, or with an error and a state that meet `E`.
-/
namespace Verif

abbrev Prog (σ ε α : Type) := ExceptT ε (StateM σ) α

namespace Prog

variable {σ ε α β : Type}

def exec (m : Prog σ ε α) (s : σ) : Except ε α × σ := m s

/-- The error of a step as a value, for code that looks at it or goes on regardless. -/
def attempt (m : Prog σ ε α) : Prog σ ε (Except ε α) := fun s => (.ok (m s).1, (m s).2)

/-- An error handed on that an earlier step came with. -/
def ofExcept (r : Except ε α) : Prog σ ε α := fun s => (r, s)

/-- A program on the first part of the state. -/
def onFst {τ : Type} (m : Prog σ ε α) : Prog (σ × τ) ε α := fun s => ((m s.1).1, ((m s.1).2, s.2))

def wp (m : Prog σ ε α) (Q : α → σ → Prop) (E : ε → σ → Prop) (s : σ) : Prop :=
  (∀ a, (exec m s).1 = .ok a → Q a (exec m s).2) ∧ ∀ e, (exec m s).1 = .error e → E e (exec m s).2

variable {m : Prog σ ε α} {f : α → Prog σ ε β} {Q : β → σ → Prop} {E : ε → σ → Prop}
  {P : α → σ → Prop} {s : σ}

theorem wp_ok {a : α} {t : σ} (h : exec m s = (.ok a, t)) : wp m P E s ↔ P a t := by
  rw [wp, h]
  constructor
  · intro hp
    exact hp.1 a rfl
  · intro hp
    refine ⟨fun b hb => ?_, fun e he => ?_⟩
    · obtain rfl := Except.ok.inj hb
      exact hp
    · cases he

theorem wp_error {e : ε} {t : σ} (h : exec m s = (.error e, t)) : wp m P E s ↔ E e t := by
  rw [wp, h]
  constructor
  · intro hp
    exact hp.2 e rfl
  · intro hp
    refine ⟨fun b hb => ?_, fun e' he => ?_⟩
    · cases hb
    · obtain rfl := Except.error.inj he
      exact hp

@[simp] theorem wp_pure (a : α) : wp (pure a : Prog σ ε α) P E s ↔ P a s := wp_ok rfl

@[simp] theorem wp_throw (e : ε) : wp (throw e : Prog σ ε α) P E s ↔ E e s := wp_error rfl

@[simp] theorem wp_get {R : σ → σ → Prop} : wp (get : Prog σ ε σ) R E s ↔ R s s := wp_ok rfl

@[simp] theorem wp_set (t : σ) {R : PUnit → σ → Prop} : wp (set t : Prog σ ε PUnit) R E s ↔ R ⟨⟩ t := wp_ok rfl

@[simp] theorem wp_modify (g : σ → σ) {R : PUnit → σ → Prop} :
    wp (modify g : Prog σ ε PUnit) R E s ↔ R ⟨⟩ (g s) := wp_ok rfl

/-- What the second part has to do is asked of the state the first part ends in. -/
@[simp] theorem wp_bind : wp (m >>= f) Q E s ↔ wp m (fun a t => wp (f a) Q E t) E s := by
  cases h : exec m s with
  | mk r t =>
    cases r with
    | ok a =>
      have hbind : exec (m >>= f) s = exec (f a) t := by
        change ExceptT.bindCont f (exec m s).1 (exec m s).2 = _
        rw [h]
        rfl
      rw [wp_ok h, wp, hbind, wp]
    | error e =>
      have hbind : exec (m >>= f) s = (.error e, t) := by
        change ExceptT.bindCont f (exec m s).1 (exec m s).2 = _
        rw [h]
        rfl
      rw [wp_error h, wp_error hbind]

@[simp] theorem wp_map {g : α → β} : wp (g <$> m) Q E s ↔ wp m (fun a t => Q (g a) t) E s := by
  have hmap : g <$> m = m >>= fun a => pure (g a) := map_eq_pure_bind g m
  rw [hmap, wp_bind]
  simp only [wp_pure]

@[simp] theorem wp_attempt {R : Except ε α → σ → Prop} :
    wp (attempt m) R E s ↔ wp m (fun a => R (.ok a)) (fun e => R (.error e)) s := by
  cases h : exec m s with
  | mk r t =>
    have hattempt : exec (attempt m) s = (.ok r, t) := by
      change (Except.ok (exec m s).1, (exec m s).2) = _
      rw [h]
    rw [wp_ok hattempt]
    cases r with
    | ok a => rw [wp_ok h]
    | error e => rw [wp_error h]

@[simp] theorem wp_onFst {τ : Type} {t : τ} {R : α → σ × τ → Prop} {F : ε → σ × τ → Prop} :
    wp (onFst m : Prog (σ × τ) ε α) R F (s, t) ↔ wp m (fun a s' => R a (s', t)) (fun e s' => F e (s', t)) s :=
  Iff.rfl

@[simp] theorem wp_ofExcept_ok (a : α) : wp (ofExcept (.ok a) : Prog σ ε α) P E s ↔ P a s := wp_ok rfl

@[simp] theorem wp_ofExcept_error (e : ε) : wp (ofExcept (.error e) : Prog σ ε α) P E s ↔ E e s :=
  wp_error rfl

theorem wp.mono {P' : α → σ → Prop} {E' : ε → σ → Prop} (h : wp m P E s)
    (hp : ∀ a t, P a t → P' a t) (he : ∀ e t, E e t → E' e t) : wp m P' E' s :=
  ⟨fun a ha => hp a _ (h.1 a ha), fun e hm => he e _ (h.2 e hm)⟩

theorem wp_ite {c : Prop} [Decidable c] {m' : Prog σ ε α} (hpos : c → wp m P E s)
    (hneg : ¬c → wp m' P E s) : wp (if c then m else m') P E s := by
  by_cases h : c
  · rw [if_pos h]
    exact hpos h
  · rw [if_neg h]
    exact hneg h

/-- A program of which both ends are known says the same of its run. -/
theorem wp.exec_ok {a : α} {t : σ} (h : wp m P E s) (hm : exec m s = (.ok a, t)) : P a t :=
  (wp_ok hm).mp h

theorem wp.exec_error {e : ε} {t : σ} (h : wp m P E s) (hm : exec m s = (.error e, t)) : E e t :=
  (wp_error hm).mp h

end Prog

end Verif
