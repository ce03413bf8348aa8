import Mathlib.Data.List.Basic

/-!
# Scanners

A scanner reads symbols one by one, puts out what it delivers, and ends by accepting or
refusing a symbol. `Conforms` says what the end of a run has to be for a language, and
`Tracks` compares two scanners: they end alike unless the first of them meets a symbol
where they are known to part.
-/
namespace Verif

variable {σ τ α β : Type}

/-- What becomes of one symbol. -/
inductive ScanStep (σ β : Type)
  | next (s : σ) (out : List β)
  | done (out : List β)
  | fail

theorem ScanStep.next_ne_fail {s : σ} {out : List β} : next s out ≠ fail := by simp

theorem ScanStep.done_ne_fail {out : List β} : (done out : ScanStep σ β) ≠ fail := by simp

/-- How a run ends: at the end of the input, behind `n` accepted symbols, or at the symbol
of index `n`. -/
inductive Verdict (σ β : Type)
  | pending (s : σ) (out : List β)
  | done (n : Nat) (out : List β)
  | fail (n : Nat)

namespace Verdict

/-- The end of a run that had read `n` symbols before. -/
def after (n : Nat) (out : List β) : Verdict σ β → Verdict σ β
  | pending s o => pending s (out ++ o)
  | done k o => done (n + k) (out ++ o)
  | fail k => fail (n + k)

@[simp] theorem after_zero (v : Verdict σ β) : v.after 0 [] = v := by
  cases v <;> simp [after]

theorem after_after (v : Verdict σ β) (m n : Nat) (out out' : List β) :
    (v.after n out').after m out = v.after (m + n) (out ++ out') := by
  cases v <;> simp [after, Nat.add_assoc]

/-- The same end, whatever the states and what was delivered on the way to no end. -/
def SameKind : Verdict σ β → Verdict τ β → Prop
  | pending _ _, pending _ _ => True
  | done n o, done m o' => n = m ∧ o = o'
  | fail n, fail m => n = m
  | _, _ => False

/-- The same end, the states related. -/
def SameEnd (R : σ → τ → Prop) : Verdict σ β → Verdict τ β → Prop
  | pending s o, pending t o' => R s t ∧ o = o'
  | done n o, done m o' => n = m ∧ o = o'
  | fail n, fail m => n = m
  | _, _ => False

theorem SameEnd.after {R : σ → τ → Prop} {v : Verdict σ β} {w : Verdict τ β} (h : SameEnd R v w)
    (n : Nat) (out : List β) : SameEnd R (v.after n out) (w.after n out) := by
  cases v <;> cases w <;> first
    | exact h.elim
    | exact ⟨h.1, congrArg (out ++ ·) h.2⟩
    | exact ⟨congrArg (n + ·) h.1, congrArg (out ++ ·) h.2⟩
    | exact congrArg (n + ·) h

theorem SameKind.of_after {v : Verdict σ β} {w : Verdict τ β} {n : Nat} {out : List β}
    (h : SameKind (v.after n out) (w.after n out)) : SameKind v w := by
  cases v <;> cases w <;> first
    | exact h.elim
    | exact trivial
    | exact ⟨Nat.add_left_cancel h.1, List.append_cancel_left h.2⟩
    | exact Nat.add_left_cancel h

theorem SameKind.of_fail_left {n : Nat} {w : Verdict τ β}
    (h : (fail n : Verdict σ β).SameKind w) : w = fail n := by
  cases w with
  | fail m => exact congrArg fail (Eq.symm h)
  | pending _ _ => exact h.elim
  | done _ _ => exact h.elim

theorem SameKind.of_fail_right {n : Nat} {v : Verdict σ β}
    (h : v.SameKind (fail n : Verdict τ β)) : v = fail n := by
  cases v with
  | fail m => exact congrArg fail h
  | pending _ _ => exact h.elim
  | done _ _ => exact h.elim

end Verdict

abbrev Scanner (σ α β : Type) := σ → α → ScanStep σ β

namespace Scanner

def run (A : Scanner σ α β) : σ → List α → Verdict σ β
  | s, [] => .pending s []
  | s, a :: as =>
      match A s a with
      | .next s' out => (A.run s' as).after 1 out
      | .done out => .done 1 out
      | .fail => .fail 0

variable {A : Scanner σ α β}

theorem run_next {s s' : σ} {a : α} {as : List α} {out : List β} (h : A s a = .next s' out) :
    A.run s (a :: as) = (A.run s' as).after 1 out := by
  rw [run, h]

theorem run_done {s : σ} {a : α} {as : List α} {out : List β} (h : A s a = .done out) :
    A.run s (a :: as) = .done 1 out := by
  rw [run, h]

theorem run_fail {s : σ} {a : α} {as : List α} (h : A s a = .fail) :
    A.run s (a :: as) = .fail 0 := by
  rw [run, h]

theorem run_fail_zero {s : σ} {a : α} {as : List α} (h : A.run s (a :: as) = .fail 0) :
    A s a = .fail := by
  cases ha : A s a with
  | fail => rfl
  | done out =>
    rw [run_done ha] at h
    cases h
  | next s' out =>
    rw [run_next ha] at h
    cases hr : A.run s' as with
    | fail k =>
      rw [hr] at h
      have := Verdict.fail.inj h
      omega
    | pending _ _ => rw [hr] at h; cases h
    | done _ _ => rw [hr] at h; cases h

/-- A run over two pieces is a run over the first and, unless that ended, over the second. -/
theorem run_append (s : σ) (as bs : List α) : A.run s (as ++ bs) =
    match A.run s as with
    | .pending s' out => (A.run s' bs).after as.length out
    | v => v := by
  induction as generalizing s with
  | nil => exact (Verdict.after_zero _).symm
  | cons a as ih =>
    rw [List.cons_append]
    cases hs : A s a with
    | next s' out =>
      rw [run_next hs, run_next hs, ih s']
      cases A.run s' as with
      | pending s₂ o =>
        rw [Verdict.after, List.length_cons, Nat.add_comm as.length 1]
        exact Verdict.after_after _ _ _ _ _
      | done n o => rfl
      | fail n => rfl
    | done out => rw [run_done hs, run_done hs]
    | fail => rw [run_fail hs, run_fail hs]

theorem run_append_of_pending {s s' : σ} {as bs : List α} {out : List β}
    (h : A.run s as = .pending s' out) :
    A.run s (as ++ bs) = (A.run s' bs).after as.length out := by
  rw [run_append, h]

theorem run_append_of_done {s : σ} {as bs : List α} {n : Nat} {out : List β}
    (h : A.run s as = .done n out) : A.run s (as ++ bs) = .done n out := by
  rw [run_append, h]

theorem run_append_of_fail {s : σ} {as bs : List α} {n : Nat} (h : A.run s as = .fail n) :
    A.run s (as ++ bs) = .fail n := by
  rw [run_append, h]

/-- An accepted input is accepted where it ends, and not before. -/
theorem run_take_done {s : σ} {as : List α} {n : Nat} {out : List β}
    (h : A.run s as = .done n out) : n ≤ as.length ∧ A.run s (as.take n) = .done n out := by
  induction as generalizing s n out with
  | nil => cases h
  | cons a as ih =>
    cases hs : A s a with
    | next s' o =>
      rw [run_next hs] at h
      cases hr : A.run s' as with
      | pending s₂ o₂ => rw [hr] at h; cases h
      | fail k => rw [hr] at h; cases h
      | done k o₂ =>
        rw [hr] at h
        obtain ⟨rfl, rfl⟩ := Verdict.done.inj h
        obtain ⟨hle, hk⟩ := ih hr
        rw [Nat.add_comm 1 k, List.take_succ_cons, run_next hs, hk, Nat.add_comm k 1]
        exact ⟨by rw [List.length_cons]; omega, rfl⟩
    | done o =>
      rw [run_done hs] at h
      obtain ⟨rfl, rfl⟩ := Verdict.done.inj h
      exact ⟨by simp, run_done hs⟩
    | fail =>
      rw [run_fail hs] at h
      cases h

/-- A refused input is refused at that symbol, the symbols before it leave the scanner waiting. -/
theorem run_take_fail {s : σ} {as : List α} {n : Nat} (h : A.run s as = .fail n) :
    n < as.length ∧ (∃ s' out, A.run s (as.take n) = .pending s' out) ∧
      A.run s (as.take (n + 1)) = .fail n := by
  induction as generalizing s n with
  | nil => cases h
  | cons a as ih =>
    cases hs : A s a with
    | next s' o =>
      rw [run_next hs] at h
      cases hr : A.run s' as with
      | pending s₂ o₂ => rw [hr] at h; cases h
      | done k o₂ => rw [hr] at h; cases h
      | fail k =>
        rw [hr] at h
        obtain rfl := Verdict.fail.inj h
        obtain ⟨hlt, ⟨s₂, o₂, hp⟩, hk⟩ := ih hr
        rw [Nat.add_comm 1 k]
        refine ⟨by rw [List.length_cons]; omega, ⟨s₂, o ++ o₂, ?_⟩, ?_⟩
        · rw [List.take_succ_cons, run_next hs, hp]
          rfl
        · rw [List.take_succ_cons, run_next hs, hk, Verdict.after, Nat.add_comm 1 k]
    | done o =>
      rw [run_done hs] at h
      cases h
    | fail =>
      rw [run_fail hs] at h
      obtain rfl := Verdict.fail.inj h
      exact ⟨by simp, ⟨s, [], rfl⟩, run_fail hs⟩

/-- The input is accepted at its last symbol. -/
def Accepts (A : Scanner σ α β) (s : σ) (as : List α) (out : List β) : Prop :=
  A.run s as = .done as.length out

/-- Whatever was read, some continuation is accepted. -/
def Live (A : Scanner σ α β) : Prop := ∀ s, ∃ as out, A.Accepts s as out

end Scanner

/-- The end of a run on `as` is what the language `L` of inputs and deliveries asks for: the
accepted prefix and what it delivers, the first symbol that no member of the language has
there, or no decision yet. -/
def Conforms (L : List α → List β → Prop) (as : List α) : Verdict σ β → Prop
  | .done n out => n ≤ as.length ∧ L (as.take n) out
  | .fail n => n < as.length ∧ (∃ t out, t ≠ [] ∧ L (as.take n ++ t) out) ∧
      ¬ ∃ t out, L (as.take (n + 1) ++ t) out
  | .pending _ out => (∃ t out', L (as ++ t) out') ∧ (∀ n out', ¬ L (as.take n) out') ∧
      ∀ t out', L (as ++ t) out' → out <+: out'

namespace Scanner

variable {A : Scanner σ α β}

theorem Accepts.cons {s s' : σ} {a : α} {as : List α} {out o : List β} (h : A s a = .next s' o)
    (ha : A.Accepts s' as out) : A.Accepts s (a :: as) (o ++ out) := by
  unfold Accepts at ha ⊢
  rw [run_next h, ha, Verdict.after, List.length_cons, Nat.add_comm]

theorem Accepts.ne_nil {s : σ} {as : List α} {out : List β} (h : A.Accepts s as out) : as ≠ [] := by
  rintro rfl
  cases h

/-- An accepted input, cut before its last symbol. -/
theorem Accepts.take {s : σ} {as : List α} {out : List β} (h : A.Accepts s as out) {k : Nat}
    (hk : k < as.length) : ∃ s' o o', A.run s (as.take k) = .pending s' o ∧ out = o ++ o' ∧
      A.Accepts s' (as.drop k) o' := by
  have hrun : A.run s (as.take k ++ as.drop k) = .done as.length out := by
    rw [List.take_append_drop]
    exact h
  cases hp : A.run s (as.take k) with
  | fail n =>
    rw [run_append_of_fail hp] at hrun
    cases hrun
  | done n o =>
    rw [run_append_of_done hp] at hrun
    obtain ⟨rfl, -⟩ := Verdict.done.inj hrun
    have hle := (run_take_done hp).1
    rw [List.length_take] at hle
    omega
  | pending s' o =>
    rw [run_append_of_pending hp] at hrun
    cases hr : A.run s' (as.drop k) with
    | pending s₂ o₂ => rw [hr] at hrun; cases hrun
    | fail n => rw [hr] at hrun; cases hrun
    | done n o' =>
      rw [hr] at hrun
      obtain ⟨hn, hout⟩ := Verdict.done.inj hrun
      refine ⟨s', o, o', rfl, hout.symm, ?_⟩
      rw [List.length_take, Nat.min_eq_left (Nat.le_of_lt hk)] at hn
      have hlen : n = (as.drop k).length := by
        rw [List.length_drop]
        omega
      rw [Accepts, hr, hlen]

/-- The scanner of a language ends as the language asks for. -/
theorem conforms_run {L : List α → List β → Prop} {s : σ} (hlive : A.Live)
    (hL : ∀ as out, L as out ↔ A.Accepts s as out) (as : List α) : Conforms L as (A.run s as) := by
  cases h : A.run s as with
  | done n out =>
    obtain ⟨hle, hn⟩ := run_take_done h
    exact ⟨hle, (hL _ _).mpr (by rw [Accepts, List.length_take, Nat.min_eq_left hle, hn])⟩
  | fail n =>
    obtain ⟨hlt, ⟨s', o, hp⟩, hf⟩ := run_take_fail h
    obtain ⟨t, out, ht⟩ := hlive s'
    refine ⟨hlt, ⟨t, o ++ out, ht.ne_nil, (hL _ _).mpr ?_⟩, ?_⟩
    · rw [Accepts, run_append_of_pending hp, ht, Verdict.after, List.length_append]
    · intro ⟨t', out', hacc⟩
      have := (hL _ _).mp hacc
      rw [Accepts, run_append_of_fail hf] at this
      cases this
  | pending s' o =>
    obtain ⟨t, out, ht⟩ := hlive s'
    refine ⟨⟨t, o ++ out, (hL _ _).mpr ?_⟩, ?_, ?_⟩
    · rw [Accepts, run_append_of_pending h, ht, Verdict.after, List.length_append]
    · intro n out' hacc
      have hd := (hL _ _).mp hacc
      have hall : A.run s (as.take n ++ as.drop n) = _ := run_append_of_done hd
      rw [List.take_append_drop, h] at hall
      cases hall
    · intro t' out' hacc
      have hd := (hL _ _).mp hacc
      rw [Accepts, run_append_of_pending h] at hd
      cases hr : A.run s' t' with
      | done k o' =>
        rw [hr] at hd
        obtain ⟨-, rfl⟩ := Verdict.done.inj hd
        exact ⟨o', rfl⟩
      | fail k => rw [hr] at hd; cases hd
      | pending s₂ o' => rw [hr] at hd; cases hd

/-- There is only one end that the language asks for. -/
theorem sameKind_of_conforms {L : List α → List β → Prop} {s : σ} {as : List α} (hlive : A.Live)
    (hL : ∀ as out, L as out ↔ A.Accepts s as out) {v : Verdict τ β} (h : Conforms L as v) :
    (A.run s as).SameKind v := by
  have hdone : ∀ {n out}, n ≤ as.length → L (as.take n) out → A.run s as = .done n out := by
    intro n out hle hacc
    have hd := (hL _ _).mp hacc
    rw [Accepts, List.length_take, Nat.min_eq_left hle] at hd
    have hall : A.run s (as.take n ++ as.drop n) = _ := run_append_of_done hd
    rwa [List.take_append_drop] at hall
  cases v with
  | done n out =>
    rw [hdone h.1 h.2]
    exact ⟨rfl, rfl⟩
  | pending t out =>
    obtain ⟨⟨w, out', hw⟩, hnone, -⟩ := h
    have hd := (hL _ _).mp hw
    cases hr : A.run s as with
    | pending s' o => exact trivial
    | done k o =>
      obtain ⟨hle, hk⟩ := run_take_done hr
      refine absurd ((hL _ _).mpr ?_) (hnone k o)
      rw [Accepts, hk, List.length_take, Nat.min_eq_left hle]
    | fail k =>
      rw [Accepts, run_append_of_fail hr] at hd
      cases hd
  | fail n =>
    obtain ⟨hlt, ⟨w, out', hne, hw⟩, hnone⟩ := h
    have hd := (hL _ _).mp hw
    have hsplit : as.take n ++ as[n] :: as.drop (n + 1) = as := by
      rw [← List.drop_eq_getElem_cons hlt, List.take_append_drop]
    have htake : as.take (n + 1) = as.take n ++ [as[n]] := List.take_succ_eq_append_getElem hlt
    -- before the symbol the scanner still waits, as a longer input is accepted
    cases hr : A.run s (as.take n) with
    | fail k =>
      rw [Accepts, run_append_of_fail hr] at hd
      cases hd
    | done k o =>
      rw [Accepts, run_append_of_done hr] at hd
      obtain ⟨hk, -⟩ := Verdict.done.inj hd
      obtain ⟨hle, -⟩ := run_take_done hr
      have hpos := List.length_pos_of_ne_nil hne
      rw [List.length_append] at hk
      omega
    | pending s' o =>
      have hlen : (as.take n).length = n := by
        rw [List.length_take, Nat.min_eq_left (Nat.le_of_lt hlt)]
      cases hs : A s' as[n] with
      | fail =>
        have hrun : A.run s as = .fail n := by
          rw [← hsplit, run_append_of_pending hr, run_fail hs, Verdict.after, hlen, Nat.add_zero]
        rw [hrun]
        rfl
      | next s₂ o₂ =>
        obtain ⟨t, out, ht⟩ := hlive s₂
        have hcons := ht.cons hs
        refine absurd ⟨t, o ++ (o₂ ++ out), (hL _ _).mpr ?_⟩ hnone
        rw [htake, List.append_assoc, Accepts, run_append_of_pending hr, List.singleton_append,
          hcons, Verdict.after, List.length_append]
      | done o₂ =>
        refine absurd ⟨[], o ++ o₂, (hL _ _).mpr ?_⟩ hnone
        rw [htake, List.append_nil, Accepts, run_append_of_pending hr, run_done hs, Verdict.after,
          List.length_append, List.length_singleton]

end Scanner

theorem Conforms.of_sameEnd {R : σ → τ → Prop} {L : List α → List β → Prop} {as : List α}
    {v : Verdict σ β} {w : Verdict τ β} (h : Conforms L as v) (hs : v.SameEnd R w) :
    Conforms L as w := by
  cases v <;> cases w <;> first
    | exact hs.elim
    | exact hs.2 ▸ h
    | exact hs.1 ▸ hs.2 ▸ h
    | exact (show _ = _ from hs) ▸ h

/-- No symbol of the run on `as` is one where the scanners part. -/
inductive Scanner.Clean (A : Scanner σ α β) (parts : σ → α → Prop) : σ → List α → Prop
  | nil {s : σ} : Clean A parts s []
  | cons {s : σ} {a : α} {as : List α} : ¬ parts s a →
      (∀ s' out, A s a = .next s' out → Clean A parts s' as) → Clean A parts s (a :: as)

namespace Scanner.Clean

variable {A : Scanner σ α β} {parts : σ → α → Prop}

/-- A run on symbols where the scanners part in no state. -/
theorem of_forall {s : σ} {as : List α} (h : ∀ a ∈ as, ∀ s, ¬ parts s a) : A.Clean parts s as := by
  induction as generalizing s with
  | nil => exact .nil
  | cons a as ih =>
    exact .cons (h a (List.mem_cons_self ..) s) fun s' out _ => ih fun b hb => h b (List.mem_cons_of_mem _ hb)

theorem of_append {s : σ} {as bs : List α} (h : A.Clean parts s (as ++ bs)) : A.Clean parts s as := by
  induction as generalizing s with
  | nil => exact .nil
  | cons a as ih =>
    cases h with
    | cons hp hrest => exact .cons hp fun s' out hs => ih (hrest s' out hs)

theorem take {s : σ} {as : List α} (h : A.Clean parts s as) (n : Nat) :
    A.Clean parts s (as.take n) :=
  of_append ((List.take_append_drop n as).symm ▸ h)

theorem head {s : σ} {a : α} {as : List α} (h : A.Clean parts s (a :: as)) : ¬ parts s a := by
  cases h with
  | cons hp hrest => exact hp

theorem of_pending {s s' : σ} {as bs : List α} {out : List β} (h : A.Clean parts s (as ++ bs))
    (hrun : A.run s as = .pending s' out) : A.Clean parts s' bs := by
  induction as generalizing s out with
  | nil =>
    obtain ⟨rfl, -⟩ := Verdict.pending.inj hrun
    exact h
  | cons a as ih =>
    cases h with
    | cons hp hrest =>
      cases hs : A s a with
      | next s₁ o =>
        rw [run_next hs] at hrun
        cases hr : A.run s₁ as with
        | pending s₂ o₂ =>
          rw [hr] at hrun
          obtain ⟨rfl, -⟩ := Verdict.pending.inj hrun
          exact ih (hrest s₁ o hs) hr
        | done n o₂ => rw [hr] at hrun; cases hrun
        | fail n => rw [hr] at hrun; cases hrun
      | done o => rw [run_done hs] at hrun; cases hrun
      | fail => rw [run_fail hs] at hrun; cases hrun

/-- Once the run has ended nothing more is looked at. -/
theorem append {s : σ} {as : List α} (bs : List α) (h : A.Clean parts s as)
    (hend : ∀ s' out, A.run s as ≠ .pending s' out) : A.Clean parts s (as ++ bs) := by
  induction as generalizing s with
  | nil => exact absurd rfl (hend s [])
  | cons a as ih =>
    cases h with
    | cons hp hrest =>
      refine .cons hp fun s' out hs => ih (hrest s' out hs) fun s₂ o hr => ?_
      refine hend s₂ (out ++ o) ?_
      rw [run_next hs, hr]
      rfl

/-- On an input that is refused nowhere only symbols that go on tell two sets apart. -/
theorem of_goes {parts' : σ → α → Prop} {s : σ} {as : List α} (hgoes : ∀ i, A.run s as ≠ .fail i)
    (hparts : ∀ s a, A s a ≠ .fail → parts' s a → parts s a) (h : A.Clean parts s as) :
    A.Clean parts' s as := by
  induction as generalizing s with
  | nil => exact .nil
  | cons a as ih =>
    have hsa : A s a ≠ .fail := fun hs => hgoes 0 (run_fail hs)
    cases h with
    | cons hp hrest =>
      refine .cons (fun hp' => hp (hparts s a hsa hp')) fun s' o hs => ih (fun i hi => ?_) (hrest s' o hs)
      refine hgoes (1 + i) ?_
      rw [run_next hs, hi]
      rfl

theorem of_accepts {parts' : σ → α → Prop} {s : σ} {as : List α} {out : List β}
    (hacc : A.Accepts s as out) (hparts : ∀ s a, A s a ≠ .fail → parts' s a → parts s a)
    (h : A.Clean parts s as) : A.Clean parts' s as :=
  h.of_goes (fun _ hi => nomatch hi.symm.trans hacc) hparts

end Scanner.Clean

/-- The same outcome for one symbol, the states related. -/
def ScanStep.Same (R : σ → τ → Prop) : ScanStep σ β → ScanStep τ β → Prop
  | next s o, next t o' => R s t ∧ o = o'
  | done o, done o' => o = o'
  | fail, fail => True
  | _, _ => False

/-- `B` does what `A` does, but where they part just one of them refuses the symbol. -/
structure Scanner.Tracks (A : Scanner σ α β) (B : Scanner τ α β) (R : σ → τ → Prop)
    (parts : σ → α → Prop) : Prop where
  agree : ∀ s t a, R s t → ¬ parts s a → ScanStep.Same R (A s a) (B t a)
  differ : ∀ s t a, R s t → parts s a → (A s a = .fail ↔ B t a ≠ .fail)

namespace Scanner.Tracks

variable {A : Scanner σ α β} {B : Scanner τ α β} {R : σ → τ → Prop} {parts : σ → α → Prop}

theorem sameEnd_of_clean (h : A.Tracks B R parts) {as : List α} {s : σ} {t : τ} (hR : R s t)
    (hc : A.Clean parts s as) : (A.run s as).SameEnd R (B.run t as) := by
  induction as generalizing s t with
  | nil => exact ⟨hR, rfl⟩
  | cons a as ih =>
    cases hc with
    | cons hp hrest =>
      have hs := h.agree s t a hR hp
      cases ha : A s a with
      | next s' o =>
        cases hb : B t a with
        | next t' o' =>
          rw [ha, hb] at hs
          obtain ⟨hR', rfl⟩ := hs
          rw [run_next ha, run_next hb]
          exact (ih hR' (hrest _ _ ha)).after 1 o
        | done o' => rw [ha, hb] at hs; exact hs.elim
        | fail => rw [ha, hb] at hs; exact hs.elim
      | done o =>
        cases hb : B t a with
        | done o' =>
          rw [ha, hb] at hs
          rw [run_done ha, run_done hb]
          exact ⟨rfl, hs⟩
        | next t' o' => rw [ha, hb] at hs; exact hs.elim
        | fail => rw [ha, hb] at hs; exact hs.elim
      | fail =>
        cases hb : B t a with
        | fail =>
          rw [run_fail ha, run_fail hb]
          rfl
        | next t' o' => rw [ha, hb] at hs; exact hs.elim
        | done o' => rw [ha, hb] at hs; exact hs.elim

theorem clean_of_sameKind (h : A.Tracks B R parts) {as : List α} {s : σ} {t : τ} (hR : R s t)
    (hk : (A.run s as).SameKind (B.run t as)) : A.Clean parts s as := by
  induction as generalizing s t with
  | nil => exact .nil
  | cons a as ih =>
    by_cases hp : parts s a
    · -- one of the two runs ends here and the other does not
      have hd := h.differ s t a hR hp
      cases ha : A s a with
      | fail =>
        rw [run_fail ha] at hk
        have hb := run_fail_zero (hk.of_fail_left)
        exact absurd hb (hd.mp ha)
      | next s' o =>
        have hb : B t a = .fail := not_not.mp fun hb => by simp [ha] at hd; exact hb hd
        rw [run_fail hb] at hk
        have := run_fail_zero hk.of_fail_right
        rw [ha] at this
        cases this
      | done o =>
        have hb : B t a = .fail := not_not.mp fun hb => by simp [ha] at hd; exact hb hd
        rw [run_fail hb] at hk
        have := run_fail_zero hk.of_fail_right
        rw [ha] at this
        cases this
    · refine .cons hp fun s' out ha => ?_
      have hs := h.agree s t a hR hp
      cases hb : B t a with
      | next t' o' =>
        rw [ha, hb] at hs
        obtain ⟨hR', rfl⟩ := hs
        rw [run_next ha, run_next hb] at hk
        exact ih hR' hk.of_after
      | done o' => rw [ha, hb] at hs; exact hs.elim
      | fail => rw [ha, hb] at hs; exact hs.elim

/-- Where the two part on an accepted input, it is the second scanner that refuses. -/
theorem fails_of_not_clean (h : A.Tracks B R parts) {as : List α} {s : σ} {t : τ} (hR : R s t)
    (hgoes : ∀ i, A.run s as ≠ .fail i) (hno : ¬ A.Clean parts s as) : ∃ i, B.run t as = .fail i := by
  induction as generalizing s t with
  | nil => exact absurd .nil hno
  | cons a as ih =>
    have hsa : A s a ≠ .fail := fun hs => hgoes 0 (run_fail hs)
    by_cases hp : parts s a
    · have hb : B t a = .fail := not_not.mp fun hb => hsa ((h.differ s t a hR hp).mpr hb)
      exact ⟨0, run_fail hb⟩
    · have hs := h.agree s t a hR hp
      cases ha : A s a with
      | fail => exact absurd ha hsa
      | done o =>
        refine absurd (.cons hp fun s' o' hn => ?_) hno
        rw [ha] at hn
        cases hn
      | next s' o =>
        cases hb : B t a with
        | done o' => rw [ha, hb] at hs; exact hs.elim
        | fail => rw [ha, hb] at hs; exact hs.elim
        | next t' o' =>
          rw [ha, hb] at hs
          have hgoes' : ∀ i, A.run s' as ≠ .fail i := fun i hi =>
            hgoes (1 + i) (by rw [run_next ha, hi]; rfl)
          have hno' : ¬ A.Clean parts s' as := by
            intro hc
            refine hno (.cons hp fun s₁ o₁ hn => ?_)
            obtain ⟨rfl, -⟩ := ScanStep.next.inj (ha.symm.trans hn)
            exact hc
          obtain ⟨i, hi⟩ := ih hs.1 hgoes' hno'
          exact ⟨1 + i, by rw [run_next hb, hi]; rfl⟩

/-- What the second scanner never meets while the two agree. -/
theorem clean_of_clean (h : A.Tracks B R parts) {bad : τ → α → Prop}
    (hbad : ∀ s t a, R s t → ¬ parts s a → ¬ bad t a) {as : List α} {s : σ} {t : τ} (hR : R s t)
    (hc : A.Clean parts s as) : B.Clean bad t as := by
  induction as generalizing s t with
  | nil => exact .nil
  | cons a as ih =>
    cases hc with
    | cons hp hrest =>
      refine .cons (hbad s t a hR hp) fun t' o hb => ?_
      have hs := h.agree s t a hR hp
      cases ha : A s a with
      | next s' o' =>
        rw [ha, hb] at hs
        exact ih hs.1 (hrest s' o' ha)
      | done o' => rw [ha, hb] at hs; exact hs.elim
      | fail => rw [ha, hb] at hs; exact hs.elim

/-- The second scanner ends as the language of the first asks for, for exactly those inputs on
which the two never part. -/
theorem conforms_iff (h : A.Tracks B R parts) {L : List α → List β → Prop} {s : σ} {t : τ}
    (hR : R s t) (hlive : A.Live) (hL : ∀ as out, L as out ↔ A.Accepts s as out) {as : List α} :
    Conforms L as (B.run t as) ↔ A.Clean parts s as := by
  constructor
  · exact fun hc => h.clean_of_sameKind hR (sameKind_of_conforms hlive hL hc)
  · exact fun hc => (conforms_run hlive hL as).of_sameEnd (h.sameEnd_of_clean hR hc)

end Scanner.Tracks

end Verif
