import MiMic.Http.HeaderParser

/-!
# Runs of the header parser

`Reads` is a run that takes all its characters and goes on. A stream is parsed as its bytes in
one piece, however it is cut.
-/
namespace MiMic.Http.BasicHeaderParser

variable {σ : Type} {H : HeaderHandler σ}

/-- Neither refused nor complete. -/
def Live (p : BasicHeaderParser σ) : Prop := p.st ≠ .error ∧ p.st ≠ .eoh

/-- The parser takes all of `cs` and is in state `q` then. -/
def Reads (H : HeaderHandler σ) (p : BasicHeaderParser σ) (cs : List UInt8)
    (q : BasicHeaderParser σ) : Prop :=
  parseLoop H p cs = (cs.length, q) ∧ q.Live

theorem parseLoop_error {p : BasicHeaderParser σ} {c : UInt8} {cs : List UInt8}
    (h : (parseOne H p c).st = .error) : parseLoop H p (c :: cs) = (0, parseOne H p c) := by
  rw [parseLoop, if_pos h]

theorem parseLoop_eoh {p : BasicHeaderParser σ} {c : UInt8} {cs : List UInt8}
    (h : (parseOne H p c).st = .eoh) : parseLoop H p (c :: cs) = (1, parseOne H p c) := by
  rw [parseLoop, if_neg (by rw [h]; decide), if_pos h]

theorem parseLoop_live {p : BasicHeaderParser σ} {c : UInt8} {cs : List UInt8}
    (h : (parseOne H p c).Live) : parseLoop H p (c :: cs) =
      ((parseLoop H (parseOne H p c) cs).1 + 1, (parseLoop H (parseOne H p c) cs).2) := by
  rw [parseLoop, if_neg h.1, if_neg h.2]

theorem live_cases (p : BasicHeaderParser σ) : p.st = .error ∨ p.st = .eoh ∨ p.Live := by
  by_cases he : p.st = .error
  · exact Or.inl he
  · by_cases hd : p.st = .eoh
    · exact Or.inr (Or.inl hd)
    · exact Or.inr (Or.inr ⟨he, hd⟩)

namespace Reads

variable {p q r : BasicHeaderParser σ} {cs ds : List UInt8}

theorem nil (h : p.Live) : Reads H p [] p := ⟨rfl, h⟩

theorem cons {c : UInt8} (h : (parseOne H p c).Live) (hr : Reads H (parseOne H p c) cs q) :
    Reads H p (c :: cs) q := by
  refine ⟨?_, hr.2⟩
  rw [parseLoop_live h, hr.1]
  rfl

theorem step {c : UInt8} (hq : parseOne H p c = q) (h : q.Live) : Reads H p [c] q := by
  subst hq
  exact cons h (nil h)

/-- What follows a run is parsed from where that run has led. -/
theorem parseLoop (h : Reads H p cs q) (ds : List UInt8) :
    parseLoop H p (cs ++ ds) =
      (cs.length + (BasicHeaderParser.parseLoop H q ds).1,
        (BasicHeaderParser.parseLoop H q ds).2) := by
  induction cs generalizing p with
  | nil =>
    obtain rfl := (Prod.mk.inj h.1).2
    rw [List.nil_append, List.length_nil, Nat.zero_add]
  | cons c cs ih =>
    obtain ⟨hrun, hq⟩ := h
    rcases live_cases (parseOne H p c) with he | hd | hl
    · rw [parseLoop_error he] at hrun
      exact absurd (Prod.mk.inj hrun).1.symm (Nat.succ_ne_zero _)
    · rw [parseLoop_eoh hd] at hrun
      rw [← (Prod.mk.inj hrun).2] at hq
      exact absurd hd hq.2
    · rw [parseLoop_live hl] at hrun
      obtain ⟨hn, hs⟩ := Prod.mk.inj hrun
      have hc := ih ⟨Prod.ext (Nat.succ.inj hn) hs, hq⟩
      rw [List.cons_append, parseLoop_live hl, hc, List.length_cons]
      exact Prod.ext (Nat.add_right_comm _ _ _) rfl

theorem append (h : Reads H p cs q) (hr : Reads H q ds r) : Reads H p (cs ++ ds) r := by
  refine ⟨?_, hr.2⟩
  rw [h.parseLoop, hr.1, List.length_append]

end Reads

/-- A run either reads everything, or ends in one of the two other ways whatever follows. -/
theorem parseLoop_cases (p : BasicHeaderParser σ) (hp : p.Live) (cs : List UInt8) :
    Reads H p cs (parseLoop H p cs).2 ∨
      ((parseLoop H p cs).2.st = .error ∨ (parseLoop H p cs).2.st = .eoh) ∧
        ∀ ds, parseLoop H p (cs ++ ds) = parseLoop H p cs := by
  induction cs generalizing p with
  | nil => exact Or.inl (Reads.nil hp)
  | cons c cs ih =>
    rcases live_cases (parseOne H p c) with he | hd | hl
    · refine Or.inr ⟨?_, fun ds => ?_⟩
      · rw [parseLoop_error he]
        exact Or.inl he
      · rw [List.cons_append, parseLoop_error he, parseLoop_error he]
    · refine Or.inr ⟨?_, fun ds => ?_⟩
      · rw [parseLoop_eoh hd]
        exact Or.inr hd
      · rw [List.cons_append, parseLoop_eoh hd, parseLoop_eoh hd]
    · rcases ih (parseOne H p c) hl with hr | ⟨hend, hds⟩
      · rw [parseLoop_live hl]
        exact Or.inl (Reads.cons hl hr)
      · refine Or.inr ⟨?_, fun ds => ?_⟩
        · rw [parseLoop_live hl]
          exact hend
        · rw [List.cons_append, parseLoop_live hl, parseLoop_live hl, hds]

/-- What a stream of bytes gives in one piece. -/
def streamResult (r : Nat × BasicHeaderParser σ) : StreamResult σ :=
  ⟨decide (r.2.st = .eoh), r.2, r.1⟩

/-- How the stream is cut into reads does not matter. -/
theorem parseStream_eq (p : BasicHeaderParser σ) (hp : p.Live) (reads : List (List UInt8))
    (hne : ∀ r ∈ reads, r ≠ []) :
    parseStream H p reads = streamResult (parseLoop H p reads.flatten) := by
  induction reads generalizing p with
  | nil =>
    rw [List.flatten_nil, parseLoop, streamResult, parseStream, decide_eq_false hp.2]
  | cons r rs ih =>
    have hr := hne r (List.mem_cons_self ..)
    have hrs : ∀ r' ∈ rs, r' ≠ [] := fun r' h => hne r' (List.mem_cons_of_mem _ h)
    have hchar : parseChar H p r = parseLoop H p r := if_neg hp.1
    rw [List.flatten_cons, parseStream, if_neg hr, hchar]
    rcases parseLoop_cases (H := H) p hp r with hread | ⟨hend, hall⟩
    · rw [if_neg hread.2.1, if_neg hread.2.2, hread.parseLoop, ih _ hread.2 hrs, hread.1]
      rfl
    · rw [hall]
      rcases hend with he | hd
      · rw [if_pos he, streamResult, he]
        rfl
      · rw [if_neg (by rw [hd]; decide), if_pos hd, streamResult, hd]
        rfl

/-- A read that times out ends the stream. -/
theorem parseStream_takeWhile (p : BasicHeaderParser σ) (reads : List (List UInt8)) :
    parseStream H p (reads.takeWhile fun r => r ≠ []) = parseStream H p reads := by
  induction reads generalizing p with
  | nil => rfl
  | cons r rs ih =>
    by_cases hr : r = []
    · rw [List.takeWhile_cons_of_neg (by simp [hr]), parseStream, parseStream, if_pos hr]
    · rw [List.takeWhile_cons_of_pos (by simp [hr]), parseStream, parseStream, ih]

/-- A part of what is read is read. -/
theorem Reads.take {p q : BasicHeaderParser σ} {cs : List UInt8} (h : Reads H p cs q) (hp : p.Live)
    (k : Nat) : ∃ r, Reads H p (cs.take k) r := by
  rcases parseLoop_cases (H := H) p hp (cs.take k) with hr | ⟨hend, hall⟩
  · exact ⟨_, hr⟩
  · have hsame := hall (cs.drop k)
    rw [List.take_append_drop, h.1] at hsame
    rw [← hsame] at hend
    exact absurd hend (not_or.mpr h.2)

theorem live_parseInit (p : BasicHeaderParser σ) : p.parseInit.Live :=
  ⟨(fun h => nomatch h), (fun h => nomatch h)⟩

/-- The work text with a token in it. -/
def withText (p : BasicHeaderParser σ) (t : List UInt8) : BasicHeaderParser σ :=
  { p with wsb := ⟨p.wsb.s, t.length, t⟩ }

theorem put_withText (p : BasicHeaderParser σ) {t : List UInt8} (c : UInt8)
    (h : t.length < p.wsb.s) : (p.withText t).put c = p.withText (t ++ [c]) := by
  have hput : (p.withText t).wsb.put c = some (p.withText (t ++ [c])).wsb := by
    simp only [withText, CStr.put, List.take_length, List.length_append, List.length_singleton]
    rw [if_pos (Nat.sub_pos_of_lt h)]
  rw [put, hput]
  rfl

/-- The first character of a token goes over whatever the text held. -/
theorem put_first {p : BasicHeaderParser σ} (c : UInt8) (hl : p.wsb.l = 0) (hs : 0 < p.wsb.s) :
    p.put c = p.withText [c] := by
  have hput : p.wsb.put c = some (p.withText [c]).wsb := by
    simp only [withText, CStr.put, hl, List.take_zero, List.nil_append, List.length_singleton]
    rw [if_pos (show 0 < p.wsb.s - 0 by omega)]
  rw [put, hput]
  rfl

/-- Characters that go into the work text. -/
theorem reads_put {p : BasicHeaderParser σ} (hp : p.Live) {t cs : List UInt8}
    (hput : ∀ t', t.length ≤ t'.length → ∀ c ∈ cs,
      parseOne H (p.withText t') c = (p.withText t').put c)
    (hlen : t.length + cs.length ≤ p.wsb.s) :
    Reads H (p.withText t) cs (p.withText (t ++ cs)) := by
  induction cs generalizing t with
  | nil =>
    rw [List.append_nil]
    exact Reads.nil hp
  | cons c cs ih =>
    rw [List.length_cons] at hlen
    have hone : parseOne H (p.withText t) c = p.withText (t ++ [c]) := by
      rw [hput t le_rfl c (List.mem_cons_self ..), put_withText p c (by omega)]
    have hlen' : (t ++ [c]).length = t.length + 1 := by
      rw [List.length_append, List.length_singleton]
    have hrest : Reads H (p.withText (t ++ [c])) cs (p.withText (t ++ [c] ++ cs)) := by
      apply ih
      · intro t' ht' c' hc'
        exact hput t' (by omega) c' (List.mem_cons_of_mem _ hc')
      · omega
    rw [List.append_assoc, List.singleton_append] at hrest
    exact Reads.cons (hone ▸ hp) (hone ▸ hrest)

/-- A whole token, from a cleared work text. -/
theorem reads_token {p : BasicHeaderParser σ} (hp : p.Live) (hl : p.wsb.l = 0) {c : UInt8}
    {cs : List UInt8} (hfirst : parseOne H p c = p.put c)
    (hput : ∀ t', t' ≠ [] → ∀ c ∈ cs, parseOne H (p.withText t') c = (p.withText t').put c)
    (hlen : cs.length + 1 ≤ p.wsb.s) :
    Reads H p (c :: cs) (p.withText (c :: cs)) := by
  have hone : parseOne H p c = p.withText [c] := by rw [hfirst, put_first c hl (by omega)]
  refine Reads.cons (hone ▸ hp) ?_
  rw [hone]
  apply reads_put hp
  · intro t' ht' d hd
    exact hput t' (List.ne_nil_of_length_pos ht') d hd
  · rw [List.length_singleton]
    omega

end MiMic.Http.BasicHeaderParser
