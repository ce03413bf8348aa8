import MiMic.Lib.Scanner
import MiMic.Http.BodyParser

/-!
# The grammar of chunked bodies

`Chunked` is the grammar, `grammarStep` reads it symbol by symbol, and the parser is compared
with that: they agree up to the first character listed in `Parts`.
-/
namespace MiMic.Http

open Verif

def crlf : List UInt8 := [chCr, chLf]

/-- `NyLPC_ctox` over a whole number, behind the value `v`. -/
def hexValue (v : Nat) (ds : List UInt8) : Nat := ds.foldl (fun v c => v * 16 + (ctox c).toNat) v

structure ChunkSize (ds : List UInt8) (v : Nat) : Prop where
  nonempty : ds ≠ []
  digits : ∀ c ∈ ds, isXDigit c = true
  value : hexValue 0 ds = v
  limit : (v : Int) ≤ maxChunkSize

inductive ChunkExt : List UInt8 → Prop
  | none : ChunkExt []
  | some {e} : ¬ crlf <:+: e → ChunkExt (chSemicolon :: e)

/-- A chunked body and the data it carries. -/
inductive Chunked : List UInt8 → List UInt8 → Prop
  | last {ds ext} : ChunkSize ds 0 → ChunkExt ext → Chunked (ds ++ ext ++ crlf ++ crlf) []
  | chunk {ds ext data rest body} : ChunkSize ds data.length → data ≠ [] → ChunkExt ext →
      Chunked rest body → Chunked (ds ++ ext ++ crlf ++ data ++ crlf ++ rest) (data ++ body)

/-- What was read of the grammar; `data k` has `k + 1` bytes left. -/
inductive GrammarSt
  | start
  | size (v : Nat)
  | sizeCr (v : Nat)
  | ext (v : Nat)
  | extCr (v : Nat)
  | data (k : Nat)
  | dataEnd
  | dataCr
  | lastEnd
  | lastCr

def afterLine : Nat → GrammarSt
  | 0 => .lastEnd
  | k + 1 => .data k

def sizeStep (v : Nat) (c : UInt8) : ScanStep GrammarSt UInt8 :=
  if ((v * 16 + (ctox c).toNat : Nat) : Int) > maxChunkSize then .fail
  else .next (.size (v * 16 + (ctox c).toNat)) []

def grammarStep : Scanner GrammarSt UInt8 UInt8
  | .start, c => if isXDigit c then sizeStep 0 c else .fail
  | .size v, c =>
      if isXDigit c then sizeStep v c
      else if c = chCr then .next (.sizeCr v) []
      else if c = chSemicolon then .next (.ext v) []
      else .fail
  | .sizeCr v, c => if c = chLf then .next (afterLine v) [] else .fail
  | .ext v, c => if c = chCr then .next (.extCr v) [] else .next (.ext v) []
  | .extCr v, c =>
      if c = chLf then .next (afterLine v) []
      else if c = chCr then .next (.extCr v) []
      else .next (.ext v) []
  | .data 0, c => .next .dataEnd [c]
  | .data (k + 1), c => .next (.data k) [c]
  | .dataEnd, c => if c = chCr then .next .dataCr [] else .fail
  | .dataCr, c => if c = chLf then .next .start [] else .fail
  | .lastEnd, c => if c = chCr then .next .lastCr [] else .fail
  | .lastCr, c => if c = chLf then .done [] else .fail

/-- What may follow the line end of a chunk of size `v`. -/
inductive LineRest (v : Nat) : List UInt8 → List UInt8 → Prop
  | last : v = 0 → LineRest v crlf []
  | chunk {data rest body} : data.length = v → data ≠ [] → Chunked rest body →
      LineRest v (data ++ crlf ++ rest) (data ++ body)

/-- The inputs that complete the grammar from a state. -/
inductive Rest : GrammarSt → List UInt8 → List UInt8 → Prop
  | start {w out} : Chunked w out → Rest .start w out
  | size {v ds ext w out} : (∀ c ∈ ds, isXDigit c = true) →
      (ds ≠ [] → (hexValue v ds : Int) ≤ maxChunkSize) → ChunkExt ext → LineRest (hexValue v ds) w out → Rest (.size v) (ds ++ ext ++ crlf ++ w) out
  | sizeCr {v w out} : LineRest v w out → Rest (.sizeCr v) (chLf :: w) out
  | ext {v e w out} : ¬ crlf <:+: e → LineRest v w out → Rest (.ext v) (e ++ crlf ++ w) out
  | extCr {v e t w out} : ¬ crlf <:+: e → LineRest v w out → chCr :: t = e ++ crlf ++ w →
      Rest (.extCr v) t out
  | data {k data rest body} : data.length = k + 1 → Chunked rest body →
      Rest (.data k) (data ++ crlf ++ rest) (data ++ body)
  | dataEnd {rest body} : Chunked rest body → Rest .dataEnd (crlf ++ rest) body
  | dataCr {rest body} : Chunked rest body → Rest .dataCr (chLf :: rest) body
  | lastEnd : Rest .lastEnd crlf []
  | lastCr : Rest .lastCr [chLf] []

theorem rest_afterLine {v : Nat} {w out : List UInt8} (h : Rest (afterLine v) w out) :
    LineRest v w out := by
  cases v with
  | zero =>
    cases h with
    | lastEnd => exact .last rfl
  | succ k =>
    cases h with
    | data hlen hrest =>
      refine .chunk hlen ?_ hrest
      intro hnil
      rw [hnil] at hlen
      cases hlen

theorem hexValue_cons (v : Nat) (c : UInt8) (ds : List UInt8) :
    hexValue v (c :: ds) = hexValue (v * 16 + (ctox c).toNat) ds := rfl

theorem le_hexValue (v : Nat) (ds : List UInt8) : v ≤ hexValue v ds := by
  induction ds generalizing v with
  | nil => exact le_rfl
  | cons c ds ih =>
    have := ih (v * 16 + (ctox c).toNat)
    rw [hexValue_cons]
    omega

theorem not_crlf_infix_cons {c : UInt8} {e : List UInt8} (hc : c ≠ chCr) (h : ¬ crlf <:+: e) :
    ¬ crlf <:+: c :: e := by
  intro hin
  obtain hpre | hin := List.infix_cons_iff.mp hin
  · exact hc (List.cons_prefix_cons.mp hpre).1.symm
  · exact h hin

theorem sizeStep_next {v : Nat} {c : UInt8} {g : GrammarSt} {o : List UInt8}
    (h : sizeStep v c = .next g o) :
    ((v * 16 + (ctox c).toNat : Nat) : Int) ≤ maxChunkSize ∧ g = .size (v * 16 + (ctox c).toNat) ∧
      o = [] := by
  unfold sizeStep at h
  split at h
  · cases h
  · next hle =>
    obtain ⟨rfl, rfl⟩ := ScanStep.next.inj h
    exact ⟨not_lt.mp hle, rfl, rfl⟩

/-- A digit before the rest of a size. -/
theorem rest_digit {v : Nat} {c : UInt8} {w out : List UInt8} (hc : isXDigit c = true)
    (hle : ((v * 16 + (ctox c).toNat : Nat) : Int) ≤ maxChunkSize)
    (h : Rest (.size (v * 16 + (ctox c).toNat)) w out) :
    ∃ ds ext w', c :: w = (c :: ds) ++ ext ++ crlf ++ w' ∧ (∀ d ∈ c :: ds, isXDigit d = true) ∧
      (hexValue v (c :: ds) : Int) ≤ maxChunkSize ∧ ChunkExt ext ∧
      LineRest (hexValue v (c :: ds)) w' out := by
  cases h with
  | @size _ ds ext w' _ hds hlim hext hrest =>
    refine ⟨ds, ext, w', rfl, ?_, ?_, hext, hrest⟩
    · intro d hd
      obtain rfl | hd := List.mem_cons.mp hd
      · exact hc
      · exact hds d hd
    · cases ds with
      | nil => exact hle
      | cons d ds => exact hlim (List.cons_ne_nil d ds)

theorem rest_noDigit {v : Nat} {ext w out : List UInt8} (hext : ChunkExt ext)
    (hrest : LineRest v w out) : Rest (.size v) (ext ++ crlf ++ w) out := by
  have hv : hexValue v [] = v := rfl
  have hnone : ∀ c ∈ ([] : List UInt8), isXDigit c = true := by simp
  exact .size hnone (fun hne => absurd rfl hne) hext (hv.symm ▸ hrest)

/-- One symbol back. -/
theorem rest_step {g g' : GrammarSt} {c : UInt8} {o w out : List UInt8}
    (hs : grammarStep g c = .next g' o) (h : Rest g' w out) : Rest g (c :: w) (o ++ out) := by
  cases g with
  | start =>
    simp only [grammarStep] at hs
    split at hs
    · next hc =>
      obtain ⟨hle, rfl, rfl⟩ := sizeStep_next hs
      obtain ⟨ds, ext, w', hw, hds, hlim, hext, hrest⟩ := rest_digit hc hle h
      refine .start ?_
      rw [hw]
      generalize hv : hexValue 0 (c :: ds) = v at hrest
      cases hrest with
      | last hv0 => exact .last ⟨List.cons_ne_nil c ds, hds, hv.trans hv0, by decide⟩ hext
      | chunk hlen hne hbody =>
        rw [← List.append_assoc, ← List.append_assoc]
        exact .chunk ⟨List.cons_ne_nil c ds, hds, hv.trans hlen.symm, by rw [hlen, ← hv]; exact hlim⟩ hne hext hbody
    · cases hs
  | size v =>
    simp only [grammarStep] at hs
    split at hs
    · next hc =>
      obtain ⟨hle, rfl, rfl⟩ := sizeStep_next hs
      obtain ⟨ds, ext, w', hw, hds, hlim, hext, hrest⟩ := rest_digit hc hle h
      rw [hw]
      exact .size hds (fun _ => hlim) hext hrest
    · split at hs
      · next hc =>
        obtain ⟨rfl, rfl⟩ := ScanStep.next.inj hs
        cases h with
        | sizeCr hrest =>
          rw [hc]
          exact rest_noDigit .none hrest
      · split at hs
        · next hc =>
          obtain ⟨rfl, rfl⟩ := ScanStep.next.inj hs
          cases h with
          | @ext _ e w' _ he hrest =>
            rw [hc]
            exact rest_noDigit (.some he) hrest
        · cases hs
  | sizeCr v =>
    simp only [grammarStep] at hs
    split at hs
    · next hc =>
      obtain ⟨rfl, rfl⟩ := ScanStep.next.inj hs
      rw [hc]
      exact .sizeCr (rest_afterLine h)
    · cases hs
  | ext v =>
    simp only [grammarStep] at hs
    split at hs
    · next hc =>
      obtain ⟨rfl, rfl⟩ := ScanStep.next.inj hs
      cases h with
      | extCr he hrest ht =>
        rw [hc, ht]
        exact .ext he hrest
    · next hc =>
      obtain ⟨rfl, rfl⟩ := ScanStep.next.inj hs
      cases h with
      | @ext _ e w' _ he hrest => exact .ext (e := c :: e) (not_crlf_infix_cons hc he) hrest
  | extCr v =>
    simp only [grammarStep] at hs
    split at hs
    · next hc =>
      obtain ⟨rfl, rfl⟩ := ScanStep.next.inj hs
      refine .extCr (e := []) (fun hin => ?_) (rest_afterLine h) (by rw [hc]; rfl)
      cases List.infix_nil.mp hin
    · split at hs
      · next hlf hc =>
        obtain ⟨rfl, rfl⟩ := ScanStep.next.inj hs
        cases h with
        | @extCr _ e t w' _ he hrest ht =>
          rw [hc, ht]
          refine .extCr (e := chCr :: e) (fun hin => ?_) hrest rfl
          obtain hpre | hin := List.infix_cons_iff.mp hin
          · obtain ⟨e', rfl⟩ := (List.cons_prefix_cons.mp hpre).2
            cases (List.cons.inj ht).1
          · exact he hin
      · next hlf hc =>
        obtain ⟨rfl, rfl⟩ := ScanStep.next.inj hs
        cases h with
        | @ext _ e w' _ he hrest =>
          refine .extCr (e := chCr :: c :: e) (fun hin => ?_) hrest rfl
          obtain hpre | hin := List.infix_cons_iff.mp hin
          · exact hlf (List.cons_prefix_cons.mp (List.cons_prefix_cons.mp hpre).2).1.symm
          · exact not_crlf_infix_cons hc he hin
  | data k =>
    cases k with
    | zero =>
      obtain ⟨rfl, rfl⟩ := ScanStep.next.inj hs
      cases h with
      | dataEnd hrest =>
        have hone : [c].length = 0 + 1 := rfl
        exact .data hone hrest
    | succ k =>
      obtain ⟨rfl, rfl⟩ := ScanStep.next.inj hs
      cases h with
      | @data _ d rest body hlen hrest =>
        have hlen' : (c :: d).length = k + 1 + 1 := by rw [List.length_cons, hlen]
        exact .data hlen' hrest
  | dataEnd =>
    simp only [grammarStep] at hs
    split at hs
    · next hc =>
      obtain ⟨rfl, rfl⟩ := ScanStep.next.inj hs
      cases h with
      | dataCr hrest =>
        rw [hc]
        exact .dataEnd hrest
    · cases hs
  | dataCr =>
    simp only [grammarStep] at hs
    split at hs
    · next hc =>
      obtain ⟨rfl, rfl⟩ := ScanStep.next.inj hs
      cases h with
      | start hw =>
        rw [hc]
        exact .dataCr hw
    · cases hs
  | lastEnd =>
    simp only [grammarStep] at hs
    split at hs
    · next hc =>
      obtain ⟨rfl, rfl⟩ := ScanStep.next.inj hs
      cases h with
      | lastCr =>
        rw [hc]
        exact .lastEnd
    · cases hs
  | lastCr =>
    simp only [grammarStep] at hs
    split at hs <;> cases hs

theorem grammarStep_done {g : GrammarSt} {c : UInt8} {o : List UInt8}
    (h : grammarStep g c = .done o) : g = .lastCr ∧ c = chLf ∧ o = [] := by
  unfold grammarStep sizeStep at h
  split at h <;> (try split_ifs at h) <;> first
    | exact ⟨rfl, ‹_›, (ScanStep.done.inj h).symm⟩
    | cases h

theorem rest_of_accepts {g : GrammarSt} {w out : List UInt8} (h : grammarStep.Accepts g w out) :
    Rest g w out := by
  induction w generalizing g out with
  | nil => exact absurd rfl h.ne_nil
  | cons c w ih =>
    unfold Scanner.Accepts at h
    cases hs : grammarStep g c with
    | next g' o =>
      rw [Scanner.run_next hs] at h
      cases hr : grammarStep.run g' w with
      | done n o' =>
        rw [hr] at h
        obtain ⟨hn, rfl⟩ := Verdict.done.inj h
        refine rest_step hs (ih ?_)
        rw [List.length_cons] at hn
        rw [Scanner.Accepts, hr, show n = w.length by omega]
      | pending _ _ => rw [hr] at h; cases h
      | fail _ => rw [hr] at h; cases h
    | fail =>
      rw [Scanner.run_fail hs] at h
      cases h
    | done o =>
      rw [Scanner.run_done hs] at h
      obtain ⟨hn, rfl⟩ := Verdict.done.inj h
      have hw : w = [] := List.length_eq_zero_iff.mp (by rw [List.length_cons] at hn; omega)
      obtain ⟨rfl, rfl, rfl⟩ := grammarStep_done hs
      rw [hw]
      exact .lastCr

theorem accepts_done {g : GrammarSt} {c : UInt8} (h : grammarStep g c = .done []) :
    grammarStep.Accepts g [c] [] := Scanner.run_done h

theorem accepts_next {g g' : GrammarSt} {c : UInt8} {w out : List UInt8}
    (hs : grammarStep g c = .next g' []) (h : grammarStep.Accepts g' w out) :
    grammarStep.Accepts g (c :: w) out := Scanner.Accepts.cons hs h

theorem accepts_digits {v : Nat} {ds w out : List UInt8} (hds : ∀ c ∈ ds, isXDigit c = true)
    (hlim : ds ≠ [] → (hexValue v ds : Int) ≤ maxChunkSize)
    (h : grammarStep.Accepts (.size (hexValue v ds)) w out) :
    grammarStep.Accepts (.size v) (ds ++ w) out := by
  induction ds generalizing v with
  | nil => exact h
  | cons c ds ih =>
    have hle := hlim (List.cons_ne_nil c ds)
    have hmono := le_hexValue (v * 16 + (ctox c).toNat) ds
    have hs : grammarStep (.size v) c = .next (.size (v * 16 + (ctox c).toNat)) [] := by
      simp only [grammarStep, hds c List.mem_cons_self, if_true, sizeStep]
      rw [hexValue_cons] at hle
      exact if_neg (by omega)
    refine accepts_next hs (ih (fun d hd => hds d (List.mem_cons_of_mem c hd)) (fun _ => hle) h)

/-- An extension up to its CRLF; after a CR the next symbol decides. -/
theorem accepts_ext {v : Nat} {e w out : List UInt8} (he : ¬ crlf <:+: e)
    (h : grammarStep.Accepts (afterLine v) w out) :
    grammarStep.Accepts (.ext v) (e ++ crlf ++ w) out ∧
      (e.head? ≠ some chLf → grammarStep.Accepts (.extCr v) (e ++ crlf ++ w) out) := by
  have hlf : grammarStep.Accepts (.extCr v) (chLf :: w) out := accepts_next rfl h
  induction e with
  | nil => exact ⟨accepts_next rfl hlf, fun _ => accepts_next rfl hlf⟩
  | cons c e ih =>
    obtain ⟨hext, hcr⟩ := ih fun hin => he (List.infix_cons_iff.mpr (Or.inr hin))
    by_cases hc : c = chCr
    · have hhead : e.head? ≠ some chLf := by
        intro hh
        cases e with
        | nil => cases hh
        | cons d e =>
          obtain rfl := Option.some.inj hh
          refine he ⟨[], e, ?_⟩
          rw [hc]
          rfl
      rw [hc]
      exact ⟨accepts_next rfl (hcr hhead), fun _ => accepts_next rfl (hcr hhead)⟩
    · refine ⟨accepts_next (if_neg hc) hext, fun hne => ?_⟩
      have hclf : c ≠ chLf := fun hc' => hne (congrArg some hc')
      exact accepts_next ((if_neg hclf).trans (if_neg hc)) hext

theorem accepts_line {v : Nat} {ds ext w out : List UInt8} (hds : ∀ c ∈ ds, isXDigit c = true)
    (hlim : ds ≠ [] → (hexValue v ds : Int) ≤ maxChunkSize) (hext : ChunkExt ext)
    (h : grammarStep.Accepts (afterLine (hexValue v ds)) w out) :
    grammarStep.Accepts (.size v) (ds ++ ext ++ crlf ++ w) out := by
  rw [List.append_assoc, List.append_assoc]
  refine accepts_digits hds hlim ?_
  cases hext with
  | none => exact accepts_next rfl (accepts_next rfl h)
  | some he =>
    rw [← List.append_assoc]
    exact accepts_next rfl (accepts_ext he h).1

theorem accepts_data {data w out : List UInt8} {k : Nat} (hlen : data.length = k + 1)
    (h : grammarStep.Accepts .dataEnd w out) :
    grammarStep.Accepts (.data k) (data ++ w) (data ++ out) := by
  induction data generalizing k with
  | nil => cases hlen
  | cons c data ih =>
    cases k with
    | zero =>
      obtain rfl := List.length_eq_zero_iff.mp (Nat.succ.inj hlen)
      have hs : grammarStep (.data 0) c = .next .dataEnd [c] := rfl
      exact h.cons hs
    | succ k =>
      have hs : grammarStep (.data (k + 1)) c = .next (.data k) [c] := rfl
      change grammarStep.Accepts _ (c :: (data ++ w)) ([c] ++ (data ++ out))
      exact (ih (Nat.succ.inj hlen)).cons hs

theorem accepts_start {ds ext w out : List UInt8} {v : Nat} (hsize : ChunkSize ds v)
    (hext : ChunkExt ext) (h : grammarStep.Accepts (afterLine v) w out) :
    grammarStep.Accepts .start (ds ++ ext ++ crlf ++ w) out := by
  obtain ⟨hne, hds, rfl, hlim⟩ := hsize
  have hline := accepts_line (v := 0) hds (fun _ => hlim) hext h
  -- the first digit is read in `start`, which has no CR and no extension
  cases ds with
  | nil => exact absurd rfl hne
  | cons c ds =>
    have hstep : grammarStep .start c = grammarStep (.size 0) c := by
      simp only [grammarStep, hds c List.mem_cons_self, if_true]
    have hcons : ∀ (rest : List UInt8), grammarStep.run .start (c :: rest) = grammarStep.run (.size 0) (c :: rest) := by
      intro rest
      rw [Scanner.run, Scanner.run, hstep]
    exact (hcons _).trans hline

theorem accepts_of_chunked {w out : List UInt8} (h : Chunked w out) :
    grammarStep.Accepts .start w out := by
  induction h with
  | last hsize hext =>
    exact accepts_start hsize hext
      (accepts_next rfl (accepts_done rfl))
  | @chunk ds ext data rest body hsize hne hext _ ih =>
    rw [List.append_assoc _ crlf rest, List.append_assoc _ data]
    refine accepts_start hsize hext ?_
    obtain ⟨k, hk⟩ := Nat.exists_eq_succ_of_ne_zero (fun h => hne (List.length_eq_zero_iff.mp h))
    rw [hk]
    exact accepts_data hk (accepts_next rfl (accepts_next rfl ih))

theorem chunked_iff_accepts (w out : List UInt8) : Chunked w out ↔ grammarStep.Accepts .start w out := by
  constructor
  · exact accepts_of_chunked
  · intro h
    cases rest_of_accepts h with
    | start hw => exact hw

theorem chunked_empty : Chunked (chZero :: crlf ++ crlf) [] := by
  have hsize : ChunkSize [chZero] 0 := ⟨by decide, by decide, by decide, by decide⟩
  exact .last hsize .none

theorem grammar_live : grammarStep.Live := by
  have hstart := accepts_of_chunked chunked_empty
  have hend : grammarStep.Accepts .dataEnd (chCr :: chLf :: (chZero :: crlf ++ crlf)) [] :=
    accepts_next rfl (accepts_next rfl hstart)
  have hdata : ∀ k, ∃ w out, grammarStep.Accepts (.data k) w out := fun k =>
    ⟨_, _, accepts_data (List.length_replicate (n := k + 1) (a := 0)) hend⟩
  have hlast : grammarStep.Accepts .lastEnd crlf [] := accepts_next rfl (accepts_done rfl)
  have hline : ∀ v, ∃ w out, grammarStep.Accepts (afterLine v) w out := by
    intro v
    cases v with
    | zero => exact ⟨_, _, hlast⟩
    | succ k => exact hdata k
  intro g
  cases g with
  | start => exact ⟨_, _, hstart⟩
  | size v =>
    obtain ⟨w, out, h⟩ := hline v
    exact ⟨_, _, accepts_next (c := chCr) rfl (accepts_next (c := chLf) rfl h)⟩
  | sizeCr v =>
    obtain ⟨w, out, h⟩ := hline v
    exact ⟨_, _, accepts_next (c := chLf) rfl h⟩
  | ext v =>
    obtain ⟨w, out, h⟩ := hline v
    exact ⟨_, _, accepts_next (c := chCr) rfl (accepts_next (c := chLf) rfl h)⟩
  | extCr v =>
    obtain ⟨w, out, h⟩ := hline v
    exact ⟨_, _, accepts_next (c := chLf) rfl h⟩
  | data k => exact hdata k
  | dataEnd => exact ⟨_, _, hend⟩
  | dataCr => exact ⟨_, _, accepts_next (c := chLf) rfl hstart⟩
  | lastEnd => exact ⟨_, _, hlast⟩
  | lastCr => exact ⟨_, _, accepts_done (c := chLf) rfl⟩

/-- The chunked branch of the parser as a scanner. -/
def chunkedStep : Scanner BasicBodyParser UInt8 UInt8 := fun p c =>
  match chunkedChar p c with
  | .next p' => .next p' []
  | .deliver p' => .next p' [c]
  | .stop _ => .done []
  | .error => .fail

/-- The `int` behind the size cannot hold the next value. -/
def Overflows (p : BasicBodyParser) (c : UInt8) : Prop :=
  p.status = .chunkHeaderStart ∧ isXDigit c = true ∧ 2 ^ 31 ≤ p.recvLen * 16 + (ctox c).toNat

/-- The characters that the parser takes for something else than the grammar does: an empty
size; a space, a semicolon or LF behind a size; a digit that makes the size overflow;
anything but LF behind the CR of a size line; LF without CR, or a second CR, behind the data
of a chunk or the last chunk. -/
def Parts : GrammarSt → UInt8 → Prop
  | .start, c => c = chSpace ∨ c = chCr ∨ c = chLf
  | .size v, c => c = chSpace ∨ c = chSemicolon ∨ c = chLf ∨
      isXDigit c = true ∧ 2 ^ 31 ≤ v * 16 + (ctox c).toNat
  | .sizeCr _, c => c ≠ chLf
  | .dataEnd, c => c = chLf
  | .lastEnd, c => c = chLf
  | .dataCr, c => c = chCr
  | .lastCr, c => c = chCr
  | _, _ => False

/-- The parser stands where the grammar does. -/
inductive Tied : GrammarSt → BasicBodyParser → Prop
  | start {p} : p.status = .chunkHeaderStart → p.recvLen = 0 → Tied .start p
  | size {v : Nat} {p} : p.status = .chunkHeaderStart → p.recvLen = (v : Int) →
      (v : Int) ≤ maxChunkSize → Tied (.size v) p
  | sizeCr {v : Nat} {p} : p.status = .chunkHeaderExt → p.recvLen = (v : Int) → Tied (.sizeCr v) p
  | data {k : Nat} {p} : p.status = .chunkBody → p.recvLen = (k : Int) + 1 → Tied (.data k) p
  | dataEnd {p} : p.status = .chunkFooter → p.recvLen = 0 → Tied .dataEnd p
  | dataCr {p} : p.status = .chunkFooter → p.recvLen = 0 → Tied .dataCr p
  | lastEnd {p} : p.status = .chunkEnd → Tied .lastEnd p
  | lastCr {p} : p.status = .chunkEnd → Tied .lastCr p

theorem ctox_lt (c : UInt8) : (ctox c).toNat < 16 := by
  unfold ctox isDigit
  split_ifs with h1 h2 h3
  · simp only [Bool.and_eq_true, decide_eq_true_eq, UInt8.le_iff_toNat_le, chZero] at h1
    rw [chZero, UInt8.toNat_sub]
    simp at h1 ⊢
    omega
  · simp only [UInt8.le_iff_toNat_le] at h2
    rw [UInt8.toNat_add, UInt8.toNat_sub]
    simp at h2 ⊢
    omega
  · simp only [UInt8.le_iff_toNat_le] at h3
    rw [UInt8.toNat_add, UInt8.toNat_sub]
    simp at h3 ⊢
    omega
  · decide

theorem nextRecvLen_small {p : BasicBodyParser} {c : UInt8} {v : Nat} (hv : p.recvLen = (v : Int))
    (h : v * 16 + (ctox c).toNat < 2 ^ 31) :
    nextRecvLen p c = ((v * 16 + (ctox c).toNat : Nat) : Int) := by
  rw [nextRecvLen, hv]
  push_cast
  exact Int.bmod_eq_of_le (by omega) (by omega)

/-- The size wraps to a negative value, which is below the limit. -/
theorem nextRecvLen_wraps {p : BasicBodyParser} {c : UInt8} {v : Nat} (hv : p.recvLen = (v : Int))
    (hlim : (v : Int) ≤ maxChunkSize) (h : 2 ^ 31 ≤ v * 16 + (ctox c).toNat) :
    nextRecvLen p c ≤ maxChunkSize := by
  have hd := ctox_lt c
  simp only [maxChunkSize] at hlim ⊢
  rw [nextRecvLen, hv, Int.bmod_def]
  split <;> omega

theorem chunkedStep_eq {p p' : BasicBodyParser} {c : UInt8} (h : chunkedChar p c = .next p') :
    chunkedStep p c = .next p' [] := by
  rw [chunkedStep, h]

theorem chunkedStep_fail {p : BasicBodyParser} {c : UInt8} (h : chunkedChar p c = .error) :
    chunkedStep p c = .fail := by
  rw [chunkedStep, h]

/-- The end of a size line. -/
theorem chunkedStep_lf {p : BasicBodyParser} {v : Nat} (hst : p.status = .chunkHeaderExt)
    (hv : p.recvLen = (v : Int)) :
    ∃ p', chunkedStep p chLf = .next p' [] ∧ Tied (afterLine v) p' := by
  cases v with
  | zero =>
    refine ⟨{ p with status := .chunkEnd }, chunkedStep_eq ?_, .lastEnd rfl⟩
    rw [chunkedChar, hst]
    simp [extChar, hv]
  | succ k =>
    refine ⟨{ p with status := .chunkBody }, chunkedStep_eq ?_, .data rfl hv⟩
    rw [chunkedChar, hst]
    have hne : p.recvLen ≠ 0 := by omega
    simp [extChar, hne]

theorem chunkedStep_digit {p : BasicBodyParser} {c : UInt8} {v : Nat}
    (hst : p.status = .chunkHeaderStart) (hv : p.recvLen = (v : Int)) (hc : isXDigit c = true)
    (h : v * 16 + (ctox c).toNat < 2 ^ 31) :
    ScanStep.Same Tied (sizeStep v c) (chunkedStep p c) := by
  have hn := nextRecvLen_small hv h
  unfold sizeStep
  split
  · next hover =>
    rw [chunkedStep_fail]
    · trivial
    · rw [chunkedChar, hst]
      simp only [hc, if_true]
      exact if_pos (hn ▸ hover)
  · next hle =>
    have hs : chunkedChar p c = .next { p with recvLen := nextRecvLen p c } := by
      rw [chunkedChar, hst]
      simp only [hc, if_true]
      exact if_neg (hn ▸ hle)
    rw [chunkedStep_eq hs]
    exact ⟨.size hst hn (not_lt.mp hle), rfl⟩

theorem chunkedStep_start {p : BasicBodyParser} {c : UInt8} (hst : p.status = .chunkHeaderStart)
    (hx : isXDigit c = false) (h1 : c ≠ chSpace) (h2 : c ≠ chCr) (h3 : c ≠ chLf) :
    chunkedStep p c = .fail := by
  refine chunkedStep_fail ?_
  rw [chunkedChar, hst]
  simp [hx, h1, h2, h3]

/-- What ends a size is never refused, be it empty or not. -/
theorem chunkedStep_sizeEnd {p : BasicBodyParser} {c : UInt8} (hst : p.status = .chunkHeaderStart)
    (hc : c = chSpace ∨ c = chCr ∨ c = chLf) : ∃ p', chunkedStep p c = .next p' [] := by
  have hnext : ∃ p', chunkedChar p c = .next p' := by
    rw [chunkedChar, hst]
    obtain rfl | rfl | rfl := hc
    · exact ⟨_, rfl⟩
    · exact ⟨_, rfl⟩
    · change ∃ p', extChar p chLf = .next p'
      unfold extChar
      rw [if_pos rfl]
      split <;> exact ⟨_, rfl⟩
  obtain ⟨p', hs⟩ := hnext
  exact ⟨p', chunkedStep_eq hs⟩

theorem chunkedStep_ext {p : BasicBodyParser} {c : UInt8} (hst : p.status = .chunkHeaderExt)
    (hc : c ≠ chLf) : chunkedStep p c = .next { p with status := .chunkHeaderExt } [] := by
  refine chunkedStep_eq ?_
  rw [chunkedChar, hst]
  exact if_neg hc

theorem chunkedStep_footer {p : BasicBodyParser} {c : UInt8} (hst : p.status = .chunkFooter) :
    chunkedStep p c = if c = chCr then .next p []
      else if c = chLf then .next { p with status := .chunkHeaderStart } [] else .fail := by
  rw [chunkedStep, chunkedChar, hst]
  dsimp only
  split_ifs <;> rfl

theorem chunkedStep_end {p : BasicBodyParser} {c : UInt8} (hst : p.status = .chunkEnd) :
    chunkedStep p c = if c = chCr then .next p [] else if c = chLf then .done [] else .fail := by
  rw [chunkedStep, chunkedChar, hst]
  dsimp only
  split_ifs <;> rfl

theorem isXDigit_semicolon : isXDigit chSemicolon = false := by decide

theorem chLf_ne_chCr : chLf ≠ chCr := by decide

theorem grammar_agrees {g : GrammarSt} {p : BasicBodyParser} {c : UInt8} (ht : Tied g p)
    (hp : ¬ Parts g c) : ScanStep.Same Tied (grammarStep g c) (chunkedStep p c) := by
  cases ht with
  | start hst hv =>
    obtain ⟨h1, h2, h3⟩ : c ≠ chSpace ∧ c ≠ chCr ∧ c ≠ chLf := by simpa [Parts] using hp
    have hd := ctox_lt c
    cases hx : isXDigit c with
    | true =>
      simp only [grammarStep, hx, if_true]
      exact chunkedStep_digit hst hv hx (by omega)
    | false =>
      rw [chunkedStep_start hst hx h1 h2 h3]
      simp only [grammarStep, hx]
      trivial
  | @size v p hst hv hlim =>
    obtain ⟨h1, h2, h3, h4⟩ : c ≠ chSpace ∧ c ≠ chSemicolon ∧ c ≠ chLf ∧
        (isXDigit c = true → v * 16 + (ctox c).toNat < 2 ^ 31) := by simpa [Parts] using hp
    cases hx : isXDigit c with
    | true =>
      simp only [grammarStep, hx, if_true]
      exact chunkedStep_digit hst hv hx (h4 hx)
    | false =>
      by_cases hcr : c = chCr
      · have hs : chunkedChar p chCr = .next { p with status := .chunkHeaderExt } := by
          rw [chunkedChar, hst]
          rfl
        rw [hcr, chunkedStep_eq hs]
        exact ⟨.sizeCr rfl hv, rfl⟩
      · rw [chunkedStep_start hst hx h1 hcr h3]
        simp only [grammarStep, hx, hcr, h2]
        trivial
  | sizeCr hst hv =>
    obtain rfl : c = chLf := not_not.mp hp
    obtain ⟨p', hs, ht⟩ := chunkedStep_lf hst hv
    rw [hs]
    exact ⟨ht, rfl⟩
  | @data k p hst hv =>
    have hs : chunkedStep p c = .next (if p.recvLen - 1 = 0
        then { p with recvLen := p.recvLen - 1, status := .chunkFooter }
        else { p with recvLen := p.recvLen - 1 }) [c] := by
      rw [chunkedStep, chunkedChar, hst]
    rw [hs]
    cases k with
    | zero =>
      have h0 : p.recvLen - 1 = 0 := by omega
      rw [if_pos h0]
      exact ⟨.dataEnd rfl h0, rfl⟩
    | succ k =>
      have h0 : p.recvLen - 1 ≠ 0 := by omega
      rw [if_neg h0]
      exact ⟨.data hst (by simp only; omega), rfl⟩
  | dataEnd hst hv =>
    have hlf : c ≠ chLf := hp
    rw [chunkedStep_footer hst]
    by_cases hcr : c = chCr
    · rw [if_pos hcr, grammarStep, if_pos hcr]
      exact ⟨.dataCr hst hv, rfl⟩
    · rw [if_neg hcr, if_neg hlf, grammarStep, if_neg hcr]
      trivial
  | dataCr hst hv =>
    have hcr : c ≠ chCr := hp
    rw [chunkedStep_footer hst, if_neg hcr]
    by_cases hlf : c = chLf
    · rw [if_pos hlf, grammarStep, if_pos hlf]
      exact ⟨.start rfl hv, rfl⟩
    · rw [if_neg hlf, grammarStep, if_neg hlf]
      trivial
  | lastEnd hst =>
    have hlf : c ≠ chLf := hp
    rw [chunkedStep_end hst]
    by_cases hcr : c = chCr
    · rw [if_pos hcr, grammarStep, if_pos hcr]
      exact ⟨.lastCr hst, rfl⟩
    · rw [if_neg hcr, if_neg hlf, grammarStep, if_neg hcr]
      trivial
  | lastCr hst =>
    have hcr : c ≠ chCr := hp
    rw [chunkedStep_end hst, if_neg hcr]
    by_cases hlf : c = chLf
    · rw [if_pos hlf, grammarStep, if_pos hlf]
      rfl
    · rw [if_neg hlf, grammarStep, if_neg hlf]
      trivial

/-- Where the two part, the parser goes on and the grammar does not, but for the semicolon. -/
theorem grammar_differs {g : GrammarSt} {p : BasicBodyParser} {c : UInt8} (ht : Tied g p)
    (hp : Parts g c) : grammarStep g c = .fail ↔ chunkedStep p c ≠ .fail := by
  have hgoes : ∀ {q : ScanStep BasicBodyParser UInt8}, grammarStep g c = .fail → q ≠ .fail →
      (grammarStep g c = .fail ↔ q ≠ .fail) := fun h1 h2 => ⟨fun _ => h2, fun _ => h1⟩
  cases ht with
  | start hst hv =>
    obtain ⟨p', hs⟩ := chunkedStep_sizeEnd hst hp
    rw [hs]
    refine hgoes ?_ ScanStep.next_ne_fail
    obtain rfl | rfl | rfl := hp <;> rfl
  | @size v p hst hv hlim =>
    obtain rfl | rfl | rfl | ⟨hx, hover⟩ := hp
    · obtain ⟨p', hs⟩ := chunkedStep_sizeEnd hst (Or.inl rfl)
      rw [hs]
      exact hgoes rfl ScanStep.next_ne_fail
    · rw [chunkedStep_start hst isXDigit_semicolon (by decide) (by decide) (by decide)]
      exact ⟨fun h => (nomatch h), fun h => absurd rfl h⟩
    · obtain ⟨p', hs⟩ := chunkedStep_sizeEnd hst (Or.inr (Or.inr rfl))
      rw [hs]
      exact hgoes rfl ScanStep.next_ne_fail
    · have hs : chunkedChar p c = .next { p with recvLen := nextRecvLen p c } := by
        rw [chunkedChar, hst]
        simp only [hx, if_true]
        exact if_neg (not_lt.mpr (nextRecvLen_wraps hv hlim hover))
      rw [chunkedStep_eq hs]
      refine hgoes ?_ ScanStep.next_ne_fail
      simp only [grammarStep, hx, if_true, sizeStep]
      refine if_pos ?_
      simp only [maxChunkSize]
      omega
  | sizeCr hst hv =>
    rw [chunkedStep_ext hst hp]
    exact hgoes (if_neg hp) ScanStep.next_ne_fail
  | data hst hv => exact hp.elim
  | dataEnd hst hv =>
    obtain rfl : c = chLf := hp
    rw [chunkedStep_footer hst]
    exact hgoes rfl ScanStep.next_ne_fail
  | dataCr hst hv =>
    obtain rfl : c = chCr := hp
    rw [chunkedStep_footer hst]
    exact hgoes rfl ScanStep.next_ne_fail
  | lastEnd hst =>
    obtain rfl : c = chLf := hp
    rw [chunkedStep_end hst]
    exact hgoes rfl ScanStep.done_ne_fail
  | lastCr hst =>
    obtain rfl : c = chCr := hp
    rw [chunkedStep_end hst]
    exact hgoes rfl ScanStep.next_ne_fail

theorem grammar_tracks : grammarStep.Tracks chunkedStep Tied Parts where
  agree := fun _ _ _ => grammar_agrees
  differ := fun _ _ _ => grammar_differs

/-- While the two agree the size stays in its type. -/
theorem not_overflows {g : GrammarSt} {p : BasicBodyParser} {c : UInt8} (ht : Tied g p)
    (hp : ¬ Parts g c) : ¬ Overflows p c := by
  intro ⟨hst, hx, hover⟩
  have hd := ctox_lt c
  cases ht with
  | start _ hv => omega
  | size _ hv _ => exact hp (Or.inr (Or.inr (Or.inr ⟨hx, by omega⟩)))
  | sizeCr h _ => rw [h] at hst; cases hst
  | data h _ => rw [h] at hst; cases hst
  | dataEnd h _ => rw [h] at hst; cases hst
  | dataCr h _ => rw [h] at hst; cases hst
  | lastEnd h => rw [h] at hst; cases hst
  | lastCr h => rw [h] at hst; cases hst

end MiMic.Http
