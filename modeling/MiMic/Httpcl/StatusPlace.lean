import MiMic.Http.HeaderRuns
import MiMic.Httpcl.Client

/-!
# Where the status stands

A header that the parser accepts as a response has a status and an end, and both can be found in the
stream without the parser: the status is the second word, and the header ends with an empty line.
-/
namespace MiMic.Httpcl

open Verif Http BasicHeaderParser

/-- Behind the first line that holds nothing but CR; `empty` says that the line at the front is the
rest of one that has held nothing else. -/
def behindLines : Bool → List UInt8 → List UInt8
  | _, [] => []
  | empty, c :: cs =>
      if c = chLf then if empty then cs else behindLines true cs
      else behindLines (empty && c == chCr) cs

def behindToken (s : List UInt8) : List UInt8 := (s.dropWhile (· != chSpace)).drop 1

def statusText (s : List UInt8) : List UInt8 :=
  ((behindToken s).dropWhile (· == chSpace)).takeWhile (· != chSpace)

/-- The number at the place of the status. -/
def statusOf (s : List UInt8) : Option UInt32 :=
  (strtol (cString (statusText s))).map fun n => UInt32.ofInt n.1

/-- Behind the header at the front. -/
def behindHead (s : List UInt8) : List UInt8 :=
  behindLines false (behindToken ((behindToken s).dropWhile (· == chSpace)))

/-- The states behind the status. -/
def lineStates : List HeaderSt :=
  [.slReason, .msgHead, .msgParam, .msgContentLength, .msgConnection, .msgTransferEncoding]

section

variable {σ : Type} {H : HeaderHandler σ} {p : BasicHeaderParser σ}

/-- The parser has seen nothing of a line but CR. -/
def lineEmpty (p : BasicHeaderParser σ) : Bool := p.st == .msgHead && p.wsb.l == 0

/-- What one character makes of a parser behind the status. -/
structure LineStep (p : BasicHeaderParser σ) (c : UInt8) (q : BasicHeaderParser σ) : Prop where
  st : q.st ∈ lineStates
  status : q.out.status = p.out.status
  empty : lineEmpty q = if c = chLf then true else lineEmpty p && c == chCr
  goes : c = chLf → lineEmpty p = false

theorem put_cases (p : BasicHeaderParser σ) (c : UInt8) :
    (p.put c).st = .error ∨ ∃ wsb, p.put c = { p with wsb := wsb } ∧ wsb.l = p.wsb.l + 1 := by
  rw [BasicHeaderParser.put]
  cases hput : p.wsb.put c with
  | none => exact Or.inl rfl
  | some wsb =>
    refine Or.inr ⟨wsb, rfl, ?_⟩
    rw [CStr.put] at hput
    split at hput
    · obtain rfl := Option.some.inj hput
      rfl
    · cases hput

theorem mark_eq (p : BasicHeaderParser σ) : ∃ wsb, p.mark = { p with wsb := wsb } := by
  rw [mark]
  split
  · exact ⟨_, rfl⟩
  · exact ⟨p.wsb, rfl⟩

theorem callMessage_none (hm : H.messageHandler = none) (p : BasicHeaderParser σ)
    (name : Option (List UInt8)) (c : UInt8) (k : BasicHeaderParser σ → BasicHeaderParser σ) :
    callMessage H p name c k = k p := by
  rw [callMessage, hm]

/-- A value line goes on, ends behind LF or is refused. -/
theorem parseValue_step {close : BasicHeaderParser σ → BasicHeaderParser σ} {c : UInt8}
    (hst : p.st ∈ lineStates) (hne : p.st ≠ .msgHead)
    (hclose : (close p).st = .error ∨ ((close p).st = .msgHead ∧ (close p).wsb.l = 0 ∧
      (close p).out.status = p.out.status)) :
    (parseValue close p c).st = .error ∨ LineStep p c (parseValue close p c) := by
  have hempty : lineEmpty p = false := by rw [lineEmpty, beq_false_of_ne hne, Bool.false_and]
  have hstay : c ≠ chLf → LineStep p c p := fun hlf =>
    ⟨hst, rfl, by rw [if_neg hlf, hempty, Bool.false_and], fun h => absurd h hlf⟩
  rw [parseValue]
  split
  · next h => exact Or.inr (hstay (by rw [h.2]; decide))
  split
  · next h => exact Or.inr (hstay (by rw [h]; decide))
  split
  · next h =>
    refine hclose.imp id fun hc => ⟨?_, hc.2.2, ?_, fun _ => hempty⟩
    · rw [hc.1]
      decide
    · rw [if_pos h, lineEmpty, hc.1, hc.2.1]
      rfl
  · next h =>
    rcases put_cases p c with he | ⟨wsb, hput, -⟩
    · exact Or.inl he
    · rw [hput]
      refine Or.inr ⟨hst, rfl, ?_, fun hc => absurd hc h⟩
      rw [if_neg h, hempty, Bool.false_and]
      exact beq_false_of_ne hne ▸ Bool.false_and _

/-- One character in front of the colon of a field. -/
theorem name_step (hm : H.messageHandler = none) (h : p.st = .msgHead) (c : UInt8) :
    (parseMessage1 H p c).st = .error ∨
      ((parseMessage1 H p c).st = .eoh ∧ c = chLf ∧ lineEmpty p = true ∧ (parseMessage1 H p c).out = p.out) ∨
      LineStep p c (parseMessage1 H p c) := by
  have hst : p.st ∈ lineStates := by rw [h]; decide
  rw [parseMessage1]
  by_cases hcolon : c = chColon
  · have hne : c ≠ chLf := by rw [hcolon]; decide
    have hcr : (c == chCr) = false := by rw [hcolon]; rfl
    rw [if_pos hcolon, parseName]
    refine Or.inr (Or.inr ?_)
    split
    · next e he =>
      have hall : ∀ e ∈ knownMsg, e.2 ∈ lineStates ∧ e.2 ≠ .msgHead := by decide
      have hknown := hall e (List.mem_of_find?_eq_some he)
      refine ⟨hknown.1, rfl, ?_, fun h => absurd h hne⟩
      rw [if_neg hne, hcr, Bool.and_false, lineEmpty]
      show (e.2 == .msgHead && _) = _
      rw [beq_false_of_ne hknown.2, Bool.false_and]
    · simp only [hm, Option.isSome_none, Bool.false_eq_true, if_false]
      refine ⟨by simp [lineStates], rfl, ?_, fun h => absurd h hne⟩
      rw [if_neg hne, hcr, Bool.and_false]
      rfl
  rw [if_neg hcolon]
  by_cases hcr : c = chCr
  · have hne : c ≠ chLf := by rw [hcr]; decide
    rw [if_pos hcr]
    refine Or.inr (Or.inr ⟨hst, rfl, ?_, fun h => absurd h hne⟩)
    rw [if_neg hne, hcr]
    exact (Bool.and_true _).symm
  rw [if_neg hcr]
  by_cases hlf : c = chLf
  · rw [if_pos hlf]
    split
    · next hl =>
      refine Or.inr (Or.inl ⟨rfl, hlf, ?_, rfl⟩)
      rw [lineEmpty, h, hl]
      rfl
    · exact Or.inl rfl
  rw [if_neg hlf]
  rcases put_cases p c with he | ⟨wsb, hput, hl⟩
  · exact Or.inl he
  · rw [hput]
    refine Or.inr (Or.inr ⟨hst, rfl, ?_, fun h => absurd h hlf⟩)
    rw [if_neg hlf, beq_false_of_ne hcr, Bool.and_false, lineEmpty, Bool.and_eq_false_iff]
    refine Or.inr ?_
    show (wsb.l == 0) = false
    rw [hl]
    rfl

/-- One character of a value that is passed over. -/
theorem param_step (hm : H.messageHandler = none) (h : p.st = .msgParam) (c : UInt8) :
    LineStep p c (parseMessageParam H p c) := by
  have hempty : lineEmpty p = false := by rw [lineEmpty, h]; rfl
  have hstay : ∀ q : BasicHeaderParser σ, q.st = .msgParam → q.out = p.out → c ≠ chLf → LineStep p c q := by
    intro q hq hout hc
    refine ⟨by rw [hq]; decide, by rw [hout], ?_, fun h => absurd h hc⟩
    rw [if_neg hc, hempty, Bool.false_and, lineEmpty, hq]
    rfl
  obtain ⟨wsb, hmark⟩ := mark_eq p
  rw [parseMessageParam, hmark, callMessage_none hm, callMessage_none hm]
  split
  · next hc => exact hstay p h rfl (by rw [hc.2]; decide)
  split
  · next hc => exact hstay _ h rfl (by rw [hc]; decide)
  split
  · next hc => exact ⟨by simp [goOn, lineStates], rfl, by rw [if_pos hc]; rfl, fun _ => hempty⟩
  · next hc => exact hstay _ h rfl hc

/-- One character behind the status. -/
theorem line_step (hm : H.messageHandler = none) (hst : p.st ∈ lineStates) (c : UInt8) :
    (parseOne H p c).st = .error ∨
      ((parseOne H p c).st = .eoh ∧ c = chLf ∧ lineEmpty p = true ∧ (parseOne H p c).out = p.out) ∨
      LineStep p c (parseOne H p c) := by
  have hcases := hst
  simp only [lineStates, List.mem_cons, List.not_mem_nil, or_false] at hcases
  rcases hcases with h | h | h | h | h | h
  · have hempty : lineEmpty p = false := by rw [lineEmpty, h]; rfl
    have hone : parseOne H p c = parseReason p c := by rw [parseOne, h]
    rw [hone, parseReason]
    refine Or.inr (Or.inr ?_)
    split
    · next hc => exact ⟨by simp [goOn, lineStates], rfl, by rw [if_pos hc]; rfl, fun _ => hempty⟩
    · next hc => exact ⟨hst, rfl, by rw [if_neg hc, hempty, Bool.false_and], fun h => absurd h hc⟩
  · have hone : parseOne H p c = parseMessage1 H p c := by rw [parseOne, h]
    rw [hone]
    exact name_step hm h c
  · have hone : parseOne H p c = parseMessageParam H p c := by rw [parseOne, h]
    rw [hone]
    exact Or.inr (Or.inr (param_step hm h c))
  · have hone : parseOne H p c = parseMessageContentLength p c := by rw [parseOne, h]
    rw [hone, parseMessageContentLength]
    refine (parseValue_step hst (by rw [h]; decide) ?_).imp id Or.inr
    dsimp only
    split
    · exact Or.inl rfl
    · exact Or.inr ⟨rfl, rfl, rfl⟩
  · have hone : parseOne H p c = parseMessageConnection p c := by rw [parseOne, h]
    rw [hone, parseMessageConnection]
    exact (parseValue_step hst (by rw [h]; decide) (Or.inr ⟨rfl, rfl, rfl⟩)).imp id Or.inr
  · have hone : parseOne H p c = parseMessageTransferEncoding p c := by rw [parseOne, h]
    rw [hone, parseMessageTransferEncoding]
    exact (parseValue_step hst (by rw [h]; decide) (Or.inr ⟨rfl, rfl, rfl⟩)).imp id Or.inr

/-- A run that is accepted has come to the end of the lines. -/
theorem lines_run (hm : H.messageHandler = none) (hst : p.st ∈ lineStates) (cs : List UInt8)
    (hend : (parseLoop H p cs).2.st = .eoh) :
    cs.drop (parseLoop H p cs).1 = behindLines (lineEmpty p) cs ∧
      (parseLoop H p cs).2.out.status = p.out.status := by
  have hlive : ∀ st ∈ lineStates, st ≠ .error ∧ st ≠ .eoh := by decide
  induction cs generalizing p with
  | nil => exact absurd hend (hlive _ hst).2
  | cons c cs ih =>
    rw [behindLines]
    rcases line_step hm hst c with he | ⟨he, hc, hempty, hout⟩ | hstep
    · rw [parseLoop_error he] at hend
      exact absurd (he.symm.trans hend) (by decide)
    · rw [parseLoop_eoh he, if_pos hc, hempty, hout]
      exact ⟨rfl, rfl⟩
    · have hl := hlive _ hstep.st
      rw [parseLoop_live hl] at hend ⊢
      obtain ⟨hdrop, hstatus⟩ := ih hstep.st hend
      refine ⟨?_, hstatus.trans hstep.status⟩
      rw [List.drop_succ_cons, hdrop, hstep.empty]
      by_cases hc : c = chLf
      · rw [if_pos hc, if_pos hc, hstep.goes hc]
        rfl
      · rw [if_neg hc, if_neg hc]

/-- The rest of the number, and what is behind it. -/
theorem status_run (hm : H.messageHandler = none) (hst : p.st = .slStatusCode) {t : List UInt8}
    (ht : t ≠ []) (cs : List UInt8) (hend : (parseLoop H (p.withText t) cs).2.st = .eoh) :
    (strtol (cString (t ++ cs.takeWhile (· != chSpace)))).map (fun n => UInt32.ofInt n.1) =
        some (parseLoop H (p.withText t) cs).2.out.status ∧
      cs.drop (parseLoop H (p.withText t) cs).1 = behindLines false (behindToken cs) := by
  induction cs generalizing t with
  | nil => exact absurd (hst.symm.trans hend) (by decide)
  | cons c cs ih =>
    have hone : parseOne H (p.withText t) c = parseStatusCode (p.withText t) c := by
      rw [parseOne, show (p.withText t).st = .slStatusCode from hst]
    have hl : (p.withText t).wsb.l ≠ 0 := fun h => ht (List.eq_nil_of_length_eq_zero h)
    rw [parseStatusCode, if_neg fun h => hl h.1] at hone
    by_cases hc : c = chSpace
    · subst hc
      rw [if_pos rfl] at hone
      have hstr : (p.withText t).wsb.str = cString t := rfl
      rw [hstr] at hone
      rw [List.takeWhile_cons_of_neg (by simp), List.append_nil, behindToken,
        List.dropWhile_cons_of_neg (by simp)]
      cases hn : strtol (cString t) with
      | none =>
        rw [hn] at hone
        have he : (parseOne H (p.withText t) chSpace).st = .error := by rw [hone]; rfl
        rw [parseLoop_error he] at hend
        exact absurd (he.symm.trans hend) (by decide)
      | some n =>
        obtain ⟨n, rest⟩ := n
        rw [hn] at hone
        have hreason : (parseOne H (p.withText t) chSpace).st = .slReason := by rw [hone]; rfl
        have hempty : lineEmpty (parseOne H (p.withText t) chSpace) = false := by
          rw [lineEmpty, hreason]
          rfl
        have hstatus : (parseOne H (p.withText t) chSpace).out.status = UInt32.ofInt n := by
          rw [hone]
          rfl
        rw [parseLoop_live (by rw [Live, hreason]; decide)] at hend ⊢
        obtain ⟨hdrop, hkeep⟩ := lines_run hm (by rw [hreason]; decide) cs hend
        rw [hempty] at hdrop
        rw [hstatus] at hkeep
        exact ⟨congrArg some hkeep.symm, hdrop⟩
    · rw [if_neg hc] at hone
      rw [List.takeWhile_cons_of_pos (by simp [hc]), behindToken, List.dropWhile_cons_of_pos (by simp [hc])]
      by_cases hroom : t.length < p.wsb.s
      · rw [put_withText p c hroom] at hone
        have hlive : (parseOne H (p.withText t) c).Live := by
          rw [hone]
          exact live_of_st (show _ = HeaderSt.slStatusCode from hst) (by decide)
        rw [parseLoop_live hlive, hone] at hend ⊢
        obtain ⟨hnum, hdrop⟩ := ih (by simp) hend
        rw [List.append_assoc] at hnum
        exact ⟨hnum, hdrop⟩
      · have hfull : (p.withText t).wsb.put c = none := by
          rw [CStr.put]
          exact if_neg fun h => hroom (Nat.lt_of_sub_pos h)
        have he : (parseOne H (p.withText t) c).st = .error := by
          rw [hone, BasicHeaderParser.put, hfull]
          rfl
        rw [parseLoop_error he] at hend
        exact absurd (he.symm.trans hend) (by decide)

/-- The number, with spaces in front of it. -/
theorem status_start (hm : H.messageHandler = none) (hst : p.st = .slStatusCode) (hl : p.wsb.l = 0)
    (cs : List UInt8) (hend : (parseLoop H p cs).2.st = .eoh) :
    (strtol (cString ((cs.dropWhile (· == chSpace)).takeWhile (· != chSpace)))).map
        (fun n => UInt32.ofInt n.1) = some (parseLoop H p cs).2.out.status ∧
      cs.drop (parseLoop H p cs).1 = behindLines false (behindToken (cs.dropWhile (· == chSpace))) := by
  induction cs with
  | nil => exact absurd (hst.symm.trans hend) (by decide)
  | cons c cs ih =>
    have hone : parseOne H p c = parseStatusCode p c := by rw [parseOne, hst]
    rw [parseStatusCode] at hone
    by_cases hc : c = chSpace
    · rw [if_pos ⟨hl, hc⟩] at hone
      have hlive : (parseOne H p c).Live := by
        rw [hone]
        exact live_of_st hst (by decide)
      rw [parseLoop_live hlive, hone] at hend ⊢
      rw [List.dropWhile_cons_of_pos (by simp [hc])]
      exact ih hend
    · rw [if_neg fun h => hc h.2, if_neg hc] at hone
      rw [List.dropWhile_cons_of_neg (by simp [hc]), List.takeWhile_cons_of_pos (by simp [hc]),
        behindToken, List.dropWhile_cons_of_pos (by simp [hc])]
      by_cases hs : 0 < p.wsb.s
      · rw [put_first c hl hs] at hone
        have hlive : (parseOne H p c).Live := by
          rw [hone]
          exact live_of_st (show _ = HeaderSt.slStatusCode from hst) (by decide)
        rw [parseLoop_live hlive, hone] at hend ⊢
        exact status_run hm hst (List.cons_ne_nil c []) cs hend
      · have hfull : p.wsb.put c = none := by
          rw [CStr.put]
          exact if_neg fun h => hs (lt_of_lt_of_le h (Nat.sub_le _ _))
        have he : (parseOne H p c).st = .error := by
          rw [hone, BasicHeaderParser.put, hfull]
          rfl
        rw [parseLoop_error he] at hend
        exact absurd (he.symm.trans hend) (by decide)

/-- Nothing changes the type, and the first word is not read again. -/
def KeepsType (p q : BasicHeaderParser σ) : Prop := q.out.type = p.out.type ∧ q.st ≠ .start

theorem put_keepsType (hst : p.st ≠ .start) (c : UInt8) : KeepsType p (p.put c) := by
  rw [BasicHeaderParser.put]
  split
  · exact ⟨rfl, hst⟩
  · exact ⟨rfl, HeaderSt.noConfusion⟩

theorem parseValue_keepsType {close : BasicHeaderParser σ → BasicHeaderParser σ} (hst : p.st ≠ .start)
    (hclose : KeepsType p (close p)) (c : UInt8) : KeepsType p (parseValue close p c) := by
  rw [parseValue]
  split
  · exact ⟨rfl, hst⟩
  split
  · exact ⟨rfl, hst⟩
  split
  · exact hclose
  · exact put_keepsType hst c

theorem parseMessage1_keepsType (hm : H.messageHandler = none) (hst : p.st ≠ .start) (c : UInt8) :
    KeepsType p (parseMessage1 H p c) := by
  rw [parseMessage1]
  split
  · rw [parseName]
    split
    · next e he =>
      have hall : ∀ e ∈ knownMsg, e.2 ≠ .start := by decide
      exact ⟨rfl, hall e (List.mem_of_find?_eq_some he)⟩
    · simp only [hm, Option.isSome_none, Bool.false_eq_true, if_false]
      exact ⟨rfl, HeaderSt.noConfusion⟩
  split
  · exact ⟨rfl, hst⟩
  split
  · split
    · exact ⟨rfl, HeaderSt.noConfusion⟩
    · exact ⟨rfl, HeaderSt.noConfusion⟩
  · exact put_keepsType hst c

/-- Once the first word is read, the header is a request or a response. -/
theorem parseOne_keepsType (hm : H.messageHandler = none) (hu : H.urlHandler = none)
    (hst : p.st ≠ .start) (c : UInt8) : KeepsType p (parseOne H p c) := by
  obtain ⟨wsb, hmark⟩ := mark_eq p
  rw [parseOne]
  split
  · next h => exact absurd h hst
  · rw [parseMessageParam, hmark, callMessage_none hm, callMessage_none hm]
    repeat' split
    all_goals first
      | exact ⟨rfl, hst⟩
      | exact ⟨rfl, HeaderSt.noConfusion⟩
  · exact parseMessage1_keepsType hm hst c
  · rw [parseRequestUrl, callUrl, callUrl, hu, hmark]
    repeat' split
    all_goals first
      | exact ⟨rfl, hst⟩
      | exact ⟨rfl, HeaderSt.noConfusion⟩
  · apply parseValue_keepsType hst
    dsimp only
    split
    · exact ⟨rfl, HeaderSt.noConfusion⟩
    · exact ⟨rfl, HeaderSt.noConfusion⟩
  · rw [parseStatusCode]
    split
    · exact ⟨rfl, hst⟩
    split
    · split
      · exact ⟨rfl, HeaderSt.noConfusion⟩
      · exact ⟨rfl, HeaderSt.noConfusion⟩
    · exact put_keepsType hst c
  · rw [parseReason]
    split
    · exact ⟨rfl, HeaderSt.noConfusion⟩
    · exact ⟨rfl, hst⟩
  · apply parseValue_keepsType hst
    dsimp only
    split
    · exact ⟨rfl, HeaderSt.noConfusion⟩
    · exact ⟨rfl, HeaderSt.noConfusion⟩
  · apply parseValue_keepsType hst
    exact ⟨rfl, HeaderSt.noConfusion⟩
  · apply parseValue_keepsType hst
    exact ⟨rfl, HeaderSt.noConfusion⟩
  · exact ⟨rfl, HeaderSt.noConfusion⟩
  · exact ⟨rfl, HeaderSt.noConfusion⟩

theorem type_run (hm : H.messageHandler = none) (hu : H.urlHandler = none) (hst : p.st ≠ .start)
    (cs : List UInt8) : (parseLoop H p cs).2.out.type = p.out.type := by
  induction cs generalizing p with
  | nil => rfl
  | cons c cs ih =>
    obtain ⟨htype, hnext⟩ := parseOne_keepsType hm hu hst c
    rcases live_cases (parseOne H p c) with he | he | hl
    · rw [parseLoop_error he, htype]
    · rw [parseLoop_eoh he, htype]
    · rw [parseLoop_live hl]
      exact (ih hnext).trans htype

/-- A header that is accepted as a response has its status and its end where the text has them. -/
theorem response_run (hm : H.messageHandler = none) (hu : H.urlHandler = none) (hst : p.st = .start)
    (cs : List UInt8) (hend : (parseLoop H p cs).2.st = .eoh)
    (htype : (parseLoop H p cs).2.out.type = .response) :
    statusOf cs = some (parseLoop H p cs).2.out.status ∧
      cs.drop (parseLoop H p cs).1 = behindHead cs := by
  induction cs generalizing p with
  | nil => exact absurd (hst.symm.trans hend) (by decide)
  | cons c cs ih =>
    have hone : parseOne H p c = parseStartLine p c := by rw [parseOne, hst]
    have hrefused : (parseOne H p c).st ≠ .error := by
      intro he
      rw [parseLoop_error he] at hend
      exact absurd (he.symm.trans hend) (by decide)
    rw [parseStartLine] at hone
    by_cases hc : c = chSpace
    · have htoken : behindToken (c :: cs) = cs := by
        rw [behindToken, List.dropWhile_cons_of_neg (by simp [hc])]
        rfl
      rw [if_pos hc, parseStartToken] at hone
      cases hv : parseHttpVersionStr p.wsb with
      | some v =>
        rw [hv] at hone
        have hl : (parseOne H p c).Live := by
          rw [hone]
          exact live_of_st (show _ = HeaderSt.slStatusCode from rfl) (by decide)
        rw [parseLoop_live hl] at hend ⊢
        rw [hone] at hend ⊢
        rw [statusOf, statusText, behindHead, htoken]
        exact status_start hm rfl rfl cs hend
      | none =>
        rw [hv] at hone
        simp only at hone
        cases hr : parseRequestMethodStr p.wsb with
        | none =>
          rw [hr] at hone
          exact absurd (by rw [hone]; rfl) hrefused
        | some m =>
          rw [hr] at hone
          have hrl : (parseOne H p c).st = .rlUrl := by
            rw [hone]
            rfl
          have hreq : (parseOne H p c).out.type = .request := by
            rw [hone]
            rfl
          rw [parseLoop_live (live_of_st hrl (by decide)),
            type_run hm hu (by rw [hrl]; decide) cs, hreq] at htype
          cases htype
    · rw [if_neg hc] at hone
      have htoken : behindToken (c :: cs) = behindToken cs := by
        rw [behindToken, List.dropWhile_cons_of_pos (by simp [hc])]
        rfl
      have hstart : (parseOne H p c).st = .start := by
        rcases put_cases p c with he | ⟨wsb, hput, -⟩
        · exact absurd (hone ▸ he) hrefused
        · rw [hone, hput]
          exact hst
      rw [parseLoop_live (live_of_st hstart (by decide))] at hend htype ⊢
      rw [statusOf, statusText, behindHead, htoken]
      exact ih hstart hend htype

end

end MiMic.Httpcl
