import MiMic.Net.SsdpHeader

/-!
# The lines of a datagram

Which fields of a datagram the message handler is told of, said line by line. A line is read when
the start line and the lines in front of it are: with a colon, a name of at most 31 characters, and
a value that the parser takes where it reads the field itself.
-/
namespace MiMic.Net

open MiMic.Http MiMic.Http.BasicHeaderParser

namespace Ssdp

/-- The first of these characters from `i` on and before `n`. -/
def findChar (m : Memory) (P : UInt8 → Bool) (i n : Nat) : Option Nat :=
  (List.range' i (n - i)).find? fun j => P (m j)

/-- What is collected of a text, some characters of which are passed over. -/
def gather (skip : List UInt8 → UInt8 → Bool) (cs : List UInt8) : List UInt8 :=
  cs.foldl (fun t c => if skip t c then t else t ++ [c]) []

/-- CR is left out of a name. -/
def skipCr (_ : List UInt8) (c : UInt8) : Bool := c == chCr

/-- CR and the spaces in front are left out of a value. -/
def skipBlank (t : List UInt8) (c : UInt8) : Bool := (t == [] && c == chSpace) || c == chCr

def textOf (skip : List UInt8 → UInt8 → Bool) (m : Memory) (i j : Nat) : List UInt8 :=
  gather skip (m.window i (j - i))

/-- A work text of 31 characters that has been cleared and filled; what stood there is still seen
when it is empty. -/
def filled (old text : List UInt8) : CStr :=
  if text = [] then ⟨31, 0, old⟩ else ⟨31, text.length, text⟩

/-- What is read of a start line: the method of a request, where the next line begins, and what
the work text holds. -/
abbrev StartLine := Option HttpMethod × Nat × List UInt8

/-- The URL and the version of a request. -/
def requestRest (m : Memory) (n a : Nat) (method : HttpMethod) : Option StartLine :=
  (findChar m (· != chSpace) a n).bind fun u =>
  (findChar m (· == chSpace) (u + 1) n).bind fun v =>
  (findChar m (· == chLf) (v + 1) n).bind fun e =>
    let version := textOf skipBlank m (v + 1) e
    if 31 < version.length ∨ parseHttpVersionStr (filled [0x43] version) = none then none
    else some (some method, e + 1, version)

/-- The status and the reason of a response. -/
def statusRest (m : Memory) (n a : Nat) : Option StartLine :=
  (findChar m (· != chSpace) a n).bind fun u =>
  (findChar m (· == chSpace) (u + 1) n).bind fun v =>
  (findChar m (· == chLf) (v + 1) n).bind fun e =>
    let status := m.window u (v - u)
    if 31 < status.length ∨ strtol (filled [] status).str = none then none
    else some (none, e + 1, status)

/-- The start line, whose first token is a method or a version. -/
def startLine (m : Memory) (n : Nat) : Option StartLine :=
  (findChar m (· == chSpace) 0 n).bind fun a =>
    let token := filled [] (m.window 0 a)
    if 31 < a then none
    else if (parseHttpVersionStr token).isSome then statusRest m n (a + 1)
    else (parseRequestMethodStr token).bind fun method => requestRest m n (a + 1) method

/-- What the work text holds behind a field that the parser reads itself; `none` where it refuses
the value. -/
def knownLine (st : HeaderSt) (value : CStr) : Option (List UInt8) :=
  if st = .msgContentLength then if strtol value.str = none then none else some value.buf
  else some value.toUpper.buf

/-- The fields that the handler is told of from the line at `b` on: where the name ends, and the
name. -/
def fieldLines (m : Memory) (n : Nat) : Nat → Nat → List UInt8 → List (Nat × List UInt8)
  | 0, _, _ => []
  | fuel + 1, b, old =>
      match findChar m (fun c => c == chColon || c == chLf) b n with
      | none => []
      | some k =>
          let name := (filled old (textOf skipCr m b k)).toUpper
          -- the empty line, or one without a colon
          if m k = chLf ∨ 31 < (textOf skipCr m b k).length then []
          else
            match knownMsg.find? fun e => name.str = e.1 with
            | none =>
                (k, name.str) :: match findChar m (· == chLf) (k + 1) n with
                  | none => []
                  | some e => fieldLines m n fuel (e + 1) [0x43]
            | some known =>
                match findChar m (· == chLf) (k + 1) n with
                | none => []
                | some e =>
                    let value := textOf skipBlank m (k + 1) e
                    if 31 < value.length then []
                    else
                      match knownLine known.2 (filled name.buf value) with
                      | none => []
                      | some old => fieldLines m n fuel (e + 1) old

/-- The fields of a datagram of `n` bytes that the handler is told of. -/
def fields (m : Memory) (n : Nat) : List (Nat × List UInt8) :=
  match startLine m n with
  | none => []
  | some (_, b, old) => fieldLines m n n b old

section

variable {m : Memory} {P : UInt8 → Bool} {i j n : Nat}

theorem findChar_some {e : Nat} (h : findChar m P i n = some e) :
    i ≤ e ∧ e < n ∧ P (m e) = true ∧ ∀ x, i ≤ x → x < e → P (m x) = false := by
  obtain ⟨hp, hmem, hbefore⟩ := List.find?_range'_eq_some.mp h
  obtain ⟨hie, hen⟩ := List.mem_range'_1.mp hmem
  exact ⟨hie, by omega, hp, fun x hix hxe => by simpa using hbefore x hix hxe⟩

theorem findChar_none (h : findChar m P i n = none) {x : Nat} (hix : i ≤ x) (hxn : x < n) :
    P (m x) = false := by
  have hno := List.find?_range'_eq_none.mp h x hix (by omega)
  simpa using hno

theorem textOf_self (skip : List UInt8 → UInt8 → Bool) (m : Memory) (i : Nat) :
    textOf skip m i i = [] := by
  rw [textOf, Nat.sub_self]
  rfl

theorem textOf_succ (skip : List UInt8 → UInt8 → Bool) (h : i ≤ j) :
    textOf skip m i (j + 1) =
      if skip (textOf skip m i j) (m j) then textOf skip m i j else textOf skip m i j ++ [m j] := by
  have hwin : m.window i (j + 1 - i) = m.window i (j - i) ++ [m j] := by
    rw [Nat.succ_sub h, Memory.window, List.range_succ, List.map_append]
    show _ ++ [m (i + (j - i))] = _
    rw [Nat.add_sub_cancel' h]
    rfl
  rw [textOf, gather, hwin, List.foldl_append]
  rfl

/-- Nothing is passed over. -/
theorem textOf_all (m : Memory) (i j : Nat) : textOf (fun _ _ => false) m i j = m.window i (j - i) := by
  rw [textOf, gather]
  have hall : ∀ (cs t : List UInt8),
      cs.foldl (fun t c => if false = true then t else t ++ [c]) t = t ++ cs := by
    intro cs
    induction cs with
    | nil => exact fun t => (List.append_nil t).symm
    | cons c cs ih =>
      intro t
      rw [List.foldl_cons, if_neg Bool.false_ne_true, ih, List.append_assoc]
      rfl
  exact hall _ []

end

section

variable (old : List UInt8) {t : List UInt8}

theorem l_filled (old t : List UInt8) : (filled old t).l = 0 ↔ t = [] := by
  unfold filled
  split
  · next h => exact iff_of_true rfl h
  · next h => exact iff_of_false (fun h' => h (List.eq_nil_of_length_eq_zero h')) h

theorem put_filled (old t : List UInt8) (c : UInt8) :
    (filled old t).put c = if t.length < 31 then some (filled old (t ++ [c])) else none := by
  have hnew : filled old (t ++ [c]) = ⟨31, t.length + 1, t ++ [c]⟩ := by
    rw [filled, if_neg (by simp), List.length_append]
    rfl
  rw [hnew]
  unfold filled
  split
  · next h =>
    subst h
    rfl
  · rw [CStr.put]
    simp only [List.take_length]
    exact if_congr (by omega) rfl rfl

theorem buf_filled (h : t ≠ []) : (filled old t).buf = t := by rw [filled, if_neg h]

theorem clear_filled (old t : List UInt8) : (filled old t).clear = filled (filled old t).buf [] := by
  unfold filled
  split <;> rfl

theorem clear_toUpper (old t : List UInt8) :
    (filled old t).toUpper.clear = filled (filled old t).toUpper.buf [] := by
  unfold filled
  split <;> rfl

end

/-- The parser in a state with a work text. -/
structure Stands (p : Parser) (st : HeaderSt) (w : CStr) : Prop where
  st_eq : p.st = st
  work_eq : p.wsb = w

section

variable {out : BasicHeader} {h : MSearchHeader} {m : Memory}

theorem parserAt_succ {i : Nat} (hlive : (parserAt out h m i).st ≠ .error) :
    parserAt out h m (i + 1) = parseOne handler ((parserAt out h m i).facing i) (m i) := by
  rw [parserAt, feed_eq, if_neg hlive]

/-- Behind the end of the header, and behind an error, nothing is parsed. -/
theorem ended_of_le {i j : Nat} (hij : i ≤ j)
    (h' : (parserAt out h m i).st = .eoh ∨ (parserAt out h m i).st = .error) :
    (parserAt out h m j).st = .eoh ∨ (parserAt out h m j).st = .error := by
  induction j, hij using Nat.le_induction with
  | base => exact h'
  | succ j _ ih =>
    right
    rcases ih with hst | hst
    · rw [parserAt_succ (by rw [hst]; decide)]
      have hface : ((parserAt out h m j).facing j).st = .eoh := hst
      rw [parseOne, hface]
      rfl
    · rw [parserAt, feed_eq, if_pos hst]
      exact hst

/-- Characters that keep what is known of the parser. -/
theorem keeps (I : Parser → Prop) (stay : UInt8 → Prop) (hface : ∀ p i, I p → I (p.facing i))
    (hlive : ∀ p, I p → p.st ≠ .error) (hone : ∀ p c, I p → stay c → I (parseOne handler p c))
    {i j : Nat} (hij : i ≤ j) (hi : I (parserAt out h m i))
    (hstay : ∀ x, i ≤ x → x < j → stay (m x)) : I (parserAt out h m j) := by
  induction j, hij using Nat.le_induction with
  | base => exact hi
  | succ j hij ih =>
    have hj := ih fun x hix hxj => hstay x hix (Nat.lt_succ_of_lt hxj)
    rw [parserAt_succ (hlive _ hj)]
    exact hone _ _ (hface _ _ hj) (hstay j hij (Nat.lt_succ_self j))

/-- A token is collected, as far as the work text can hold it. -/
theorem gathers {st : HeaderSt} {old : List UInt8} (skip : List UInt8 → UInt8 → Bool)
    (stop : UInt8 → Bool) (hst : st ≠ .error)
    (hone : ∀ (p : Parser) t c, Stands p st (filled old t) → stop c = false →
      parseOne handler p c = if skip t c then p else p.put c)
    {i j : Nat} (hij : i ≤ j) (hi : Stands (parserAt out h m i) st (filled old []))
    (hgo : ∀ x, i ≤ x → x < j → stop (m x) = false) :
    ((textOf skip m i j).length ≤ 31 ∧ Stands (parserAt out h m j) st (filled old (textOf skip m i j))) ∨
      (31 < (textOf skip m i j).length ∧ (parserAt out h m j).st = .error) := by
  induction j, hij using Nat.le_induction with
  | base =>
    rw [textOf_self]
    exact Or.inl ⟨Nat.zero_le 31, hi⟩
  | succ j hij ih =>
    rw [textOf_succ skip hij]
    generalize textOf skip m i j = t at ih ⊢
    obtain ⟨hlen, hstands⟩ | ⟨hlen, herror⟩ := ih fun x hix hxj => hgo x hix (Nat.lt_succ_of_lt hxj)
    · have hface : Stands ((parserAt out h m j).facing j) st (filled old t) :=
        ⟨hstands.st_eq, hstands.work_eq⟩
      rw [parserAt_succ (by rw [hstands.st_eq]; exact hst),
        hone _ t _ hface (hgo j hij (Nat.lt_succ_self j))]
      by_cases hskip : skip t (m j) = true
      · rw [if_pos hskip, if_pos hskip]
        exact Or.inl ⟨hlen, hface⟩
      rw [if_neg hskip, if_neg hskip, List.length_append, BasicHeaderParser.put, hface.work_eq,
        put_filled]
      by_cases hfull : t.length < 31
      · rw [if_pos hfull]
        exact Or.inl ⟨hfull, hface.st_eq, rfl⟩
      · rw [if_neg hfull]
        exact Or.inr ⟨Nat.lt_succ_of_le (not_lt.mp hfull), rfl⟩
    · right
      have hnext : (parserAt out h m (j + 1)).st = .error := by
        rw [parserAt, feed_eq, if_pos herror]
        exact herror
      refine ⟨hlen.trans_le ?_, hnext⟩
      split
      · exact le_rfl
      · rw [List.length_append]
        exact Nat.le_add_right _ _

/-- The state in the value of a field that the handler is told of. -/
def InValue (p : Parser) : Prop :=
  ∃ old t, Stands p .msgParam (filled old t) ∧ (t = [] ∨ t = [0x43])

theorem inValue_mark {p : Parser} (hp : InValue p) :
    ∃ old, Stands p.mark .msgParam (filled old [0x43]) := by
  obtain ⟨old, t, hst, rfl | rfl⟩ := hp
  · refine ⟨old, ?_⟩
    unfold mark
    rw [hst.work_eq, if_pos ((l_filled old []).mpr rfl), put_filled, if_pos (by decide)]
    exact ⟨hst.st_eq, rfl⟩
  · have hl : ¬ p.wsb.l = 0 := by
      rw [hst.work_eq, l_filled]
      decide
    rw [mark, if_neg hl]
    exact ⟨old, hst⟩

theorem inValue_goes {p : Parser} {c : UInt8} (hp : InValue p) (hc : c ≠ chLf) :
    InValue (parseOne handler p c) := by
  obtain ⟨old, hmark⟩ := inValue_mark hp
  have hst : p.st = .msgParam := by
    obtain ⟨_, _, hst, -⟩ := hp
    exact hst.st_eq
  have hone : parseOne handler p c = parseMessageParam handler p c := by rw [parseOne, hst]
  rw [hone, parseMessageParam]
  split
  · exact hp
  split
  · exact ⟨old, _, hmark, Or.inr rfl⟩
  exact ⟨old, [0x43], ⟨hmark.st_eq, hmark.work_eq⟩, Or.inr rfl⟩

theorem inValue_ends {p : Parser} (hp : InValue p) :
    Stands (parseOne handler p chLf) .msgHead (filled [0x43] []) := by
  obtain ⟨old, hmark⟩ := inValue_mark hp
  have hst : p.st = .msgParam := by
    obtain ⟨_, _, hst, -⟩ := hp
    exact hst.st_eq
  have hone : parseOne handler p chLf = parseMessageParam handler p chLf := by rw [parseOne, hst]
  rw [hone, parseMessageParam, if_neg fun h => absurd h.2 (by decide), if_neg (by decide), if_pos rfl]
  refine ⟨rfl, ?_⟩
  show p.mark.wsb.clear = _
  rw [hmark.work_eq, clear_filled]
  rfl

end

/-- In this state a value is collected. -/
def Collects (st : HeaderSt) : Prop :=
  ∀ old (p : Parser) t c, Stands p st (filled old t) → (c == chLf) = false →
    parseOne handler p c = if skipBlank t c then p else p.put c

theorem collects_of {st : HeaderSt} {close : Parser → Parser}
    (hone : ∀ (p : Parser) c, p.st = st → parseOne handler p c = parseValue close p c) :
    Collects st := by
  intro old p t c hp hc
  have hlf : c ≠ chLf := by simpa using hc
  have hskip : skipBlank t c = true ↔ (p.wsb.l = 0 ∧ c = chSpace) ∨ c = chCr := by
    rw [hp.work_eq, l_filled, skipBlank]
    simp
  rw [hone p c hp.st_eq, parseValue]
  by_cases hs : p.wsb.l = 0 ∧ c = chSpace
  · rw [if_pos hs, if_pos (hskip.mpr (Or.inl hs))]
  rw [if_neg hs]
  by_cases hcr : c = chCr
  · rw [if_pos hcr, if_pos (hskip.mpr (Or.inr hcr))]
  rw [if_neg hcr, if_neg hlf, if_neg fun hyes => (hskip.mp hyes).elim hs hcr]

theorem parseValue_lf (close : Parser → Parser) (p : Parser) : parseValue close p chLf = close p := by
  rw [parseValue, if_neg fun h => absurd h.2 (by decide), if_neg (by decide), if_pos rfl]

/-- What the end of its line makes of a value that the parser reads itself. -/
def Closes (st : HeaderSt) : Prop :=
  ∀ (p : Parser) old v, Stands p st (filled old v) →
    (knownLine st (filled old v) = none → (parseOne handler p chLf).st = .error) ∧
      ∀ left, knownLine st (filled old v) = some left →
        Stands (parseOne handler p chLf) .msgHead (filled left [])

theorem knownMsg_states {e : List UInt8 × HeaderSt} (he : e ∈ knownMsg) :
    e.2 = .msgConnection ∨ e.2 = .msgContentLength ∨ e.2 = .msgTransferEncoding := by
  have hall : ∀ e ∈ knownMsg,
      e.2 = .msgConnection ∨ e.2 = .msgContentLength ∨ e.2 = .msgTransferEncoding := by decide
  exact hall e he

theorem collects_known {e : List UInt8 × HeaderSt} (he : e ∈ knownMsg) : Collects e.2 := by
  obtain hst | hst | hst := knownMsg_states he
  · rw [hst]
    exact collects_of fun p c hp => by rw [parseOne, hp]; rfl
  · rw [hst]
    exact collects_of fun p c hp => by rw [parseOne, hp]; rfl
  · rw [hst]
    exact collects_of fun p c hp => by rw [parseOne, hp]; rfl

theorem closes_known {e : List UInt8 × HeaderSt} (he : e ∈ knownMsg) : Closes e.2 := by
  obtain hst | hst | hst := knownMsg_states he
  · rw [hst]
    rintro p old v ⟨hp, hwork⟩
    have hone : parseOne handler p chLf = parseMessageConnection p chLf := by rw [parseOne, hp]
    rw [hone, parseMessageConnection, parseValue_lf, knownLine, if_neg (by decide)]
    refine ⟨fun hnone => absurd hnone (Option.some_ne_none _), fun left hleft => ⟨rfl, ?_⟩⟩
    rw [← Option.some.inj hleft, ← clear_toUpper, ← hwork]
  · rw [hst]
    rintro p old v ⟨hp, hwork⟩
    have hone : parseOne handler p chLf = parseMessageContentLength p chLf := by rw [parseOne, hp]
    rw [hone, parseMessageContentLength, parseValue_lf, knownLine, if_pos rfl, ← hwork]
    cases hnum : strtol p.wsb.str with
    | none =>
      rw [if_pos rfl]
      exact ⟨fun _ => rfl, fun left hleft => absurd hleft.symm (Option.some_ne_none _)⟩
    | some n =>
      rw [if_neg (Option.some_ne_none _)]
      refine ⟨fun hnone => absurd hnone (Option.some_ne_none _), fun left hleft => ⟨rfl, ?_⟩⟩
      rw [← Option.some.inj hleft, hwork, ← clear_filled, ← hwork]
      rfl
  · rw [hst]
    rintro p old v ⟨hp, hwork⟩
    have hone : parseOne handler p chLf = parseMessageTransferEncoding p chLf := by rw [parseOne, hp]
    rw [hone, parseMessageTransferEncoding, parseValue_lf, knownLine, if_neg (by decide)]
    refine ⟨fun hnone => absurd hnone (Option.some_ne_none _), fun left hleft => ⟨rfl, ?_⟩⟩
    rw [← Option.some.inj hleft, ← clear_toUpper, ← hwork]

section

variable {out : BasicHeader} {h : MSearchHeader} {m : Memory} {n : Nat}

/-- The list has the fields from `b` on that the handler is told of. -/
def FieldsFrom (out : BasicHeader) (h : MSearchHeader) (m : Memory) (n b : Nat)
    (l : List (Nat × List UInt8)) : Prop :=
  ∀ k name, (k, name) ∈ l ↔ b ≤ k ∧ k < n ∧ FieldAt out h m k ∧ nameAt out h m k = name

theorem fieldsFrom_nil {b : Nat} (hno : ∀ k, b ≤ k → k < n → ¬ FieldAt out h m k) :
    FieldsFrom out h m n b [] := by
  intro k name
  refine iff_of_false List.not_mem_nil ?_
  rintro ⟨hbk, hkn, hfield, -⟩
  exact hno k hbk hkn hfield

theorem FieldsFrom.skip {b c : Nat} {l : List (Nat × List UInt8)} (hl : FieldsFrom out h m n c l)
    (hbb : b ≤ c) (hno : ∀ k, b ≤ k → k < c → ¬ FieldAt out h m k) : FieldsFrom out h m n b l := by
  intro k name
  rw [hl k name]
  constructor
  · rintro ⟨hbk, hrest⟩
    exact ⟨hbb.trans hbk, hrest⟩
  · rintro ⟨hbk, hkn, hfield, hname⟩
    refine ⟨?_, hkn, hfield, hname⟩
    by_contra hlt
    exact hno k hbk (not_le.mp hlt) hfield

theorem FieldsFrom.cons {k : Nat} {l : List (Nat × List UInt8)} (hl : FieldsFrom out h m n (k + 1) l)
    (hkn : k < n) (hfield : FieldAt out h m k) :
    FieldsFrom out h m n k ((k, nameAt out h m k) :: l) := by
  intro k' name
  rw [List.mem_cons, hl k' name]
  constructor
  · rintro (heq | ⟨hbk, hrest⟩)
    · obtain ⟨rfl, rfl⟩ := Prod.mk.inj heq
      exact ⟨le_rfl, hkn, hfield, rfl⟩
    · exact ⟨Nat.le_of_succ_le hbk, hrest⟩
  · rintro ⟨hkk, hkn', hfield', rfl⟩
    rcases Nat.eq_or_lt_of_le hkk with rfl | hlt
    · exact Or.inl rfl
    · exact Or.inr ⟨hlt, hkn', hfield', rfl⟩

theorem not_field_of_ended {i k : Nat} (hik : i ≤ k)
    (hi : (parserAt out h m i).st = .eoh ∨ (parserAt out h m i).st = .error) :
    ¬ FieldAt out h m k := by
  intro hfield
  rcases ended_of_le hik hi with hst | hst
  · exact HeaderSt.noConfusion (hfield.1.symm.trans hst)
  · exact HeaderSt.noConfusion (hfield.1.symm.trans hst)

theorem not_field_of_st {k : Nat} {st : HeaderSt} (hk : (parserAt out h m k).st = st)
    (hst : st ≠ .msgHead) : ¬ FieldAt out h m k := fun hfield => hst (hk.symm.trans hfield.1)

/-- The name of a line. -/
theorem gathers_name {old : List UInt8} {b k : Nat} (hbk : b ≤ k)
    (hb : Stands (parserAt out h m b) .msgHead (filled old []))
    (hgo : ∀ x, b ≤ x → x < k → (m x == chColon || m x == chLf) = false) :
    ((textOf skipCr m b k).length ≤ 31 ∧
        Stands (parserAt out h m k) .msgHead (filled old (textOf skipCr m b k))) ∨
      (31 < (textOf skipCr m b k).length ∧ (parserAt out h m k).st = .error) := by
  refine gathers skipCr (fun c => c == chColon || c == chLf) (by decide)
    (fun p t c hp hc => ?_) hbk hb hgo
  obtain ⟨hcolon, hlf⟩ : c ≠ chColon ∧ c ≠ chLf := by simpa using hc
  have hone : parseOne handler p c = parseMessage1 handler p c := by rw [parseOne, hp.st_eq]
  rw [hone, parseMessage1, if_neg hcolon, if_neg hlf]
  refine if_congr ?_ rfl rfl
  rw [skipCr, beq_iff_eq]

theorem parserAt_colon {k : Nat} (hk : (parserAt out h m k).st = .msgHead) (hc : m k = chColon) :
    parserAt out h m (k + 1) = parseName handler { (parserAt out h m k).facing k with
      wsb := (parserAt out h m k).wsb.toUpper } := by
  have hst : ((parserAt out h m k).facing k).st = .msgHead := hk
  rw [parserAt_succ (by rw [hk]; decide), parseOne, hst]
  exact if_pos hc

/-- Behind the name of a field that the handler is told of comes its value. -/
theorem field_of_line {old : List UInt8} {b k : Nat} (hkn : k < n)
    (hk : Stands (parserAt out h m k) .msgHead (filled old (textOf skipCr m b k)))
    (hc : m k = chColon)
    (hfind : knownMsg.find? (fun e => (filled old (textOf skipCr m b k)).toUpper.str = e.1) = none)
    {rest : Nat → List (Nat × List UInt8)}
    (hrest : ∀ e, k < e → e < n → Stands (parserAt out h m (e + 1)) .msgHead (filled [0x43] []) →
      FieldsFrom out h m n (e + 1) (rest e)) :
    FieldsFrom out h m n k ((k, (filled old (textOf skipCr m b k)).toUpper.str) ::
      match findChar m (· == chLf) (k + 1) n with
      | none => []
      | some e => rest e) := by
  have hname : nameAt out h m k = (filled old (textOf skipCr m b k)).toUpper.str := by
    rw [nameAt, hk.work_eq]
  have hfield : FieldAt out h m k := by
    refine ⟨hk.st_eq, hc, ?_⟩
    rw [hk.work_eq]
    exact hfind
  have hvalue : InValue (parserAt out h m (k + 1)) := by
    rw [parserAt_colon hk.st_eq hc, parseName, hk.work_eq, hfind]
    exact ⟨(filled old (textOf skipCr m b k)).toUpper.buf, [], ⟨rfl, clear_toUpper _ _⟩, Or.inl rfl⟩
  have hgo : ∀ e, k + 1 ≤ e → (∀ x, k + 1 ≤ x → x < e → (m x == chLf) = false) →
      InValue (parserAt out h m e) := by
    intro e hke hno
    refine keeps InValue (· ≠ chLf) (fun p i hp => ?_) (fun p hp => ?_) (fun p c hp hc => ?_) hke hvalue
      fun x hkx hxe => by simpa using hno x hkx hxe
    · obtain ⟨old, t, hst, ht⟩ := hp
      exact ⟨old, t, ⟨hst.st_eq, hst.work_eq⟩, ht⟩
    · obtain ⟨_, _, hst, -⟩ := hp
      rw [hst.st_eq]
      decide
    · exact inValue_goes hp hc
  have hnot : ∀ e, InValue (parserAt out h m e) → ¬ FieldAt out h m e := by
    rintro e ⟨_, _, hst, -⟩
    exact not_field_of_st hst.st_eq (by decide)
  rw [← hname]
  refine FieldsFrom.cons ?_ hkn hfield
  cases he : findChar m (· == chLf) (k + 1) n with
  | none =>
    exact fieldsFrom_nil fun x hkx hxn => hnot x (hgo x hkx fun y hky hyx =>
      findChar_none he hky (hyx.trans hxn))
  | some e =>
    obtain ⟨hke, hen, hlf, hno⟩ := findChar_some he
    have hend := hgo e hke hno
    have hnext : Stands (parserAt out h m (e + 1)) .msgHead (filled [0x43] []) := by
      obtain ⟨old, t, hst, ht⟩ := hend
      have hlive : (parserAt out h m e).st ≠ .error := by
        rw [hst.st_eq]
        decide
      rw [parserAt_succ hlive, beq_iff_eq.mp hlf]
      exact inValue_ends ⟨old, t, ⟨hst.st_eq, hst.work_eq⟩, ht⟩
    refine (hrest e hke hen hnext).skip (Nat.succ_le_succ (Nat.le_of_succ_le hke)) fun x hkx hxe => ?_
    exact hnot x (hgo x hkx fun y hky hyx => hno y hky (by omega))

/-- A field that the parser reads itself. -/
theorem field_of_known {old : List UInt8} {b k : Nat}
    (hk : Stands (parserAt out h m k) .msgHead (filled old (textOf skipCr m b k)))
    (hc : m k = chColon) {known : List UInt8 × HeaderSt}
    (hfind : knownMsg.find? (fun e => (filled old (textOf skipCr m b k)).toUpper.str = e.1) = some known)
    {rest : Nat → List UInt8 → List (Nat × List UInt8)}
    (hrest : ∀ e left, k < e → e < n → Stands (parserAt out h m (e + 1)) .msgHead (filled left []) →
      FieldsFrom out h m n (e + 1) (rest e left)) :
    FieldsFrom out h m n k (match findChar m (· == chLf) (k + 1) n with
      | none => []
      | some e =>
          let value := textOf skipBlank m (k + 1) e
          if 31 < value.length then []
          else
            match knownLine known.2 (filled (filled old (textOf skipCr m b k)).toUpper.buf value) with
            | none => []
            | some left => rest e left) := by
  have hmem := List.mem_of_find?_eq_some hfind
  have hstates := knownMsg_states hmem
  have hne : known.2 ≠ .error ∧ known.2 ≠ .msgHead := by
    obtain hst | hst | hst := hstates <;> rw [hst] <;> decide
  have hnot : ¬ FieldAt out h m k := by
    intro hfield
    have hnone := hfield.2.2
    rw [hk.work_eq, hfind] at hnone
    exact absurd hnone (Option.some_ne_none known)
  have hvalue : Stands (parserAt out h m (k + 1)) known.2
      (filled (filled old (textOf skipCr m b k)).toUpper.buf []) := by
    rw [parserAt_colon hk.st_eq hc, parseName, hk.work_eq, hfind]
    exact ⟨rfl, clear_toUpper _ _⟩
  -- up to the end of the line the parser collects the value, or has failed
  have hgo := fun e (hke : k + 1 ≤ e) hno =>
    gathers skipBlank (· == chLf) hne.1 (collects_known hmem _) hke hvalue hno
  have hquiet : ∀ e, k + 1 ≤ e → (∀ x, k + 1 ≤ x → x < e → (m x == chLf) = false) →
      ¬ FieldAt out h m e := by
    intro e hke hno
    obtain ⟨-, hst⟩ | ⟨-, hst⟩ := hgo e hke hno
    · exact not_field_of_st hst.st_eq hne.2
    · exact not_field_of_st hst (by decide)
  have hskip : ∀ e, (∀ x, k + 1 ≤ x → x < e → (m x == chLf) = false) → ∀ x, k ≤ x → x ≤ e →
      ¬ FieldAt out h m x := by
    intro e hno x hkx hxe
    rcases Nat.eq_or_lt_of_le hkx with rfl | hlt
    · exact hnot
    · exact hquiet x hlt fun y hky hyx => hno y hky (by omega)
  cases he : findChar m (· == chLf) (k + 1) n with
  | none =>
    exact fieldsFrom_nil fun x hkx hxn => hskip x (fun y hky hyx =>
      findChar_none he hky (by omega)) x hkx le_rfl
  | some e =>
    obtain ⟨hke, hen, hlf, hno⟩ := findChar_some he
    dsimp only
    have hbefore := hskip e hno
    obtain ⟨hlen, hst⟩ | ⟨hlen, hst⟩ := hgo e hke hno
    · rw [if_neg (not_lt.mpr hlen)]
      have hnext : parserAt out h m (e + 1) =
          parseOne handler ((parserAt out h m e).facing e) chLf := by
        rw [parserAt_succ (by rw [hst.st_eq]; exact hne.1), beq_iff_eq.mp hlf]
      obtain ⟨hrefused, hread⟩ := closes_known hmem ((parserAt out h m e).facing e) _ _
        ⟨hst.st_eq, hst.work_eq⟩
      rw [← hnext] at hrefused hread
      cases hline : knownLine known.2
          (filled (filled old (textOf skipCr m b k)).toUpper.buf (textOf skipBlank m (k + 1) e)) with
      | none =>
        refine fieldsFrom_nil fun x hkx _ => ?_
        rcases Nat.lt_or_ge e x with hlt | hge
        · exact not_field_of_ended hlt (Or.inr (hrefused hline))
        · exact hbefore x hkx hge
      | some left =>
        exact (hrest e left hke hen (hread left hline)).skip (Nat.le_of_lt (Nat.lt_succ_of_lt hke))
          fun x hkx hxe => hbefore x hkx (Nat.le_of_lt_succ hxe)
    · rw [if_pos hlen]
      refine fieldsFrom_nil fun x hkx _ => ?_
      rcases Nat.lt_or_ge e x with hlt | hge
      · exact not_field_of_ended hlt.le (Or.inr hst)
      · exact hbefore x hkx hge

/-- From the beginning of a line on, the handler is told of the fields that are read line by
line. -/
theorem fieldLines_from {fuel b : Nat} {old : List UInt8} (hfuel : n ≤ b + fuel)
    (hb : Stands (parserAt out h m b) .msgHead (filled old [])) :
    FieldsFrom out h m n b (fieldLines m n fuel b old) := by
  induction fuel generalizing b old with
  | zero => exact fieldsFrom_nil fun k hbk hkn => by omega
  | succ fuel ih =>
    unfold fieldLines
    have hbefore : ∀ x, (m x == chColon || m x == chLf) = false → ¬ FieldAt out h m x := by
      intro x hx hfield
      rw [hfield.2.1] at hx
      exact absurd hx (by decide)
    cases hk : findChar m (fun c => c == chColon || c == chLf) b n with
    | none => exact fieldsFrom_nil fun x hbx hxn => hbefore x (findChar_none hk hbx hxn)
    | some k =>
      obtain ⟨hbk, hkn, hstop, hno⟩ := findChar_some hk
      dsimp only
      refine FieldsFrom.skip (c := k) ?_ hbk fun x hbx hxk => hbefore x (hno x hbx hxk)
      obtain ⟨hlen, hst⟩ | ⟨hlen, hst⟩ := gathers_name hbk hb hno
      · by_cases hlf : m k = chLf
        · -- the empty line, or an error
          rw [if_pos (Or.inl hlf)]
          have hend : (parserAt out h m (k + 1)).st = .eoh ∨ (parserAt out h m (k + 1)).st = .error := by
            have hface : ((parserAt out h m k).facing k).st = .msgHead := hst.st_eq
            rw [parserAt_succ (by rw [hst.st_eq]; decide), parseOne, hface, hlf]
            dsimp only
            rw [parseMessage1, if_neg (by decide), if_neg (by decide), if_pos rfl]
            split
            · exact Or.inl rfl
            · exact Or.inr rfl
          refine fieldsFrom_nil fun x hkx _ => ?_
          rcases Nat.eq_or_lt_of_le hkx with rfl | hlt
          · intro hfield
            rw [hfield.2.1] at hlf
            exact absurd hlf (by decide)
          · exact not_field_of_ended hlt hend
        · have hcolon : m k = chColon := by simpa [hlf] using hstop
          rw [if_neg fun hor => hor.elim hlf (not_lt.mpr hlen)]
          cases hfind : knownMsg.find?
              (fun e => (filled old (textOf skipCr m b k)).toUpper.str = e.1) with
          | none =>
            exact field_of_line hkn hst hcolon hfind fun e hke hen hnext => ih (by omega) hnext
          | some known =>
            exact field_of_known hst hcolon hfind fun e left hke hen hnext => ih (by omega) hnext
      · rw [if_pos (Or.inr hlen)]
        exact fieldsFrom_nil fun x hkx _ => not_field_of_ended hkx (Or.inr hst)

/-- What is known at `i`: no field comes before, and if `next` says so the parser stands at the
head of a line. -/
def StartsAt (out : BasicHeader) (h : MSearchHeader) (m : Memory) (n i : Nat)
    (next : Option StartLine) : Prop :=
  match next with
  | none => ∀ x, i ≤ x → x < n → ¬ FieldAt out h m x
  | some (method, b, old) =>
      i ≤ b ∧ (∀ x, i ≤ x → x < b → ¬ FieldAt out h m x) ∧
        Stands (parserAt out h m b) .msgHead (filled old []) ∧
        (parserAt out h m b).out.method = (method <|> out.method)

theorem StartsAt.earlier {i j : Nat} {next : Option StartLine}
    (hj : StartsAt out h m n j next) (hij : i ≤ j) (hno : ∀ x, i ≤ x → x < j → ¬ FieldAt out h m x) :
    StartsAt out h m n i next := by
  have hsplit : ∀ {c}, (∀ x, j ≤ x → x < c → ¬ FieldAt out h m x) →
      ∀ x, i ≤ x → x < c → ¬ FieldAt out h m x := by
    intro c hc x hix hxc
    rcases Nat.lt_or_ge x j with hlt | hge
    · exact hno x hix hlt
    · exact hc x hge hxc
  cases next with
  | none => exact hsplit hj
  | some r =>
    obtain ⟨hjb, hquiet, hrest⟩ := hj
    exact ⟨hij.trans hjb, hsplit hquiet, hrest⟩

/-- A search: up to the place that it finds there is no field, nor where it finds none. -/
theorem StartsAt.bind {P : UInt8 → Bool} {i : Nat} {next : Nat → Option StartLine}
    (hquiet : ∀ j, i ≤ j → (∀ x, i ≤ x → x < j → P (m x) = false) → ¬ FieldAt out h m j)
    (hnext : ∀ e, i ≤ e → P (m e) = true → (∀ x, i ≤ x → x < e → P (m x) = false) →
      StartsAt out h m n (e + 1) (next e)) :
    StartsAt out h m n i ((findChar m P i n).bind next) := by
  cases he : findChar m P i n with
  | none => exact fun x hix hxn => hquiet x hix fun y hiy hyx => findChar_none he hiy (hyx.trans hxn)
  | some e =>
    obtain ⟨hie, -, hstop, hno⟩ := findChar_some he
    refine StartsAt.earlier (hnext e hie hstop hno) (Nat.le_succ_of_le hie) fun x hix hxe => ?_
    exact hquiet x hix fun y hiy hyx => hno y hiy (hyx.trans_le (Nat.le_of_lt_succ hxe))

theorem startsAt_none {i : Nat} (hi : (parserAt out h m i).st = .error) :
    StartsAt out h m n i none := fun _ hix _ => not_field_of_ended hix (Or.inr hi)

/-- Behind the first token the method stands as it is. -/
structure Past (p q : Parser) : Prop where
  method : q.out.method = p.out.method
  st : q.st ≠ .start

theorem past_put {p : Parser} (hp : p.st ≠ .start) (c : UInt8) : Past p (p.put c) := by
  unfold BasicHeaderParser.put
  split
  · exact ⟨rfl, hp⟩
  · exact ⟨rfl, fun h => HeaderSt.noConfusion h⟩

theorem past_mark {p : Parser} (hp : p.st ≠ .start) : Past p p.mark := by
  unfold mark
  split <;> exact ⟨rfl, hp⟩

theorem past_parseValue {p : Parser} (hp : p.st ≠ .start) {close : Parser → Parser}
    (hclose : Past p (close p)) (c : UInt8) : Past p (parseValue close p c) := by
  unfold parseValue
  split_ifs
  · exact ⟨rfl, hp⟩
  · exact ⟨rfl, hp⟩
  · exact hclose
  · exact past_put hp c

theorem past_parseOne {p : Parser} (hp : p.st ≠ .start) (c : UInt8) :
    Past p (parseOne handler p c) := by
  have hmark := past_mark hp
  have hself : Past p p := ⟨rfl, hp⟩
  unfold parseOne
  split
  · next hst => exact absurd hst hp
  · unfold parseMessageParam
    split_ifs
    · exact hself
    · exact hmark
    · exact ⟨hmark.method, fun h => HeaderSt.noConfusion h⟩
    · exact ⟨hmark.method, hmark.st⟩
  · unfold parseMessage1
    split_ifs
    · unfold parseName
      split
      · next e he =>
        have hmem := knownMsg_states (List.mem_of_find?_eq_some he)
        refine ⟨rfl, fun hst => ?_⟩
        have hst' : e.2 = .start := hst
        rw [hst'] at hmem
        exact absurd hmem (by decide)
      · exact ⟨rfl, fun h => HeaderSt.noConfusion h⟩
    · exact hself
    · exact ⟨rfl, fun h => HeaderSt.noConfusion h⟩
    · exact ⟨rfl, fun h => HeaderSt.noConfusion h⟩
    · exact past_put hp c
  · unfold parseRequestUrl
    split_ifs
    · exact hself
    · exact ⟨rfl, fun h => HeaderSt.noConfusion h⟩
    · exact ⟨hmark.method, hmark.st⟩
  · refine past_parseValue hp ?_ c
    split <;> exact ⟨rfl, fun h => HeaderSt.noConfusion h⟩
  · unfold parseStatusCode
    split_ifs
    · exact hself
    · split <;> exact ⟨rfl, fun h => HeaderSt.noConfusion h⟩
    · exact past_put hp c
  · unfold parseReason
    split_ifs
    · exact ⟨rfl, fun h => HeaderSt.noConfusion h⟩
    · exact hself
  · refine past_parseValue hp ?_ c
    split <;> exact ⟨rfl, fun h => HeaderSt.noConfusion h⟩
  · exact past_parseValue hp ⟨rfl, fun h => HeaderSt.noConfusion h⟩ c
  · exact past_parseValue hp ⟨rfl, fun h => HeaderSt.noConfusion h⟩ c
  · exact ⟨rfl, fun h => HeaderSt.noConfusion h⟩
  · exact ⟨rfl, fun h => HeaderSt.noConfusion h⟩

theorem method_of_le {i j : Nat} (hij : i ≤ j) (hi : (parserAt out h m i).st ≠ .start) :
    Past (parserAt out h m i) (parserAt out h m j) := by
  induction j, hij using Nat.le_induction with
  | base => exact ⟨rfl, hi⟩
  | succ j _ ih =>
    rw [parserAt, feed_eq]
    split
    · exact ⟨ih.method, ih.st⟩
    · have hone := past_parseOne (p := (parserAt out h m j).facing j) ih.st (m j)
      exact ⟨hone.method.trans ih.method, hone.st⟩

/-- The spaces in front of a token leave the parser as it is. -/
theorem spaces_keep {st : HeaderSt} (hst : st = .rlUrl ∨ st = .slStatusCode) {old : List UInt8} {i j : Nat}
    (hij : i ≤ j) (hi : Stands (parserAt out h m i) st (filled old []))
    (hgo : ∀ x, i ≤ x → x < j → (m x != chSpace) = false) :
    Stands (parserAt out h m j) st (filled old []) := by
  refine keeps (Stands · st (filled old [])) (· = chSpace) (fun p i hp => ⟨hp.st_eq, hp.work_eq⟩) (fun p hp => ?_)
    (fun p c hp hc => ?_) hij hi fun x hix hxj => by simpa using hgo x hix hxj
  · rw [hp.st_eq]
    obtain rfl | rfl := hst <;> decide
  · have hl : p.wsb.l = 0 := by rw [hp.work_eq, l_filled]
    have hone : parseOne handler p c = p := by
      obtain rfl | rfl := hst
      · rw [parseOne, hp.st_eq]
        exact if_pos ⟨hl, hc⟩
      · rw [parseOne, hp.st_eq]
        exact if_pos ⟨hl, hc⟩
    rw [hone]
    exact hp

/-- The first character of the URL marks the work text. -/
theorem url_begun {old : List UInt8} {u : Nat} (hu : Stands (parserAt out h m u) .rlUrl (filled old []))
    (hc : m u ≠ chSpace) : Stands (parserAt out h m (u + 1)) .rlUrl (filled old [0x43]) := by
  have hst : ((parserAt out h m u).facing u).st = .rlUrl := hu.st_eq
  have hwork : ((parserAt out h m u).facing u).wsb = filled old [] := hu.work_eq
  have hone : parseOne handler ((parserAt out h m u).facing u) (m u) =
      parseRequestUrl handler ((parserAt out h m u).facing u) (m u) := by rw [parseOne, hst]
  rw [parserAt_succ (by rw [hu.st_eq]; decide), hone, parseRequestUrl, if_neg fun hand => hc hand.2, if_neg hc]
  have hmark : ((parserAt out h m u).facing u).mark =
      { (parserAt out h m u).facing u with wsb := filled old [0x43] } := by
    rw [mark, hwork, if_pos ((l_filled old []).mpr rfl), put_filled]
    rfl
  rw [hmark]
  exact ⟨hst, rfl⟩

theorem url_goes {old : List UInt8} {u j : Nat} (hu : Stands (parserAt out h m u) .rlUrl (filled old [0x43]))
    (huj : u ≤ j) (hno : ∀ x, u ≤ x → x < j → (m x == chSpace) = false) :
    Stands (parserAt out h m j) .rlUrl (filled old [0x43]) := by
  refine keeps (Stands · .rlUrl (filled old [0x43])) (· ≠ chSpace) (fun p i hp => ⟨hp.st_eq, hp.work_eq⟩)
    (fun p hp => ?_) (fun p c hp hc => ?_) huj hu fun x hux hxj => by simpa using hno x hux hxj
  · rw [hp.st_eq]
    decide
  · have hl : ¬ p.wsb.l = 0 := by
      rw [hp.work_eq, l_filled]
      decide
    have hmark : p.mark = p := by rw [mark, if_neg hl]
    have hone : parseOne handler p c = parseRequestUrl handler p c := by rw [parseOne, hp.st_eq]
    rw [hone, parseRequestUrl, if_neg fun hand => hc hand.2, if_neg hc, hmark]
    exact ⟨hp.st_eq, hp.work_eq⟩

theorem url_ends {old : List UInt8} {v : Nat} (hv : Stands (parserAt out h m v) .rlUrl (filled old [0x43]))
    (hc : m v = chSpace) : Stands (parserAt out h m (v + 1)) .rlVersion (filled [0x43] []) := by
  have hst : ((parserAt out h m v).facing v).st = .rlUrl := hv.st_eq
  have hwork : ((parserAt out h m v).facing v).wsb = filled old [0x43] := hv.work_eq
  have hl : ¬ ((parserAt out h m v).facing v).wsb.l = 0 := by
    rw [hwork, l_filled]
    decide
  have hone : parseOne handler ((parserAt out h m v).facing v) (m v) =
      parseRequestUrl handler ((parserAt out h m v).facing v) (m v) := by rw [parseOne, hst]
  rw [parserAt_succ (by rw [hv.st_eq]; decide), hone, parseRequestUrl, if_neg fun hand => hl hand.1, if_pos hc]
  refine ⟨rfl, ?_⟩
  show (parserAt out h m v).wsb.clear = _
  rw [hv.work_eq, clear_filled]
  rfl

/-- From the version of a request on. -/
theorem startsAt_version {method : HttpMethod} {v : Nat}
    (hv : Stands (parserAt out h m v) .rlVersion (filled [0x43] []))
    (hmethod : (parserAt out h m v).out.method = some method) :
    StartsAt out h m n v ((findChar m (· == chLf) v n).bind fun e =>
      if 31 < (textOf skipBlank m v e).length ∨
          parseHttpVersionStr (filled [0x43] (textOf skipBlank m v e)) = none then none
      else some (some method, e + 1, textOf skipBlank m v e)) := by
  have hcollects : Collects .rlVersion := collects_of fun p c hp => by rw [parseOne, hp]; rfl
  have hgo := fun e (hve : v ≤ e) hno =>
    gathers skipBlank (· == chLf) (by decide) (hcollects [0x43]) hve hv hno
  refine StartsAt.bind (fun e hve hno => ?_) fun e hve hlf hno => ?_
  · obtain ⟨-, hst⟩ | ⟨-, hst⟩ := hgo e hve hno
    · exact not_field_of_st hst.st_eq (by decide)
    · exact not_field_of_st hst (by decide)
  obtain ⟨hlen, hst⟩ | ⟨hlen, hst⟩ := hgo e hve hno
  · have hface : ((parserAt out h m e).facing e).st = .rlVersion := hst.st_eq
    have hwork : ((parserAt out h m e).facing e).wsb = filled [0x43] (textOf skipBlank m v e) := hst.work_eq
    have hnext : parserAt out h m (e + 1) = parseVersion ((parserAt out h m e).facing e) chLf := by
      rw [parserAt_succ (by rw [hst.st_eq]; decide), beq_iff_eq.mp hlf, parseOne, hface]
    rw [parseVersion, parseValue_lf, hwork] at hnext
    cases hparse : parseHttpVersionStr (filled [0x43] (textOf skipBlank m v e)) with
    | none =>
      rw [if_pos (Or.inr rfl)]
      refine startsAt_none ?_
      rw [hnext, hparse]
      rfl
    | some found =>
      rw [if_neg fun hor => hor.elim (not_lt.mpr hlen) (Option.some_ne_none _)]
      have hne : textOf skipBlank m v e ≠ [] := by
        intro hnil
        have hempty : parseHttpVersionStr (filled [0x43] []) = none := by decide
        rw [hnil, hempty] at hparse
        exact absurd hparse.symm (Option.some_ne_none _)
      refine ⟨le_rfl, fun x hex hxe => absurd (hex.trans_lt hxe) (lt_irrefl _), ⟨?_, ?_⟩, ?_⟩
      · rw [hnext, hparse]
        rfl
      · rw [hnext, hparse]
        show (filled [0x43] (textOf skipBlank m v e)).clear = _
        rw [clear_filled, buf_filled _ hne]
      · have hpast := method_of_le (Nat.le_succ_of_le hve) (show (parserAt out h m v).st ≠ .start by
          rw [hv.st_eq]
          decide)
        rw [hpast.method, hmethod]
        rfl
  · rw [if_pos (Or.inl hlen)]
    exact fun x hex _ => not_field_of_ended (Nat.le_of_succ_le hex) (Or.inr hst)

/-- From the URL of a request on. -/
theorem startsAt_request {method : HttpMethod} {a : Nat} (old : List UInt8)
    (ha : Stands (parserAt out h m a) .rlUrl (filled old []))
    (hmethod : (parserAt out h m a).out.method = some method) :
    StartsAt out h m n a (requestRest m n a method) := by
  refine StartsAt.bind (fun j haj hno => ?_) fun u hau hfirst hno => ?_
  · exact not_field_of_st (spaces_keep (Or.inl rfl) haj ha hno).st_eq (by decide)
  have hbegun := url_begun (spaces_keep (Or.inl rfl) hau ha hno) (by simpa using hfirst)
  refine StartsAt.bind (fun j huj hno => ?_) fun v huv hlast hno => ?_
  · exact not_field_of_st (url_goes hbegun huj hno).st_eq (by decide)
  refine startsAt_version (url_ends (url_goes hbegun huv hno) (beq_iff_eq.mp hlast)) ?_
  have hpast := method_of_le (i := a) (j := v + 1) (by omega) (by rw [ha.st_eq]; decide)
  exact hpast.method.trans hmethod

/-- From the reason of a response on. -/
theorem startsAt_reason {v : Nat} {status : List UInt8}
    (hv : Stands (parserAt out h m v) .slReason (filled status []))
    (hmethod : (parserAt out h m v).out.method = out.method) :
    StartsAt out h m n v ((findChar m (· == chLf) v n).bind fun e => some (none, e + 1, status)) := by
  have hgo : ∀ j, v ≤ j → (∀ x, v ≤ x → x < j → (m x == chLf) = false) →
      Stands (parserAt out h m j) .slReason (filled status []) := by
    intro j hvj hno
    refine keeps (Stands · .slReason (filled status [])) (· ≠ chLf) (fun p i hp => ⟨hp.st_eq, hp.work_eq⟩)
      (fun p hp => ?_) (fun p c hp hc => ?_) hvj hv fun x hvx hxj => by simpa using hno x hvx hxj
    · rw [hp.st_eq]
      decide
    · have hone : parseOne handler p c = p := by
        rw [parseOne, hp.st_eq]
        exact if_neg hc
      rw [hone]
      exact hp
  refine StartsAt.bind (fun j hvj hno => not_field_of_st (hgo j hvj hno).st_eq (by decide))
    fun e hve hlf hno => ?_
  have hat := hgo e hve hno
  have hface : ((parserAt out h m e).facing e).st = .slReason := hat.st_eq
  have hend : parserAt out h m (e + 1) = ((parserAt out h m e).facing e).goOn .msgHead := by
    rw [parserAt_succ (by rw [hat.st_eq]; decide), beq_iff_eq.mp hlf, parseOne, hface]
    exact if_pos rfl
  refine ⟨le_rfl, fun x hex hxe => absurd (hex.trans_lt hxe) (lt_irrefl _), ⟨?_, ?_⟩, ?_⟩
  · rw [hend]
    rfl
  · rw [hend]
    show (parserAt out h m e).wsb.clear = _
    rw [hat.work_eq, clear_filled]
    rfl
  · have hpast := method_of_le (Nat.le_succ_of_le hve) (show (parserAt out h m v).st ≠ .start by
      rw [hv.st_eq]
      decide)
    rw [hpast.method, hmethod]
    cases out.method <;> rfl

/-- From the status code of a response on. -/
theorem startsAt_response {a : Nat} (old : List UInt8)
    (ha : Stands (parserAt out h m a) .slStatusCode (filled old []))
    (hmethod : (parserAt out h m a).out.method = out.method) :
    StartsAt out h m n a (statusRest m n a) := by
  refine StartsAt.bind (fun j haj hno => ?_) fun u hau hfirst hno => ?_
  · exact not_field_of_st (spaces_keep (Or.inr rfl) haj ha hno).st_eq (by decide)
  have hat := spaces_keep (Or.inr rfl) hau ha hno
  have hgo : ∀ j, u ≤ j → (∀ x, u + 1 ≤ x → x < j → (m x == chSpace) = false) →
      ((m.window u (j - u)).length ≤ 31 ∧
          Stands (parserAt out h m j) .slStatusCode (filled old (m.window u (j - u)))) ∨
        (31 < (m.window u (j - u)).length ∧ (parserAt out h m j).st = .error) := by
    intro j huj hno
    rw [← textOf_all m u j]
    refine gathers _ (· == chSpace) (by decide) (fun p t c hp hc => ?_) huj hat fun x hux hxj => ?_
    · have hspace : c ≠ chSpace := by simpa using hc
      have hone : parseOne handler p c = parseStatusCode p c := by rw [parseOne, hp.st_eq]
      rw [hone, parseStatusCode, if_neg fun hand => hspace hand.2, if_neg hspace, if_neg Bool.false_ne_true]
    · rcases Nat.eq_or_lt_of_le hux with rfl | hlt
      · simpa using hfirst
      · exact hno x hlt hxj
  refine StartsAt.bind (fun j huj hno => ?_) fun v huv hlast hno => ?_
  · obtain ⟨-, hst⟩ | ⟨-, hst⟩ := hgo j (Nat.le_of_succ_le huj) hno
    · exact not_field_of_st hst.st_eq (by decide)
    · exact not_field_of_st hst (by decide)
  have hrefused : (parserAt out h m (v + 1)).st = .error →
      31 < (m.window u (v - u)).length ∨ strtol (filled [] (m.window u (v - u))).str = none →
      StartsAt out h m n (v + 1) ((findChar m (· == chLf) (v + 1) n).bind fun e =>
        let status := m.window u (v - u)
        if 31 < status.length ∨ strtol (filled [] status).str = none then none
        else some (none, e + 1, status)) := by
    intro herror hbad
    cases findChar m (· == chLf) (v + 1) n with
    | none => exact startsAt_none herror
    | some e =>
      rw [Option.bind_some]
      dsimp only
      rw [if_pos hbad]
      exact startsAt_none herror
  have hne : m.window u (v - u) ≠ [] := by
    intro hnil
    have hlen := length_window m u (v - u)
    rw [hnil, List.length_nil] at hlen
    omega
  have hbuf : (filled [] (m.window u (v - u))).str = (filled old (m.window u (v - u))).str := by
    rw [CStr.str, CStr.str, buf_filled _ hne, buf_filled _ hne]
  obtain ⟨hlen, hst⟩ | ⟨hlen, hst⟩ := hgo v (Nat.le_of_succ_le huv) hno
  · have hface : ((parserAt out h m v).facing v).st = .slStatusCode := hst.st_eq
    have hwork : ((parserAt out h m v).facing v).wsb = filled old (m.window u (v - u)) := hst.work_eq
    have hl : ¬ ((parserAt out h m v).facing v).wsb.l = 0 := by
      rw [hwork, l_filled]
      exact hne
    have hnext : parserAt out h m (v + 1) = parseStatusCode ((parserAt out h m v).facing v) chSpace := by
      rw [parserAt_succ (by rw [hst.st_eq]; decide), beq_iff_eq.mp hlast, parseOne, hface]
    rw [parseStatusCode, if_neg fun hand => hl hand.1, if_pos rfl, hwork, ← hbuf] at hnext
    cases hnum : strtol (filled [] (m.window u (v - u))).str with
    | none =>
      rw [hnum] at hnext
      exact hrefused (by rw [hnext]; rfl) (Or.inr hnum)
    | some num =>
      rw [hnum] at hnext
      have hreason : Stands (parserAt out h m (v + 1)) .slReason (filled (m.window u (v - u)) []) := by
        rw [hnext]
        refine ⟨rfl, ?_⟩
        show (filled old (m.window u (v - u))).clear = _
        rw [clear_filled, buf_filled _ hne]
      have hpast := method_of_le (i := a) (j := v + 1) (by omega) (by rw [ha.st_eq]; decide)
      have hgood : ¬ (31 < (m.window u (v - u)).length ∨
          strtol (filled [] (m.window u (v - u))).str = none) := fun hor =>
        hor.elim (not_lt.mpr hlen) fun hnone => Option.some_ne_none num (hnum.symm.trans hnone)
      dsimp only
      simp only [if_neg hgood]
      exact startsAt_reason hreason (hpast.method.trans hmethod)
  · refine hrefused ?_ (Or.inl hlen)
    rw [parserAt, feed_eq, if_pos hst]
    exact hst

/-- Up to the first space the method stands as it was. -/
theorem method_of_start {x : Nat} (hx : (parserAt out h m x).st = .start) :
    (parserAt out h m x).out.method = out.method := by
  induction x with
  | zero => rfl
  | succ x ih =>
    by_cases hprev : (parserAt out h m x).st = .start
    · have hface : ((parserAt out h m x).facing x).st = .start := hprev
      have hone : parserAt out h m (x + 1) = parseStartLine ((parserAt out h m x).facing x) (m x) := by
        rw [parserAt_succ (by rw [hprev]; decide), parseOne, hface]
      rw [hone] at hx ⊢
      unfold parseStartLine at hx ⊢
      split at hx
      · unfold parseStartToken at hx
        split at hx
        · cases hx
        · split at hx <;> cases hx
      · next hc =>
        rw [if_neg hc]
        unfold BasicHeaderParser.put
        split <;> exact ih hprev
    · exact absurd hx (method_of_le (Nat.le_succ x) hprev).st

theorem startsAt_startLine (out : BasicHeader) (h : MSearchHeader) (m : Memory) (n : Nat) :
    StartsAt out h m n 0 (startLine m n) := by
  have hstart : Stands (parserAt out h m 0) .start (filled [] []) := ⟨rfl, rfl⟩
  have hgo : ∀ j, 0 ≤ j → (∀ x, 0 ≤ x → x < j → (m x == chSpace) = false) →
      ((m.window 0 j).length ≤ 31 ∧ Stands (parserAt out h m j) .start (filled [] (m.window 0 j))) ∨
        (31 < (m.window 0 j).length ∧ (parserAt out h m j).st = .error) := by
    intro j hj hno
    have htext := textOf_all m 0 j
    rw [Nat.sub_zero] at htext
    rw [← htext]
    refine gathers _ (· == chSpace) (by decide) (fun p t c hp hc => ?_) hj hstart hno
    have hspace : c ≠ chSpace := by simpa using hc
    have hone : parseOne handler p c = parseStartLine p c := by rw [parseOne, hp.st_eq]
    rw [hone, parseStartLine, if_neg hspace, if_neg Bool.false_ne_true]
  refine StartsAt.bind (fun j hj hno => ?_) fun a _ hlast hno => ?_
  · obtain ⟨-, hst⟩ | ⟨-, hst⟩ := hgo j hj hno
    · exact not_field_of_st hst.st_eq (by decide)
    · exact not_field_of_st hst (by decide)
  dsimp only
  obtain ⟨hlen, hst⟩ | ⟨hlen, hst⟩ := hgo a (Nat.zero_le a) hno
  · rw [length_window] at hlen
    rw [if_neg (not_lt.mpr hlen)]
    have hface : ((parserAt out h m a).facing a).st = .start := hst.st_eq
    have hwork : ((parserAt out h m a).facing a).wsb = filled [] (m.window 0 a) := hst.work_eq
    have hnext : parserAt out h m (a + 1) = parseStartToken ((parserAt out h m a).facing a) := by
      rw [parserAt_succ (by rw [hst.st_eq]; decide), beq_iff_eq.mp hlast, parseOne, hface]
      exact if_pos rfl
    rw [parseStartToken, hwork] at hnext
    cases hversion : parseHttpVersionStr (filled [] (m.window 0 a)) with
    | some v =>
      rw [hversion] at hnext
      rw [if_pos Option.isSome_some]
      refine startsAt_response (filled [] (m.window 0 a)).buf ⟨?_, ?_⟩ ?_
      · rw [hnext]
        rfl
      · rw [hnext]
        exact clear_filled _ _
      · rw [hnext]
        exact method_of_start hst.st_eq
    | none =>
      rw [hversion] at hnext
      rw [if_neg (show ¬ (none : Option (Option HttpVersion)).isSome = true from Bool.false_ne_true)]
      dsimp only at hnext
      cases hfound : parseRequestMethodStr (filled [] (m.window 0 a)) with
      | none =>
        rw [hfound] at hnext
        refine startsAt_none ?_
        rw [hnext]
        rfl
      | some method =>
        rw [hfound] at hnext
        refine startsAt_request (filled [] (m.window 0 a)).buf ⟨?_, ?_⟩ ?_
        · rw [hnext]
          rfl
        · rw [hnext]
          exact clear_filled _ _
        · rw [hnext]
          rfl
  · rw [length_window] at hlen
    rw [if_pos hlen]
    exact fun x hax _ => not_field_of_ended (Nat.le_of_succ_le hax) (Or.inr hst)

/-- The handler is told of the fields that are read line by line, and of no others. -/
theorem mem_fields_iff (out : BasicHeader) (h : MSearchHeader) {k : Nat} {name : List UInt8} :
    (k, name) ∈ fields m n ↔ k < n ∧ FieldAt out h m k ∧ nameAt out h m k = name := by
  have hstart := startsAt_startLine out h m n
  have hall : FieldsFrom out h m n 0 (fields m n) := by
    unfold fields
    cases hl : startLine m n with
    | none =>
      rw [hl] at hstart
      exact fieldsFrom_nil hstart
    | some r =>
      obtain ⟨method, b, old⟩ := r
      rw [hl] at hstart
      obtain ⟨-, hquiet, hstands, -⟩ := hstart
      exact (fieldLines_from (Nat.le_add_left n b) hstands).skip (Nat.zero_le b) hquiet
  rw [hall k name]
  exact and_iff_right (Nat.zero_le k)

/-- The method of a datagram; a status line leaves it as it was. -/
def methodOf (out : BasicHeader) (m : Memory) (n : Nat) : Option HttpMethod :=
  (startLine m n).bind fun r => r.1 <|> out.method

/-- Behind a field the method is that of the start line. -/
theorem method_of_field {k : Nat} (hkn : k < n) (hfield : FieldAt out h m k) :
    (parserAt out h m n).out.method = methodOf out m n := by
  have hstart := startsAt_startLine out h m n
  unfold methodOf
  cases hl : startLine m n with
  | none =>
    rw [hl] at hstart
    exact absurd hfield (hstart k (Nat.zero_le k) hkn)
  | some r =>
    obtain ⟨method, b, old⟩ := r
    rw [hl] at hstart
    obtain ⟨-, hquiet, hstands, hmethod⟩ := hstart
    have hbk : b ≤ k := by
      by_contra hlt
      exact hquiet k (Nat.zero_le k) (not_le.mp hlt) hfield
    have hpast := method_of_le (hbk.trans hkn.le) (show (parserAt out h m b).st ≠ .start by
      rw [hstands.st_eq]
      decide)
    rw [hpast.method, hmethod]
    rfl

end

end Ssdp

end MiMic.Net
