import MiMic.Http.HeaderParser

/-!
# The header of an SSDP request

`parseHeader` of `NyLPC_cSsdpSocket`. The header parser gets one character of the datagram after
the other, and the message handler notes where the values of the fields `ST` and `MAN` begin and
how long they are. It is told a field by its name, its value character by character, and its end
by a NUL.
-/
namespace MiMic.Net

open MiMic.Http MiMic.Http.BasicHeaderParser

namespace Ssdp

inductive ParseSt
  | null | st | man | unknown
deriving DecidableEq, Repr

/-- `TMSearchHeader` without the header it begins with. Pointers are offsets from the datagram's
first byte. -/
structure MSearchHeader where
  st : ParseSt
  rpos : Nat
  stStr : Option Nat
  manStr : Option Nat
  stLen : UInt16
  manLen : UInt16
  /-- `NyLPC_stricmp` has been given a name that is `NULL`. -/
  readsNull : Bool
deriving DecidableEq, Repr

/-- Where the value of a field begins, and how long it is. -/
def MSearchHeader.str (h : MSearchHeader) : ParseSt → Option Nat
  | .st => h.stStr
  | .man => h.manStr
  | .null | .unknown => none

def MSearchHeader.len (h : MSearchHeader) : ParseSt → UInt16
  | .st => h.stLen
  | .man => h.manLen
  | .null | .unknown => 0

/-- Where a value that begins at `start` ends when the handler is told so at `rpos`. -/
def valueLen (rpos start : Nat) : UInt16 := UInt16.ofNat rpos - UInt16.ofNat start - 1

/-- A place that is noted at the first character that is no space. -/
def noteStart (str : Option Nat) (rpos : Nat) (c : UInt8) : Option Nat :=
  if str = none ∧ c ≠ chSpace then some rpos else str

/-- `messageHandler`. A name that is `NULL` is taken for an unknown one. -/
def messageHandler (h : MSearchHeader) (name : Option (List UInt8)) (c : UInt8) : MSearchHeader :=
  match h.st with
  | .null =>
      match name with
      | none => { h with st := .unknown, readsNull := true }
      | some n =>
          if stricmp n (ascii "ST") = 0 then { h with st := .st, stStr := none }
          else if stricmp n (ascii "MAN") = 0 then { h with st := .man, manStr := none }
          else { h with st := .unknown }
  | .st =>
      let str := noteStart h.stStr h.rpos c
      if c = 0 then { h with stStr := str, stLen := valueLen h.rpos (str.getD 0), st := .null }
      else { h with stStr := str }
  | .man =>
      let str := noteStart h.manStr h.rpos c
      if c = 0 then { h with manStr := str, manLen := valueLen h.rpos (str.getD 0), st := .null }
      else { h with manStr := str }
  | .unknown => if c = 0 then { h with st := .null } else h

/-- `handler`; the URL is not looked at. -/
def handler : HeaderHandler MSearchHeader where
  messageHandler := some fun h name c => (true, messageHandler h name c)
  urlHandler := some fun h _ => (true, h)

abbrev Parser := BasicHeaderParser MSearchHeader

/-- The parser before the first character; what the structure holds is not initialized. -/
def start (out : BasicHeader) (h : MSearchHeader) : Parser :=
  (ofHandlers out { h with st := .null, stStr := none, manStr := none, readsNull := false }).parseInit

/-- One round of the loop of `parseHeader`. -/
def feed (p : Parser) (i : Nat) (c : UInt8) : Parser :=
  (BasicHeaderParser.parseChar handler { p with user := { p.user with rpos := i } } [c]).2

/-- The parser in front of the character at `i`. -/
def parserAt (out : BasicHeader) (h : MSearchHeader) (m : Memory) : Nat → Parser
  | 0 => start out h
  | i + 1 => feed (parserAt out h m i) i (m i)

/-- The rounds of the loop: its bound has 16 bits and a sign. -/
def loopLength (size : UInt16) : Nat := if size.toNat < 2 ^ 15 then size.toNat else 0

/-- `parseHeader`: `parseChar` gives no negative number, and what `parseFinish` says is dropped. -/
def parseHeader (out : BasicHeader) (h : MSearchHeader) (m : Memory) (size : UInt16) : Parser :=
  (parseFinish (parserAt out h m (loopLength size))).2

/-- The end of the name of a field that goes to the message handler. -/
def IsField (p : Parser) (c : UInt8) : Prop :=
  p.st = .msgHead ∧ c = chColon ∧ knownMsg.find? (fun e => p.wsb.toUpper.str = e.1) = none

/-- What the parser does with a character, as far as the handler sees it. -/
inductive Fed (p : Parser) (c : UInt8) (q : Parser) : Prop
  | skipped : p.st = .msgParam → p.wsb.l = 0 → c = chSpace → q.st = .msgParam → q.wsb.l = 0 →
      q.user = p.user → Fed p c q
  | marked : p.st = .msgParam → c = chCr → q.st = .msgParam → q.wsb.l ≠ 0 → q.user = p.user →
      Fed p c q
  | told : p.st = .msgParam → c ≠ chCr → c ≠ chLf → (p.wsb.l = 0 → c ≠ chSpace) →
      q.st = .msgParam → q.wsb.l ≠ 0 → q.user = messageHandler p.user none c → Fed p c q
  | ended : p.st = .msgParam → c = chLf → q.st = .msgHead →
      q.user = messageHandler p.user none 0 → Fed p c q
  | named : IsField p c → q.st = .msgParam → q.wsb.l = 0 →
      q.user = messageHandler p.user (some p.wsb.toUpper.str) 0 → Fed p c q
  | other : p.st ≠ .msgParam → ¬ IsField p c → q.st ≠ .msgParam → q.user = p.user → Fed p c q

/-- A step outside the values of fields. -/
structure Kept (p q : Parser) : Prop where
  user : q.user = p.user
  st : q.st ≠ .msgParam
  size : q.wsb.s = p.wsb.s

section

variable {p : Parser}

theorem kept_fail (rcode : UInt16) : Kept p (p.fail rcode) :=
  ⟨rfl, fun h => HeaderSt.noConfusion h, rfl⟩

theorem kept_put (h : p.st ≠ .msgParam) (c : UInt8) : Kept p (p.put c) := by
  unfold BasicHeaderParser.put
  cases hput : p.wsb.put c with
  | none => exact kept_fail 500
  | some wsb =>
    refine ⟨rfl, h, ?_⟩
    rw [CStr.put] at hput
    split at hput
    · rw [← Option.some.inj hput]
    · exact absurd hput.symm (Option.some_ne_none wsb)

theorem kept_self (h : p.st ≠ .msgParam) : Kept p p := ⟨rfl, h, rfl⟩

theorem kept_parseValue {close : Parser → Parser} (h : p.st ≠ .msgParam) (hclose : Kept p (close p))
    (c : UInt8) : Kept p (parseValue close p c) := by
  unfold parseValue
  split
  · exact kept_self h
  · split
    · exact kept_self h
    · split
      · exact hclose
      · exact kept_put h c

theorem kept_parseStartLine (h : p.st ≠ .msgParam) (c : UInt8) : Kept p (parseStartLine p c) := by
  unfold parseStartLine
  split
  · unfold parseStartToken
    split
    · exact ⟨rfl, fun h => HeaderSt.noConfusion h, rfl⟩
    · split
      · exact ⟨rfl, fun h => HeaderSt.noConfusion h, rfl⟩
      · exact ⟨rfl, fun h => HeaderSt.noConfusion h, rfl⟩
  · exact kept_put h c

theorem kept_parseRequestUrl (h : p.st ≠ .msgParam) (c : UInt8) :
    Kept p (parseRequestUrl handler p c) := by
  unfold parseRequestUrl
  split
  · exact kept_self h
  · split
    · exact ⟨rfl, fun h => HeaderSt.noConfusion h, rfl⟩
    · unfold mark
      split
      · refine ⟨rfl, h, ?_⟩
        unfold CStr.put
        split
        · rfl
        · rfl
      · exact kept_self h

theorem kept_parseStatusCode (h : p.st ≠ .msgParam) (c : UInt8) :
    Kept p (parseStatusCode p c) := by
  unfold parseStatusCode
  split
  · exact kept_self h
  · split
    · split
      · exact ⟨rfl, fun h => HeaderSt.noConfusion h, rfl⟩
      · exact ⟨rfl, fun h => HeaderSt.noConfusion h, rfl⟩
    · exact kept_put h c

/-- A name: it ends a field that the parser reads itself, or goes to the handler. -/
theorem kept_parseMessage1 {c : UInt8} (h : p.st = .msgHead) (hfield : ¬ IsField p c) :
    Kept p (parseMessage1 handler p c) := by
  have hst : p.st ≠ .msgParam := fun h' => HeaderSt.noConfusion (h.symm.trans h')
  unfold parseMessage1
  split
  · next hc =>
    unfold parseName
    split
    · next e hfind =>
      have hmem := List.mem_of_find?_eq_some hfind
      refine ⟨rfl, fun heq => ?_, rfl⟩
      have hall : ∀ e ∈ knownMsg, e.2 ≠ .msgParam := by decide
      exact hall e hmem heq
    · next hfind => exact absurd ⟨h, hc, hfind⟩ hfield
  · split
    · exact kept_self hst
    · split
      · split
        · exact ⟨rfl, fun h => HeaderSt.noConfusion h, rfl⟩
        · exact kept_fail 400
      · exact kept_put hst c

/-- In all states but those of a name and of a value that goes to the handler. -/
theorem kept_parseOne {c : UInt8} (h : p.st ≠ .msgParam) (hfield : ¬ IsField p c) :
    Kept p (parseOne handler p c) := by
  unfold parseOne
  split
  · exact kept_parseStartLine h c
  · next hst => exact absurd hst h
  · next hst => exact kept_parseMessage1 hst hfield
  · exact kept_parseRequestUrl h c
  · refine kept_parseValue h ?_ c
    split
    · exact ⟨rfl, fun h => HeaderSt.noConfusion h, rfl⟩
    · exact ⟨rfl, fun h => HeaderSt.noConfusion h, rfl⟩
  · exact kept_parseStatusCode h c
  · unfold parseReason
    split
    · exact ⟨rfl, fun h => HeaderSt.noConfusion h, rfl⟩
    · exact kept_self h
  · refine kept_parseValue h ?_ c
    split
    · exact ⟨rfl, fun h => HeaderSt.noConfusion h, rfl⟩
    · exact ⟨rfl, fun h => HeaderSt.noConfusion h, rfl⟩
  · exact kept_parseValue h ⟨rfl, fun h => HeaderSt.noConfusion h, rfl⟩ c
  · exact kept_parseValue h ⟨rfl, fun h => HeaderSt.noConfusion h, rfl⟩ c
  · exact kept_fail 500
  · exact kept_fail 500

/-- The mark of a value that has begun. -/
theorem mark_of_size (h : p.wsb.s = 31) :
    p.mark.wsb.l ≠ 0 ∧ p.mark.wsb.s = 31 ∧ p.mark.user = p.user ∧ p.mark.st = p.st := by
  unfold mark
  split
  · next hl =>
    have hput : p.wsb.put 0x43 = some { p.wsb with buf := p.wsb.buf.take p.wsb.l ++ [0x43], l := p.wsb.l + 1 } :=
      if_pos (by omega)
    rw [hput]
    exact ⟨Nat.succ_ne_zero _, h, rfl, rfl⟩
  · next hl => exact ⟨hl, h, rfl, rfl⟩

/-- One character, on a work text of its full size. -/
theorem fed_parseOne (h : p.wsb.s = 31) (c : UInt8) :
    Fed p c (parseOne handler p c) ∧ (parseOne handler p c).wsb.s = 31 := by
  by_cases hparam : p.st = .msgParam
  · have hone : parseOne handler p c = parseMessageParam handler p c := by rw [parseOne, hparam]
    obtain ⟨hl, hs, huser, hst⟩ := mark_of_size h
    rw [hone, parseMessageParam]
    by_cases hskip : p.wsb.l = 0 ∧ c = chSpace
    · rw [if_pos hskip]
      exact ⟨.skipped hparam hskip.1 hskip.2 hparam hskip.1 rfl, h⟩
    rw [if_neg hskip]
    by_cases hcr : c = chCr
    · rw [if_pos hcr]
      exact ⟨.marked hparam hcr (hst.trans hparam) hl huser, hs⟩
    rw [if_neg hcr]
    by_cases hlf : c = chLf
    · rw [if_pos hlf]
      exact ⟨.ended hparam hlf rfl (congrArg (messageHandler · none 0) huser), hs⟩
    rw [if_neg hlf]
    refine ⟨.told hparam hcr hlf (fun h0 hc => hskip ⟨h0, hc⟩) (hst.trans hparam) hl ?_, hs⟩
    exact congrArg (messageHandler · none c) huser
  by_cases hfield : IsField p c
  · obtain ⟨hst, hc, hfind⟩ := hfield
    have hone : parseOne handler p c = parseName handler { p with wsb := p.wsb.toUpper } := by
      rw [parseOne, hst]
      exact if_pos hc
    have hname : parseName handler { p with wsb := p.wsb.toUpper } =
        callMessage handler { p with wsb := p.wsb.toUpper } (some p.wsb.toUpper.str) 0
          fun p => p.goOn .msgParam := by
      rw [parseName, hfind]
      rfl
    rw [hone, hname]
    exact ⟨.named ⟨hst, hc, hfind⟩ rfl rfl rfl, h⟩
  · obtain ⟨huser, hst, hsize⟩ := kept_parseOne hparam hfield
    exact ⟨.other hparam hfield hst huser, hsize.trans h⟩

end

/-- What the handler is in after the name of a field. -/
def tagOf (n : List UInt8) : ParseSt :=
  if stricmp n (ascii "ST") = 0 then .st else if stricmp n (ascii "MAN") = 0 then .man else .unknown

theorem tagOf_ne_null (n : List UInt8) : tagOf n ≠ .null := by
  unfold tagOf
  split
  · decide
  · split
    · decide
    · decide

section

variable {h : MSearchHeader}

theorem readsNull_named (n : List UInt8) : (messageHandler h (some n) 0).readsNull = h.readsNull := by
  unfold messageHandler
  cases h.st <;> dsimp only <;> split_ifs <;> rfl

theorem readsNull_told (hst : h.st ≠ .null) (c : UInt8) :
    (messageHandler h none c).readsNull = h.readsNull := by
  unfold messageHandler
  cases hs : h.st with
  | null => exact absurd hs hst
  | st => dsimp only; split_ifs <;> rfl
  | man => dsimp only; split_ifs <;> rfl
  | unknown => dsimp only; split_ifs <;> rfl

/-- Without a name that is due the handler reads one at `NULL`. -/
theorem readsNull_unnamed (hst : h.st = .null) (c : UInt8) :
    (messageHandler h none c).readsNull = true := by
  rw [messageHandler, hst]

theorem named_of_readsNull {c : UInt8} (hread : (messageHandler h none c).readsNull = false) :
    h.st ≠ .null := by
  intro hst
  rw [readsNull_unnamed hst] at hread
  exact absurd hread (by decide)

theorem st_named (hst : h.st = .null) (n : List UInt8) : (messageHandler h (some n) 0).st = tagOf n := by
  unfold messageHandler tagOf
  rw [hst]
  dsimp only
  split_ifs <;> rfl

theorem st_told (hst : h.st ≠ .null) (c : UInt8) :
    (messageHandler h none c).st = if c = 0 then .null else h.st := by
  unfold messageHandler
  cases hs : h.st with
  | null => exact absurd hs hst
  | st => dsimp only; split_ifs <;> rfl
  | man => dsimp only; split_ifs <;> rfl
  | unknown =>
    dsimp only
    split_ifs
    · rfl
    · exact hs

/-- The fields whose values the handler notes. -/
def IsNoted (tag : ParseSt) : Prop := tag = .st ∨ tag = .man

section

variable {tag : ParseSt}

/-- Other fields leave the place and the length of this one as they are. -/
theorem value_told (htag : IsNoted tag) (hst : h.st ≠ tag) (hnull : h.st ≠ .null) (c : UInt8) :
    (messageHandler h none c).str tag = h.str tag ∧
      (messageHandler h none c).len tag = h.len tag ∧ (messageHandler h none c).st ≠ tag := by
  have hnext := st_told hnull c
  have hother : (messageHandler h none c).st ≠ tag := by
    intro heq
    rw [heq] at hnext
    split at hnext
    · obtain rfl | rfl := htag <;> cases hnext
    · exact hst hnext.symm
  rw [← and_assoc]
  refine ⟨?_, hother⟩
  unfold messageHandler
  obtain rfl | rfl := htag
  · cases hs : h.st with
    | null => exact absurd hs hnull
    | st => exact absurd hs hst
    | man => dsimp only; split_ifs <;> exact ⟨rfl, rfl⟩
    | unknown => dsimp only; split_ifs <;> exact ⟨rfl, rfl⟩
  · cases hs : h.st with
    | null => exact absurd hs hnull
    | st => dsimp only; split_ifs <;> exact ⟨rfl, rfl⟩
    | man => exact absurd hs hst
    | unknown => dsimp only; split_ifs <;> exact ⟨rfl, rfl⟩

theorem value_named (htag : IsNoted tag) (hnull : h.st = .null) {n : List UInt8}
    (hn : tagOf n ≠ tag) :
    (messageHandler h (some n) 0).str tag = h.str tag ∧
      (messageHandler h (some n) 0).len tag = h.len tag ∧
      (messageHandler h (some n) 0).st ≠ tag := by
  rw [← and_assoc]
  refine ⟨?_, by rwa [st_named hnull]⟩
  unfold messageHandler
  unfold tagOf at hn
  rw [hnull]
  dsimp only
  by_cases hst : stricmp n (ascii "ST") = 0
  · rw [if_pos hst] at hn ⊢
    obtain rfl | rfl := htag
    · exact absurd rfl hn
    · exact ⟨rfl, rfl⟩
  rw [if_neg hst] at hn ⊢
  by_cases hman : stricmp n (ascii "MAN") = 0
  · rw [if_pos hman] at hn ⊢
    obtain rfl | rfl := htag
    · exact ⟨rfl, rfl⟩
    · exact absurd rfl hn
  rw [if_neg hman]
  obtain rfl | rfl := htag <;> exact ⟨rfl, rfl⟩

/-- A field begins without a place. -/
theorem value_begins (htag : IsNoted tag) (hnull : h.st = .null) {n : List UInt8}
    (hn : tagOf n = tag) :
    (messageHandler h (some n) 0).str tag = none ∧ (messageHandler h (some n) 0).st = tag := by
  refine ⟨?_, (st_named hnull n).trans hn⟩
  unfold messageHandler
  unfold tagOf at hn
  rw [hnull]
  dsimp only
  by_cases hst : stricmp n (ascii "ST") = 0
  · rw [if_pos hst] at hn ⊢
    rw [← hn]
    rfl
  rw [if_neg hst] at hn ⊢
  by_cases hman : stricmp n (ascii "MAN") = 0
  · rw [if_pos hman] at hn ⊢
    rw [← hn]
    rfl
  rw [if_neg hman] at hn
  obtain rfl | rfl := htag <;> cases hn

theorem value_goes (htag : IsNoted tag) (hst : h.st = tag) {c : UInt8} (hc : c ≠ 0) :
    (messageHandler h none c).str tag = noteStart (h.str tag) h.rpos c ∧
      (messageHandler h none c).st = tag := by
  unfold messageHandler
  rw [hst]
  obtain rfl | rfl := htag
  · dsimp only
    rw [if_neg hc]
    exact ⟨rfl, rfl⟩
  · dsimp only
    rw [if_neg hc]
    exact ⟨rfl, rfl⟩

theorem value_ends (htag : IsNoted tag) (hst : h.st = tag) :
    ∃ s, noteStart (h.str tag) h.rpos 0 = some s ∧ (messageHandler h none 0).str tag = some s ∧
      (messageHandler h none 0).len tag = valueLen h.rpos s ∧
      (messageHandler h none 0).st = .null := by
  obtain ⟨s, hs⟩ : ∃ s, noteStart (h.str tag) h.rpos 0 = some s := by
    unfold noteStart
    cases h.str tag with
    | none => exact ⟨h.rpos, rfl⟩
    | some s => exact ⟨s, rfl⟩
  refine ⟨s, hs, ?_⟩
  unfold messageHandler
  rw [hst]
  obtain rfl | rfl := htag
  · have hs' : noteStart h.stStr h.rpos 0 = some s := hs
    dsimp only
    rw [if_pos rfl, hs']
    exact ⟨rfl, rfl, rfl⟩
  · have hs' : noteStart h.manStr h.rpos 0 = some s := hs
    dsimp only
    rw [if_pos rfl, hs']
    exact ⟨rfl, rfl, rfl⟩

end

end

/-- The parser at the character it gets next. -/
def Parser.facing (p : Parser) (i : Nat) : Parser := { p with user := { p.user with rpos := i } }

section

variable {out : BasicHeader} {h : MSearchHeader} {m : Memory}

theorem feed_eq (p : Parser) (i : Nat) (c : UInt8) :
    feed p i c = if p.st = .error then p.facing i else parseOne handler (p.facing i) c := by
  unfold feed BasicHeaderParser.parseChar
  split
  · rfl
  · unfold parseLoop
    split_ifs <;> rfl

theorem size_parserAt (out : BasicHeader) (h : MSearchHeader) (m : Memory) (i : Nat) :
    (parserAt out h m i).wsb.s = 31 := by
  induction i with
  | zero => rfl
  | succ i ih =>
    rw [parserAt, feed_eq]
    split
    · exact ih
    · exact (fed_parseOne (p := (parserAt out h m i).facing i) ih (m i)).2

theorem fed_parserAt (out : BasicHeader) (h : MSearchHeader) (m : Memory) (i : Nat) :
    Fed ((parserAt out h m i).facing i) (m i) (parserAt out h m (i + 1)) := by
  have hs : ((parserAt out h m i).facing i).wsb.s = 31 := size_parserAt out h m i
  rw [parserAt, feed_eq]
  split
  · next herror =>
    refine .other (fun hst => ?_) (fun hfield => ?_) (fun hst => ?_) rfl
    · exact HeaderSt.noConfusion (herror.symm.trans hst)
    · exact HeaderSt.noConfusion (herror.symm.trans hfield.1)
    · exact HeaderSt.noConfusion (herror.symm.trans hst)
  · exact (fed_parseOne hs (m i)).1

/-- A read at `NULL` is not taken back. -/
theorem readsNull_of_succ {i : Nat} (hread : (parserAt out h m (i + 1)).user.readsNull = false) :
    (parserAt out h m i).user.readsNull = false := by
  have hfed := fed_parserAt out h m i
  have hkeep : ∀ (u : MSearchHeader) c, (messageHandler u none c).readsNull = false →
      u.readsNull = false := by
    intro u c hu
    rwa [readsNull_told (named_of_readsNull hu)] at hu
  cases hfed with
  | skipped _ _ _ _ _ huser => rwa [huser] at hread
  | marked _ _ _ _ huser => rwa [huser] at hread
  | told _ _ _ _ _ _ huser =>
    rw [huser] at hread
    exact hkeep ((parserAt out h m i).facing i).user _ hread
  | ended _ _ _ huser =>
    rw [huser] at hread
    exact hkeep ((parserAt out h m i).facing i).user _ hread
  | named _ _ _ huser =>
    rw [huser, readsNull_named] at hread
    exact hread
  | other _ _ _ huser => rwa [huser] at hread

theorem readsNull_of_le {i j : Nat} (hij : i ≤ j)
    (hread : (parserAt out h m j).user.readsNull = false) :
    (parserAt out h m i).user.readsNull = false := by
  induction j, hij using Nat.le_induction with
  | base => exact hread
  | succ j _ ih => exact ih (readsNull_of_succ hread)

/-- The handler waits for a name wherever the parser is not in a value. -/
theorem st_idle (i : Nat) (hread : (parserAt out h m i).user.readsNull = false)
    (hst : (parserAt out h m i).st ≠ .msgParam) : (parserAt out h m i).user.st = .null := by
  induction i with
  | zero => rfl
  | succ i ih =>
    have hread' := readsNull_of_succ hread
    cases fed_parserAt out h m i with
    | skipped _ _ _ hq _ _ => exact absurd hq hst
    | marked _ _ hq _ _ => exact absurd hq hst
    | told _ _ _ _ hq _ _ => exact absurd hq hst
    | ended _ _ _ huser =>
      rw [huser] at hread ⊢
      rw [st_told (named_of_readsNull hread), if_pos rfl]
    | named _ hq _ _ => exact absurd hq hst
    | other hp _ _ huser =>
      rw [huser]
      exact ih hread' hp

/-- The field whose name ends at `k` goes to the handler. -/
def FieldAt (out : BasicHeader) (h : MSearchHeader) (m : Memory) (k : Nat) : Prop :=
  IsField (parserAt out h m k) (m k)

/-- Its name, as the parser has it. -/
def nameAt (out : BasicHeader) (h : MSearchHeader) (m : Memory) (k : Nat) : List UInt8 :=
  (parserAt out h m k).wsb.toUpper.str

theorem fed_field {k : Nat} (hfield : FieldAt out h m k) : (parserAt out h m (k + 1)).st = .msgParam ∧
    (parserAt out h m (k + 1)).user =
      messageHandler ((parserAt out h m k).facing k).user (some (nameAt out h m k)) 0 := by
  have hp : (parserAt out h m k).st ≠ .msgParam := fun hst =>
    HeaderSt.noConfusion (hfield.1.symm.trans hst)
  cases fed_parserAt out h m k with
  | skipped hst _ _ _ _ _ => exact absurd hst hp
  | marked hst _ _ _ _ => exact absurd hst hp
  | told hst _ _ _ _ _ _ => exact absurd hst hp
  | ended hst _ _ _ => exact absurd hst hp
  | named _ hq _ huser => exact ⟨hq, huser⟩
  | other _ hnot _ _ => exact absurd hfield hnot

/-- A value belongs to a field. -/
theorem exists_field {i : Nat} (hst : (parserAt out h m i).st = .msgParam) :
    ∃ k < i, FieldAt out h m k ∧ ∀ j, k < j → j < i → m j ≠ chLf := by
  induction i with
  | zero => exact HeaderSt.noConfusion hst
  | succ i ih =>
    have hgo : (parserAt out h m i).st = .msgParam → m i ≠ chLf →
        ∃ k < i + 1, FieldAt out h m k ∧ ∀ j, k < j → j < i + 1 → m j ≠ chLf := by
      intro hp hc
      obtain ⟨k, hk, hfield, hno⟩ := ih hp
      refine ⟨k, Nat.lt_succ_of_lt hk, hfield, fun j hkj hj => ?_⟩
      rcases Nat.lt_succ_iff_lt_or_eq.mp hj with hlt | heq
      · exact hno j hkj hlt
      · rw [heq]
        exact hc
    cases fed_parserAt out h m i with
    | skipped hp _ hc _ _ _ => exact hgo hp (by rw [hc]; decide)
    | marked hp hc _ _ _ => exact hgo hp (by rw [hc]; decide)
    | told hp _ hc _ _ _ _ => exact hgo hp hc
    | ended _ _ hq _ => exact HeaderSt.noConfusion (hq.symm.trans hst)
    | named hfield _ _ _ =>
      exact ⟨i, Nat.lt_succ_self i, hfield, fun j hkj hj => by omega⟩
    | other _ _ hq _ => exact absurd hst hq

/-- Where the handler is in the value of the field at `k`, before the character at `i`. -/
structure InField (out : BasicHeader) (h : MSearchHeader) (m : Memory) (k i : Nat) : Prop where
  st : (parserAt out h m i).st = .msgParam
  tag : (∀ q, k < q → q < i → m q ≠ 0) →
    (parserAt out h m i).user.st = tagOf (nameAt out h m k)
  ended : (∃ q, k < q ∧ q < i ∧ m q = 0) →
    (parserAt out h m i).user.st = .null ∧ (parserAt out h m i).wsb.l ≠ 0

/-- The characters of a value up to the end of its line. -/
theorem field_run {k i : Nat} (hfield : FieldAt out h m k) (hki : k < i)
    (hline : ∀ j, k < j → j < i → m j ≠ chLf)
    (hread : (parserAt out h m i).user.readsNull = false) : InField out h m k i := by
  induction i, hki using Nat.le_induction with
  | base =>
    have hread' := readsNull_of_succ hread
    have hne : (parserAt out h m k).st ≠ .msgParam := fun hst =>
      HeaderSt.noConfusion (hfield.1.symm.trans hst)
    have hnull : (parserAt out h m k).user.st = .null := st_idle k hread' hne
    have hno : ¬ ∃ q, k < q ∧ q < k + 1 ∧ m q = 0 := fun ⟨q, hkq, hq, _⟩ => by omega
    obtain ⟨hq, huser⟩ := fed_field hfield
    refine ⟨hq, fun _ => ?_, fun hq => absurd hq hno⟩
    rw [huser]
    exact st_named (h := ((parserAt out h m k).facing k).user) hnull _
  | succ i hki ih =>
    have hread' := readsNull_of_succ hread
    have hin := ih (fun j hkj hj => hline j hkj (Nat.lt_succ_of_lt hj)) hread'
    have hlf : m i ≠ chLf := hline i hki (Nat.lt_succ_self i)
    have hsplit : (∃ q, k < q ∧ q < i + 1 ∧ m q = 0) → m i ≠ 0 → ∃ q, k < q ∧ q < i ∧ m q = 0 := by
      intro hq hne
      obtain ⟨q, hkq, hq, hzero⟩ := hq
      rcases Nat.lt_succ_iff_lt_or_eq.mp hq with hlt | heq
      · exact ⟨q, hkq, hlt, hzero⟩
      · exact absurd (heq ▸ hzero) hne
    cases fed_parserAt out h m i with
    | skipped _ hl hc hq _ huser =>
      have hne : m i ≠ 0 := by rw [hc]; decide
      refine ⟨hq, fun hno => ?_, fun hex => ?_⟩
      · rw [huser]
        exact hin.tag fun q hkq hq => hno q hkq (Nat.lt_succ_of_lt hq)
      · exact absurd hl (hin.ended (hsplit hex hne)).2
    | marked _ hc hq hl huser =>
      have hne : m i ≠ 0 := by rw [hc]; decide
      refine ⟨hq, fun hno => ?_, fun hex => ⟨?_, hl⟩⟩
      · rw [huser]
        exact hin.tag fun q hkq hq => hno q hkq (Nat.lt_succ_of_lt hq)
      · rw [huser]
        exact (hin.ended (hsplit hex hne)).1
    | told _ _ _ _ hq hl huser =>
      -- the handler is told something, so it has been told a name before
      rw [huser] at hread
      have hnull : ((parserAt out h m i).facing i).user.st ≠ .null := named_of_readsNull hread
      have hnone : ∀ q, k < q → q < i → m q ≠ 0 := by
        intro q hkq hq hzero
        exact hnull (hin.ended ⟨q, hkq, hq, hzero⟩).1
      refine ⟨hq, fun hno => ?_, fun hex => ⟨?_, hl⟩⟩
      · rw [huser, st_told hnull, if_neg (hno i hki (Nat.lt_succ_self i))]
        exact hin.tag hnone
      · obtain ⟨q, hkq, hq, hzero⟩ := hex
        have heq : q = i := by
          by_contra hqi
          exact hnone q hkq (by omega) hzero
        rw [huser, st_told hnull, if_pos (heq ▸ hzero)]
    | ended _ hc _ _ => exact absurd hc hlf
    | named hfield' _ _ _ => exact HeaderSt.noConfusion (hin.st.symm.trans hfield'.1)
    | other hp _ _ _ => exact absurd hin.st hp

/-- In a value that goes to the handler nothing but CR stands behind a NUL. -/
def NulsEnd (out : BasicHeader) (h : MSearchHeader) (m : Memory) (n : Nat) : Prop :=
  ∀ k q i, FieldAt out h m k → k < q → q < i → i < n → (∀ j, k < j → j < i → m j ≠ chLf) →
    m q = 0 → m i = chCr

theorem readsNull_iff (n : Nat) :
    (parserAt out h m n).user.readsNull = false ↔ NulsEnd out h m n := by
  constructor
  · intro hread k q i hfield hkq hqi hin hline hzero
    have hin' := field_run hfield (hkq.trans hqi) hline (readsNull_of_le hin.le hread)
    obtain ⟨hnull, hl⟩ := hin'.ended ⟨q, hkq, hqi, hzero⟩
    have hnext := readsNull_of_le (show i + 1 ≤ n from hin) hread
    have hread_at : ∀ c, (messageHandler ((parserAt out h m i).facing i).user none c).readsNull =
        true := readsNull_unnamed hnull
    cases fed_parserAt out h m i with
    | skipped _ h0 _ _ _ _ => exact absurd h0 hl
    | marked _ hc _ _ _ => exact hc
    | told _ _ _ _ _ _ huser =>
      rw [huser, hread_at] at hnext
      exact absurd hnext (by decide)
    | ended _ _ _ huser =>
      rw [huser, hread_at] at hnext
      exact absurd hnext (by decide)
    | named hfield' _ _ _ => exact HeaderSt.noConfusion (hin'.st.symm.trans hfield'.1)
    | other hp _ _ _ => exact absurd hin'.st hp
  · induction n with
    | zero => exact fun _ => rfl
    | succ n ih =>
      intro hnuls
      have hread := ih fun k q i hfield hkq hqi hin =>
        hnuls k q i hfield hkq hqi (Nat.lt_succ_of_lt hin)
      -- in a value whose next character is told, no NUL has been
      have hnamed : (parserAt out h m n).st = .msgParam → m n ≠ chCr →
          ((parserAt out h m n).facing n).user.st ≠ .null := by
        intro hst hc hnull
        obtain ⟨k, hk, hfield, hline⟩ := exists_field hst
        have hin := field_run hfield hk hline hread
        by_cases hex : ∃ q, k < q ∧ q < n ∧ m q = 0
        · obtain ⟨q, hkq, hqn, hzero⟩ := hex
          exact hc (hnuls k q n hfield hkq hqn (Nat.lt_succ_self n) hline hzero)
        · refine tagOf_ne_null (nameAt out h m k) ((hin.tag fun q hkq hqn hzero => ?_).symm.trans hnull)
          exact hex ⟨q, hkq, hqn, hzero⟩
      cases fed_parserAt out h m n with
      | skipped _ _ _ _ _ huser => rw [huser]; exact hread
      | marked _ _ _ _ huser => rw [huser]; exact hread
      | told hp hc _ _ _ _ huser => rw [huser, readsNull_told (hnamed hp hc)]; exact hread
      | ended hp hc _ huser =>
        rw [huser, readsNull_told (hnamed hp (by rw [hc]; decide))]
        exact hread
      | named _ _ _ huser => rw [huser, readsNull_named]; exact hread
      | other _ _ _ huser => rw [huser]; exact hread

/-- What stands in front of a value: the parser leaves out CR and the spaces at the beginning. -/
def Blank (c : UInt8) : Prop := c = chSpace ∨ c = chCr

/-- The place that is noted for the field at `k` before the character at `i`: the first one that is
not blank. -/
def Noted (m : Memory) (k i : Nat) : Option Nat → Prop
  | none => ∀ j, k < j → j < i → Blank (m j)
  | some s => k < s ∧ s < i ∧ ¬ Blank (m s) ∧ ∀ j, k < j → j < s → Blank (m j)

theorem Noted.blank {k i : Nat} {str : Option Nat} (hn : Noted m k i str) (hc : Blank (m i)) :
    Noted m k (i + 1) str := by
  cases str with
  | none =>
    intro j hkj hj
    rcases Nat.lt_succ_iff_lt_or_eq.mp hj with hlt | heq
    · exact hn j hkj hlt
    · exact heq ▸ hc
  | some s => exact ⟨hn.1, Nat.lt_succ_of_lt hn.2.1, hn.2.2⟩

/-- The handler notes the place of a character that is not CR. -/
theorem Noted.told {k i : Nat} {str : Option Nat} (hn : Noted m k i str) (hk : k < i)
    (hc : m i ≠ chCr) {c : UInt8} (hsame : c = chSpace ↔ m i = chSpace) :
    Noted m k (i + 1) (noteStart str i c) := by
  cases str with
  | some s => exact ⟨hn.1, Nat.lt_succ_of_lt hn.2.1, hn.2.2⟩
  | none =>
    by_cases hspace : c = chSpace
    · rw [noteStart, if_neg fun hand => hand.2 hspace]
      exact Noted.blank hn (.inl (hsame.mp hspace))
    · rw [noteStart, if_pos ⟨rfl, hspace⟩]
      refine ⟨hk, Nat.lt_succ_self i, fun hblank => ?_, hn⟩
      exact hblank.elim (fun h => hspace (hsame.mpr h)) hc

/-- The name of a field `tag` ends at `k`. -/
def TagAt (out : BasicHeader) (h : MSearchHeader) (m : Memory) (tag : ParseSt) (k : Nat) : Prop :=
  FieldAt out h m k ∧ tagOf (nameAt out h m k) = tag

/-- The last field `tag` before `n` is the one at `k`. -/
structure LastTag (out : BasicHeader) (h : MSearchHeader) (m : Memory) (tag : ParseSt) (n k : Nat) :
    Prop where
  field : TagAt out h m tag k
  lt : k < n
  last : ∀ k', k < k' → k' < n → ¬ TagAt out h m tag k'

/-- Where a value ends for the handler. -/
def Ends (c : UInt8) : Prop := c = chLf ∨ c = 0

/-- What the handler has made of the fields `tag` before `n`. -/
inductive TagResult (out : BasicHeader) (h : MSearchHeader) (m : Memory) (tag : ParseSt) (n : Nat) :
    Prop
  | never : (∀ k < n, ¬ TagAt out h m tag k) → (parserAt out h m n).user.st ≠ tag →
      (parserAt out h m n).user.str tag = none → TagResult out h m tag n
  | within {k : Nat} : LastTag out h m tag n k → (∀ j, k < j → j < n → ¬ Ends (m j)) →
      (parserAt out h m n).user.st = tag → Noted m k n ((parserAt out h m n).user.str tag) →
      TagResult out h m tag n
  | closed {k e s : Nat} : LastTag out h m tag n k → k < e → e < n → Ends (m e) →
      (∀ j, k < j → j < e → ¬ Ends (m j)) → (parserAt out h m n).user.st ≠ tag →
      Noted m k (e + 1) (some s) → (parserAt out h m n).user.str tag = some s →
      (parserAt out h m n).user.len tag = valueLen e s → TagResult out h m tag n

section

variable {tag : ParseSt}

theorem LastTag.succ {n k : Nat} (hlast : LastTag out h m tag n k) (hn : ¬ TagAt out h m tag n) :
    LastTag out h m tag (n + 1) k := by
  refine ⟨hlast.field, Nat.lt_succ_of_lt hlast.lt, fun k' hk hk' => ?_⟩
  rcases Nat.lt_succ_iff_lt_or_eq.mp hk' with hlt | heq
  · exact hlast.last k' hk hlt
  · rw [heq]
    exact hn

/-- A character that leaves the place and the length as they are. -/
theorem TagResult.keep {n : Nat} (hr : TagResult out h m tag n) (hn : ¬ TagAt out h m tag n)
    (hst : (parserAt out h m n).user.st ≠ tag)
    (hkeep : (parserAt out h m (n + 1)).user.str tag = (parserAt out h m n).user.str tag ∧
      (parserAt out h m (n + 1)).user.len tag = (parserAt out h m n).user.len tag ∧
      (parserAt out h m (n + 1)).user.st ≠ tag) : TagResult out h m tag (n + 1) := by
  obtain ⟨hstr, hlen, hst'⟩ := hkeep
  cases hr with
  | never hno _ hnone =>
    refine .never (fun k hk => ?_) hst' (hstr.trans hnone)
    rcases Nat.lt_succ_iff_lt_or_eq.mp hk with hlt | heq
    · exact hno k hlt
    · rw [heq]
      exact hn
  | within _ _ hin _ => exact absurd hin hst
  | closed hlast hke hen hend hno _ hnoted hs hl =>
    exact .closed (hlast.succ hn) hke (Nat.lt_succ_of_lt hen) hend hno hst' hnoted (hstr.trans hs)
      (hlen.trans hl)

/-- A character of the value. -/
theorem TagResult.value {n : Nat} (hr : TagResult out h m tag n) (hn : ¬ TagAt out h m tag n)
    (hst : (parserAt out h m n).user.st = tag) (hc : ¬ Ends (m n))
    (hst' : (parserAt out h m (n + 1)).user.st = tag)
    (hnoted : ∀ k, k < n → Noted m k n ((parserAt out h m n).user.str tag) →
      Noted m k (n + 1) ((parserAt out h m (n + 1)).user.str tag)) : TagResult out h m tag (n + 1) := by
  cases hr with
  | never _ hno _ => exact absurd hst hno
  | within hlast hline _ hat =>
    refine .within (hlast.succ hn) (fun j hkj hj => ?_) hst' (hnoted _ hlast.lt hat)
    rcases Nat.lt_succ_iff_lt_or_eq.mp hj with hlt | heq
    · exact hline j hkj hlt
    · rw [heq]
      exact hc
  | closed _ _ _ _ _ hno _ _ _ => exact absurd hst hno

/-- The end of the value. -/
theorem TagResult.close (htag : IsNoted tag) {n : Nat} (hr : TagResult out h m tag n) (hn : ¬ TagAt out h m tag n)
    (hst : (parserAt out h m n).user.st = tag) (hc : Ends (m n))
    (huser : (parserAt out h m (n + 1)).user =
      messageHandler ((parserAt out h m n).facing n).user none 0) : TagResult out h m tag (n + 1) := by
  cases hr with
  | never _ hno _ => exact absurd hst hno
  | within hlast hline _ hat =>
    obtain ⟨s, hs, hstr, hlen, hnull⟩ :=
      value_ends (h := ((parserAt out h m n).facing n).user) htag hst
    have hne : m n ≠ chCr := by
      intro heq
      rw [heq] at hc
      rcases hc with hlf | hzero
      · exact absurd hlf (by decide)
      · exact absurd hzero (by decide)
    have hspace : (0 : UInt8) = chSpace ↔ m n = chSpace := by
      refine iff_of_false (by decide) fun heq => ?_
      rw [heq] at hc
      rcases hc with hlf | hzero
      · exact absurd hlf (by decide)
      · exact absurd hzero (by decide)
    have hnoted := hat.told hlast.lt hne hspace
    have hs' : noteStart ((parserAt out h m n).user.str tag) n 0 = some s := hs
    rw [hs'] at hnoted
    refine .closed (hlast.succ hn) hlast.lt (Nat.lt_succ_self n) hc hline ?_ hnoted ?_ ?_
    · rw [huser, hnull]
      obtain rfl | rfl := htag <;> decide
    · rw [huser, hstr]
    · rw [huser, hlen]
      rfl
  | closed _ _ _ _ _ hno _ _ _ => exact absurd hst hno

theorem not_ends_of_blank {c : UInt8} (hc : Blank c) : ¬ Ends c := by
  rcases hc with hc | hc
  · rw [hc, Ends]
    decide
  · rw [hc, Ends]
    decide

theorem tagResult (htag : IsNoted tag) (n : Nat) (hread : (parserAt out h m n).user.readsNull = false) :
    TagResult out h m tag n := by
  have hidleNe : ParseSt.null ≠ tag := by obtain rfl | rfl := htag <;> decide
  induction n with
  | zero =>
    refine .never (fun k hk => absurd hk (Nat.not_lt_zero k)) hidleNe ?_
    obtain rfl | rfl := htag <;> rfl
  | succ n ih =>
    have hr := ih (readsNull_of_succ hread)
    have hidle := st_idle n (readsNull_of_succ hread)
    by_cases hfield : FieldAt out h m n
    swap
    · have hnot : ¬ TagAt out h m tag n := fun hst => hfield hst.1
      have hblank : Blank (m n) → (parserAt out h m (n + 1)).user = ((parserAt out h m n).facing n).user →
          TagResult out h m tag (n + 1) := by
        intro hc huser
        by_cases hst : (parserAt out h m n).user.st = tag
        · refine hr.value hnot hst (not_ends_of_blank hc) (by rw [huser]; exact hst) ?_
          intro k _ hat
          rw [huser]
          exact Noted.blank hat hc
        · exact hr.keep hnot hst (by rw [huser]; exact ⟨rfl, rfl, hst⟩)
      cases fed_parserAt out h m n with
      | skipped _ _ hc _ _ huser => exact hblank (.inl hc) huser
      | marked _ hc _ _ huser => exact hblank (.inr hc) huser
      | told _ hcr hlf _ _ _ huser =>
        have hnull : ((parserAt out h m n).facing n).user.st ≠ .null := by
          rw [huser] at hread
          exact named_of_readsNull hread
        by_cases hst : (parserAt out h m n).user.st = tag
        · by_cases hzero : m n = 0
          · exact hr.close htag hnot hst (.inr hzero) (by rw [huser, hzero])
          · obtain ⟨hstr, hst'⟩ :=
              value_goes (h := ((parserAt out h m n).facing n).user) htag hst hzero
            refine hr.value hnot hst (fun hend => hend.elim hlf hzero) (by rw [huser, hst']) ?_
            intro k hk hat
            rw [huser, hstr]
            exact hat.told hk hcr Iff.rfl
        · refine hr.keep hnot hst ?_
          rw [huser]
          exact value_told (h := ((parserAt out h m n).facing n).user) htag hst hnull (m n)
      | ended _ hc _ huser =>
        have hnull : ((parserAt out h m n).facing n).user.st ≠ .null := by
          rw [huser] at hread
          exact named_of_readsNull hread
        by_cases hst : (parserAt out h m n).user.st = tag
        · exact hr.close htag hnot hst (.inl hc) huser
        · refine hr.keep hnot hst ?_
          rw [huser]
          exact value_told (h := ((parserAt out h m n).facing n).user) htag hst hnull 0
      | named hf _ _ _ => exact absurd hf hfield
      | other _ _ _ huser =>
        have hst : (parserAt out h m n).user.st ≠ tag := by
          intro hst
          by_cases hp : (parserAt out h m n).st = .msgParam
          · next hother _ _ => exact hother hp
          · exact hidleNe ((hidle hp).symm.trans hst)
        exact hr.keep hnot hst (by rw [huser]; exact ⟨rfl, rfl, hst⟩)
    · have hp : (parserAt out h m n).st ≠ .msgParam := fun hst =>
        HeaderSt.noConfusion (hfield.1.symm.trans hst)
      have hnull : ((parserAt out h m n).facing n).user.st = .null := hidle hp
      have hst : (parserAt out h m n).user.st ≠ tag := fun hst => hidleNe (hnull.symm.trans hst)
      obtain ⟨-, huser⟩ := fed_field hfield
      by_cases hname : tagOf (nameAt out h m n) = tag
      · obtain ⟨hstr, hst'⟩ := value_begins htag hnull hname
        refine .within ⟨⟨hfield, hname⟩, Nat.lt_succ_self n, fun k' hk hk' => ?_⟩ ?_ ?_ ?_
        · omega
        · exact fun j hnj hj => by omega
        · rw [huser, hst']
        · rw [huser, hstr]
          exact fun j hnj hj => by omega
      · refine hr.keep (fun hstf => hname hstf.2) hst ?_
        rw [huser]
        exact value_named htag hnull hname

end

end

end Ssdp

end MiMic.Net
