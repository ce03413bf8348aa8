import MiMic.Http.HeaderRuns

/-!
# The lines of a header

Each line of a header is a run of the parser from the head of one line to the head of the
next. What the handlers make of a line is the fold of their answers over its calls.
-/
namespace MiMic.Http

/-- A call of the message handler: a name with NUL, or a character without a name. -/
abbrev MessageCall := Option (List UInt8) × UInt8

/-- Handlers that note their calls. -/
def noteHandler : HeaderHandler (List UInt8 × List MessageCall) where
  messageHandler := some fun u name c => (true, (u.1, u.2 ++ [(name, c)]))
  urlHandler := some fun u c => (true, (u.1 ++ [c], u.2))

def zeroHeader : BasicHeader := ⟨.none, .none, .request, none, none, 0, 0⟩

section

variable {σ : Type}

/-- The answer of the message handler; `none` when it refuses. -/
def HeaderHandler.message (H : HeaderHandler σ) (u : σ) (call : MessageCall) : Option σ :=
  match H.messageHandler with
  | none => some u
  | some f => if (f u call.1 call.2).1 then some (f u call.1 call.2).2 else none

def HeaderHandler.url (H : HeaderHandler σ) (u : σ) (c : UInt8) : Option σ :=
  match H.urlHandler with
  | none => some u
  | some f => if (f u c).1 then some (f u c).2 else none

/-- The calls for a field that the parser does not know. -/
def fieldCalls (name value : List UInt8) : List MessageCall :=
  (some (name.map toupper), 0) ::
    (((value.dropWhile (· == chSpace)).filter (· != chCr)).map (fun c => (none, c)) ++ [(none, 0)])

/-- The name of a field, as far as the work text can hold it. -/
structure IsFieldName (name : List UInt8) : Prop where
  ne_nil : name ≠ []
  length_le : name.length ≤ 31
  plain : ∀ c ∈ name, c ≠ 0 ∧ c ≠ chColon ∧ c ≠ chCr ∧ c ≠ chLf

/-- A value that is collected in the work text. -/
structure IsShortValue (value : List UInt8) : Prop where
  ne_nil : value ≠ []
  length_le : value.length ≤ 31
  head_ne : value.head? ≠ some chSpace
  plain : ∀ c ∈ value, c ≠ 0 ∧ c ≠ chCr ∧ c ≠ chLf

def fieldLine (name value : List UInt8) : List UInt8 := name ++ ascii ": " ++ value ++ ascii "\r\n"

def version11 : List UInt8 := ascii "HTTP/1.1"

def requestLine (m : HttpMethod) (path : List UInt8) : List UInt8 :=
  m.toString ++ [chSpace] ++ (path ++ [chSpace]) ++ (version11 ++ ascii "\r\n")

def statusLine (status : Nat) (reason : List UInt8) : List UInt8 :=
  version11 ++ [chSpace] ++ (Verif.Decimal.decimal status ++ [chSpace]) ++ (reason ++ [chLf])

end

namespace BasicHeaderParser

variable {σ : Type} {H : HeaderHandler σ}

/-- At the beginning of a token, such as a line in `.msgHead`. -/
structure At (p : BasicHeaderParser σ) (st : HeaderSt) (out : BasicHeader) (user : σ) : Prop where
  st_eq : p.st = st
  l_eq : p.wsb.l = 0
  s_eq : p.wsb.s = 31
  out_eq : p.out = out
  user_eq : p.user = user

theorem callMessage_of_agrees {p : BasicHeaderParser σ} {name : Option (List UInt8)} {c : UInt8}
    {u : σ} (h : H.message p.user (name, c) = some u)
    (k : BasicHeaderParser σ → BasicHeaderParser σ) :
    callMessage H p name c k = k { p with user := u } := by
  unfold HeaderHandler.message at h
  unfold callMessage
  cases hm : H.messageHandler with
  | none =>
    rw [hm] at h
    obtain rfl := Option.some.inj h
    rfl
  | some f =>
    rw [hm] at h
    simp only at h ⊢
    split at h
    · next hok =>
      rw [if_pos hok, Option.some.inj h]
    · cases h

theorem callUrl_of_agrees {p : BasicHeaderParser σ} {c : UInt8} {u : σ}
    (h : H.url p.user c = some u) (k : BasicHeaderParser σ → BasicHeaderParser σ) :
    callUrl H p c k = k { p with user := u } := by
  unfold HeaderHandler.url at h
  unfold callUrl
  cases hm : H.urlHandler with
  | none =>
    rw [hm] at h
    obtain rfl := Option.some.inj h
    rfl
  | some f =>
    rw [hm] at h
    simp only at h ⊢
    split at h
    · next hok =>
      rw [if_pos hok, Option.some.inj h]
    · cases h

theorem str_withText (p : BasicHeaderParser σ) {t : List UInt8} (h : ∀ c ∈ t, c ≠ 0) :
    (p.withText t).wsb.str = t := cString_of_ne_zero h

theorem toUpper_withText (p : BasicHeaderParser σ) {t : List UInt8} (h : ∀ c ∈ t, c ≠ 0) :
    (p.withText t).wsb.toUpper = (p.withText (t.map toupper)).wsb := by
  have hstr := str_withText p h
  rw [CStr.toUpper, hstr]
  show CStr.mk p.wsb.s t.length (t.map toupper ++ t.drop t.length) = _
  rw [List.drop_length, List.append_nil]
  simp only [withText, List.length_map]

/-- The mark changes the work text only. -/
theorem mark_cases (p : BasicHeaderParser σ) (hs : 0 < p.wsb.s) :
    ∃ wsb, p.mark = { p with wsb := wsb } ∧ wsb.s = p.wsb.s ∧ wsb.l ≠ 0 := by
  unfold mark
  split
  · next hl =>
    have hput : p.wsb.put 0x43 = some ⟨p.wsb.s, 1, [0x43]⟩ := by
      rw [CStr.put, hl, if_pos (show 0 < p.wsb.s - 0 by omega), List.take_zero]
      rfl
    rw [hput]
    exact ⟨_, rfl, rfl, Nat.one_ne_zero⟩
  · next hl => exact ⟨p.wsb, rfl, rfl, hl⟩

theorem parseOne_name {p : BasicHeaderParser σ} (hst : p.st = .msgHead) {c : UInt8}
    (hc : c ≠ chColon ∧ c ≠ chCr ∧ c ≠ chLf) : parseOne H p c = p.put c := by
  rw [parseOne, hst]
  simp only
  rw [parseMessage1, if_neg hc.1, if_neg hc.2.1, if_neg hc.2.2]

theorem live_of_st {p : BasicHeaderParser σ} {st : HeaderSt} (h : p.st = st)
    (hst : st ≠ .error ∧ st ≠ .eoh) : p.Live := by
  subst h
  exact hst

theorem reads_name {p : BasicHeaderParser σ} {out : BasicHeader} {u : σ} (h : p.At .msgHead out u)
    {name : List UInt8} (hname : IsFieldName name) : Reads H p name (p.withText name) := by
  obtain ⟨c, cs, rfl⟩ := List.exists_cons_of_ne_nil hname.ne_nil
  apply reads_token (live_of_st h.st_eq (by decide)) h.l_eq
  · exact parseOne_name h.st_eq (hname.plain c (List.mem_cons_self ..)).2
  · intro t' _ d hd
    exact parseOne_name (p := p.withText t') h.st_eq (hname.plain d (List.mem_cons_of_mem _ hd)).2
  · rw [h.s_eq]
    exact hname.length_le

/-- The colon behind a name. -/
theorem parseOne_colon {p : BasicHeaderParser σ} (hst : p.st = .msgHead) {name : List UInt8}
    (hname : ∀ c ∈ name, c ≠ 0) :
    parseOne H (p.withText name) chColon = parseName H (p.withText (name.map toupper)) := by
  have hst' : (p.withText name).st = .msgHead := hst
  rw [parseOne, hst']
  simp only
  rw [parseMessage1, if_pos rfl, toUpper_withText p hname]
  rfl

theorem map_toupper_ne_zero {name : List UInt8} (h : ∀ c ∈ name, c ≠ 0) :
    ∀ c ∈ name.map toupper, c ≠ 0 := by
  intro c hc
  obtain ⟨d, hd, rfl⟩ := List.mem_map.mp hc
  exact toupper_ne_zero d (h d hd)

section

variable {close : BasicHeaderParser σ → BasicHeaderParser σ} {p : BasicHeaderParser σ}

/-- In the state of `p` a value is collected. -/
def Collects (H : HeaderHandler σ) (close : BasicHeaderParser σ → BasicHeaderParser σ)
    (st : HeaderSt) : Prop :=
  ∀ q : BasicHeaderParser σ, q.st = st → ∀ c, parseOne H q c = parseValue close q c

theorem collects_version : Collects H (fun p =>
    match parseHttpVersionStr p.wsb with
    | none => { p with wsb := p.wsb.clear }.fail 505
    | some v => { p with out := { p.out with version := v <|> p.out.version } }.goOn .msgHead)
    .rlVersion := by
  intro q hq c
  rw [parseOne, hq]
  rfl

/-- A value without spaces in front of it. -/
theorem reads_value (hp : p.Live) (hone : Collects H close p.st) (hl : p.wsb.l = 0)
    {value : List UInt8} (hv : IsShortValue value) (hs : p.wsb.s = 31) :
    Reads H p value (p.withText value) := by
  obtain ⟨c, cs, rfl⟩ := List.exists_cons_of_ne_nil hv.ne_nil
  have hc : c ≠ chSpace := fun h => hv.head_ne (congrArg some h)
  apply reads_token hp hl
  · obtain ⟨-, hcr, hlf⟩ := hv.plain c (List.mem_cons_self ..)
    rw [hone p rfl, parseValue, if_neg (fun h => hc h.2), if_neg hcr, if_neg hlf]
  · intro t' ht' d hd
    obtain ⟨-, hcr, hlf⟩ := hv.plain d (List.mem_cons_of_mem _ hd)
    have hlen : ¬ ((p.withText t').wsb.l = 0 ∧ d = chSpace) :=
      fun h => ht' (List.eq_nil_of_length_eq_zero h.1)
    rw [hone (p.withText t') rfl, parseValue, if_neg hlen, if_neg hcr, if_neg hlf]
  · rw [hs]
    exact hv.length_le

/-- A value and the end of its line. -/
theorem reads_valueLine (hp : p.Live) (hone : Collects H close p.st) (hl : p.wsb.l = 0)
    {value : List UInt8} (hv : IsShortValue value) (hs : p.wsb.s = 31)
    (hclose : (close (p.withText value)).Live) :
    Reads H p (value ++ ascii "\r\n") (close (p.withText value)) := by
  have hne : ¬ (p.withText value).wsb.l = 0 := fun h =>
    hv.ne_nil (List.eq_nil_of_length_eq_zero h)
  have hcr : parseOne H (p.withText value) chCr = p.withText value := by
    rw [hone (p.withText value) rfl, parseValue, if_neg (fun h => hne h.1), if_pos rfl]
  have hlf : parseOne H (p.withText value) chLf = close (p.withText value) := by
    rw [hone (p.withText value) rfl, parseValue, if_neg (fun h => hne h.1), if_neg (by decide),
      if_pos rfl]
  exact (reads_value hp hone hl hv hs).append ((Reads.step hcr hp).append (Reads.step hlf hclose))

/-- The spaces in front of a value. -/
theorem reads_spaces (hp : p.Live) (hone : Collects H close p.st) (hl : p.wsb.l = 0) (n : Nat) :
    Reads H p (List.replicate n chSpace) p := by
  induction n with
  | zero => exact Reads.nil hp
  | succ n ih =>
    have hskip : parseOne H p chSpace = p := by rw [hone p rfl, parseValue, if_pos ⟨hl, rfl⟩]
    exact (Reads.step hskip hp).append ih

end

/-- A field that the parser knows, with any number of spaces in front of its value. -/
theorem reads_knownSpaced {p : BasicHeaderParser σ} {out out' : BasicHeader} {u : σ}
    (h : p.At .msgHead out u) {name value : List UInt8} {e : List UInt8 × HeaderSt}
    {close : BasicHeaderParser σ → BasicHeaderParser σ} (hname : IsFieldName name)
    (hknown : knownMsg.find? (fun e => name.map toupper = e.1) = some e)
    (hlive : e.2 ≠ .error ∧ e.2 ≠ .eoh) (hone : Collects H close e.2) (hv : IsShortValue value)
    (hclose : ∀ q : BasicHeaderParser σ, q.wsb = ⟨31, value.length, value⟩ → q.out = out →
      q.user = u → (close q).At .msgHead out' u) (n : Nat) :
    ∃ q, Reads H p (name ++ ([chColon] ++ (List.replicate n chSpace ++ (value ++ ascii "\r\n")))) q ∧
      q.At .msgHead out' u := by
  have hzero : ∀ c ∈ name, c ≠ 0 := fun c hc => (hname.plain c hc).1
  let q := (p.withText (name.map toupper)).goOn e.2
  have hcolon : parseOne H (p.withText name) chColon = q := by
    rw [parseOne_colon h.st_eq hzero, parseName, str_withText p (map_toupper_ne_zero hzero), hknown]
  have hq : q.Live := hlive
  have hend : (close (q.withText value)).At .msgHead out' u := by
    apply hclose
    · show CStr.mk p.wsb.s value.length value = _
      rw [h.s_eq]
    · exact h.out_eq
    · exact h.user_eq
  refine ⟨close (q.withText value), ?_, hend⟩
  have hrest := (reads_spaces hq hone rfl n).append
    (reads_valueLine hq hone rfl hv h.s_eq (live_of_st hend.st_eq (by decide)))
  exact (reads_name h hname).append ((Reads.step hcolon hq).append hrest)

/-- A field that the parser knows. -/
theorem reads_known {p : BasicHeaderParser σ} {out out' : BasicHeader} {u : σ} (h : p.At .msgHead out u)
    {name value : List UInt8} {e : List UInt8 × HeaderSt}
    {close : BasicHeaderParser σ → BasicHeaderParser σ} (hname : IsFieldName name)
    (hknown : knownMsg.find? (fun e => name.map toupper = e.1) = some e)
    (hlive : e.2 ≠ .error ∧ e.2 ≠ .eoh) (hone : Collects H close e.2) (hv : IsShortValue value)
    (hclose : ∀ q : BasicHeaderParser σ, q.wsb = ⟨31, value.length, value⟩ → q.out = out →
      q.user = u → (close q).At .msgHead out' u) :
    ∃ q, Reads H p (fieldLine name value) q ∧ q.At .msgHead out' u := by
  have hline : fieldLine name value =
      name ++ ([chColon] ++ (List.replicate 1 chSpace ++ (value ++ ascii "\r\n"))) := by
    rw [fieldLine, List.append_assoc, List.append_assoc]
    rfl
  rw [hline]
  exact reads_knownSpaced h hname hknown hlive hone hv hclose 1

theorem parseOne_param {p : BasicHeaderParser σ} (hst : p.st = .msgParam) (c : UInt8) :
    parseOne H p c = parseMessageParam H p c := by
  rw [parseOne, hst]

/-- Inside a value. -/
structure InParam (p : BasicHeaderParser σ) (out : BasicHeader) (user : σ) : Prop where
  st_eq : p.st = .msgParam
  s_eq : p.wsb.s = 31
  out_eq : p.out = out
  user_eq : p.user = user

theorem InParam.live {p : BasicHeaderParser σ} {out : BasicHeader} {u : σ} (h : p.InParam out u) :
    p.Live := live_of_st h.st_eq (by decide)

/-- One character of a value that has begun, or that is no space. -/
theorem param_char {p : BasicHeaderParser σ} {out : BasicHeader} {u u' : σ} (h : p.InParam out u)
    {c : UInt8} (hlf : c ≠ chLf) (hsp : p.wsb.l ≠ 0 ∨ c ≠ chSpace)
    (hcall : (([c].filter (· != chCr)).map (fun c => ((none, c) : MessageCall))).foldlM H.message u =
      some u') :
    (parseOne H p c).InParam out u' ∧ (parseOne H p c).wsb.l ≠ 0 := by
  obtain ⟨wsb, hmark, hs, hl⟩ := p.mark_cases (by rw [h.s_eq]; decide)
  have hskip : ¬ (p.wsb.l = 0 ∧ c = chSpace) := by
    intro hc
    rcases hsp with hne | hne
    · exact hne hc.1
    · exact hne hc.2
  rw [parseOne_param h.st_eq, parseMessageParam, if_neg hskip, hmark]
  by_cases hcr : c = chCr
  · rw [if_pos hcr]
    have hnone : [c].filter (· != chCr) = [] := by rw [hcr]; rfl
    rw [hnone] at hcall
    obtain rfl := Option.some.inj hcall
    exact ⟨⟨h.st_eq, hs.trans h.s_eq, h.out_eq, h.user_eq⟩, hl⟩
  · have hone : [c].filter (· != chCr) = [c] := by simp [hcr]
    rw [hone] at hcall
    have hmsg : H.message p.user (none, c) = some u' := by
      rw [h.user_eq]
      simpa using hcall
    rw [if_neg hcr, if_neg hlf, callMessage_of_agrees (p := { p with wsb := wsb }) hmsg]
    exact ⟨⟨h.st_eq, hs.trans h.s_eq, h.out_eq, rfl⟩, hl⟩

/-- The rest of a value that has begun. -/
theorem reads_paramRest {p : BasicHeaderParser σ} {out : BasicHeader} {u u' : σ}
    (h : p.InParam out u) (hl : p.wsb.l ≠ 0) {v : List UInt8} (hlf : chLf ∉ v)
    (hcalls : ((v.filter (· != chCr)).map (fun c => ((none, c) : MessageCall))).foldlM H.message u =
      some u') :
    ∃ q, Reads H p v q ∧ q.InParam out u' := by
  induction v generalizing p u with
  | nil =>
    obtain rfl := Option.some.inj hcalls
    exact ⟨p, Reads.nil h.live, h⟩
  | cons c v ih =>
    have hc : c ≠ chLf := fun heq => hlf (heq ▸ List.mem_cons_self ..)
    have hsplit : (c :: v).filter (· != chCr) = [c].filter (· != chCr) ++ v.filter (· != chCr) :=
      List.filter_append [c] v
    rw [hsplit, List.map_append, List.foldlM_append] at hcalls
    obtain ⟨u₁, hu₁, hrest⟩ := Option.bind_eq_some_iff.mp hcalls
    obtain ⟨hone, hl'⟩ := param_char h hc (Or.inl hl) hu₁
    obtain ⟨q, hread, hq⟩ := ih hone hl' (fun hm => hlf (List.mem_cons_of_mem _ hm)) hrest
    exact ⟨q, Reads.cons hone.live hread, hq⟩

/-- A value up to its LF. -/
theorem reads_param {p : BasicHeaderParser σ} {out : BasicHeader} {u u' : σ}
    (h : p.InParam out u) (hl : p.wsb.l = 0) {v : List UInt8} (hlf : chLf ∉ v)
    (hcalls : (((v.dropWhile (· == chSpace)).filter (· != chCr)).map
      (fun c => ((none, c) : MessageCall))).foldlM H.message u = some u') :
    ∃ q, Reads H p v q ∧ q.InParam out u' := by
  induction v with
  | nil =>
    obtain rfl := Option.some.inj hcalls
    exact ⟨p, Reads.nil h.live, h⟩
  | cons c v ih =>
    have hv : chLf ∉ v := fun hm => hlf (List.mem_cons_of_mem _ hm)
    by_cases hc : c = chSpace
    · subst hc
      have hskip : parseOne H p chSpace = p := by
        rw [parseOne_param h.st_eq, parseMessageParam, if_pos ⟨hl, rfl⟩]
      rw [List.dropWhile_cons_of_pos (by decide)] at hcalls
      obtain ⟨q, hread, hq⟩ := ih hv hcalls
      exact ⟨q, (Reads.step hskip h.live).append hread, hq⟩
    · have hne : c ≠ chLf := fun heq => hlf (heq ▸ List.mem_cons_self ..)
      rw [List.dropWhile_cons_of_neg (by simp [hc])] at hcalls
      have hsplit : (c :: v).filter (· != chCr) = [c].filter (· != chCr) ++ v.filter (· != chCr) :=
        List.filter_append [c] v
      rw [hsplit, List.map_append, List.foldlM_append] at hcalls
      obtain ⟨u₁, hu₁, hrest⟩ := Option.bind_eq_some_iff.mp hcalls
      obtain ⟨hone, hl'⟩ := param_char h hne (Or.inr hc) hu₁
      obtain ⟨q, hread, hq⟩ := reads_paramRest hone hl' hv hrest
      exact ⟨q, Reads.cons hone.live hread, hq⟩

/-- The end of a value. -/
theorem param_end {p : BasicHeaderParser σ} {out : BasicHeader} {u u' : σ} (h : p.InParam out u)
    (hcall : H.message u (none, 0) = some u') : (parseOne H p chLf).At .msgHead out u' := by
  obtain ⟨wsb, hmark, hs, -⟩ := p.mark_cases (by rw [h.s_eq]; decide)
  have hskip : ¬ (p.wsb.l = 0 ∧ chLf = chSpace) := fun hc => absurd hc.2 (by decide)
  rw [← h.user_eq] at hcall
  rw [parseOne_param h.st_eq, parseMessageParam, if_neg hskip, if_neg (by decide), if_pos rfl, hmark,
    callMessage_of_agrees (p := { p with wsb := wsb }) hcall]
  exact ⟨rfl, rfl, hs.trans h.s_eq, h.out_eq, rfl⟩

/-- Without a message handler no call changes what is kept. -/
theorem foldlM_message_none (hm : H.messageHandler = none) (calls : List MessageCall) (u : σ) :
    calls.foldlM H.message u = some u := by
  induction calls with
  | nil => rfl
  | cons call calls ih =>
    have hone : H.message u call = some u := by rw [HeaderHandler.message, hm]
    rw [List.foldlM_cons, hone]
    exact ih

/-- A field that nobody is told of, up to its LF. -/
theorem reads_unheard {p : BasicHeaderParser σ} {out : BasicHeader} {u : σ}
    (hm : H.messageHandler = none) (h : p.At .msgHead out u) {name rest : List UInt8}
    (hname : IsFieldName name) (hunknown : ∀ e ∈ knownMsg, name.map toupper ≠ e.1)
    (hlf : chLf ∉ rest) :
    ∃ q, Reads H p (name ++ ([chColon] ++ (rest ++ [chLf]))) q ∧ q.At .msgHead out u := by
  have hzero : ∀ c ∈ name, c ≠ 0 := fun c hc => (hname.plain c hc).1
  have hfind : knownMsg.find? (fun e => name.map toupper = e.1) = none := by
    rw [List.find?_eq_none]
    intro e he
    rw [decide_eq_true_eq]
    exact hunknown e he
  let t : BasicHeaderParser σ := { p.withText (name.map toupper) with st := .msgParam }
  have hcolon : parseOne H (p.withText name) chColon = t := by
    rw [parseOne_colon h.st_eq hzero, parseName, str_withText p (map_toupper_ne_zero hzero), hfind]
    simp only [hm]
    rfl
  have hin : t.InParam out u := ⟨rfl, h.s_eq, h.out_eq, h.user_eq⟩
  have hl : t.wsb.l ≠ 0 := fun h0 =>
    hname.ne_nil (List.map_eq_nil_iff.mp (List.eq_nil_of_length_eq_zero h0))
  obtain ⟨q, hread, hq⟩ := reads_paramRest hin hl hlf (foldlM_message_none hm _ u)
  have hend : H.message u (none, 0) = some u := by rw [HeaderHandler.message, hm]
  have hlast := param_end hq hend
  refine ⟨parseOne H q chLf, ?_, hlast⟩
  have hlf' := Reads.step (H := H) (p := q) rfl (live_of_st hlast.st_eq (by decide))
  exact (reads_name h hname).append ((Reads.step hcolon hin.live).append (hread.append hlf'))

/-- A field that goes to the message handler. -/
theorem reads_message {p : BasicHeaderParser σ} {out : BasicHeader} {u u' : σ} (h : p.At .msgHead out u)
    {name value : List UInt8} (hname : IsFieldName name)
    (hunknown : ∀ e ∈ knownMsg, name.map toupper ≠ e.1) (hlf : chLf ∉ value)
    (hcalls : (fieldCalls name value).foldlM H.message u = some u') :
    ∃ q, Reads H p (fieldLine name value) q ∧ q.At .msgHead out u' := by
  have hzero : ∀ c ∈ name, c ≠ 0 := fun c hc => (hname.plain c hc).1
  have hfind : knownMsg.find? (fun e => name.map toupper = e.1) = none := by
    rw [List.find?_eq_none]
    intro e he
    rw [decide_eq_true_eq]
    exact hunknown e he
  rw [fieldCalls, List.foldlM_cons] at hcalls
  obtain ⟨u₁, hu₁, hcalls⟩ := Option.bind_eq_some_iff.mp hcalls
  rw [List.foldlM_append] at hcalls
  obtain ⟨u₂, hu₂, hend⟩ := Option.bind_eq_some_iff.mp hcalls
  have hend' : H.message u₂ (none, 0) = some u' := by simpa using hend
  have hv : chLf ∉ [chSpace] ++ (value ++ [chCr]) := by simp [hlf]; decide
  -- the spaces in front and CR make no calls
  have hvalue : ((([chSpace] ++ (value ++ [chCr])).dropWhile (· == chSpace)).filter (· != chCr)) =
      (value.dropWhile (· == chSpace)).filter (· != chCr) := by
    rw [List.singleton_append, List.dropWhile_cons_of_pos (by decide), List.dropWhile_append]
    split
    · next hnil =>
      rw [List.isEmpty_iff] at hnil
      rw [hnil]
      rfl
    · rw [List.filter_append]
      exact List.append_nil _
  have hparse : parseOne H (p.withText name) chColon =
      parseName H (p.withText (name.map toupper)) := parseOne_colon h.st_eq hzero
  rw [parseName, str_withText p (map_toupper_ne_zero hzero), hfind] at hparse
  simp only at hparse
  have hread : ∃ q, Reads H (parseOne H (p.withText name) chColon)
      ([chSpace] ++ (value ++ [chCr])) q ∧ q.InParam out u₂ ∧
        (parseOne H (p.withText name) chColon).Live := by
    cases hm : H.messageHandler with
    | none =>
      rw [hm] at hparse
      rw [hparse]
      have hin : InParam ({ p.withText (name.map toupper) with st := .msgParam }) out u :=
        ⟨rfl, h.s_eq, h.out_eq, h.user_eq⟩
      have hsame : u₂ = u := by
        rw [foldlM_message_none hm] at hu₂
        have hone := hu₁
        rw [HeaderHandler.message, hm] at hone
        rw [← Option.some.inj hu₂, ← Option.some.inj hone]
      have hrest := foldlM_message_none hm ((([chSpace] ++ (value ++ [chCr])).filter (· != chCr)).map
        (fun c => ((none, c) : MessageCall))) u
      rw [hsame]
      obtain ⟨q, hq, hqin⟩ := reads_paramRest hin
        (fun h0 => hname.ne_nil (List.map_eq_nil_iff.mp (List.eq_nil_of_length_eq_zero h0))) hv
        hrest
      exact ⟨q, hq, hqin, hin.live⟩
    | some f =>
      have hu : H.message (p.withText (name.map toupper)).user (some (name.map toupper), 0) = some u₁ := by
        rw [← hu₁]
        exact congrArg (fun v => H.message v _) h.user_eq
      rw [if_pos (by rw [hm]; rfl), callMessage_of_agrees hu] at hparse
      rw [hparse]
      have hin : InParam (goOn { p.withText (name.map toupper) with user := u₁ } .msgParam) out u₁ :=
        ⟨rfl, h.s_eq, h.out_eq, rfl⟩
      rw [← hvalue] at hu₂
      obtain ⟨q, hq, hqin⟩ := reads_param hin rfl hv hu₂
      exact ⟨q, hq, hqin, hin.live⟩
  obtain ⟨q, hq, hqin, hlive⟩ := hread
  have hlast := param_end hqin hend'
  refine ⟨parseOne H q chLf, ?_, hlast⟩
  have hall := (reads_name h hname).append ((Reads.step rfl hlive).append
    (hq.append (Reads.step rfl (live_of_st hlast.st_eq (by decide)))))
  have hline : fieldLine name value =
      name ++ ([chColon] ++ ([chSpace] ++ (value ++ [chCr]) ++ [chLf])) := by
    rw [fieldLine]
    simp only [List.append_assoc]
    rfl
  rw [hline]
  exact hall

theorem parseOne_start {p : BasicHeaderParser σ} (hst : p.st = .start) (c : UInt8) :
    parseOne H p c = parseStartLine p c := by
  rw [parseOne, hst]

/-- The first token and the space behind it. -/
theorem reads_startToken {p q : BasicHeaderParser σ} {out : BasicHeader} {u : σ}
    (h : p.At .start out u) {token : List UInt8} (hne : token ≠ []) (hsp : chSpace ∉ token)
    (hlen : token.length ≤ 31) (hq : parseStartToken (p.withText token) = q) (hlive : q.Live) :
    Reads H p (token ++ [chSpace]) q := by
  have hchar : ∀ t : BasicHeaderParser σ, t.st = .start → ∀ c ∈ token, parseOne H t c = t.put c := by
    intro t ht c hc
    have hne : c ≠ chSpace := fun heq => hsp (heq ▸ hc)
    rw [parseOne_start ht, parseStartLine, if_neg hne]
  have hp := live_of_st h.st_eq (by decide)
  have htoken : Reads H p token (p.withText token) := by
    obtain ⟨c, cs, rfl⟩ := List.exists_cons_of_ne_nil hne
    apply reads_token hp h.l_eq (hchar p h.st_eq c (List.mem_cons_self ..))
    · intro t' _ d hd
      exact hchar (p.withText t') h.st_eq d (List.mem_cons_of_mem _ hd)
    · rw [h.s_eq]
      exact hlen
  have hspace : parseOne H (p.withText token) chSpace = q := by
    rw [parseOne_start (p := p.withText token) h.st_eq, parseStartLine, if_pos rfl, hq]
  exact htoken.append (Reads.step hspace hlive)

theorem parseOne_url {p : BasicHeaderParser σ} (hst : p.st = .rlUrl) (c : UInt8) :
    parseOne H p c = parseRequestUrl H p c := by
  rw [parseOne, hst]

/-- Inside the URL. -/
structure InUrl (p : BasicHeaderParser σ) (out : BasicHeader) (user : σ) : Prop where
  st_eq : p.st = .rlUrl
  s_eq : p.wsb.s = 31
  out_eq : p.out = out
  user_eq : p.user = user

theorem InUrl.live {p : BasicHeaderParser σ} {out : BasicHeader} {u : σ} (h : p.InUrl out u) :
    p.Live := live_of_st h.st_eq (by decide)

theorem url_char {p : BasicHeaderParser σ} {out : BasicHeader} {u u' : σ} (h : p.InUrl out u)
    {c : UInt8} (hsp : c ≠ chSpace) (hcall : H.url u c = some u') :
    (parseOne H p c).InUrl out u' ∧ (parseOne H p c).wsb.l ≠ 0 := by
  obtain ⟨wsb, hmark, hs, hl⟩ := p.mark_cases (by rw [h.s_eq]; decide)
  rw [← h.user_eq] at hcall
  rw [parseOne_url h.st_eq, parseRequestUrl, if_neg (fun hc => hsp hc.2), if_neg hsp, hmark,
    callUrl_of_agrees (p := { p with wsb := wsb }) hcall]
  exact ⟨⟨h.st_eq, hs.trans h.s_eq, h.out_eq, rfl⟩, hl⟩

/-- The characters of a URL. -/
theorem reads_urlChars {p : BasicHeaderParser σ} {out : BasicHeader} {u u' : σ} (h : p.InUrl out u)
    {path : List UInt8} (hsp : chSpace ∉ path) (hcalls : path.foldlM H.url u = some u') :
    ∃ q, Reads H p path q ∧ q.InUrl out u' ∧ (path ≠ [] → q.wsb.l ≠ 0) := by
  induction path generalizing p u with
  | nil =>
    obtain rfl := Option.some.inj hcalls
    exact ⟨p, Reads.nil h.live, h, fun hne => absurd rfl hne⟩
  | cons c cs ih =>
    rw [List.foldlM_cons] at hcalls
    obtain ⟨u₁, hu₁, hcalls⟩ := Option.bind_eq_some_iff.mp hcalls
    have hc : c ≠ chSpace := fun heq => hsp (heq ▸ List.mem_cons_self ..)
    obtain ⟨hone, hl⟩ := url_char h hc hu₁
    obtain ⟨q, hread, hq, hlq⟩ := ih hone (fun hm => hsp (List.mem_cons_of_mem _ hm)) hcalls
    refine ⟨q, Reads.cons hone.live hread, hq, fun _ => ?_⟩
    cases cs with
    | nil =>
      obtain rfl := (Prod.mk.inj hread.1).2
      exact hl
    | cons d ds => exact hlq (by simp)

/-- A URL and the space behind it. -/
theorem reads_url {p : BasicHeaderParser σ} {out : BasicHeader} {u u' : σ} (h : p.InUrl out u)
    {path : List UInt8} (hne : path ≠ []) (hsp : chSpace ∉ path)
    (hcalls : (path ++ [0]).foldlM H.url u = some u') :
    ∃ q, Reads H p (path ++ [chSpace]) q ∧ q.At .rlVersion out u' := by
  rw [List.foldlM_append] at hcalls
  obtain ⟨u₁, hu₁, hend⟩ := Option.bind_eq_some_iff.mp hcalls
  obtain ⟨q, hread, hq, hl⟩ := reads_urlChars h hsp hu₁
  have hcall : H.url q.user 0 = some u' := by
    rw [hq.user_eq]
    simpa using hend
  have hlast : parseOne H q chSpace = { q with wsb := q.wsb.clear, user := u', st := .rlVersion } := by
    rw [parseOne_url hq.st_eq, parseRequestUrl, if_neg (fun hc => hl hne hc.1), if_pos rfl,
      callUrl_of_agrees (p := { q with wsb := q.wsb.clear }) hcall]
  refine ⟨_, hread.append (Reads.step hlast ?_), rfl, rfl, hq.s_eq, hq.out_eq, rfl⟩
  exact ⟨(fun h => nomatch h), (fun h => nomatch h)⟩

theorem parseHttpVersionStr_version11 :
    parseHttpVersionStr ⟨31, version11.length, version11⟩ = some (some .v11) := by decide

theorem isShortValue_version11 : IsShortValue version11 := ⟨by decide, by decide, by decide, by decide⟩

/-- A method is written so that it is read as itself. -/
theorem method_token (m : HttpMethod) :
    m.toString ≠ [] ∧ chSpace ∉ m.toString ∧ m.toString.length ≤ 31 ∧
      parseHttpVersionStr ⟨31, m.toString.length, m.toString⟩ = none ∧
      parseRequestMethodStr ⟨31, m.toString.length, m.toString⟩ = some m := by
  cases m <;> decide

theorem wsb_withText {p : BasicHeaderParser σ} (h : p.wsb.s = 31) (t : List UInt8) :
    (p.withText t).wsb = ⟨31, t.length, t⟩ := congrArg (fun s => CStr.mk s t.length t) h

theorem reads_requestLine {p : BasicHeaderParser σ} {out : BasicHeader} {u u' : σ}
    (h : p.At .start out u) (m : HttpMethod) {path : List UInt8} (hne : path ≠ [])
    (hsp : chSpace ∉ path) (hcalls : (path ++ [0]).foldlM H.url u = some u') :
    ∃ q, Reads H p (requestLine m path) q ∧
      q.At .msgHead { out with method := some m, type := .request, version := some .v11 } u' := by
  obtain ⟨hm, hmsp, hmlen, hnot, hmethod⟩ := method_token m
  let q := goOn { p.withText m.toString with
    out := { p.out with method := some m, type := .request } } .rlUrl
  have hq : parseStartToken (p.withText m.toString) = q := by
    have hv : parseHttpVersionStr (p.withText m.toString).wsb = none := by
      rw [wsb_withText h.s_eq, hnot]
    have hr : parseRequestMethodStr (p.withText m.toString).wsb = some m := by
      rw [wsb_withText h.s_eq, hmethod]
    rw [parseStartToken, hv]
    simp only
    rw [hr]
    rfl
  have hurl : q.InUrl { out with method := some m, type := .request } u :=
    ⟨rfl, h.s_eq, congrArg (fun o : BasicHeader => { o with method := some m, type := .request })
      h.out_eq, h.user_eq⟩
  obtain ⟨r, hread, hr⟩ := reads_url hurl hne hsp hcalls
  have hstart := reads_startToken (H := H) h hm hmsp hmlen hq hurl.live
  have hrlive := live_of_st hr.st_eq (by decide)
  have hv : parseHttpVersionStr (r.withText version11).wsb = some (some .v11) := by
    rw [wsb_withText hr.s_eq, parseHttpVersionStr_version11]
  have hline := reads_valueLine (H := H) hrlive (hr.st_eq ▸ collects_version) hr.l_eq
    isShortValue_version11 hr.s_eq (by simp only [hv]; exact ⟨(fun h => nomatch h), (fun h => nomatch h)⟩)
  simp only [hv] at hline
  refine ⟨_, (hstart.append hread).append hline, rfl, rfl, hr.s_eq, ?_, hr.user_eq⟩
  show { r.out with version := some HttpVersion.v11 } = _
  rw [hr.out_eq]

theorem parseOne_status {p : BasicHeaderParser σ} (hst : p.st = .slStatusCode) (c : UInt8) :
    parseOne H p c = parseStatusCode p c := by
  rw [parseOne, hst]

theorem ne_space_of_isDigit {c : UInt8} (h : isDigit c = true) : c ≠ chSpace := by
  intro heq
  subst heq
  exact absurd h (by decide)

/-- The status code and the space behind it. -/
theorem reads_status {p : BasicHeaderParser σ} {out : BasicHeader} {u : σ}
    (h : p.At .slStatusCode out u) {n : Nat} (hn : n < 2 ^ 31) :
    ∃ q, Reads H p (Verif.Decimal.decimal n ++ [chSpace]) q ∧
      q.At .slReason { out with status := UInt32.ofNat n } u := by
  have hdigits := Verif.Decimal.isDigit_decimal n
  have hlen : (Verif.Decimal.decimal n).length ≤ 10 :=
    Verif.Decimal.length_decimal_le (by decide) (by omega)
  have hchar : ∀ t : BasicHeaderParser σ, t.st = .slStatusCode →
      ∀ c ∈ Verif.Decimal.decimal n, parseOne H t c = t.put c := by
    intro t ht c hc
    have hne := ne_space_of_isDigit (hdigits c hc)
    rw [parseOne_status ht, parseStatusCode, if_neg (fun h => hne h.2), if_neg hne]
  have hp := live_of_st h.st_eq (by decide)
  have hread : Reads H p (Verif.Decimal.decimal n) (p.withText (Verif.Decimal.decimal n)) := by
    obtain ⟨c, cs, hcs⟩ := List.exists_cons_of_ne_nil (Verif.Decimal.decimal_ne_nil n)
    rw [hcs] at hchar hlen ⊢
    apply reads_token hp h.l_eq (hchar p h.st_eq c (List.mem_cons_self ..))
    · intro t' _ d hd
      exact hchar (p.withText t') h.st_eq d (List.mem_cons_of_mem _ hd)
    · rw [h.s_eq]
      exact hlen.trans (by decide)
  have hzero : ∀ c ∈ Verif.Decimal.decimal n, c ≠ 0 := by
    intro c hc heq
    have hd := hdigits c hc
    rw [heq] at hd
    exact absurd hd (by decide)
  have hne : ¬ (p.withText (Verif.Decimal.decimal n)).wsb.l = 0 := fun hl =>
    Verif.Decimal.decimal_ne_nil n (List.eq_nil_of_length_eq_zero hl)
  have hlast : parseOne H (p.withText (Verif.Decimal.decimal n)) chSpace =
      goOn { p.withText (Verif.Decimal.decimal n) with
        out := { p.out with status := UInt32.ofNat n } } .slReason := by
    rw [parseOne_status (p := p.withText (Verif.Decimal.decimal n)) h.st_eq, parseStatusCode,
      if_neg (fun hc => hne hc.1), if_pos rfl, str_withText p hzero, strtol_decimal hn,
      ← ofInt_natCast]
    rfl
  refine ⟨_, hread.append (Reads.step hlast ?_), rfl, rfl, h.s_eq, ?_, h.user_eq⟩
  · exact ⟨(fun h => nomatch h), (fun h => nomatch h)⟩
  · exact congrArg (fun o : BasicHeader => { o with status := UInt32.ofNat n }) h.out_eq

theorem reads_reason {p : BasicHeaderParser σ} {out : BasicHeader} {u : σ}
    (h : p.At .slReason out u) {reason : List UInt8} (hlf : chLf ∉ reason) :
    ∃ q, Reads H p (reason ++ [chLf]) q ∧ q.At .msgHead out u := by
  have hp := live_of_st h.st_eq (by decide)
  have hone : ∀ c, parseOne H p c = parseReason p c := by
    intro c
    rw [parseOne, h.st_eq]
  have hskip : Reads H p reason p := by
    clear h
    induction reason with
    | nil => exact Reads.nil hp
    | cons c cs ih =>
      have hc : c ≠ chLf := fun heq => hlf (heq ▸ List.mem_cons_self ..)
      have hstep : parseOne H p c = p := by rw [hone, parseReason, if_neg hc]
      exact (Reads.step hstep hp).append (ih fun hm => hlf (List.mem_cons_of_mem _ hm))
  have hlast : parseOne H p chLf = p.goOn .msgHead := by rw [hone, parseReason, if_pos rfl]
  refine ⟨_, hskip.append (Reads.step hlast ?_), rfl, rfl, h.s_eq, h.out_eq, h.user_eq⟩
  exact ⟨(fun h => nomatch h), (fun h => nomatch h)⟩

/-- A status line with any version that the parser takes. -/
theorem reads_statusLineOf {p : BasicHeaderParser σ} {out : BasicHeader} {u : σ}
    (h : p.At .start out u) {token : List UInt8} {v : HttpVersion} (hne : token ≠ [])
    (hsp : chSpace ∉ token) (hlen : token.length ≤ 31)
    (hv : parseHttpVersionStr ⟨31, token.length, token⟩ = some (some v)) {n : Nat} (hn : n < 2 ^ 31)
    {reason : List UInt8} (hlf : chLf ∉ reason) :
    ∃ q, Reads H p (token ++ [chSpace] ++ (Verif.Decimal.decimal n ++ [chSpace]) ++ (reason ++ [chLf])) q ∧
      q.At .msgHead { out with version := some v, type := .response, status := UInt32.ofNat n } u := by
  let q := goOn { p.withText token with
    out := { p.out with version := some v, type := .response } } .slStatusCode
  have hq : parseStartToken (p.withText token) = q := by
    rw [← wsb_withText h.s_eq] at hv
    rw [parseStartToken, hv]
    rfl
  have hat : q.At .slStatusCode { out with version := some v, type := .response } u :=
    ⟨rfl, rfl, h.s_eq,
      congrArg (fun o : BasicHeader => { o with version := some v, type := .response }) h.out_eq,
      h.user_eq⟩
  have hstart := reads_startToken (H := H) h hne hsp hlen hq (live_of_st hat.st_eq (by decide))
  obtain ⟨r, hread, hr⟩ := reads_status (H := H) hat hn
  obtain ⟨t, hread', ht⟩ := reads_reason (H := H) hr hlf
  exact ⟨t, (hstart.append hread).append hread', ht⟩

theorem reads_statusLine {p : BasicHeaderParser σ} {out : BasicHeader} {u : σ}
    (h : p.At .start out u) {n : Nat} (hn : n < 2 ^ 31) {reason : List UInt8}
    (hlf : chLf ∉ reason) :
    ∃ q, Reads H p (statusLine n reason) q ∧ q.At .msgHead
      { out with version := some .v11, type := .response, status := UInt32.ofNat n } u :=
  reads_statusLineOf h (by decide) (by decide) (by decide) parseHttpVersionStr_version11 hn hlf

theorem reads_cr {p : BasicHeaderParser σ} {out : BasicHeader} {u : σ} (h : p.At .msgHead out u) :
    Reads H p [chCr] p := by
  have hcr : parseOne H p chCr = p := by
    rw [parseOne, h.st_eq]
    simp only
    rw [parseMessage1, if_neg (by decide), if_pos rfl]
  exact Reads.step hcr (live_of_st h.st_eq (by decide))

theorem parseLoop_end {p : BasicHeaderParser σ} {out : BasicHeader} {u : σ} (h : p.At .msgHead out u)
    (rest : List UInt8) : parseLoop H p (ascii "\r\n" ++ rest) = (2, p.goOn .eoh) := by
  have hlf : parseOne H p chLf = p.goOn .eoh := by
    rw [parseOne, h.st_eq]
    simp only
    rw [parseMessage1, if_neg (by decide), if_neg (by decide), if_pos rfl, if_pos h.l_eq]
  show parseLoop H p ([chCr] ++ (chLf :: rest)) = _
  rw [(reads_cr h).parseLoop, parseLoop_eoh (by rw [hlf]; rfl), hlf]
  rfl

/-- A header whose lines are read, with an empty line behind them. -/
theorem parse_of_reads {p q : BasicHeaderParser σ} {out h' : BasicHeader} {u : σ} {cs : List UInt8}
    (hread : Reads H p.parseInit cs q) (hq : q.At .msgHead out u) (htest : testHeader out = .ok h')
    {reads : List (List UInt8)} {rest : List UInt8} (hne : ∀ r ∈ reads, r ≠ [])
    (hflat : reads.flatten = cs ++ ascii "\r\n" ++ rest) :
    (parse H p reads).ok = true ∧ (parse H p reads).consumed = cs.length + 2 ∧
      (parse H p reads).parser.out = h' ∧ (parse H p reads).parser.user = u := by
  have hstream : parseStream H p.parseInit reads = ⟨true, q.goOn .eoh, cs.length + 2⟩ := by
    rw [parseStream_eq _ p.live_parseInit _ hne, hflat, List.append_assoc, hread.parseLoop,
      parseLoop_end hq]
    rfl
  have hfinish : (q.goOn .eoh).parseFinish = (true, { q.goOn .eoh with out := h' }) := by
    have hout : (q.goOn .eoh).out = out := hq.out_eq
    rw [parseFinish, if_neg (fun hne => hne rfl), hout, htest]
  rw [parse, hstream]
  simp only [if_true, hfinish]
  exact ⟨trivial, trivial, trivial, hq.user_eq⟩

end BasicHeaderParser

end MiMic.Http
