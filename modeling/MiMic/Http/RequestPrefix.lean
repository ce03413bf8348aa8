import MiMic.Http.HeaderLines

/-!
# Requests in two phases

The server reads the method and the front of the URL with `NyLPC_cHttpRequestPrefixParser`,
chooses a module by them, and replays them into the header parser of that module, which then
goes on with the stream.
-/
namespace MiMic.Http

/-- What the URL handler of the prefix parser keeps: the URL so far, and whether it has made the
parser stop. -/
structure HeaderPrefix where
  surl : CStr
  status : Bool

/-- The handlers of the prefix parser. The end of the URL and a full buffer are refused, which
ends the parser without the character. -/
def prefixHandler : HeaderHandler HeaderPrefix where
  messageHandler := none
  urlHandler := some fun s c =>
    if c = 0 then (false, { s with status := true })
    else if s.surl.s - s.surl.l < 1 then (false, { s with status := true })
    else (true, { s with surl := (s.surl.put c).getD s.surl })

/-- `NyLPC_TcHttpRequestPrefixParser` behind a call of `parse`, and how far the stream was read. -/
structure RequestPrefix where
  ok : Bool
  method : Option HttpMethod
  url : List UInt8
  consumed : Nat

open BasicHeaderParser in
/-- `NyLPC_cHttpRequestPrefixParser_parse` with a URL buffer of `maxUrlLen` bytes; `out` is the
header on the stack before it is written. -/
def prefixParse (maxUrlLen : Nat) (out : BasicHeader) (reads : List (List UInt8)) : RequestPrefix :=
  let r := BasicHeaderParser.parseStream prefixHandler
    (ofHandlers out ⟨CStr.ofSize maxUrlLen, false⟩ : BasicHeaderParser HeaderPrefix).parseInit reads
  { ok := r.parser.parseFinish.2.user.status
    method := r.parser.parseFinish.2.out.method
    url := r.parser.parseFinish.2.user.surl.str
    consumed := r.consumed }

namespace BasicHeaderParser

variable {σ : Type}

/-- `NyLPC_cHttpdConnection_pushPrefetchInfo`. No call of `parseChar` returns less than zero. -/
def pushPrefetchInfo (H : HeaderHandler σ) (p : BasicHeaderParser σ) (m : HttpMethod)
    (url : List UInt8) : BasicHeaderParser σ :=
  let p := (parseChar H p m.toString).2
  let p := (parseChar H p [chSpace]).2
  (parseChar H p url).2

/-- A request in two phases: `reads` are the reads of the prefix parser, `reads'` those of the
module's parser behind it. Without a prefix the request is answered with 400. -/
def parseTwoPhase (H : HeaderHandler σ) (maxUrlLen : Nat) (g : BasicHeader) (p : BasicHeaderParser σ)
    (reads reads' : List (List UInt8)) : StreamResult σ :=
  let a := prefixParse maxUrlLen g reads
  match a.ok, a.method with
  | true, some m =>
      let r := parseStream H (pushPrefetchInfo H p.parseInit m a.url) reads'
      let r := if r.ok then ⟨r.parser.parseFinish.1, r.parser.parseFinish.2, r.consumed⟩ else r
      { r with consumed := a.consumed + r.consumed }
  | _, _ => ⟨false, p, a.consumed⟩

end BasicHeaderParser

/-- The first token is a version that the parser takes. -/
def IsStatusLine (s : List UInt8) : Prop :=
  ∃ token rest, s = token ++ chSpace :: rest ∧ chSpace ∉ token ∧ token.length ≤ 31 ∧
    parseHttpVersionStr ⟨31, token.length, token⟩ ≠ none

/-- The front of a URL: spaces, and characters up to a space, a NUL or the end of the buffer. -/
structure UrlFront (room : Nat) (spaces url : List UInt8) : Prop where
  spaces_eq : ∀ c ∈ spaces, c = chSpace
  space : chSpace ∉ url
  nul : ∀ c ∈ url, c ≠ 0
  room : url.length ≤ room

/-- The character at which the prefix parser stops. -/
def StopsUrl (room : Nat) (url : List UInt8) (c : UInt8) : Prop :=
  (c = chSpace ∨ c = 0 ∨ room ≤ url.length) ∧ (url = [] → c ≠ chSpace)

theorem exists_urlFront (room : Nat) (s : List UInt8) :
    ∃ spaces url rest, s = spaces ++ (url ++ rest) ∧ UrlFront room spaces url ∧
      ∀ c cs, rest = c :: cs → StopsUrl room url c := by
  let t := s.dropWhile (· == chSpace)
  let u := t.takeWhile fun c => c != chSpace && c != 0
  have hu : ∀ c ∈ u, c ≠ chSpace ∧ c ≠ 0 := by
    intro c hc
    have h := List.mem_takeWhile_imp hc
    simpa using h
  have ht : t = u.take room ++ (u.drop room ++ t.dropWhile fun c => c != chSpace && c != 0) := by
    rw [← List.append_assoc, List.take_append_drop, List.takeWhile_append_dropWhile]
  refine ⟨s.takeWhile (· == chSpace), u.take room,
    u.drop room ++ t.dropWhile fun c => c != chSpace && c != 0, ?_, ⟨?_, ?_, ?_, ?_⟩, ?_⟩
  · rw [← ht, List.takeWhile_append_dropWhile]
  · intro c hc
    exact beq_iff_eq.mp (List.mem_takeWhile_imp (p := (· == chSpace)) hc)
  · exact fun hm => (hu _ (List.mem_of_mem_take hm)).1 rfl
  · exact fun c hc => (hu c (List.mem_of_mem_take hc)).2
  · exact List.length_take_le ..
  · intro c cs hrest
    have hhead : u.take room = [] → c ≠ chSpace := by
      intro hnil heq
      rw [hnil, List.nil_append, hrest] at ht
      have hs : s.dropWhile (· == chSpace) = c :: cs := ht
      have hne := List.head?_dropWhile_not (· == chSpace) s
      rw [hs] at hne
      simp [heq] at hne
    refine ⟨?_, hhead⟩
    by_cases hroom : room ≤ (u.take room).length
    · exact Or.inr (Or.inr hroom)
    · have hlen : u.length ≤ room := by
        rw [List.length_take] at hroom
        omega
      rw [List.drop_eq_nil_of_le hlen, List.nil_append] at hrest
      have hstop := List.head?_dropWhile_not (fun c => c != chSpace && c != 0) t
      rw [hrest] at hstop
      simp only [List.head?_cons, Bool.and_eq_false_iff, bne_eq_false_iff_eq] at hstop
      rcases hstop with hsp | hnul
      · exact Or.inl hsp
      · exact Or.inr (Or.inl hnul)

theorem not_isStatusLine {s : List UInt8} (h : s.head? ≠ some 0x48) : ¬ IsStatusLine s := by
  intro hline
  obtain ⟨token, rest, hs, -, -, hv⟩ := hline
  apply hv
  cases token with
  | nil => rfl
  | cons c cs =>
    have hc : c ≠ 0x48 := fun heq => h (by rw [hs, heq]; rfl)
    have hstr : (⟨31, (c :: cs).length, c :: cs⟩ : CStr).str.take 5 ≠ ascii "HTTP/" := by
      intro htake
      by_cases h0 : c = 0
      · simp [CStr.str, cString, h0] at htake
        exact absurd htake (by decide)
      · have hhead : ((⟨31, (c :: cs).length, c :: cs⟩ : CStr).str.take 5).head? = some c := by
          simp [CStr.str, cString, h0]
        rw [htake] at hhead
        exact hc (Option.some.inj hhead).symm
    rw [parseHttpVersionStr, if_pos hstr]
    exact ite_self none

namespace BasicHeaderParser

variable {σ : Type} {H : HeaderHandler σ}

section

variable {p : BasicHeaderParser σ}

theorem parseOne_startText (hst : p.st = .start) {c : UInt8} (hc : c ≠ chSpace) (t : List UInt8) :
    parseOne H (p.withText t) c = (p.withText t).put c := by
  rw [parseOne_start (p := p.withText t) hst, parseStartLine, if_neg hc]

theorem reads_startText (hst : p.st = .start) (hs : p.wsb.s = 31) {token : List UInt8}
    (hsp : chSpace ∉ token) (hlen : token.length ≤ 31) :
    Reads H (p.withText []) token (p.withText token) := by
  apply reads_put (live_of_st hst (by decide))
  · intro t' _ c hc
    exact parseOne_startText hst (fun heq => hsp (heq ▸ hc)) t'
  · rw [hs, List.length_nil, Nat.zero_add]
    exact hlen

/-- A token that is too long for the work text. -/
theorem parseLoop_overflow (hst : p.st = .start) (hs : p.wsb.s = 31) {token : List UInt8}
    (hsp : chSpace ∉ token) (hlen : token.length = 31) {c : UInt8} (hc : c ≠ chSpace)
    (rest : List UInt8) :
    parseLoop H (p.withText []) (token ++ c :: rest) = (31, (p.withText token).fail 500) := by
  have hfull : (p.withText token).put c = (p.withText token).fail 500 := by
    have hnone : (p.withText token).wsb.put c = none := by
      rw [wsb_withText hs, CStr.put, if_neg (show ¬ 0 < 31 - token.length by omega)]
    rw [put, hnone]
  have hone : parseOne H (p.withText token) c = (p.withText token).fail 500 := by
    rw [parseOne_startText hst hc, hfull]
  rw [(reads_startText hst hs hsp (by omega)).parseLoop, parseLoop_error (by rw [hone]; rfl), hone,
    hlen]
  rfl

/-- Where a request line goes on behind its method. -/
def urlStart (p : BasicHeaderParser σ) (token : List UInt8) (m : HttpMethod) : BasicHeaderParser σ :=
  goOn { p.withText token with out := { p.out with method := some m, type := .request } } .rlUrl

theorem urlStart_inUrl (hs : p.wsb.s = 31) (token : List UInt8) (m : HttpMethod) :
    (p.urlStart token m).InUrl { p.out with method := some m, type := .request } p.user :=
  ⟨rfl, hs, rfl, rfl⟩

theorem parseOne_startSpace (hst : p.st = .start) (hs : p.wsb.s = 31) {token : List UInt8}
    (hv : parseHttpVersionStr ⟨31, token.length, token⟩ = none) :
    parseOne H (p.withText token) chSpace =
      match parseRequestMethodStr ⟨31, token.length, token⟩ with
      | none => { p.withText token with out := { p.out with method := none } }.fail 400
      | some m => p.urlStart token m := by
  have hv' : parseHttpVersionStr (p.withText token).wsb = none := by rw [wsb_withText hs, hv]
  rw [parseOne_start (p := p.withText token) hst, parseStartLine, if_pos rfl, parseStartToken, hv',
    ← wsb_withText (p := p) hs]
  rfl

theorem parseLoop_badMethod (hst : p.st = .start) (hs : p.wsb.s = 31) {token : List UInt8}
    (hsp : chSpace ∉ token) (hlen : token.length ≤ 31)
    (hv : parseHttpVersionStr ⟨31, token.length, token⟩ = none)
    (hm : parseRequestMethodStr ⟨31, token.length, token⟩ = none) (rest : List UInt8) :
    parseLoop H (p.withText []) (token ++ chSpace :: rest) =
      (token.length, { p.withText token with out := { p.out with method := none } }.fail 400) := by
  have hone := parseOne_startSpace (H := H) hst hs hv
  rw [hm] at hone
  rw [(reads_startText hst hs hsp hlen).parseLoop, parseLoop_error (by rw [hone]; rfl), hone]
  rfl

theorem reads_method (hst : p.st = .start) (hs : p.wsb.s = 31) {token : List UInt8}
    (hsp : chSpace ∉ token) (hlen : token.length ≤ 31)
    (hv : parseHttpVersionStr ⟨31, token.length, token⟩ = none) {m : HttpMethod}
    (hm : parseRequestMethodStr ⟨31, token.length, token⟩ = some m) :
    Reads H (p.withText []) (token ++ [chSpace]) (p.urlStart token m) := by
  have hone := parseOne_startSpace (H := H) hst hs hv
  rw [hm] at hone
  exact (reads_startText hst hs hsp hlen).append
    (Reads.step hone (urlStart_inUrl hs token m).live)

end

section

variable {p : BasicHeaderParser σ} {out : BasicHeader} {u : σ}

theorem reads_urlSpaces (h : p.InUrl out u) (hl : p.wsb.l = 0) {spaces : List UInt8}
    (hsp : ∀ c ∈ spaces, c = chSpace) : Reads H p spaces p := by
  induction spaces with
  | nil => exact Reads.nil h.live
  | cons c cs ih =>
    have hone : parseOne H p c = p := by
      rw [parseOne_url h.st_eq, parseRequestUrl, if_pos ⟨hl, hsp c (List.mem_cons_self ..)⟩]
    exact (Reads.step hone h.live).append (ih fun d hd => hsp d (List.mem_cons_of_mem _ hd))

theorem callUrl_of_refuses {c : UInt8} (h : H.url p.user c = none)
    (k : BasicHeaderParser σ → BasicHeaderParser σ) : (callUrl H p c k).st = .error := by
  unfold HeaderHandler.url at h
  unfold callUrl
  cases hm : H.urlHandler with
  | none =>
    rw [hm] at h
    cases h
  | some f =>
    rw [hm] at h
    simp only at h ⊢
    split at h
    · cases h
    · next hno =>
      rw [if_neg hno]
      rfl

/-- A URL that the handler does not accept ends the parser. -/
theorem parseLoop_urlRefused (h : p.InUrl out u) {url : List UInt8} (hsp : chSpace ∉ url)
    (hcalls : url.foldlM H.url u = none) (rest : List UInt8) :
    (parseLoop H p (url ++ rest)).2.st = .error := by
  induction url generalizing p u with
  | nil => cases hcalls
  | cons c cs ih =>
    have hc : c ≠ chSpace := fun heq => hsp (heq ▸ List.mem_cons_self ..)
    rw [List.foldlM_cons] at hcalls
    rw [List.cons_append]
    cases hu : H.url u c with
    | none =>
      have hone : (parseOne H p c).st = .error := by
        obtain ⟨wsb, hmark, -, -⟩ := p.mark_cases (by rw [h.s_eq]; decide)
        rw [← h.user_eq] at hu
        rw [parseOne_url h.st_eq, parseRequestUrl, if_neg (fun hh => hc hh.2), if_neg hc, hmark]
        exact callUrl_of_refuses (p := { p with wsb := wsb }) hu id
      rw [parseLoop_error hone]
      exact hone
    | some u₁ =>
      rw [hu] at hcalls
      obtain ⟨hone, -⟩ := url_char h hc hu
      rw [parseLoop_live hone.live]
      exact ih hone (fun hm => hsp (List.mem_cons_of_mem _ hm)) hcalls

/-- At the beginning of the URL the work text is empty, and what it held is not seen. -/
theorem parseLoop_freshUrl (h : p.InUrl out u) (hl : p.wsb.l = 0) (buf : List UInt8) {c : UInt8}
    (hc : c ≠ chSpace) (cs : List UInt8) :
    parseLoop H { p with wsb := { p.wsb with buf := buf } } (c :: cs) = parseLoop H p (c :: cs) := by
  have hput : ∀ buf, ({ p.wsb with buf := buf } : CStr).put 0x43 = some ⟨31, 1, [0x43]⟩ := by
    intro buf
    rw [CStr.put, if_pos (show 0 < p.wsb.s - p.wsb.l by rw [h.s_eq, hl]; decide), hl, h.s_eq]
    rfl
  have hone : parseOne H { p with wsb := { p.wsb with buf := buf } } c = parseOne H p c := by
    have hst : ({ p with wsb := { p.wsb with buf := buf } } : BasicHeaderParser σ).st = .rlUrl :=
      h.st_eq
    have hmark : ({ p with wsb := { p.wsb with buf := buf } } : BasicHeaderParser σ).mark = p.mark := by
      have hp : p.wsb.put 0x43 = some ⟨31, 1, [0x43]⟩ := hput p.wsb.buf
      rw [mark, mark, if_pos hl, if_pos (show _ = 0 from hl), hput, hp]
      rfl
    have hurl : ∀ q : BasicHeaderParser σ, parseRequestUrl H q c = callUrl H q.mark c id := by
      intro q
      rw [parseRequestUrl, if_neg (fun hh => hc hh.2), if_neg hc]
    rw [parseOne_url hst, parseOne_url h.st_eq, hurl, hurl, hmark]
  rw [parseLoop, parseLoop, hone]

end

theorem parseFinish_kept (p : BasicHeaderParser σ) :
    p.parseFinish.2.user = p.user ∧ p.parseFinish.2.out.method = p.out.method := by
  have htest : ∀ h h' : BasicHeader, testHeader h = .ok h' → h'.method = h.method := by
    intro h h' ht
    unfold testHeader at ht
    repeat' split at ht
    all_goals cases ht <;> rfl
  unfold parseFinish
  split
  · exact ⟨rfl, rfl⟩
  · split
    · exact ⟨rfl, rfl⟩
    · next h' ht => exact ⟨rfl, htest _ _ ht⟩

section

variable {σ : Type} {H : HeaderHandler σ} {p : BasicHeaderParser σ}

/-- The first token is a method. -/
structure IsMethodToken (token : List UInt8) (m : HttpMethod) : Prop where
  space : chSpace ∉ token
  length_le : token.length ≤ 31
  not_version : parseHttpVersionStr ⟨31, token.length, token⟩ = none
  method : parseRequestMethodStr ⟨31, token.length, token⟩ = some m

/-- The stream has no URL: every parser gives up or goes on waiting at its `n`th character, and
calls no handler. -/
def NoUrl (s : List UInt8) (n : Nat) : Prop :=
  ∀ {σ : Type} (H : HeaderHandler σ) (p : BasicHeaderParser σ), p.st = .start → p.wsb.s = 31 →
    (parseLoop H (p.withText []) s).1 = n ∧ (parseLoop H (p.withText []) s).2.st ≠ .eoh ∧
      (parseLoop H (p.withText []) s).2.user = p.user

theorem request_cases (room : Nat) (s : List UInt8) (hreq : ¬ IsStatusLine s) :
    (∃ n, NoUrl s n) ∨ ∃ token m spaces url rest, IsMethodToken token m ∧
      UrlFront room spaces url ∧ (∀ c cs, rest = c :: cs → StopsUrl room url c) ∧
      s = token ++ chSpace :: (spaces ++ (url ++ rest)) := by
  let t := s.takeWhile (· != chSpace)
  have hsp : chSpace ∉ t := fun hm => absurd (List.mem_takeWhile_imp hm) (by simp)
  have hs : s = t ++ s.dropWhile (· != chSpace) := (List.takeWhile_append_dropWhile ..).symm
  by_cases hlen : t.length ≤ 31
  · cases hrest : s.dropWhile (· != chSpace) with
    | nil =>
      rw [hrest, List.append_nil] at hs
      refine Or.inl ⟨t.length, fun H p hst hw => ?_⟩
      have hread := reads_startText (H := H) hst hw hsp hlen
      rw [hs, hread.1]
      exact ⟨rfl, hread.2.2, rfl⟩
    | cons c rest =>
      have hc : c = chSpace := by
        have hhead := List.head?_dropWhile_not (· != chSpace) s
        rw [hrest] at hhead
        simpa using hhead
      rw [hrest, hc] at hs
      have hv : parseHttpVersionStr ⟨31, t.length, t⟩ = none := by
        by_contra hne
        exact hreq ⟨t, rest, hs, hsp, hlen, hne⟩
      cases hm : parseRequestMethodStr ⟨31, t.length, t⟩ with
      | none =>
        refine Or.inl ⟨t.length, fun H p hst hw => ?_⟩
        rw [hs, parseLoop_badMethod hst hw hsp hlen hv hm]
        exact ⟨rfl, (fun h => nomatch h), rfl⟩
      | some m =>
        obtain ⟨spaces, url, rest', hrest', hfront, hstop⟩ := exists_urlFront room rest
        exact Or.inr ⟨t, m, spaces, url, rest', ⟨hsp, hlen, hv, hm⟩, hfront, hstop, hrest' ▸ hs⟩
  · -- the token goes on behind the 31 characters of the work text
    have hdrop : t.drop 31 ≠ [] := fun hnil => hlen (List.drop_eq_nil_iff.mp hnil)
    obtain ⟨c, cs, hcs⟩ := List.exists_cons_of_ne_nil hdrop
    have hmem : c ∈ t := List.mem_of_mem_drop (hcs ▸ List.mem_cons_self ..)
    have hc : c ≠ chSpace := fun heq => hsp (heq ▸ hmem)
    have htake : (t.take 31).length = 31 := by
      rw [List.length_take]
      omega
    have hsplit : s = t.take 31 ++ c :: (cs ++ s.dropWhile (· != chSpace)) := by
      rw [← List.cons_append, ← hcs, ← List.append_assoc, List.take_append_drop]
      exact hs
    refine Or.inl ⟨31, fun H p hst hw => ?_⟩
    rw [hsplit, parseLoop_overflow hst hw (fun hm => hsp (List.mem_of_mem_take hm)) htake hc]
    exact ⟨rfl, (fun h => nomatch h), rfl⟩

/-- The run from the first character of the stream to the first one of the URL. -/
theorem reads_front (hst : p.st = .start) (hs : p.wsb.s = 31) {token : List UInt8} {m : HttpMethod}
    (htoken : IsMethodToken token m) {spaces : List UInt8} (hsp : ∀ c ∈ spaces, c = chSpace) :
    Reads H (p.withText []) (token ++ chSpace :: spaces) (p.urlStart token m) := by
  have hmethod := reads_method (H := H) hst hs htoken.space htoken.length_le htoken.not_version
    htoken.method
  have hall := hmethod.append (reads_urlSpaces (urlStart_inUrl hs token m) rfl hsp)
  rw [List.append_assoc, List.singleton_append] at hall
  exact hall

/-- A method reads as itself. -/
theorem isMethodToken_toString (m : HttpMethod) : IsMethodToken m.toString m := by
  obtain ⟨-, hsp, hlen, hv, hm⟩ := method_token m
  exact ⟨hsp, hlen, hv, hm⟩

/-- A URL is read the same behind each way to write the method. -/
theorem parseLoop_urlStart (hs : p.wsb.s = 31) (token : List UInt8) (m : HttpMethod) {c : UInt8}
    (hc : c ≠ chSpace) (cs : List UInt8) :
    parseLoop H (p.urlStart token m) (c :: cs) = parseLoop H (p.urlStart m.toString m) (c :: cs) :=
  parseLoop_freshUrl (urlStart_inUrl hs m.toString m) rfl token hc cs

theorem parseChar_of_live (hp : p.Live) (cs : List UInt8) : parseChar H p cs = parseLoop H p cs :=
  if_neg hp.1

theorem pushPrefetchInfo_eq (hst : p.st = .start) (hs : p.wsb.s = 31) (m : HttpMethod)
    (url : List UInt8) :
    pushPrefetchInfo H (p.withText []) m url = (parseLoop H (p.urlStart m.toString m) url).2 := by
  have hm := isMethodToken_toString m
  have htext := reads_startText (H := H) hst hs hm.space hm.length_le
  have hspace : parseOne H (p.withText m.toString) chSpace = p.urlStart m.toString m := by
    rw [parseOne_startSpace hst hs hm.not_version, hm.method]
  have hstep := Reads.step hspace (urlStart_inUrl hs m.toString m).live
  have hlive : (p.withText []).Live := live_of_st hst (by decide)
  have hchars : (parseChar H (p.withText []) m.toString).2 = p.withText m.toString := by
    rw [parseChar_of_live hlive, htext.1]
  have hurl : (parseChar H (p.withText m.toString) [chSpace]).2 = p.urlStart m.toString m := by
    rw [parseChar_of_live htext.2, hstep.1]
  rw [pushPrefetchInfo, hchars, hurl, parseChar_of_live hstep.2]

end

/-- The buffer of the prefix parser with `url` in it. -/
def collected (room : Nat) (url : List UInt8) (status : Bool) : HeaderPrefix :=
  ⟨⟨room, url.length, url⟩, status⟩

theorem prefix_url {room : Nat} {t : List UInt8} {c : UInt8} (hc : c ≠ 0) (hroom : t.length < room) :
    prefixHandler.url (collected room t false) c = some (collected room (t ++ [c]) false) := by
  have hput : (collected room t false).surl.put c = some (collected room (t ++ [c]) false).surl := by
    simp only [collected, CStr.put, List.take_length, List.length_append, List.length_singleton]
    rw [if_pos (Nat.sub_pos_of_lt hroom)]
  have hspace : ¬ (collected room t false).surl.s - (collected room t false).surl.l < 1 := by
    show ¬ room - t.length < 1
    omega
  rw [HeaderHandler.url, prefixHandler]
  simp only
  rw [if_neg hc, if_neg hspace, hput]
  rfl

theorem prefix_collects {room : Nat} {t url : List UInt8} (hnul : ∀ c ∈ url, c ≠ 0)
    (hroom : t.length + url.length ≤ room) :
    url.foldlM prefixHandler.url (collected room t false) =
      some (collected room (t ++ url) false) := by
  induction url generalizing t with
  | nil => rw [List.append_nil, List.foldlM_nil, Option.pure_def]
  | cons c cs ih =>
    rw [List.length_cons] at hroom
    have hlen : (t ++ [c]).length = t.length + 1 := by
      rw [List.length_append, List.length_singleton]
    rw [List.foldlM_cons, prefix_url (hnul c (List.mem_cons_self ..)) (by omega), Option.bind_eq_bind,
      Option.bind_some, ih (fun d hd => hnul d (List.mem_cons_of_mem _ hd)) (by omega),
      List.append_assoc, List.singleton_append]

theorem callUrl_prefixStops {p : BasicHeaderParser HeaderPrefix} {room : Nat} {url : List UInt8}
    (hu : p.user = collected room url false) {c : UInt8} (hc : c = 0 ∨ room ≤ url.length)
    (k : BasicHeaderParser HeaderPrefix → BasicHeaderParser HeaderPrefix) :
    callUrl prefixHandler p c k = { p with user := collected room url true }.fail 500 := by
  rw [callUrl, prefixHandler]
  simp only
  rw [hu]
  by_cases h0 : c = 0
  · rw [if_pos h0]
    rfl
  · have hfull : (collected room url false).surl.s - (collected room url false).surl.l < 1 := by
      show room - url.length < 1
      have := hc.resolve_left h0
      omega
    rw [if_neg h0, if_pos hfull]
    rfl

/-- The parser ends at the first character that is not kept. -/
theorem parseOne_prefixStops {p : BasicHeaderParser HeaderPrefix} {out : BasicHeader} {room : Nat}
    {url : List UInt8} (h : p.InUrl out (collected room url false)) (hl : url ≠ [] → p.wsb.l ≠ 0)
    {c : UInt8} (hstop : StopsUrl room url c) :
    (parseOne prefixHandler p c).st = .error ∧ (parseOne prefixHandler p c).out = out ∧
      (parseOne prefixHandler p c).user = collected room url true := by
  rw [parseOne_url h.st_eq, parseRequestUrl]
  by_cases hc : c = chSpace
  · have hne : url ≠ [] := fun hnil => hstop.2 hnil hc
    rw [if_neg (fun hh => hl hne hh.1), if_pos hc,
      callUrl_prefixStops (p := { p with wsb := p.wsb.clear }) h.user_eq (Or.inl rfl)]
    exact ⟨rfl, h.out_eq, rfl⟩
  · obtain ⟨wsb, hmark, -, -⟩ := p.mark_cases (by rw [h.s_eq]; decide)
    rw [if_neg (fun hh => hc hh.2), if_neg hc, hmark,
      callUrl_prefixStops (p := { p with wsb := wsb }) h.user_eq (hstop.1.resolve_left hc)]
    exact ⟨rfl, h.out_eq, rfl⟩

section

variable {maxUrlLen : Nat} {g : BasicHeader} {reads : List (List UInt8)}

/-- The prefix parser before the first character. -/
def prefixStart (maxUrlLen : Nat) (g : BasicHeader) : BasicHeaderParser HeaderPrefix :=
  (ofHandlers g (collected (maxUrlLen - 1) [] false)).parseInit

theorem prefixParse_eq (hne : ∀ r ∈ reads, r ≠ []) :
    prefixParse maxUrlLen g reads =
      let r := parseLoop prefixHandler ((prefixStart maxUrlLen g).withText []) reads.flatten
      ⟨r.2.user.status, r.2.out.method, r.2.user.surl.str, r.1⟩ := by
  have hstream := parseStream_eq (H := prefixHandler) (prefixStart maxUrlLen g)
    (live_parseInit _) reads hne
  have hkept := parseFinish_kept (parseLoop prefixHandler (prefixStart maxUrlLen g) reads.flatten).2
  rw [prefixParse]
  show (let r := parseStream prefixHandler (prefixStart maxUrlLen g) reads
    (⟨r.parser.parseFinish.2.user.status, r.parser.parseFinish.2.out.method,
      r.parser.parseFinish.2.user.surl.str, r.consumed⟩ : RequestPrefix)) = _
  rw [hstream]
  simp only [streamResult]
  rw [hkept.1, hkept.2]
  rfl

theorem prefixParse_noUrl (hne : ∀ r ∈ reads, r ≠ []) {n : Nat} (h : NoUrl reads.flatten n) :
    (prefixParse maxUrlLen g reads).ok = false ∧ (prefixParse maxUrlLen g reads).consumed = n := by
  obtain ⟨hn, -, hu⟩ := h prefixHandler (prefixStart maxUrlLen g) rfl rfl
  rw [prefixParse_eq hne]
  exact ⟨congrArg HeaderPrefix.status hu, hn⟩

/-- The prefix parser on a stream with a URL. -/
theorem prefixParse_url (hne : ∀ r ∈ reads, r ≠ []) {token spaces url rest : List UInt8}
    {m : HttpMethod} (htoken : IsMethodToken token m) (hurl : UrlFront (maxUrlLen - 1) spaces url)
    (hstop : ∀ c cs, rest = c :: cs → StopsUrl (maxUrlLen - 1) url c)
    (hflat : reads.flatten = token ++ chSpace :: (spaces ++ (url ++ rest))) :
    prefixParse maxUrlLen g reads =
      ⟨!rest.isEmpty, some m, url, (token ++ chSpace :: spaces).length + url.length⟩ := by
  have hfront := reads_front (H := prefixHandler) (p := prefixStart maxUrlLen g) rfl rfl htoken
    hurl.spaces_eq
  have hcalls : url.foldlM prefixHandler.url (prefixStart maxUrlLen g).user =
      some (collected (maxUrlLen - 1) url false) :=
    prefix_collects (t := []) hurl.nul (by rw [List.length_nil, Nat.zero_add]; exact hurl.room)
  obtain ⟨q, hread, hq, hl⟩ := reads_urlChars (urlStart_inUrl rfl token m) hurl.space hcalls
  have hstr : (collected (maxUrlLen - 1) url false).surl.str = url := cString_of_ne_zero hurl.nul
  have hsplit : token ++ chSpace :: (spaces ++ (url ++ rest)) =
      (token ++ chSpace :: spaces) ++ (url ++ rest) := by
    rw [List.append_assoc, List.cons_append]
  rw [prefixParse_eq hne, hflat, hsplit, hfront.parseLoop, hread.parseLoop]
  cases rest with
  | nil =>
    simp only [parseLoop, hq.user_eq, hq.out_eq, hstr]
    rfl
  | cons c cs =>
    obtain ⟨he, hout, huser⟩ := parseOne_prefixStops hq hl (hstop c cs rfl)
    rw [parseLoop_error he]
    simp only [hout, huser]
    refine congrArg₂ (fun u n => RequestPrefix.mk true (some m) u n) hstr rfl

end

section

variable {σ : Type} {H : HeaderHandler σ} {p : BasicHeaderParser σ}

/-- A parser that has refused a character stays where it is. -/
theorem parseStream_error (hp : p.st = .error) (reads : List (List UInt8)) :
    parseStream H p reads = ⟨false, p, 0⟩ := by
  cases reads with
  | nil => rfl
  | cons r rs =>
    have hchar : parseChar H p r = (0, p) := if_pos hp
    by_cases hr : r = []
    · rw [parseStream, if_pos hr]
    · rw [parseStream, if_neg hr, hchar, if_pos hp]

/-- `parseFinish` behind a stream that was read to its end. -/
def finishStream (r : StreamResult σ) : StreamResult σ :=
  if r.ok then ⟨r.parser.parseFinish.1, r.parser.parseFinish.2, r.consumed⟩ else r

/-- `parseFinish` refuses by itself what is not complete. -/
theorem finishStream_eq (r : Nat × BasicHeaderParser σ) :
    finishStream (streamResult r) = ⟨r.2.parseFinish.1, r.2.parseFinish.2, r.1⟩ := by
  by_cases h : r.2.st = .eoh
  · rw [streamResult, decide_eq_true h]
    rfl
  · rw [streamResult, decide_eq_false h, parseFinish, if_pos h]
    rfl

theorem finishStream_refused {r : Nat × BasicHeaderParser σ} (h : r.2.st ≠ .eoh) :
    finishStream (streamResult r) = ⟨false, r.2, r.1⟩ := by
  rw [finishStream_eq, parseFinish, if_pos h]

theorem parse_eq_finish (reads : List (List UInt8)) (hne : ∀ r ∈ reads, r ≠ []) :
    parse H p reads = finishStream (streamResult (parseLoop H p.parseInit reads.flatten)) := by
  rw [parse, parseStream_eq _ p.live_parseInit _ hne]
  rfl

/-- One phase on a stream with a URL. -/
theorem parse_url {reads : List (List UInt8)} (hne : ∀ r ∈ reads, r ≠ [])
    (hst : p.parseInit.withText [] = p.parseInit) (hs : p.wsb.s = 31)
    {token spaces url rest : List UInt8} {m : HttpMethod} (htoken : IsMethodToken token m)
    (hsp : ∀ c ∈ spaces, c = chSpace) (hhead : ∀ c cs, url ++ rest = c :: cs → c ≠ chSpace)
    (hnil : url ++ rest ≠ [])
    (hflat : reads.flatten = token ++ chSpace :: (spaces ++ (url ++ rest))) :
    parse H p reads = finishStream (streamResult
      ((token ++ chSpace :: spaces).length +
          (parseLoop H (p.parseInit.urlStart m.toString m) (url ++ rest)).1,
        (parseLoop H (p.parseInit.urlStart m.toString m) (url ++ rest)).2)) := by
  have hfront := reads_front (H := H) (p := p.parseInit) rfl hs htoken hsp
  have hsplit : token ++ chSpace :: (spaces ++ (url ++ rest)) =
      (token ++ chSpace :: spaces) ++ (url ++ rest) := by
    rw [List.append_assoc, List.cons_append]
  obtain ⟨c, cs, hcs⟩ := List.exists_cons_of_ne_nil hnil
  have hsame := parseLoop_urlStart (H := H) (p := p.parseInit) hs token m (hhead c cs hcs) cs
  rw [← hcs] at hsame
  rw [parse_eq_finish reads hne, hflat, hsplit, ← hst, hfront.parseLoop, hst, hsame]

/-- One phase on a stream that ends inside the URL. -/
theorem parse_urlOpen {reads : List (List UInt8)} (hne : ∀ r ∈ reads, r ≠ [])
    (hst : p.parseInit.withText [] = p.parseInit) (hs : p.wsb.s = 31)
    {token spaces url : List UInt8} {m : HttpMethod} (htoken : IsMethodToken token m)
    (hsp : ∀ c ∈ spaces, c = chSpace) (hurl : chSpace ∉ url)
    (hflat : reads.flatten = token ++ chSpace :: (spaces ++ url)) :
    (parse H p reads).ok = false ∧ (url.foldlM H.url p.user ≠ none →
      (parse H p reads).consumed = (token ++ chSpace :: spaces).length + url.length) := by
  have hfront := reads_front (H := H) (p := p.parseInit) rfl hs htoken hsp
  have hin := urlStart_inUrl (p := p.parseInit) hs token m
  have hsplit : token ++ chSpace :: (spaces ++ url) = (token ++ chSpace :: spaces) ++ url := by
    rw [List.append_assoc, List.cons_append]
  rw [parse_eq_finish reads hne, hflat, hsplit, ← hst, hfront.parseLoop]
  cases hcalls : url.foldlM H.url p.user with
  | none =>
    have herr : (parseLoop H (p.parseInit.urlStart token m) url).2.st = .error := by
      have h0 := parseLoop_urlRefused hin hurl hcalls []
      rwa [List.append_nil] at h0
    rw [finishStream_refused (by rw [herr]; decide)]
    exact ⟨rfl, fun hne => absurd rfl hne⟩
  | some u' =>
    obtain ⟨q, hread, hq, -⟩ := reads_urlChars hin hurl hcalls
    rw [hread.1, finishStream_refused (by rw [hq.st_eq]; decide)]
    exact ⟨rfl, fun _ => rfl⟩

/-- The parser that the prefix was replayed into goes on as if it had read the URL itself. -/
theorem parseStream_replayed {out : BasicHeader} {u : σ} (h : p.InUrl out u) {url rest : List UInt8}
    (hsp : chSpace ∉ url) {reads : List (List UInt8)} (hne : ∀ r ∈ reads, r ≠ [])
    (hflat : reads.flatten = rest) :
    ∃ k, parseStream H (parseLoop H p url).2 reads =
        streamResult (k, (parseLoop H p (url ++ rest)).2) ∧
      (url.foldlM H.url u ≠ none → (parseLoop H p (url ++ rest)).1 = url.length + k) := by
  cases hcalls : url.foldlM H.url u with
  | none =>
    have herr : (parseLoop H p url).2.st = .error := by
      have h0 := parseLoop_urlRefused h hsp hcalls []
      rwa [List.append_nil] at h0
    have hall : parseLoop H p (url ++ rest) = parseLoop H p url := by
      rcases parseLoop_cases (H := H) p h.live url with hread | ⟨-, hall⟩
      · exact absurd herr hread.2.1
      · exact hall rest
    refine ⟨0, ?_, fun hne => absurd rfl hne⟩
    rw [parseStream_error herr, hall, streamResult, herr]
    rfl
  | some u' =>
    obtain ⟨q, hread, hq, -⟩ := reads_urlChars h hsp hcalls
    refine ⟨(parseLoop H q rest).1, ?_, fun _ => ?_⟩
    · rw [hread.1, parseStream_eq q hread.2 reads hne, hflat, hread.parseLoop]
    · rw [hread.parseLoop]

theorem parseTwoPhase_noPrefix {maxUrlLen : Nat} {g : BasicHeader} {reads : List (List UInt8)}
    (h : (prefixParse maxUrlLen g reads).ok = false) (reads' : List (List UInt8)) :
    parseTwoPhase H maxUrlLen g p reads reads' =
      ⟨false, p, (prefixParse maxUrlLen g reads).consumed⟩ := by
  rw [parseTwoPhase]
  simp only [h]

theorem parseTwoPhase_prefix {maxUrlLen : Nat} {g : BasicHeader} {reads : List (List UInt8)}
    {m : HttpMethod} {url : List UInt8} {n : Nat}
    (h : prefixParse maxUrlLen g reads = ⟨true, some m, url, n⟩) (reads' : List (List UInt8)) :
    parseTwoPhase H maxUrlLen g p reads reads' =
      let r := finishStream (parseStream H (pushPrefetchInfo H p.parseInit m url) reads')
      { r with consumed := n + r.consumed } := by
  rw [parseTwoPhase]
  simp only [h]
  rfl

end

end BasicHeaderParser

open BasicHeaderParser

/-- A request in two phases is accepted or refused as in one. Accepted, it gives the same header,
the same calls and the same number of bytes. Refused behind a prefix, the parser is the same; the
bytes are the same too unless a handler refuses a character that the prefix parser has already
taken. -/
theorem two_phase_agrees {σ : Type} (H : HeaderHandler σ) (g out : BasicHeader) (u : σ)
    (maxUrlLen : Nat) {reads reads' : List (List UInt8)} (hne : ∀ r ∈ reads, r ≠ [])
    (hne' : ∀ r ∈ reads', r ≠ [])
    (hrest : reads'.flatten = reads.flatten.drop (prefixParse maxUrlLen g reads).consumed)
    (hreq : ¬ IsStatusLine reads.flatten) :
    let one := parse H (ofHandlers out u) reads
    let two := parseTwoPhase H maxUrlLen g (ofHandlers out u) reads reads'
    let a := prefixParse maxUrlLen g reads
    two.ok = one.ok ∧ (one.ok = true → two = one) ∧
      (a.ok = true → two.parser = one.parser) ∧
      (a.url.foldlM H.url u ≠ none → two.consumed = one.consumed) := by
  rcases request_cases (maxUrlLen - 1) reads.flatten hreq with
    ⟨n, hno⟩ | ⟨token, m, spaces, url, rest, htoken, hurl, hstop, hflat⟩
  · obtain ⟨hok, hn⟩ := @prefixParse_noUrl maxUrlLen g reads hne n hno
    obtain ⟨hcount, heoh, -⟩ := hno H (ofHandlers out u).parseInit rfl rfl
    have hone : parse H (ofHandlers out u) reads =
        ⟨false, (parseLoop H ((ofHandlers out u).parseInit.withText []) reads.flatten).2, n⟩ := by
      rw [parse_eq_finish reads hne, ← hcount]
      exact finishStream_refused heoh
    simp only [parseTwoPhase_noPrefix hok, hone, hok, hn]
    exact ⟨trivial, (fun h => nomatch h), (fun h => nomatch h), fun _ => trivial⟩
  · have ha := prefixParse_url (g := g) hne htoken hurl hstop hflat
    cases rest with
    | nil =>
      rw [List.append_nil] at hflat
      obtain ⟨hok, hcount⟩ := parse_urlOpen (H := H) (p := ofHandlers out u) hne rfl rfl htoken
        hurl.spaces_eq hurl.space hflat
      have hno : (prefixParse maxUrlLen g reads).ok = false := by rw [ha]; rfl
      simp only [parseTwoPhase_noPrefix hno, hok, ha]
      exact ⟨trivial, (fun h => nomatch h), (fun h => nomatch h), fun hcalls => (hcount hcalls).symm⟩
    | cons c cs =>
      have hhead : ∀ d ds, url ++ c :: cs = d :: ds → d ≠ chSpace := by
        intro d ds heq
        cases url with
        | nil =>
          obtain rfl := (List.cons.inj heq).1
          exact (hstop c cs rfl).2 rfl
        | cons e es =>
          obtain rfl := (List.cons.inj heq).1
          exact fun hc => hurl.space (hc ▸ List.mem_cons_self ..)
      have hone := parse_url (H := H) (p := ofHandlers out u) hne rfl rfl htoken hurl.spaces_eq
        hhead (by simp) hflat
      have hreads' : reads'.flatten = c :: cs := by
        have hlen : (token ++ chSpace :: spaces).length + url.length =
            ((token ++ chSpace :: spaces) ++ url).length := (List.length_append ..).symm
        have hsplit : token ++ chSpace :: (spaces ++ (url ++ c :: cs)) =
            ((token ++ chSpace :: spaces) ++ url) ++ c :: cs := by
          simp only [List.append_assoc, List.cons_append]
        rw [hrest, ha, hflat, hlen, hsplit]
        exact List.drop_left' rfl
      have hin := urlStart_inUrl (p := (ofHandlers out u).parseInit) rfl m.toString m
      obtain ⟨k, hstream, hk⟩ := parseStream_replayed (H := H) hin hurl.space hne' hreads'
      have hpush : pushPrefetchInfo H (ofHandlers out u).parseInit m url =
          (parseLoop H ((ofHandlers out u).parseInit.urlStart m.toString m) url).2 :=
        pushPrefetchInfo_eq (p := (ofHandlers out u).parseInit) rfl rfl m url
      have htwo := parseTwoPhase_prefix (H := H) (p := ofHandlers out u) ha reads'
      rw [hpush, hstream, finishStream_eq] at htwo
      rw [finishStream_eq] at hone
      have hcount : url.foldlM H.url u ≠ none →
          (token ++ chSpace :: spaces).length + url.length + k =
            (token ++ chSpace :: spaces).length + (parseLoop H
              ((ofHandlers out u).parseInit.urlStart m.toString m) (url ++ c :: cs)).1 := by
        intro hcalls
        rw [hk hcalls, Nat.add_assoc]
      simp only [htwo, hone, ha]
      refine ⟨trivial, fun hok => ?_, fun _ => trivial, hcount⟩
      rw [hcount]
      intro hcalls
      have herr := parseLoop_urlRefused hin hurl.space hcalls (c :: cs)
      rw [parseFinish, if_pos (by rw [herr]; decide)] at hok
      exact absurd hok Bool.false_ne_true

/-- A POST whose URL does not fit the prefix, cut inside the method and inside the URL. -/
theorem two_phase_agrees_post :
    ¬ IsStatusLine (ascii "POST /rpc HTTP/1.1\r\n\r\n") ∧
    parseTwoPhase noteHandler 3 zeroHeader (ofHandlers zeroHeader ([], []))
        [ascii "PO", ascii "ST /r", ascii "pc HTTP/1.1\r\n\r\n"]
        [ascii "p", ascii "c HTTP/1.1\r\n\r\n"] =
      parse noteHandler (ofHandlers zeroHeader ([], []))
        [ascii "PO", ascii "ST /r", ascii "pc HTTP/1.1\r\n\r\n"] := by
  have hreq : ¬ IsStatusLine (ascii "POST /rpc HTTP/1.1\r\n\r\n") := not_isStatusLine (by decide)
  have h := @two_phase_agrees _ noteHandler zeroHeader zeroHeader ([], []) 3
    [ascii "PO", ascii "ST /r", ascii "pc HTTP/1.1\r\n\r\n"]
    [ascii "p", ascii "c HTTP/1.1\r\n\r\n"] (by decide) (by decide) (by decide +kernel) hreq
  exact ⟨hreq, h.2.1 (by decide +kernel)⟩

/-- A module whose URLs have one character. -/
def oneCharUrl : HeaderHandler Nat where
  messageHandler := none
  urlHandler := some fun n _ => (decide (n < 1), n + 1)

/-- The prefix parser has taken the whole URL when the module refuses its second character. -/
theorem not_two_phase_agrees :
    ¬ ∀ (H : HeaderHandler Nat) (u : Nat) (reads reads' : List (List UInt8)),
      (∀ r ∈ reads, r ≠ []) → (∀ r ∈ reads', r ≠ []) → ¬ IsStatusLine reads.flatten →
      reads'.flatten = reads.flatten.drop (prefixParse 32 zeroHeader reads).consumed →
      (parseTwoPhase H 32 zeroHeader (ofHandlers zeroHeader u) reads reads').consumed =
        (parse H (ofHandlers zeroHeader u) reads).consumed := by
  intro h
  have hsame := h oneCharUrl 0 [ascii "GET /abc HTTP/1.1\r\n\r\n"] [ascii " HTTP/1.1\r\n\r\n"]
    (by decide) (by decide) (not_isStatusLine (by decide)) (by decide +kernel)
  exact absurd hsame (by decide +kernel)

end MiMic.Http
