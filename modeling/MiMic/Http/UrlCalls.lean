import MiMic.Http.RequestPrefix

/-!
# The URL of a module's request

Modules that look at the URL only give a URL handler to the header parser and no message handler.
It is called for the characters of the URL and for the NUL behind them, whether they were replayed
or came from the stream, until it refuses one.
-/
namespace MiMic.Http

variable {σ : Type}

/-- Handlers as the modules define them: `{NULL, urlHandler}`. -/
def urlOnly (f : σ → UInt8 → Bool × σ) : HeaderHandler σ := ⟨none, some f⟩

/-- The calls of a URL handler up to the first that it refuses. -/
def runUrl (f : σ → UInt8 → Bool × σ) : σ → List UInt8 → Bool × σ
  | u, [] => (true, u)
  | u, c :: cs => if (f u c).1 then runUrl f (f u c).2 cs else (false, (f u c).2)

/-- A request behind its prefix parser: what was taken of its URL, and the reads that follow. The
URL ends at a space. -/
structure UrlRequest (url pushed : List UInt8) (reads : List (List UInt8)) : Prop where
  ne_nil : url ≠ []
  space : chSpace ∉ url
  front : pushed <+: url
  read_ne_nil : ∀ r ∈ reads, r ≠ []
  stream : ∃ rest, pushed ++ reads.flatten = url ++ chSpace :: rest

open BasicHeaderParser in
/-- The header parser of a module: the prefix is replayed, the stream is read, and the header is
looked at. -/
def moduleParse (f : σ → UInt8 → Bool × σ) (out : BasicHeader) (u : σ) (m : HttpMethod)
    (pushed : List UInt8) (reads : List (List UInt8)) : StreamResult σ :=
  finishStream (BasicHeaderParser.parseStream (urlOnly f)
    (pushPrefetchInfo (urlOnly f) (ofHandlers out u).parseInit m pushed) reads)

theorem runUrl_nil (f : σ → UInt8 → Bool × σ) (u : σ) : runUrl f u [] = (true, u) := rfl

theorem runUrl_step (f : σ → UInt8 → Bool × σ) (u : σ) (c : UInt8) (cs : List UInt8) :
    runUrl f u (c :: cs) = if (f u c).1 then runUrl f (f u c).2 cs else (false, (f u c).2) := rfl

theorem runUrl_cons {f : σ → UInt8 → Bool × σ} {u u' : σ} {c : UInt8} (h : f u c = (true, u'))
    (cs : List UInt8) : runUrl f u (c :: cs) = runUrl f u' cs := by
  rw [runUrl_step, h, if_pos rfl]

theorem runUrl_refused {f : σ → UInt8 → Bool × σ} {u u' : σ} {c : UInt8} (h : f u c = (false, u'))
    (cs : List UInt8) : runUrl f u (c :: cs) = (false, u') := by
  rw [runUrl_step, h, if_neg Bool.false_ne_true]

theorem runUrl_append (f : σ → UInt8 → Bool × σ) (u : σ) (cs ds : List UInt8) :
    runUrl f u (cs ++ ds) =
      if (runUrl f u cs).1 then runUrl f (runUrl f u cs).2 ds else runUrl f u cs := by
  induction cs generalizing u with
  | nil => rw [List.nil_append, runUrl_nil, if_pos rfl]
  | cons c cs ih =>
    rw [List.cons_append, runUrl_step, runUrl_step]
    split
    · exact ih _
    · rw [if_neg Bool.false_ne_true]

/-- A handler that counts up to zero passes over as many characters. -/
theorem runUrl_counted {f : σ → UInt8 → Bool × σ} (set : Int → σ)
    (hf : ∀ n c, n < 0 → f (set n) c = (true, set (n + 1))) (cs : List UInt8) :
    runUrl f (set (-cs.length)) cs = (true, set 0) := by
  induction cs with
  | nil => rfl
  | cons c cs ih =>
    have hlen : -((c :: cs).length : Int) + 1 = -cs.length := by
      rw [List.length_cons]
      omega
    rw [runUrl_cons (hf _ c (by rw [List.length_cons]; omega)), hlen, ih]

namespace BasicHeaderParser

variable {f : σ → UInt8 → Bool × σ} {p : BasicHeaderParser σ}

/-- Behind the URL nothing is told to the module. -/
structure BehindUrl (p : BasicHeaderParser σ) (u : σ) : Prop where
  start : p.st ≠ .start
  rlUrl : p.st ≠ .rlUrl
  user_eq : p.user = u

namespace BehindUrl

variable {u : σ}

theorem fail (h : p.BehindUrl u) (rcode : UInt16) : (p.fail rcode).BehindUrl u :=
  ⟨HeaderSt.noConfusion, HeaderSt.noConfusion, h.user_eq⟩

theorem goOn (h : p.BehindUrl u) {st : HeaderSt} (hstart : st ≠ .start) (hurl : st ≠ .rlUrl) :
    (p.goOn st).BehindUrl u := ⟨hstart, hurl, h.user_eq⟩

theorem put (h : p.BehindUrl u) (c : UInt8) : (p.put c).BehindUrl u := by
  unfold BasicHeaderParser.put
  split
  · exact ⟨h.start, h.rlUrl, h.user_eq⟩
  · exact h.fail 500

theorem mark (h : p.BehindUrl u) : p.mark.BehindUrl u := by
  unfold BasicHeaderParser.mark
  split
  · exact ⟨h.start, h.rlUrl, h.user_eq⟩
  · exact h

theorem value (h : p.BehindUrl u) {close : BasicHeaderParser σ → BasicHeaderParser σ}
    (hclose : (close p).BehindUrl u) (c : UInt8) : (parseValue close p c).BehindUrl u := by
  unfold parseValue
  split_ifs
  · exact h
  · exact h
  · exact hclose
  · exact h.put c

end BehindUrl

theorem behindUrl_parseOne {u : σ} (h : p.BehindUrl u) (c : UInt8) :
    (parseOne (urlOnly f) p c).BehindUrl u := by
  unfold parseOne
  split
  · next hst => exact absurd hst h.start
  · -- without a message handler a field's value is not told
    unfold parseMessageParam
    split_ifs
    · exact h
    · exact h.mark
    · exact h.mark.goOn HeaderSt.noConfusion HeaderSt.noConfusion
    · exact h.mark
  · unfold parseMessage1
    split_ifs
    · unfold parseName
      split
      · next e he =>
        have hknown : ∀ e ∈ knownMsg, e.2 ≠ .start ∧ e.2 ≠ .rlUrl := by decide
        obtain ⟨hstart, hurl⟩ := hknown e (List.mem_of_find?_eq_some he)
        exact ⟨hstart, hurl, h.user_eq⟩
      · exact ⟨HeaderSt.noConfusion, HeaderSt.noConfusion, h.user_eq⟩
    · exact h
    · exact h.goOn HeaderSt.noConfusion HeaderSt.noConfusion
    · exact h.fail 400
    · exact h.put c
  · next hst => exact absurd hst h.rlUrl
  · refine h.value ?_ c
    dsimp only
    split
    · exact ⟨HeaderSt.noConfusion, HeaderSt.noConfusion, h.user_eq⟩
    · exact ⟨HeaderSt.noConfusion, HeaderSt.noConfusion, h.user_eq⟩
  · unfold parseStatusCode
    split_ifs
    · exact h
    · split
      · exact ⟨HeaderSt.noConfusion, HeaderSt.noConfusion, h.user_eq⟩
      · exact ⟨HeaderSt.noConfusion, HeaderSt.noConfusion, h.user_eq⟩
    · exact h.put c
  · unfold parseReason
    split
    · exact h.goOn HeaderSt.noConfusion HeaderSt.noConfusion
    · exact h
  · refine h.value ?_ c
    dsimp only
    split
    · exact ⟨HeaderSt.noConfusion, HeaderSt.noConfusion, h.user_eq⟩
    · exact ⟨HeaderSt.noConfusion, HeaderSt.noConfusion, h.user_eq⟩
  · exact h.value ⟨HeaderSt.noConfusion, HeaderSt.noConfusion, h.user_eq⟩ c
  · exact h.value ⟨HeaderSt.noConfusion, HeaderSt.noConfusion, h.user_eq⟩ c
  · exact h.fail 500
  · exact h.fail 500

theorem behindUrl_parseLoop {u : σ} (h : p.BehindUrl u) (cs : List UInt8) :
    (parseLoop (urlOnly f) p cs).2.BehindUrl u := by
  induction cs generalizing p with
  | nil => exact h
  | cons c cs ih =>
    have hone := behindUrl_parseOne (f := f) h c
    rw [parseLoop]
    split
    · exact hone
    · split
      · exact hone
      · exact ih hone

/-- A character that the handler refuses ends the parser. -/
theorem parseOne_refused {out : BasicHeader} {u : σ} (h : p.InUrl out u) {c : UInt8}
    (hsp : c ≠ chSpace) (hno : (f u c).1 = false) :
    (parseOne (urlOnly f) p c).st = .error ∧ (parseOne (urlOnly f) p c).user = (f u c).2 := by
  obtain ⟨wsb, hmark, -, -⟩ := p.mark_cases (by rw [h.s_eq]; decide)
  rw [parseOne_url h.st_eq, parseRequestUrl, if_neg (fun hc => hsp hc.2), if_neg hsp, hmark]
  simp only [callUrl, urlOnly, h.user_eq, hno]
  exact ⟨rfl, rfl⟩

/-- The space behind the URL is told as a NUL. -/
theorem parseOne_endUrl {out : BasicHeader} {u : σ} (h : p.InUrl out u) (hl : p.wsb.l ≠ 0) :
    (parseOne (urlOnly f) p chSpace).BehindUrl (f u 0).2 ∧
      ((f u 0).1 = false → (parseOne (urlOnly f) p chSpace).st = .error) := by
  rw [parseOne_url h.st_eq, parseRequestUrl, if_neg (fun hc => hl hc.1), if_pos rfl]
  simp only [callUrl, urlOnly, h.user_eq]
  split
  · next hok =>
    exact ⟨⟨HeaderSt.noConfusion, HeaderSt.noConfusion, rfl⟩, fun hno => by rw [hok] at hno; cases hno⟩
  · exact ⟨⟨HeaderSt.noConfusion, HeaderSt.noConfusion, rfl⟩, fun _ => rfl⟩

theorem parseLoop_of_error {c : UInt8} (h : (parseOne (urlOnly f) p c).st = .error) (cs : List UInt8) :
    (parseLoop (urlOnly f) p (c :: cs)).2 = parseOne (urlOnly f) p c := by
  rw [parseLoop_error h]

/-- A URL is told to the handler up to the character that it refuses. -/
theorem parseLoop_url {out : BasicHeader} {u : σ} {url : List UInt8} (h : p.InUrl out u)
    (hl : p.wsb.l ≠ 0 ∨ url ≠ []) (hsp : chSpace ∉ url) (rest : List UInt8) :
    (parseLoop (urlOnly f) p (url ++ chSpace :: rest)).2.user = (runUrl f u (url ++ [0])).2 ∧
      ((runUrl f u (url ++ [0])).1 = false →
        (parseLoop (urlOnly f) p (url ++ chSpace :: rest)).2.st = .error) := by
  induction url generalizing p u with
  | nil =>
    obtain ⟨hbehind, hno⟩ := parseOne_endUrl (f := f) h (hl.resolve_right fun hne => hne rfl)
    have hrun : runUrl f u ([] ++ [0]) = ((f u 0).1, (f u 0).2) := by
      rw [List.nil_append, runUrl]
      split
      · next hok => rw [hok]; rfl
      · next hok => rw [Bool.eq_false_iff.mpr hok]
    rw [hrun, List.nil_append]
    constructor
    · rw [parseLoop]
      split
      · exact hbehind.user_eq
      · split
        · exact hbehind.user_eq
        · exact (behindUrl_parseLoop hbehind rest).user_eq
    · intro hrefused
      rw [parseLoop_of_error (hno hrefused)]
      exact hno hrefused
  | cons c cs ih =>
    have hc : c ≠ chSpace := fun heq => hsp (heq ▸ List.mem_cons_self ..)
    rw [List.cons_append, List.cons_append, runUrl]
    by_cases hok : (f u c).1 = true
    · have hcall : (urlOnly f).url u c = some (f u c).2 := if_pos hok
      obtain ⟨hone, hmarked⟩ := url_char h hc hcall
      rw [if_pos hok, parseLoop_live hone.live]
      exact ih hone (Or.inl hmarked) fun hm => hsp (List.mem_cons_of_mem _ hm)
    · obtain ⟨herr, huser⟩ := parseOne_refused h hc (Bool.eq_false_iff.mpr hok)
      rw [if_neg hok, parseLoop_of_error herr]
      exact ⟨huser, fun _ => herr⟩

end BasicHeaderParser

open BasicHeaderParser

/-- However a request is cut, its module's handler is told the URL and the NUL up to the first
refusal, and a refusal is the end of the request. -/
theorem moduleParse_url (f : σ → UInt8 → Bool × σ) (out : BasicHeader) (u : σ) (m : HttpMethod)
    {url pushed : List UInt8} {reads : List (List UInt8)} (h : UrlRequest url pushed reads) :
    (moduleParse f out u m pushed reads).parser.user = (runUrl f u (url ++ [0])).2 ∧
      ((moduleParse f out u m pushed reads).ok = true → (runUrl f u (url ++ [0])).1 = true) := by
  obtain ⟨rest, hstream⟩ := h.stream
  have hin := urlStart_inUrl (p := (ofHandlers out u).parseInit) rfl m.toString m
  have hpush : pushPrefetchInfo (urlOnly f) (ofHandlers out u).parseInit m pushed =
      (parseLoop (urlOnly f) ((ofHandlers out u).parseInit.urlStart m.toString m) pushed).2 :=
    pushPrefetchInfo_eq (p := (ofHandlers out u).parseInit) rfl rfl m pushed
  have hsp : chSpace ∉ pushed := fun hm => h.space (h.front.subset hm)
  obtain ⟨k, hrun, -⟩ := parseStream_replayed (H := urlOnly f) hin hsp h.read_ne_nil rfl
  obtain ⟨huser, hrefused⟩ := parseLoop_url (f := f) hin (Or.inr h.ne_nil) h.space rest
  rw [← hstream] at huser hrefused
  rw [moduleParse, hpush, hrun, finishStream_eq]
  refine ⟨(parseFinish_kept _).1.trans huser, fun hok => ?_⟩
  by_contra hno
  have herr := hrefused (Bool.eq_false_iff.mpr hno)
  rw [parseFinish, if_pos (by rw [herr]; decide)] at hok
  cases hok

end MiMic.Http
