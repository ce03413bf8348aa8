import MiMic.Http.UrlCalls
import MiMic.Httpd.Responses
import MiMic.Lib.Stores

/-!
# The URL that a module asks for

`NyLPC_cModUrl_execute2` takes the URL of a request, less a prefix and on demand less its query,
into a buffer of its caller. The URL handler stores one character a call.
-/
namespace MiMic.Httpd

open Http Verif
open Http.BasicHeaderParser (StreamResult)

namespace ModUrl

/-- The caller's arguments, as `execute2` asserts them. -/
structure Args where
  lengthBuf : Int
  passPrefixLen : Int
  mode : UInt8
  length_pos : 0 < lengthBuf
  prefix_nonneg : 0 ≤ passPrefixLen
  length_lt : lengthBuf < 2 ^ 15
  prefix_lt : passPrefixLen < 2 ^ 15

/-- `NyLPC_cModUrl_ParseMode_PATH_ONLY`. -/
def pathOnly (mode : UInt8) : Bool := mode &&& 0x01 = 0x01

/-- `TcHeaderParser_t`, with the stores into the caller's buffer. The index `length_of_url` is a
signed word that no call takes out of the bounds of the arguments. -/
structure UrlParser where
  urlBuf : Stores.Log Int UInt8
  lengthOfBuf : Int
  lengthOfUrl : Int
  reason : UInt16
  skip : Bool
  mode : UInt8

/-- `strchr("?#", c)`, which finds the terminator too. -/
def endsPath (c : UInt8) : Bool := c = 0x3f ∨ c = 0x23 ∨ c = 0

/-- `NyLPC_cModUrl_urlHandler`. -/
def urlHandler (p : UrlParser) (c : UInt8) : Bool × UrlParser :=
  if p.skip then
    if p.lengthOfUrl < 0 then
      (true, { p with lengthOfUrl := p.lengthOfUrl + 1, skip := p.lengthOfUrl + 1 ≠ 0 })
    else (true, p)
  else if pathOnly p.mode ∧ endsPath c then
    (true, { p with urlBuf := p.urlBuf ++ [(p.lengthOfUrl, 0)], skip := true })
  else
    let p := { p with urlBuf := p.urlBuf ++ [(p.lengthOfUrl, c)] }
    if c = 0 then (true, p)
    else if p.lengthOfUrl + 1 = p.lengthOfBuf then
      (false, { p with lengthOfUrl := p.lengthOfUrl + 1, reason := 414 })
    else (true, { p with lengthOfUrl := p.lengthOfUrl + 1 })

/-- The parser as `execute2` sets it up. -/
def Args.start (a : Args) : UrlParser :=
  ⟨[(0, 0)], a.lengthBuf, -a.passPrefixLen, 400, -a.passPrefixLen < 0, a.mode⟩

/-- What `execute2` makes of the request: its header, or the reason for the error response. -/
def outcome (r : StreamResult UrlParser) : Except UInt16 BasicHeader :=
  if r.ok then .ok r.parser.out else .error r.parser.user.reason

/-- The status in the first line of the error response. -/
def Answers (r : StreamResult UrlParser) (status : UInt16) : Prop :=
  ∃ reason, outcome r = .error reason ∧ (HeaderWriter.statusEntry reason).1 = status

/-- The URL behind the prefix, in path-only mode up to its query or fragment. -/
def Args.text (a : Args) (url : List UInt8) : List UInt8 :=
  let rest := url.drop a.passPrefixLen.toNat
  if pathOnly a.mode then rest.takeWhile fun c => c ≠ 0x3f ∧ c ≠ 0x23 else rest

/-- The buffer holds a text, whatever it held before. -/
def Holds (stores : Stores.Log Int UInt8) (t : List UInt8) : Prop :=
  ∀ (buf : Int → UInt8) (i : Nat) (hi : i < t.length), Stores.run buf stores i = t[i]

/-- No store goes outside of the buffer; behind a URL that was taken to its end the buffer holds
the text with its terminator; a text that does not fit is answered 414, and nothing else is. -/
structure Captures (a : Args) (url : List UInt8) (r : StreamResult UrlParser) : Prop where
  inside : ∀ s ∈ r.parser.user.urlBuf, 0 ≤ s.1 ∧ s.1 < a.lengthBuf
  holds : (runUrl urlHandler a.start (url ++ [0])).1 = true →
    Holds r.parser.user.urlBuf (a.text url ++ [0])
  tooLong : Answers r 414 ↔ ¬((a.text url ++ [0]).length : Int) ≤ a.lengthBuf

/-- The text as the handler takes it: behind a NUL within the URL it goes on in the NUL's place, a
path ends at one. -/
def taken (mode : UInt8) (cs : List UInt8) : List UInt8 :=
  if pathOnly mode then cs.takeWhile fun c => !endsPath c else cs.filter (· ≠ 0)

/-- What the calls for `t` and its terminator leave, from index `n` on. -/
structure Takes (p : UrlParser) (n : Int) (t : List UInt8) (r : Bool × UrlParser) : Prop where
  fits : n + t.length < p.lengthOfBuf → r.1 = true ∧ r.2.reason = p.reason ∧
    ∀ m, Stores.run m r.2.urlBuf = Stores.laid (Stores.run m p.urlBuf) n (t ++ [0])
  tooLong : p.lengthOfBuf ≤ n + t.length → r.1 = false ∧ r.2.reason = 414
  inside : ∀ s ∈ r.2.urlBuf, s ∈ p.urlBuf ∨ 0 ≤ s.1 ∧ s.1 < p.lengthOfBuf

variable {p : UrlParser}

/-- Behind the end of the path nothing is stored. -/
theorem runUrl_cut (hskip : p.skip = true) (hpos : 0 ≤ p.lengthOfUrl) (cs : List UInt8) :
    runUrl urlHandler p cs = (true, p) := by
  have hcall : ∀ c, urlHandler p c = (true, p) := by
    intro c
    rw [urlHandler, if_pos hskip, if_neg (by omega)]
  induction cs with
  | nil => rfl
  | cons c cs ih => rw [runUrl_cons (hcall c), ih]

/-- The characters of the prefix are only counted. -/
theorem runUrl_skipped {k : Nat} (hskip : p.skip = decide (k ≠ 0)) (hlen : p.lengthOfUrl = -k)
    {cs : List UInt8} (hcs : cs.length ≤ k) :
    runUrl urlHandler p cs =
      (true, { p with lengthOfUrl := cs.length - k, skip := decide (cs.length ≠ k) }) := by
  induction cs generalizing p k with
  | nil =>
    obtain ⟨urlBuf, lengthOfBuf, lengthOfUrl, reason, skip, mode⟩ := p
    obtain rfl : lengthOfUrl = -k := hlen
    obtain rfl : skip = decide (k ≠ 0) := hskip
    have hzero : (-(k : Int)) = (([] : List UInt8).length : Int) - k := by simp
    have hne : decide (k ≠ 0) = decide (([] : List UInt8).length ≠ k) := by
      simp [eq_comm]
    rw [runUrl, ← hzero, ← hne]
  | cons c cs ih =>
    rw [List.length_cons] at hcs
    obtain ⟨j, rfl⟩ := Nat.exists_eq_add_of_le' (show 1 ≤ k by omega)
    have hcall : urlHandler p c =
        (true, { p with lengthOfUrl := -j, skip := decide (j ≠ 0) }) := by
      have hnext : p.lengthOfUrl + 1 = -(j : Int) := by omega
      have hne : decide (-(j : Int) ≠ 0) = decide (j ≠ 0) := by simp
      rw [urlHandler, if_pos (by rw [hskip]; simp), if_pos (by omega), hnext, hne]
    rw [runUrl_cons hcall, ih rfl rfl (by omega)]
    have hlength : ((cs.length : Int) - j) = ((c :: cs).length : Int) - (j + 1 : Nat) := by
      rw [List.length_cons]
      omega
    have hne : decide (cs.length ≠ j) = decide ((c :: cs).length ≠ j + 1) := by simp
    rw [hlength, hne]

/-- A store, and then the rest of the text behind it. -/
theorem Takes.cons {n : Int} {c : UInt8} {t : List UInt8} {r : Bool × UrlParser}
    (hn : 0 ≤ n) (hlt : n < p.lengthOfBuf)
    (h : Takes { p with urlBuf := p.urlBuf ++ [(n, c)], lengthOfUrl := n + 1 } (n + 1) t r) :
    Takes p n (c :: t) r := by
  refine ⟨fun hfits => ?_, fun hlong => h.tooLong ?_, fun s hs => ?_⟩
  · rw [List.length_cons] at hfits
    obtain ⟨hok, hreason, hmem⟩ := h.fits (show n + 1 + t.length < p.lengthOfBuf by omega)
    refine ⟨hok, hreason, fun m => ?_⟩
    rw [hmem, Stores.run_concat, Stores.laid_update]
    rfl
  · rw [List.length_cons] at hlong
    show p.lengthOfBuf ≤ n + 1 + t.length
    omega
  · rcases h.inside s hs with hs | hs
    · rcases List.mem_append.mp hs with hs | hs
      · exact Or.inl hs
      · rw [List.mem_singleton.mp hs]
        exact Or.inr ⟨hn, hlt⟩
    · exact Or.inr hs

/-- What a NUL leaves is stored over. -/
theorem Takes.again {n : Int} {t : List UInt8} {r : Bool × UrlParser} (hn : 0 ≤ n)
    (hlt : n < p.lengthOfBuf) (h : Takes { p with urlBuf := p.urlBuf ++ [(n, 0)] } n t r) :
    Takes p n t r := by
  refine ⟨fun hfits => ?_, h.tooLong, fun s hs => ?_⟩
  · obtain ⟨hok, hreason, hmem⟩ := h.fits hfits
    refine ⟨hok, hreason, fun m => ?_⟩
    rw [hmem, Stores.run_concat]
    exact Stores.laid_update_self _ _ _ (by simp)
  · rcases h.inside s hs with hs | hs
    · rcases List.mem_append.mp hs with hs | hs
      · exact Or.inl hs
      · rw [List.mem_singleton.mp hs]
        exact Or.inr ⟨hn, hlt⟩
    · exact Or.inr hs

/-- The terminator alone. -/
theorem takes_end {n : Int} {q : UrlParser} (hn : 0 ≤ n) (hlt : n < p.lengthOfBuf)
    (hreason : q.reason = p.reason) (hstores : q.urlBuf = p.urlBuf ++ [(n, 0)]) :
    Takes p n [] (true, q) := by
  refine ⟨fun _ => ⟨rfl, hreason, fun m => ?_⟩, fun hlong => ?_, fun s hs => ?_⟩
  · show Stores.run m q.urlBuf = _
    rw [hstores, Stores.run_concat, List.nil_append, ← Stores.laid_update, Stores.laid_nil]
  · simp only [List.length_nil] at hlong
    omega
  · rcases List.mem_append.mp (hstores ▸ hs) with hs | hs
    · exact Or.inl hs
    · rw [List.mem_singleton.mp hs]
      exact Or.inr ⟨hn, hlt⟩

theorem taken_nil (mode : UInt8) : taken mode [] = [] := by
  unfold taken
  split <;> rfl

theorem taken_end {mode c : UInt8} (h : pathOnly mode ∧ endsPath c) (cs : List UInt8) :
    taken mode (c :: cs) = [] := by
  rw [taken, if_pos h.1, List.takeWhile_cons_of_neg (by simp [h.2])]

theorem taken_nul {mode : UInt8} (h : ¬(pathOnly mode ∧ endsPath 0)) (cs : List UInt8) :
    taken mode (0 :: cs) = taken mode cs := by
  have hall : ¬pathOnly mode := fun hpath => h ⟨hpath, rfl⟩
  rw [taken, taken, if_neg hall, if_neg hall, List.filter_cons_of_neg (by simp)]

theorem taken_char {mode c : UInt8} (h : ¬(pathOnly mode ∧ endsPath c)) (hc : c ≠ 0)
    (cs : List UInt8) : taken mode (c :: cs) = c :: taken mode cs := by
  unfold taken
  split
  · next hpath =>
    have hin : endsPath c = false := Bool.eq_false_iff.mpr fun hend => h ⟨hpath, hend⟩
    rw [List.takeWhile_cons_of_pos (by simp [hin])]
  · rw [List.filter_cons_of_pos (by simpa using hc)]

theorem takes_cut (hskip : p.skip = false) (hn : 0 ≤ p.lengthOfUrl)
    (hlt : p.lengthOfUrl < p.lengthOfBuf) {c : UInt8} (hend : pathOnly p.mode ∧ endsPath c)
    (cs : List UInt8) : Takes p p.lengthOfUrl [] (runUrl urlHandler p (c :: cs)) := by
  have hcall : urlHandler p c =
      (true, { p with urlBuf := p.urlBuf ++ [(p.lengthOfUrl, 0)], skip := true }) := by
    rw [urlHandler, if_neg (by simp [hskip]), if_pos hend]
  have hrest := runUrl_cut (p := { p with urlBuf := p.urlBuf ++ [(p.lengthOfUrl, 0)], skip := true })
    rfl hn cs
  rw [runUrl_cons hcall, hrest]
  exact takes_end hn hlt rfl rfl

theorem urlHandler_nul (hskip : p.skip = false) (hno : ¬(pathOnly p.mode ∧ endsPath 0)) :
    urlHandler p 0 = (true, { p with urlBuf := p.urlBuf ++ [(p.lengthOfUrl, 0)] }) := by
  rw [urlHandler, if_neg (by simp [hskip]), if_neg hno]
  rfl

theorem takes_text (hskip : p.skip = false) (hn : 0 ≤ p.lengthOfUrl)
    (hlt : p.lengthOfUrl < p.lengthOfBuf) (cs : List UInt8) :
    Takes p p.lengthOfUrl (taken p.mode cs) (runUrl urlHandler p (cs ++ [0])) := by
  induction cs generalizing p with
  | nil =>
    rw [taken_nil, List.nil_append]
    by_cases hend : pathOnly p.mode ∧ endsPath 0
    · exact takes_cut hskip hn hlt hend []
    · rw [runUrl_cons (urlHandler_nul hskip hend)]
      exact takes_end hn hlt rfl rfl
  | cons c cs ih =>
    rw [List.cons_append]
    by_cases hend : pathOnly p.mode ∧ endsPath c
    · rw [taken_end hend]
      exact takes_cut hskip hn hlt hend _
    · by_cases hc : c = 0
      · subst hc
        rw [taken_nul hend, runUrl_cons (urlHandler_nul hskip hend)]
        exact Takes.again hn hlt
          (@ih { p with urlBuf := p.urlBuf ++ [(p.lengthOfUrl, 0)] } hskip hn hlt)
      · rw [taken_char hend hc]
        by_cases hfull : p.lengthOfUrl + 1 = p.lengthOfBuf
        · -- the last free byte is taken, and none is left for the terminator
          have hcall : urlHandler p c = (false, { p with
              urlBuf := p.urlBuf ++ [(p.lengthOfUrl, c)]
              lengthOfUrl := p.lengthOfUrl + 1
              reason := 414 }) := by
            rw [urlHandler, if_neg (by simp [hskip]), if_neg hend, if_neg hc, if_pos hfull]
          rw [runUrl_refused hcall]
          refine ⟨fun hfits => ?_, fun _ => ⟨rfl, rfl⟩, fun s hs => ?_⟩
          · rw [List.length_cons] at hfits
            omega
          · rcases List.mem_append.mp hs with hs | hs
            · exact Or.inl hs
            · rw [List.mem_singleton.mp hs]
              exact Or.inr ⟨hn, hlt⟩
        · have hcall : urlHandler p c = (true, { p with
              urlBuf := p.urlBuf ++ [(p.lengthOfUrl, c)]
              lengthOfUrl := p.lengthOfUrl + 1 }) := by
            rw [urlHandler, if_neg (by simp [hskip]), if_neg hend, if_neg hc, if_neg hfull]
          rw [runUrl_cons hcall]
          exact Takes.cons hn hlt (@ih { p with
            urlBuf := p.urlBuf ++ [(p.lengthOfUrl, c)]
            lengthOfUrl := p.lengthOfUrl + 1 } hskip (show 0 ≤ p.lengthOfUrl + 1 by omega)
              (show p.lengthOfUrl + 1 < p.lengthOfBuf by omega))

/-- What the calls for a whole URL leave. -/
theorem takes_start (a : Args) (url : List UInt8) :
    Takes a.start 0 (taken a.mode (url.drop a.passPrefixLen.toNat))
      (runUrl urlHandler a.start (url ++ [0])) := by
  have hpos := a.length_pos
  have hprefix := a.prefix_nonneg
  have hk : a.start.lengthOfUrl = -(a.passPrefixLen.toNat : Int) := by
    show -a.passPrefixLen = _
    omega
  have hskip : a.start.skip = decide (a.passPrefixLen.toNat ≠ 0) := by
    show decide (-a.passPrefixLen < 0) = _
    rw [decide_eq_decide]
    omega
  by_cases hshort : url.length < a.passPrefixLen.toNat
  · -- the terminator is counted as a character of the prefix
    have hlen : (url ++ [0]).length ≤ a.passPrefixLen.toNat := by
      rw [List.length_append, List.length_singleton]
      omega
    rw [runUrl_skipped hskip hk hlen, List.drop_eq_nil_of_le (by omega), taken_nil]
    refine ⟨fun _ => ⟨rfl, rfl, fun m => ?_⟩, fun hlong => ?_, fun s hs => Or.inl hs⟩
    · rw [List.nil_append, ← Stores.laid_update, Stores.laid_nil]
      show Function.update m 0 0 = Function.update (Function.update m 0 0) 0 0
      rw [Function.update_idem]
    · have hlong : a.lengthBuf ≤ 0 + (([] : List UInt8).length : Int) := hlong
      simp only [List.length_nil] at hlong
      omega
  · have hlen : (url.take a.passPrefixLen.toNat).length = a.passPrefixLen.toNat := by
      rw [List.length_take]
      omega
    have hsplit : url ++ [0] =
        url.take a.passPrefixLen.toNat ++ (url.drop a.passPrefixLen.toNat ++ [0]) := by
      rw [← List.append_assoc, List.take_append_drop]
    have hfirst : runUrl urlHandler a.start (url.take a.passPrefixLen.toNat) =
        (true, { a.start with lengthOfUrl := 0, skip := false }) := by
      rw [runUrl_skipped hskip hk (le_of_eq hlen), hlen, Int.sub_self]
      simp
    rw [hsplit, runUrl_append, hfirst, if_pos rfl]
    have htext := takes_text (p := { a.start with lengthOfUrl := 0, skip := false }) rfl le_rfl hpos
      (url.drop a.passPrefixLen.toNat)
    exact ⟨htext.fits, htext.tooLong, htext.inside⟩

variable {a : Args} {url : List UInt8}

theorem taken_eq (a : Args) (url : List UInt8) :
    taken a.mode (url.drop a.passPrefixLen.toNat) =
      if pathOnly a.mode then (a.text url).takeWhile (· ≠ 0) else (a.text url).filter (· ≠ 0) := by
  unfold taken Args.text
  dsimp only
  split
  · rw [List.takeWhile_takeWhile]
    congr 1
    funext c
    simp only [endsPath]
    by_cases hz : c = 0 <;> by_cases hq : c = 0x3f <;> by_cases hf : c = 0x23 <;> simp [hz, hq, hf]
  · rfl

theorem taken_sublist (a : Args) (url : List UInt8) :
    (taken a.mode (url.drop a.passPrefixLen.toNat)).Sublist (a.text url) := by
  rw [taken_eq]
  split
  · exact (List.takeWhile_prefix _).sublist
  · exact List.filter_sublist

theorem zero_not_mem_taken (a : Args) (url : List UInt8) :
    (0 : UInt8) ∉ taken a.mode (url.drop a.passPrefixLen.toNat) := by
  rw [taken_eq]
  split
  · exact fun hm => absurd (List.mem_takeWhile_imp hm) (by decide)
  · exact fun hm => absurd (List.mem_filter.mp hm).2 (by decide)

/-- A text without a NUL is taken as it is. -/
theorem taken_eq_text (hz : (0 : UInt8) ∉ a.text url) :
    taken a.mode (url.drop a.passPrefixLen.toNat) = a.text url := by
  have hne : ∀ c ∈ a.text url, decide (c ≠ 0) = true :=
    fun c hc => decide_eq_true fun h0 => hz (h0 ▸ hc)
  rw [taken_eq]
  split
  · exact List.takeWhile_eq_self_iff.mpr hne
  · exact List.filter_eq_self.mpr hne

/-- A text that fits is held with its terminator. -/
theorem Takes.holds {r : Bool × UrlParser} {t : List UInt8} (h : Takes p 0 t r)
    (hfits : (t.length : Int) < p.lengthOfBuf) : Holds r.2.urlBuf (t ++ [0]) := by
  obtain ⟨-, -, hmem⟩ := h.fits (by omega)
  intro buf i hi
  rw [hmem]
  simpa using Stores.laid_getElem (Stores.run buf p.urlBuf) 0 hi

/-- Every byte that is held was stored. -/
theorem Takes.length_le {r : Bool × UrlParser} {t u : List UInt8} (h : Takes a.start 0 t r)
    (hfits : (t.length : Int) < a.lengthBuf) (hu : Holds r.2.urlBuf u) : u.length ≤ t.length + 1 := by
  obtain ⟨-, -, hmem⟩ := h.fits (show 0 + (t.length : Int) < a.lengthBuf by omega)
  by_contra hlong
  have hin : t.length + 1 < u.length := by omega
  have hread : ∀ x : UInt8, u[t.length + 1] = x := by
    intro x
    have hnew : ((t.length + 1 : Nat) : Int) ≠ 0 := by omega
    have hold : Stores.run (fun _ => x) a.start.urlBuf ((t.length + 1 : Nat) : Int) = x := by
      have hstart : Stores.run (fun _ => x) a.start.urlBuf = Function.update (fun _ => x) 0 0 := rfl
      rw [hstart, Function.update_of_ne hnew]
    have hlaid := Stores.laid_of_le (Stores.run (fun _ => x) a.start.urlBuf) 0
      (show (t ++ [0]).length ≤ t.length + 1 by simp)
    rw [Int.zero_add] at hlaid
    rw [← hu (fun _ => x) (t.length + 1) hin, hmem, hlaid, hold]
  exact absurd ((hread 0).symm.trans (hread 1)) (by decide)

theorem statusEntry_ne_414 (reason : UInt16) : (HeaderWriter.statusEntry reason).1 ≠ 414 := by
  intro h
  have htable : ∀ e ∈ statusLineTbl, e.1 ≠ 414 := by decide
  exact htable _ (statusEntry_mem reason) h

theorem not_answers_414 (r : StreamResult UrlParser) : ¬Answers r 414 := by
  rintro ⟨reason, -, hstatus⟩
  exact statusEntry_ne_414 reason hstatus

/-- A text that does not fit is refused with 414, but the table of status lines has no such entry. -/
theorem Captures.fits {r : StreamResult UrlParser} (h : Captures a url r) :
    ((a.text url ++ [0]).length : Int) ≤ a.lengthBuf := by
  by_contra hno
  exact not_answers_414 r (h.tooLong.mpr hno)

/-- The status line of an error response is that of its reason's entry in the table. -/
theorem execute2_error {c : Responder} {sent data : List UInt8} {k : Nat} (reason : UInt16)
    (hm : c.method ≠ .head) (h : c.Ready sent data
      ((Responder.headText true reason Responder.htmlType none none).length +
        ((Responder.errorBody reason).bytes.length + k))) :
    ∃ c' rest, execute2 c (.error reason) = some (c', false) ∧
      c'.InBody .chunked (sent ++ (data ++ (statusLine (HeaderWriter.statusEntry reason).1.toNat
        ((HeaderWriter.statusEntry reason).2 ++ [chCr]) ++ rest))) (Responder.errorBody reason).bytes k := by
  have hready : (c.setReqStatusParsed.setConnectionMode .close).Ready sent data
      ((Responder.headText true reason Responder.htmlType none none).length +
        ((Responder.errorBody reason).bytes.length + k)) := ⟨h.status, h.pending⟩
  have htype : IsText Responder.htmlType := by
    unfold IsText
    decide
  obtain ⟨c1, hhead, hbody, hm1⟩ :=
    hready.sendResponseHeader2 htype fun header (hnone : none = some header) => nomatch hnone
  obtain ⟨c2, hsend, hbody2, -⟩ := hbody.sendResponseBody (Responder.errorBody reason)
  have hget : c1.method ≠ .head := by
    rw [hm1]
    exact hm
  have hline : ∃ rest, Responder.headText true reason Responder.htmlType none none =
      statusLine (HeaderWriter.statusEntry reason).1.toNat
        ((HeaderWriter.statusEntry reason).2 ++ [chCr]) ++ rest := by
    refine ⟨fieldLine (ascii "Server") httpdServer ++
      ((⟨true, 0, true, false, ()⟩ : HeaderWriter Unit).optionLines ++
        (([(ascii "Content-type", Responder.htmlType)].flatMap fun f => fieldLine f.1 f.2) ++
          crlf)), ?_⟩
    simp only [Responder.headText, headerText, StartLine.text, List.append_assoc, Option.isNone_none,
      Option.getD_none, List.nil_append]
  obtain ⟨rest, hrest⟩ := hline
  refine ⟨c2, rest, ?_, hrest ▸ hbody2⟩
  have hheader : (c.setReqStatusParsed.setConnectionMode .close).sendResponseHeader reason
      Responder.htmlType none = some (c1, true) := hhead
  rw [execute2]
  show (c.setReqStatusParsed.sendErrorResponse reason).map _ = _
  rw [Responder.sendErrorResponse, hheader, Option.bind_some, if_pos hget, hsend]
  rfl

/-- The request's URL is captured just when it fits: the handler refuses a longer one for the
right reason, and the response goes out as `500 Internal Server Error`. -/
theorem modUrl_captures_iff (a : Args) (out : BasicHeader) (m : HttpMethod)
    {url pushed : List UInt8} {reads : List (List UInt8)} (h : UrlRequest url pushed reads) :
    Captures a url (moduleParse urlHandler out a.start m pushed reads) ↔
      ((a.text url ++ [0]).length : Int) ≤ a.lengthBuf ∧ (0 : UInt8) ∉ a.text url := by
  have htakes := takes_start a url
  have huser := (moduleParse_url urlHandler out a.start m h).1
  have hlength : ((a.text url ++ [0]).length : Int) = (a.text url).length + 1 := by simp
  have hle := (taken_sublist a url).length_le
  constructor
  · intro hc
    have hfits := hc.fits
    refine ⟨hfits, fun hz => zero_not_mem_taken a url ?_⟩
    have htaken : ((taken a.mode (url.drop a.passPrefixLen.toNat)).length : Int) < a.lengthBuf := by omega
    obtain ⟨hok, -⟩ := htakes.fits (show 0 + _ < a.lengthBuf by omega)
    have hholds := hc.holds hok
    rw [huser] at hholds
    have hall := htakes.length_le htaken hholds
    rwa [(taken_sublist a url).eq_of_length (by omega)]
  · rintro ⟨hfits, hz⟩
    rw [taken_eq_text hz] at htakes
    have htext : ((a.text url).length : Int) < a.lengthBuf := by omega
    refine ⟨fun s hs => ?_, fun _ => ?_, ?_⟩
    · rw [huser] at hs
      rcases htakes.inside s hs with hs | hs
      · have hpos := a.length_pos
        rw [List.mem_singleton.mp hs]
        exact ⟨le_rfl, hpos⟩
      · exact hs
    · rw [huser]
      exact htakes.holds htext
    · exact iff_of_false (not_answers_414 _) (not_not.mpr hfits)

/-- The path of a URL with a query, behind its first character. -/
def sampleArgs (lengthBuf : Int) (h : 0 < lengthBuf ∧ lengthBuf < 2 ^ 15) : Args :=
  ⟨lengthBuf, 1, 0x01, h.1, by decide, h.2, by decide⟩

theorem sampleRequest : UrlRequest (ascii "/ab?c") (ascii "/ab") [ascii "?c HTTP/1.1\r\n", ascii "\r\n"] :=
  ⟨by decide, by decide, ⟨ascii "?c", by decide⟩, by decide, ⟨ascii "HTTP/1.1\r\n\r\n", by decide⟩⟩

theorem modUrl_captures_path :
    Captures (sampleArgs 3 (by decide)) (ascii "/ab?c")
      (moduleParse urlHandler zeroHeader (sampleArgs 3 (by decide)).start .get (ascii "/ab")
        [ascii "?c HTTP/1.1\r\n", ascii "\r\n"]) :=
  (modUrl_captures_iff (sampleArgs 3 (by decide)) zeroHeader .get sampleRequest).mpr
    ⟨by decide, by decide⟩

/-- With a byte less the two characters are refused, but not with a 414. -/
theorem not_modUrl_captures :
    ¬Captures (sampleArgs 2 (by decide)) (ascii "/ab?c")
      (moduleParse urlHandler zeroHeader (sampleArgs 2 (by decide)).start .get (ascii "/ab")
        [ascii "?c HTTP/1.1\r\n", ascii "\r\n"]) :=
  fun h => absurd h.fits (by decide)

end ModUrl

end MiMic.Httpd
