import MiMic.Httpd.Responses

/-!
# One response for each request

Whatever the modules and the error functions send between two prefetches is an interim response
to a POST for the files, if any, and one response behind it.
-/
namespace MiMic.Httpd

open Http
open HttpStream (Pending)

theorem fieldLine_eq (name value : List UInt8) :
    fieldLine name value = (name ++ [chColon] ++ ([chSpace] ++ value)) ++ crlf := by
  have hsep : ascii ": " = [chColon] ++ [chSpace] := rfl
  have hline : ascii "\r\n" = crlf := rfl
  rw [fieldLine, hsep, hline]
  simp only [List.append_assoc]

theorem statusLine_eq (status : Nat) (reason : List UInt8) :
    statusLine status (reason ++ [chCr]) = statusText status reason ++ crlf := by
  simp [statusLine, statusText, crlf]

theorem statusEntry_final (status : UInt16) :
    200 ≤ (HeaderWriter.statusEntry status).1.toNat ∧
      (HeaderWriter.statusEntry status).1.toNat < 1000 ∧
      ∀ c ∈ (HeaderWriter.statusEntry status).2, c ≠ chCr ∧ c ≠ chLf := by
  have htable : ∀ e ∈ statusLineTbl, 200 ≤ e.1.toNat ∧ e.1.toNat < 1000 ∧
      ∀ c ∈ e.2, c ≠ chCr ∧ c ≠ chLf := by decide
  exact htable _ (statusEntry_mem status)

def serverField : HeadField :=
  ⟨ascii "Server", [chSpace] ++ httpdServer, by decide, by decide, by decide⟩

def closeField : HeadField :=
  ⟨ascii "Connection", [chSpace] ++ ascii "CLOSE", by decide, by decide, by decide⟩

/-- The body that a length announces, chunked without one. -/
def framingOf : Option UInt32 → Framing
  | none => .chunked
  | some n => .length n.toNat

def framingField : Option UInt32 → HeadField
  | none => ⟨ascii "Transfer-Encoding", [chSpace] ++ ascii "chunked", by decide, by decide, by decide⟩
  | some n => ⟨ascii "Content-Length", [chSpace] ++ Verif.Decimal.decimal n.toNat, by decide,
      by decide, by
        intro c hc
        obtain hc | hc := List.mem_append.mp hc
        · rw [List.mem_singleton.mp hc]
          decide
        · exact ResponseHead.decimal_plain _ c hc⟩

/-- The head of a response whose further fields are `more`. -/
def headOf (isClose : Bool) (code : UInt16) (len : Option UInt32) (more : List HeadField)
    (hmore : ∀ f ∈ more, f.framing = false) : ResponseHead where
  status := (HeaderWriter.statusEntry code).1.toNat
  reason := (HeaderWriter.statusEntry code).2
  fields := serverField :: ((if isClose then [closeField] else []) ++ framingField len :: more)
  framing := framingOf len
  final := ⟨(statusEntry_final code).1, (statusEntry_final code).2.1⟩
  reason_plain := (statusEntry_final code).2.2
  announces := by
    have hserver : serverField.framing = false := by decide
    have hclose : closeField.framing = false := by decide
    have hframing : (framingField len).framing = true := by cases len <;> rfl
    have hrest : more.filter HeadField.framing = [] :=
      List.filter_eq_nil_iff.mpr fun f hf => by simp [hmore f hf]
    have hopt : (if isClose then [closeField] else []).filter HeadField.framing = [] := by
      cases isClose <;> simp [hclose]
    rw [List.filter_cons_of_neg (by simp [hserver]), List.filter_append, hopt, List.nil_append,
      List.filter_cons_of_pos hframing, hrest, List.map_cons, List.map_nil]
    cases len <;> rfl

theorem headOf_text (isClose : Bool) (code : UInt16) (len : Option UInt32) (more : List HeadField)
    (hmore : ∀ f ∈ more, f.framing = false) :
    (headOf isClose code len more hmore).text =
      (StartLine.response code).text ++
        (⟨len.isNone, len.getD 0, isClose, false, ()⟩ : HeaderWriter Unit).optionLines ++
          ((more.flatMap fun f => f.line ++ crlf) ++ crlf) := by
  have hserver : fieldLine (ascii "Server") httpdServer = serverField.line ++ crlf := fieldLine_eq _ _
  have hclose : fieldLine (ascii "Connection") (ascii "CLOSE") = closeField.line ++ crlf :=
    fieldLine_eq _ _
  have hframing : (if len.isNone then fieldLine (ascii "Transfer-Encoding") (ascii "chunked")
      else fieldLine (ascii "Content-Length") (Verif.Decimal.decimal (len.getD 0).toNat)) =
        (framingField len).line ++ crlf := by
    cases len with
    | none => exact fieldLine_eq _ _
    | some n => exact fieldLine_eq _ _
  rw [StartLine.text, statusLine_eq, HeaderWriter.optionLines, hserver, hclose, hframing]
  simp only [ResponseHead.text, ResponseHead.lines, headOf, linesText, List.flatMap_cons,
    List.map_cons, List.map_append, List.flatMap_append, List.flatMap_map, List.append_assoc]
  cases isClose <;> simp

def typeField (contentType : List UInt8) (h : ∀ c ∈ contentType, c ≠ chCr ∧ c ≠ chLf) : HeadField :=
  ⟨ascii "Content-type", [chSpace] ++ contentType, by decide, by decide, by
    intro c hc
    obtain hc | hc := List.mem_append.mp hc
    · rw [List.mem_singleton.mp hc]
      decide
    · exact h c hc⟩

/-- The fields of `jsonLines`. -/
def jsonFields : List HeadField :=
  [⟨ascii "Access-Control-Allow-Origin", ascii "*", by decide, by decide, by decide⟩,
    ⟨ascii "Pragma", ascii " no-cache", by decide, by decide, by decide⟩,
    ⟨ascii "Cache-Control", ascii " no-cache", by decide, by decide, by decide⟩]

/-- Text that can stand in a header. -/
def PlainText (t : List UInt8) : Prop := ∀ c ∈ t, c ≠ 0 ∧ c ≠ chCr ∧ c ≠ chLf

theorem PlainText.isText {t : List UInt8} (h : PlainText t) : IsText t := fun c hc => (h c hc).1

theorem headText_of_fields (isClose : Bool) (code : UInt16) {contentType : List UInt8}
    (htype : PlainText contentType) (len : Option UInt32) (extra : List HeadField)
    (hextra : ∀ f ∈ extra, f.framing = false) {additional : Option (List UInt8)}
    (hadd : additional.getD [] = extra.flatMap fun f => f.line ++ crlf) :
    ∃ h : ResponseHead, h.text = Responder.headText isClose code contentType len additional ∧
      h.framing = framingOf len := by
  have hmore : ∀ f ∈ typeField contentType (fun c hc => (htype c hc).2) :: extra, f.framing = false := by
    intro f hf
    obtain rfl | hf := List.mem_cons.mp hf
    · have hname : (ascii "Content-type").map toupper ≠ ascii "TRANSFER-ENCODING" ∧
          (ascii "Content-type").map toupper ≠ ascii "CONTENT-LENGTH" := by decide
      simp [HeadField.framing, typeField, hname]
    · exact hextra f hf
  refine ⟨headOf isClose code len _ hmore, ?_, rfl⟩
  have hline : fieldLine (ascii "Content-type") contentType =
      (typeField contentType fun c hc => (htype c hc).2).line ++ crlf := fieldLine_eq _ _
  rw [headOf_text, Responder.headText, headerText, hadd, List.flatMap_singleton, hline]
  simp only [List.flatMap_cons, List.append_assoc]

theorem exists_head (isClose : Bool) (code : UInt16) {contentType : List UInt8}
    (htype : PlainText contentType) (len : Option UInt32) :
    ∃ h : ResponseHead, h.text = Responder.headText isClose code contentType len none ∧
      h.framing = framingOf len :=
  headText_of_fields isClose code htype len [] (by simp) rfl

theorem exists_jsonHead (isClose : Bool) (code : UInt16) {contentType : List UInt8}
    (htype : PlainText contentType) (len : Option UInt32) :
    ∃ h : ResponseHead,
      h.text = Responder.headText isClose code contentType len (some Responder.jsonLines) ∧
        h.framing = framingOf len :=
  headText_of_fields isClose code htype len jsonFields (by decide) rfl

/-- One response; of a response to HEAD with a chunked header only the head is asked. -/
def Answered (m : HttpMethod) (bs : List UInt8) : Prop :=
  OneResponse m bs ∨ m = .head ∧ ∃ h : ResponseHead, h.framing = .chunked ∧ h.text <+: bs

/-- The encoding and the data that a header asks for. -/
def Suits (m : HttpMethod) (we : TransferEncoding) (body : List UInt8) : Framing → Prop
  | .chunked => we = .chunked
  | .length n => we = .none ∧ body.length = if m = .head then 0 else n

namespace Responder

/-- The head of one response and its whole body were written. -/
def Complete (c : Responder) (m : HttpMethod) (sent data : List UInt8) (k : Nat) : Prop :=
  ∃ (h : ResponseHead) (we : TransferEncoding) (body : List UInt8),
    c.InBody we (sent ++ (data ++ h.text)) body k ∧ Suits m we body h.framing

/-- With enough buffers `f` answers a request: `interim`, a head and a whole body. -/
def Opens (isClose : Bool) (m : HttpMethod) (interim : List UInt8)
    (f : Responder → Option Responder) : Prop :=
  ∃ n, ∀ c sent data k, c.closes = isClose → c.method = m → c.Ready sent data (n + k) →
    ∃ c', f c = some c' ∧ c'.Complete m sent (data ++ interim) k

theorem answered_of_suits {m : HttpMethod} {h : ResponseHead} {we : TransferEncoding}
    {body out : List UInt8} (hsuits : Suits m we body h.framing) (hout : bodyText we body out) :
    Answered m (h.text ++ out) := by
  cases hf : h.framing with
  | chunked =>
    rw [hf] at hsuits
    obtain rfl : we = .chunked := hsuits
    by_cases hm : m = .head
    · exact Or.inr ⟨hm, h, hf, List.prefix_append _ _⟩
    · refine Or.inl ⟨h, out, rfl, ?_⟩
      rw [if_neg hm, hf]
      exact ⟨body, hout⟩
  | length n =>
    rw [hf] at hsuits
    obtain ⟨rfl, hlen⟩ := hsuits
    obtain rfl : out = body := hout
    refine Or.inl ⟨h, out, rfl, ?_⟩
    split at hlen
    · next hm =>
      rw [if_pos hm]
      exact List.length_eq_zero_iff.mp hlen
    · next hm =>
      rw [if_neg hm, hf]
      exact hlen

variable {isClose : Bool} {m : HttpMethod} {interim : List UInt8}

theorem plainText_htmlType : PlainText htmlType := by
  unfold PlainText
  decide

theorem Ready.congr {c c' : Responder} {sent data : List UInt8} {k : Nat} (h : c.Ready sent data k)
    (hstream : c'.stream = c.stream) (hstatus : c'.connection.resStatus = c.connection.resStatus) :
    c'.Ready sent data k :=
  ⟨hstatus.trans h.status, hstream ▸ h.pending⟩

/-- What comes before an answer sends nothing. -/
theorem Opens.comp {isClose' : Bool} {f : Responder → Option Responder} {g : Responder → Responder}
    (hf : Opens isClose' m interim f)
    (hg : ∀ c, c.closes = isClose → (g c).closes = isClose' ∧ (g c).method = c.method ∧
      (g c).stream = c.stream ∧ (g c).connection.resStatus = c.connection.resStatus) :
    Opens isClose m interim fun c => f (g c) := by
  obtain ⟨n, hn⟩ := hf
  refine ⟨n, fun c sent data k hclose hm hready => ?_⟩
  obtain ⟨hclose', hm', hstream, hstatus⟩ := hg c hclose
  exact hn (g c) sent data k hclose' (hm'.trans hm) (hready.congr hstream hstatus)

theorem Opens.congr {f g : Responder → Option Responder} (hf : Opens isClose m interim f)
    (hfg : ∀ c, c.method = m → g c = f c) : Opens isClose m interim g := by
  obtain ⟨n, hn⟩ := hf
  refine ⟨n, fun c sent data k hclose hm hready => ?_⟩
  rw [hfg c hm]
  exact hn c sent data k hclose hm hready

/-- A header, and the calls of its body. -/
theorem opens_header {code : UInt16} {contentType : List UInt8} {len : Option UInt32}
    {additional : Option (List UInt8)} {body : List UInt8} {g : Responder × Bool → Option Responder}
    (hsuits : Suits m (encodingOf len) body (framingOf len)) (htype : PlainText contentType)
    (hadd : additional = none ∨ additional = some jsonLines)
    (hg : ∀ c sent k, c.method = m → c.InBody (encodingOf len) sent [] (body.length + k) →
      ∃ c', g (c, true) = some c' ∧ c'.InBody (encodingOf len) sent body k) :
    Opens isClose m [] fun c => (c.sendResponseHeader2 code contentType len additional).bind g := by
  have htext : ∀ header, additional = some header → IsText header := by
    intro header hheader
    obtain rfl | rfl := hadd
    · cases hheader
    · obtain rfl := Option.some.inj hheader
      unfold IsText
      decide
  have hhead : ∃ h : ResponseHead,
      h.text = headText isClose code contentType len additional ∧ h.framing = framingOf len := by
    obtain rfl | rfl := hadd
    · exact exists_head isClose code htype len
    · exact exists_jsonHead isClose code htype len
  obtain ⟨h, heq, hframing⟩ := hhead
  refine ⟨(headText isClose code contentType len additional).length + body.length,
    fun c sent data k hclose hm hready => ?_⟩
  subst hclose
  rw [Nat.add_assoc] at hready
  obtain ⟨c1, hsend, hbody, hm1⟩ := hready.sendResponseHeader2 htype.isText htext
  obtain ⟨c2, hcalls, hbody2⟩ := hg c1 _ k (hm1.trans hm) hbody
  refine ⟨c2, ?_, h, encodingOf len, body, ?_, hframing ▸ hsuits⟩
  · show (c.sendResponseHeader2 code contentType len additional).bind _ = _
    rw [hsend]
    exact hcalls
  · rw [heq, List.append_nil]
    exact hbody2

theorem opens_sendErrorResponse (status : UInt16) :
    Opens isClose m [] fun c => c.sendErrorResponse status := by
  have hheader : Opens true m [] fun c =>
      (c.sendResponseHeader2 status htmlType none none).bind fun r =>
        if r.1.method ≠ .head then (r.1.sendResponseBody (errorBody status)).map Prod.fst
        else some r.1 := by
    refine opens_header (show Suits m .chunked (if m ≠ .head then (errorBody status).bytes else []) _
      from rfl) plainText_htmlType (Or.inl rfl) ?_
    intro c sent k hm hbody
    subst hm
    by_cases hhead : c.method ≠ .head
    · simp only [if_pos hhead] at hbody ⊢
      obtain ⟨c', hsend, hbody', -⟩ := hbody.sendResponseBody _
      exact ⟨c', by rw [hsend]; rfl, hbody'⟩
    · simp only [if_neg hhead] at hbody ⊢
      exact ⟨c, rfl, by simpa using hbody⟩
  exact hheader.comp (g := fun c => c.setConnectionMode .close) fun c _ => ⟨rfl, rfl, rfl, rfl⟩

theorem opens_sendFixedContentBatch {contentType content : List UInt8} (htype : PlainText contentType)
    (fits : content.length < 2 ^ 31) :
    Opens isClose m [] fun c => (c.sendFixedContentBatch contentType content fits).map Prod.fst := by
  have hlen : (UInt32.ofNat content.length).toNat = content.length := by
    rw [UInt32.toNat_ofNat']
    omega
  have hempty : ∀ (code : UInt16) (ctype : List UInt8) (n : UInt32), PlainText ctype →
      Suits m .none [] (.length n.toNat) → Opens isClose m [] fun c =>
        (c.sendResponseHeader2 code ctype (some n) none).bind fun r => some r.1 := by
    intro code ctype n hctype hsuits
    refine opens_header hsuits hctype (Or.inl rfl) ?_
    intro c sent k _ hbody
    exact ⟨c, rfl, by simpa using hbody⟩
  have herror : Suits m .none [] (.length (0 : UInt32).toNat) := ⟨rfl, by split <;> rfl⟩
  cases m with
  | head =>
    refine (hempty 200 contentType (UInt32.ofNat content.length) htype ⟨rfl, rfl⟩).congr fun c hm => ?_
    simp only [sendFixedContentBatch, hm, Option.map_map]
    exact Option.map_eq_bind
  | get =>
    have hsuits : Suits .get (encodingOf (some (UInt32.ofNat content.length))) content
        (framingOf (some (UInt32.ofNat content.length))) := ⟨rfl, hlen.symm⟩
    have hget : Opens isClose .get [] fun c =>
        (c.sendResponseHeader2 200 contentType (some (UInt32.ofNat content.length)) none).bind
          fun r => (r.1.sendResponseBody (.write content fits)).map Prod.fst := by
      refine opens_header hsuits htype (Or.inl rfl) ?_
      intro c sent k _ hbody
      obtain ⟨c', hsend, hbody', -⟩ := InBody.sendResponseBody (.write content fits) hbody
      exact ⟨c', by rw [hsend]; rfl, hbody'⟩
    refine hget.congr fun c hm => ?_
    simp only [sendFixedContentBatch, hm, Option.map_bind]
    congr 1
    funext r
    exact Option.map_map ..
  | post =>
    refine (hempty 405 htmlType 0 plainText_htmlType herror).congr fun c hm => ?_
    simp only [sendFixedContentBatch, hm, Option.map_map]
    exact Option.map_eq_bind
  | mSearch =>
    refine (hempty 405 htmlType 0 plainText_htmlType herror).congr fun c hm => ?_
    simp only [sendFixedContentBatch, hm, Option.map_map]
    exact Option.map_eq_bind
  | notify =>
    refine (hempty 405 htmlType 0 plainText_htmlType herror).congr fun c hm => ?_
    simp only [sendFixedContentBatch, hm, Option.map_map]
    exact Option.map_eq_bind

/-- The JSON header, and the calls of the body for a GET. -/
theorem opens_json {body : List UInt8} {g : Responder → Option Responder}
    (hg : ∀ c sent k, c.InBody .chunked sent [] (body.length + k) →
      ∃ c', g c = some c' ∧ c'.InBody .chunked sent body k) :
    Opens isClose m [] fun c =>
      c.sendJsonHeader.bind fun r =>
        if !r.2 then some r.1 else if r.1.method = .get then g r.1 else some r.1 := by
  have htype : PlainText (ascii "application/json") := by
    unfold PlainText
    decide
  refine opens_header (show Suits m .chunked (if m = .get then body else []) _ from rfl) htype
    (Or.inr rfl) ?_
  intro c sent k hm hbody
  subst hm
  by_cases hget : c.method = .get
  · simp only [if_pos hget] at hbody ⊢
    obtain ⟨c', hcalls, hbody'⟩ := hg c sent k hbody
    exact ⟨c', by simpa using hcalls, hbody'⟩
  · simp only [if_neg hget] at hbody ⊢
    exact ⟨c, rfl, by simpa using hbody⟩

theorem closes_followHeader (c : Responder) (h : BasicHeader) :
    (c.followHeader h).closes = (decide (asksClose h) || c.closes) := by
  unfold followHeader
  split
  · next hclose => simp [hclose, closes, setConnectionMode, HttpdConnection.setConnectionMode]
  · next hclose => simp [hclose]

theorem followHeader_facts (c : Responder) (h : BasicHeader) :
    (c.followHeader h).method = c.method ∧ (c.followHeader h).stream = c.stream ∧
      (c.followHeader h).connection.resStatus = c.connection.resStatus := by
  unfold followHeader
  split <;> exact ⟨rfl, rfl, rfl⟩

theorem Opens.follow {f : Responder → Option Responder} (h : BasicHeader)
    (hf : ∀ isClose, Opens isClose m interim f) :
    Opens isClose m interim fun c => f (c.followHeader h) :=
  (hf (decide (asksClose h) || isClose)).comp fun c hclose =>
    ⟨hclose ▸ closes_followHeader c h, followHeader_facts c h⟩

theorem Opens.parsed {f : Responder → Option Responder} (hf : Opens isClose m interim f) :
    Opens isClose m interim fun c => f c.setReqStatusParsed :=
  hf.comp fun _ hclose => ⟨hclose, rfl, rfl, rfl⟩

theorem Opens.continued {f : Responder → Option Responder} (hf : Opens isClose m [] f) :
    Opens isClose m continueText fun c => f c.send100Continue.1 := by
  obtain ⟨n, hn⟩ := hf
  refine ⟨25 + n, fun c sent data k hclose hm hready => ?_⟩
  rw [Nat.add_assoc] at hready
  obtain ⟨c', hsend, hready', hm', hconn⟩ := hready.send100Continue
  have hclose' : c'.closes = isClose := by rw [closes, hconn]; exact hclose
  obtain ⟨c'', hrun, hcomplete⟩ := hn c' sent _ k hclose' (hm'.trans hm) hready'
  rw [List.append_nil] at hcomplete
  refine ⟨c'', ?_, hcomplete⟩
  show f c.send100Continue.1 = some c''
  rw [hsend]
  exact hrun

theorem map_pair_fst (o : Option Responder) (ok : Bool) : (o.map (·, ok)).map Prod.fst = o := by
  cases o <;> rfl

/-- A module that answers with an error. -/
theorem opens_refused (status : UInt16) (ok : Bool) :
    Opens isClose m [] fun c => ((c.sendErrorResponse status).map (·, ok)).map Prod.fst :=
  (opens_sendErrorResponse status).congr fun _ _ => map_pair_fst _ ok

/-- Whether the modules answer the method. -/
theorem opens_allowed {f g : Responder → Option (Responder × Bool)}
    (hf : Opens isClose m [] fun c => (f c).map Prod.fst)
    (hg : m = .get ∨ m = .head → Opens isClose m [] fun c => (g c).map Prod.fst) :
    Opens isClose m [] fun c =>
      (if c.method ≠ .get ∧ c.method ≠ .head then f c else g c).map Prod.fst := by
  by_cases hm : m ≠ .get ∧ m ≠ .head
  · exact hf.congr fun c hc => by rw [hc, if_pos hm]
  · exact (hg (or_iff_not_and_not.mpr hm)).congr fun c hc => by rw [hc, if_neg hm]

end Responder

open Responder

variable {isClose : Bool} {m : HttpMethod}

/-- `NyLPC_cModRomFiles_execute` behind `NyLPC_cModUrl_execute2`. -/
theorem opens_found (files : List RomFileData) (h : BasicHeader) (url : List UInt8) :
    Opens isClose m [] fun c =>
      (if c.method ≠ .get ∧ c.method ≠ .head then (c.sendErrorResponse 405).map (·, false)
        else if url.length = 0 then (c.sendErrorResponse 403).map (·, false)
        else
          match files.reverse.find? fun f => f.name = url with
          | some f => (c.followHeader h).sendFixedContentBatch f.contentType f.content f.content_fits
          | none => (c.sendErrorResponse 404).map (·, false)).map Prod.fst := by
  refine opens_allowed (opens_refused 405 false) fun _ => ?_
  by_cases hurl : url.length = 0
  · simp only [if_pos hurl]
    exact opens_refused 403 false
  · simp only [if_neg hurl]
    cases files.reverse.find? fun f => f.name = url with
    | none => exact opens_refused 404 false
    | some f =>
      exact Opens.follow h fun isClose => opens_sendFixedContentBatch f.type_plain f.content_fits

/-- What is sent before the response. -/
def Request.interim : Request → List UInt8
  | .romFiles _ (.ok (h, _)) => if asksContinue h then continueText else []
  | _ => []

theorem opens_romFiles (files : List RomFileData) (parsed : Except UInt16 (BasicHeader × List UInt8)) :
    Opens isClose m (Request.romFiles files parsed).interim fun c =>
      (ModRomFiles.execute c files parsed).map Prod.fst := by
  cases parsed with
  | error reason => exact (opens_refused reason false).parsed
  | ok r =>
    obtain ⟨h, url⟩ := r
    have hfound := @Opens.follow isClose m [] _ h fun _ => opens_found files h url
    by_cases hask : asksContinue h
    · rw [Request.interim, if_pos hask]
      refine hfound.continued.parsed.congr fun c _ => ?_
      have hgo : ModUrl.execute2 c (.ok h) =
          some (c.setReqStatusParsed.send100Continue.1.followHeader h, true) := by
        simp only [ModUrl.execute2, if_pos hask]
      rw [ModRomFiles.execute, hgo]
      rfl
    · rw [Request.interim, if_neg hask]
      refine hfound.parsed.congr fun c _ => ?_
      have hgo : ModUrl.execute2 c (.ok h) =
          some (c.setReqStatusParsed.followHeader h, true) := by
        simp only [ModUrl.execute2, if_neg hask]
      rw [ModRomFiles.execute, hgo]
      rfl

theorem opens_setupProc (texts : SettingTexts) (query : SettingQuery) :
    Opens isClose m [] fun c => ModMiMicSetting.setupProc c texts query := by
  cases query with
  | get =>
    refine @opens_json isClose m ([texts.application, texts.cfg, texts.cur].flatMap BodyCall.bytes)
      (fun c => c.sendUntil [texts.application, texts.cfg, texts.cur]) ?_
    intro c sent k hbody
    obtain ⟨c', ⟨-, hcalls⟩, hbody', -⟩ := hbody.sends
    exact ⟨c', hcalls, hbody'⟩
  | update paramLen hostLen httpPort updated =>
    simp only [ModMiMicSetting.setupProc]
    split
    · exact opens_sendErrorResponse 500
    split
    · exact opens_sendErrorResponse 500
    split
    · exact opens_sendErrorResponse 500
    · refine @opens_json isClose m resultBody.bytes
        (fun c => (c.sendResponseBody resultBody).map Prod.fst) ?_
      intro c sent k hbody
      obtain ⟨c', hsend, hbody', -⟩ := hbody.sendResponseBody _
      exact ⟨c', by rw [hsend]; rfl, hbody'⟩
  | unknown => exact opens_sendErrorResponse 400

theorem opens_setting (texts : SettingTexts) (parsed : Option (BasicHeader × Option SettingQuery)) :
    Opens isClose m [] fun c => (ModMiMicSetting.execute c texts parsed).map Prod.fst := by
  cases parsed with
  | none => exact (opens_refused 500 false).parsed
  | some r =>
    obtain ⟨h, query⟩ := r
    cases query with
    | none =>
      have hcontent := @Opens.follow isClose m [] _ h fun _ => opens_refused 500 false
      exact (opens_allowed (opens_refused 405 false) fun _ => hcontent).parsed
    | some query =>
      have hcontent : Opens isClose m [] fun c =>
          ((ModMiMicSetting.setupProc (c.followHeader h) texts query).map (·, true)).map Prod.fst :=
        (Opens.follow h fun _ => opens_setupProc texts query).congr fun c _ => map_pair_fst _ true
      exact (opens_allowed (opens_refused 405 false) fun _ => hcontent).parsed

theorem opens_description {root : DevDescDevice} (hs : ¬ root.numberOfService > 0)
    (hd : ¬ root.numberOfDevices > 0) :
    Opens isClose m [] fun c =>
      (c.sendResponseHeader 200 (ascii "text/xml") none).bind fun r =>
        (writeDeviceDescription root).bind r.1.sendFormats := by
  obtain ⟨calls, hdesc, hcalls⟩ := writeDeviceDescription_some hs hd
  obtain ⟨bodies, hbodies⟩ := sendFormats_wellTyped hcalls
  have htype : PlainText (ascii "text/xml") := by
    unfold PlainText
    decide
  refine opens_header (show Suits m .chunked (bodies.flatMap BodyCall.bytes) _ from rfl) htype
    (Or.inl rfl) ?_
  intro c sent k _ hbody
  obtain ⟨c', ⟨hsend, -⟩, hbody', -⟩ := hbody.sends
  refine ⟨c', ?_, hbody'⟩
  rw [hdesc, Option.bind_some, hbodies]
  exact hsend

/-- When the description is asked for, the device has no services and no devices of its own. -/
def Request.Described (m : HttpMethod) : Request → Prop
  | .upnp root (some (_, true)) =>
      m = .get ∨ m = .head → ¬ root.numberOfService > 0 ∧ ¬ root.numberOfDevices > 0
  | _ => True

theorem opens_upnp (root : DevDescDevice) (parsed : Option (BasicHeader × Bool))
    (hdescribed : (Request.upnp root parsed).Described m) :
    Opens isClose m [] fun c => (ModUPnPDevice.execute c root parsed).map Prod.fst := by
  cases parsed with
  | none => exact (opens_refused 500 false).parsed
  | some r =>
    obtain ⟨h, deviceXml⟩ := r
    have hcontent : m = .get ∨ m = .head → Opens isClose m [] fun c =>
        (if deviceXml then
          ((c.followHeader h).sendResponseHeader 200 (ascii "text/xml") none).bind fun r =>
            ((writeDeviceDescription root).bind r.1.sendFormats).map (·, true)
        else ((c.followHeader h).sendErrorResponse 500).map (·, false)).map Prod.fst := by
      intro hm
      cases deviceXml with
      | false => exact Opens.follow h fun _ => opens_refused 500 false
      | true =>
        obtain ⟨hs, hd⟩ := hdescribed hm
        refine Opens.congr (Opens.follow h fun _ => opens_description hs hd) fun c _ => ?_
        rw [if_pos rfl, Option.map_bind]
        congr 1
        funext r
        exact map_pair_fst _ true
    exact (opens_allowed (opens_refused 405 false) hcontent).parsed

/-- A header without a body. -/
theorem sendHeaderOnly_delivers {c : Responder} {sent data : List UInt8} {k : Nat} (status : UInt16)
    (h : Pending .none sent data ((headOf true status (some 0) [] (by simp)).text.length + k) c.stream) :
    ∃ sizes, (c.sendHeaderOnly status).stream = .settled .none sizes
        (sent ++ (data ++ (headOf true status (some 0) [] (by simp)).text)) ∧ Supply k sizes := by
  have hstream := setWriteEncoding_self h.weType
  have hwriter : (HeaderWriter.ofStream HttpStream.ptrStream c.stream none).2.setConnectionClose true =
      ⟨false, 0, true, false, c.stream⟩ := by
    simp [HeaderWriter.ofStream, HeaderWriter.setConnectionClose, hstream]
  have htext := headOf_text true status (some 0) [] (by simp)
  simp only [List.flatMap_nil, List.nil_append] at htext
  have hp0 : Pending .none sent data (((StartLine.response status).text ++
      (⟨false, 0, true, false, c.stream⟩ : HeaderWriter HttpStream).optionLines).length + (2 + k))
      c.stream := by
    refine h.mono ?_
    have hcrlf : crlf.length = 2 := rfl
    rw [htext]
    simp only [List.length_append, hcrlf]
    exact le_of_eq (by rw [← Nat.add_assoc]; rfl)
  obtain ⟨st, hlines, hp⟩ := HeaderWriter.writeResponseHeader_delivers status rfl hp0
  obtain ⟨sizes, hclose, hsup⟩ := HeaderWriter.close_delivers
    (w := { (⟨false, 0, true, false, c.stream⟩ : HeaderWriter HttpStream) with refStream := st }) rfl hp
  refine ⟨sizes, ?_, hsup⟩
  simp only [sendHeaderOnly, hwriter, hlines, hclose]
  rw [htext, List.append_assoc]
  rfl

theorem answered_headOnly (status : UInt16) :
    Answered m (headOf true status (some 0) [] (by simp)).text := by
  refine Or.inl ⟨headOf true status (some 0) [] (by simp), [], (List.append_nil _).symm, ?_⟩
  split <;> rfl

/-- A module's answer, and the response closed. -/
theorem Opens.close {f : Responder → Option (Responder × Bool)} {interim : List UInt8}
    (hf : Opens isClose m interim fun c => (f c).map Prod.fst) :
    ∃ n, ∀ c sent, c.closes = isClose → c.method = m → c.Ready sent [] n →
      ∃ c' sizes bs, ((f c).bind fun r => r.1.closeResponse.map Prod.fst) = some c' ∧
        c'.stream = .settled .none sizes (sent ++ (interim ++ bs)) ∧ Answered m bs := by
  obtain ⟨n, hn⟩ := hf
  refine ⟨n + 5, fun c sent hclose hm hready => ?_⟩
  obtain ⟨c1, hrun, h, we, body, hbody, hsuits⟩ := hn c sent [] 5 hclose hm hready
  obtain ⟨c2, keep, sizes, out, hclosed, hstream, -, hout⟩ := InBody.closeResponse (k := 0) hbody
  refine ⟨c2, sizes, h.text ++ out, ?_, ?_, answered_of_suits hsuits hout⟩
  · obtain ⟨r, hr, rfl⟩ := Option.map_eq_some_iff.mp hrun
    rw [hr, Option.bind_some, hclosed]
    rfl
  · rw [hstream]
    simp only [List.nil_append, List.append_assoc]

theorem SendSizes.supply (sizes : SendSizes) (hroom : ∀ k, 13 ≤ (sizes.size k).toNat) (n : Nat) :
    Supply n (sizes.first n) where
  room s hs := by
    obtain ⟨k, -, rfl⟩ := List.mem_map.mp hs
    exact ⟨hroom k, sizes.le_max k⟩
  enough := by rw [SendSizes.first, List.length_map, List.length_range]

theorem one_response (sizes : SendSizes) (hroom : ∀ k, 13 ≤ (sizes.size k).toNat) (c : Responder)
    (hc : c.connection.resStatus = .head) (sent : List UInt8) (r : Request)
    (hr : r.Described c.method) :
    ∃ n c' left bs, r.serve { c with stream := .settled .none (sizes.first n) sent } = some c' ∧
      c'.stream = .settled .none left (sent ++ (r.interim ++ bs)) ∧ Answered c.method bs := by
  have hpending : ∀ n, Pending .none sent [] n (.settled .none (sizes.first n) sent) := fun n =>
    HttpStream.pending_settled .none sent (SendSizes.supply sizes hroom n)
  have hready : ∀ n, ({ c with stream := .settled .none (sizes.first n) sent } : Responder).Ready
      sent [] n := fun n => ⟨hc, hpending n⟩
  have hmodule : ∀ {f : Responder → Option (Responder × Bool)} {interim : List UInt8},
      (Opens c.closes c.method interim fun c => (f c).map Prod.fst) → ∃ n c' left bs,
        ((f { c with stream := .settled .none (sizes.first n) sent }).bind fun r =>
          r.1.closeResponse.map Prod.fst) = some c' ∧
        c'.stream = .settled .none left (sent ++ (interim ++ bs)) ∧ Answered c.method bs := by
    intro f interim hf
    obtain ⟨n, hn⟩ := Opens.close hf
    exact ⟨n, hn _ sent rfl rfl (hready n)⟩
  have hheader : ∀ status : UInt16, ∃ n left,
      (({ c with stream := .settled .none (sizes.first n) sent } : Responder).sendHeaderOnly
        status).stream = .settled .none left (sent ++ (headOf true status (some 0) [] (by simp)).text) := by
    intro status
    have hp := hpending ((headOf true status (some 0) [] (by simp)).text.length + 0)
    obtain ⟨left, hleft, -⟩ := sendHeaderOnly_delivers (c := { c with stream := _ }) status hp
    exact ⟨_, left, hleft⟩
  cases r with
  | malformed =>
    obtain ⟨n, left, hleft⟩ := hheader 400
    exact ⟨n, _, left, _, rfl, hleft, answered_headOnly 400⟩
  | unhandled =>
    obtain ⟨n, left, hleft⟩ := hheader 500
    refine ⟨n, { ({ c with stream := .settled .none (sizes.first n) sent } : Responder).sendHeaderOnly 500
      with connection := c.connection.closeResponse.1 }, left, _, ?_, hleft, answered_headOnly 500⟩
    simp only [Request.serve, closeResponse, hc, Option.map_some]
  | romFiles files parsed => exact hmodule (opens_romFiles files parsed)
  | setting texts parsed => exact hmodule (opens_setting texts parsed)
  | upnp root parsed => exact hmodule (opens_upnp root parsed hr)

/-- A connection whose request was prefetched. -/
def prefetched (m : HttpMethod) (sizes : List UInt16) : Responder :=
  ⟨⟨.reqparse, .head, .keep, 0, 0⟩, m, .settled .none sizes [], false, false⟩

/-- The header of a request without fields. -/
def plainHeader (m : HttpMethod) : BasicHeader := ⟨.none, .none, .request, some .v11, some m, 0, 0⟩

/-- A request for a file that is not there. -/
def missingFile (m : HttpMethod) : Request := .romFiles [] (.ok (plainHeader m, ascii "a"))

/-- Every send buffer is the largest. -/
def fullFrames : SendSizes where
  size _ := 1460
  pos _ := by decide
  le_max _ := by decide

theorem fullFrames_room (k : Nat) : 13 ≤ (fullFrames.size k).toNat := by
  show 13 ≤ (1460 : UInt16).toNat
  decide

/-- A request for the description of a device with `services` services. -/
def askDescription (m : HttpMethod) (services : Int8) : Request :=
  let root : DevDescDevice := ⟨ascii "t", ascii "f", ascii "m", none, none, ascii "n", none, none,
    some (ascii "1"), ascii "u", none, none, 0, services, [⟨ascii "i", 8, 8, 1, ascii "p"⟩]⟩
  .upnp root (some (plainHeader m, true))

theorem one_response_description :
    ∃ n c' left bs, (askDescription .get 0).serve
        { prefetched .get [] with stream := .settled .none (fullFrames.first n) [] } = some c' ∧
      c'.stream = .settled .none left ([] ++ ((askDescription .get 0).interim ++ bs)) ∧
      Answered .get bs :=
  one_response fullFrames fullFrames_room (prefetched .get []) rfl [] (askDescription .get 0)
    fun _ => ⟨by decide, by decide⟩

/-- The head of the error responses. -/
def errorHead (code : UInt16) : ResponseHead :=
  headOf true code none [typeField htmlType fun c hc => (plainText_htmlType c hc).2] (by decide)

/-- An interim response before another status line, the last chunk behind a response to HEAD,
buffers that have room for a chunk without data, a connection that takes nothing, and a device
with a service, whose number is read through NULL. -/
theorem not_one_response :
    (∃ c', (missingFile .post).serve (prefetched .post [1460, 1460, 1460]) = some c' ∧
      ¬ OneResponse .post c'.stream.sent) ∧
    (∃ c', (missingFile .head).serve (prefetched .head [1460, 1460, 1460]) = some c' ∧
      ¬ OneResponse .head c'.stream.sent) ∧
    (∃ c', (missingFile .get).serve (prefetched .get (List.replicate 13 12)) = some c' ∧
      ¬ OneResponse .get c'.stream.sent) ∧
    (∃ c', (missingFile .get).serve (prefetched .get []) = some c' ∧
      ¬ OneResponse .get c'.stream.sent) ∧
    (askDescription .get 1).serve (prefetched .get [1460, 1460, 1460]) = none := by
  have hsent : ∀ {r : Request} {c : Responder} {m : HttpMethod} (bs : List UInt8),
      ((r.serve c).map fun c' => c'.stream.sent) = some bs → ¬ OneResponse m bs →
        ∃ c', r.serve c = some c' ∧ ¬ OneResponse m c'.stream.sent := by
    intro r c m bs hrun hnot
    obtain ⟨c', hc', rfl⟩ := Option.map_eq_some_iff.mp hrun
    exact ⟨c', hc', hnot⟩
  refine ⟨?_, ?_, ?_, ?_, by decide +kernel⟩
  · refine hsent (ascii "HTTP/1.1 1" ++ (ascii "00 Continue\r\n\r\n" ++ ((errorHead 405).text ++
      (chunkBytes (errorBody 405).bytes ++ bodyFooter)))) (by decide +kernel) ?_
    exact not_oneResponse_interim _ _
  · refine hsent ((errorHead 404).text ++ bodyFooter) (by decide +kernel) ?_
    exact not_oneResponse_head _ (by decide)
  · refine hsent ((errorHead 404).text ++ (chunkBytes [] ++ chunkBytes [])) (by decide +kernel) ?_
    exact not_oneResponse_chunked (by decide) _ (by decide +kernel) chunked_emptyChunk (by decide)
  · refine hsent [] (by decide +kernel) ?_
    rintro ⟨h, body, heq, -⟩
    simp [ResponseHead.text, linesText, crlf] at heq

end MiMic.Httpd
