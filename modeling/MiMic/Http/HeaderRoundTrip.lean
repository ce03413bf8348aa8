import MiMic.Http.HeaderWriter

/-!
# What the header writer writes, the header parser reads

A written header is accepted up to its last byte, in whatever pieces it arrives, and what
the parser and its handlers make of it is what the writer was given.
-/
namespace MiMic.Http

open Verif.Decimal (decimal)

/-- A path as a request line can carry it: no spaces, no control characters, and not empty. -/
structure IsPath (path : List UInt8) : Prop where
  ne_nil : path ≠ []
  plain : ∀ c ∈ path, chSpace < c

def StartLine.Plain : StartLine → Prop
  | .request _ _ _ path => IsPath path
  | .response _ => True

/-- A field that the parser can take and hands to its message handler. -/
structure IsField (f : List UInt8 × List UInt8) : Prop where
  name : IsFieldName f.1
  unknown : ∀ e ∈ BasicHeaderParser.knownMsg, f.1.map toupper ≠ e.1
  text : IsText f.2
  line : chLf ∉ f.2

/-- The calls of the URL handler. -/
def StartLine.urlCalls : StartLine → List UInt8
  | .request _ _ _ path => path ++ [0]
  | .response _ => []

/-- The calls for the field that comes with the start line. -/
def StartLine.messageCalls : StartLine → List MessageCall
  | .request _ host port _ => fieldCalls (ascii "Host") (hostText host port)
  | .response _ => fieldCalls (ascii "Server") httpdServer

def StartLine.header (out : BasicHeader) : StartLine → BasicHeader
  | .request m _ _ _ => { out with method := some m, type := .request, version := some .v11 }
  | .response status =>
      { out with
        version := some .v11
        type := .response
        status := UInt32.ofNat (HeaderWriter.statusEntry status).1.toNat }

/-- The header that the options of a writer stand for. -/
def HeaderWriter.header {τ : Type} (w : HeaderWriter τ) (out : BasicHeader) : BasicHeader :=
  { out with
    connection := if w.isClose then .close else .none
    transferEncoding := if w.isChunked then .chunked else .none
    contentLength := if w.isChunked then invalidLength else w.contentLength }

/-- What is to be read back: type, method or status, version, connection and framing. -/
def readBack {τ : Type} (w : HeaderWriter τ) (start : StartLine) (out : BasicHeader) : BasicHeader :=
  w.header (start.header out)

theorem isFieldName_host : IsFieldName (ascii "Host") := ⟨by decide, by decide, by decide⟩

theorem isFieldName_server : IsFieldName (ascii "Server") := ⟨by decide, by decide, by decide⟩

theorem digit_plain {c : UInt8} (h : isDigit c = true) :
    c ≠ 0 ∧ c ≠ chSpace ∧ c ≠ chCr ∧ c ≠ chLf := by
  refine ⟨?_, ?_, ?_, ?_⟩
  all_goals
    intro heq
    subst heq
    exact absurd h (by decide)

theorem isShortValue_decimal {n : Nat} (hn : n < 2 ^ 31) : IsShortValue (decimal n) := by
  have hdigits := Verif.Decimal.isDigit_decimal n
  have hlen : (decimal n).length ≤ 10 := Verif.Decimal.length_decimal_le (by decide) (by omega)
  refine ⟨Verif.Decimal.decimal_ne_nil n, hlen.trans (by decide), ?_, ?_⟩
  · intro hhead
    have hmem := List.mem_of_mem_head? (Option.mem_def.mpr hhead)
    exact (digit_plain (hdigits _ hmem)).2.1 rfl
  · intro c hc
    obtain ⟨h0, -, hcr, hlf⟩ := digit_plain (hdigits c hc)
    exact ⟨h0, hcr, hlf⟩

theorem byteText_plain : ∀ v : UInt8, chLf ∉ byteText v := forall_char (by decide +kernel)

theorem hostText_plain (host : IPv4Addr) (port : UInt16) : chLf ∉ hostText host port := by
  have hip : chLf ∉ ipv4ToString host := by
    intro hm
    have hm' := List.mem_of_mem_dropLast hm
    obtain ⟨k, -, hk⟩ := List.mem_flatMap.mp hm'
    rcases List.mem_append.mp hk with hb | hdot
    · exact byteText_plain _ hb
    · exact absurd (List.mem_singleton.mp hdot) (by decide)
  intro hm
  rcases List.mem_append.mp hm with hm | hport
  · rcases List.mem_append.mp hm with hh | hcolon
    · exact hip hh
    · exact absurd hcolon (by decide)
  · exact (digit_plain (Verif.Decimal.isDigit_decimal _ _ hport)).2.2.2 rfl

theorem statusEntry_mem (status : UInt16) : HeaderWriter.statusEntry status ∈ statusLineTbl := by
  unfold HeaderWriter.statusEntry getStatusMessage
  cases hf : statusLineTbl.find? fun e => status == e.1 with
  | none =>
    have hdefault : ((500 : UInt16), ((((statusLineTbl.find? fun e => 500 == e.1).map Prod.snd)).getD [])) ∈
        statusLineTbl := by decide
    exact hdefault
  | some e =>
    have hmem := List.mem_of_find?_eq_some hf
    have heq := List.find?_some hf
    simp only [beq_iff_eq] at heq
    rw [heq]
    exact hmem

theorem statusEntry_plain (status : UInt16) : chLf ∉ (HeaderWriter.statusEntry status).2 := by
  have htable : ∀ e ∈ statusLineTbl, chLf ∉ e.2 := by decide
  exact htable _ (statusEntry_mem status)

namespace BasicHeaderParser

variable {σ τ : Type} {H : HeaderHandler σ} {p : BasicHeaderParser σ} {out : BasicHeader} {u u' : σ}

theorem reads_start (h : p.At .start out u) {start : StartLine} (hplain : start.Plain) {u₁ : σ}
    (hurl : start.urlCalls.foldlM H.url u = some u₁)
    (hmsg : start.messageCalls.foldlM H.message u₁ = some u') :
    ∃ q, Reads H p start.text q ∧ q.At .msgHead (start.header out) u' := by
  cases start with
  | request m host port path =>
    have hsp : chSpace ∉ path := fun hm => absurd (hplain.plain _ hm) (UInt8.lt_irrefl _)
    obtain ⟨q, hq, hqat⟩ := reads_requestLine h m hplain.ne_nil hsp hurl
    obtain ⟨r, hr, hrat⟩ := reads_message hqat isFieldName_host (by decide) (hostText_plain host port)
      hmsg
    exact ⟨r, hq.append hr, hrat⟩
  | response status =>
    obtain rfl := Option.some.inj hurl
    have hlt := (HeaderWriter.statusEntry status).1.toNat_lt
    have hlf : chLf ∉ (HeaderWriter.statusEntry status).2 ++ [chCr] := by
      intro hm
      rcases List.mem_append.mp hm with hm | hcr
      · exact statusEntry_plain status hm
      · exact absurd (List.mem_singleton.mp hcr) (by decide)
    obtain ⟨q, hq, hqat⟩ := reads_statusLine (H := H) h
      (n := (HeaderWriter.statusEntry status).1.toNat) (by omega) hlf
    obtain ⟨r, hr, hrat⟩ := reads_message hqat isFieldName_server (by decide) (by decide) hmsg
    exact ⟨r, hq.append hr, hrat⟩

theorem collects_connection : Collects H (fun p : BasicHeaderParser σ =>
    { p with
      wsb := p.wsb.toUpper.clear
      out := { p.out with connection :=
        ((connectionTable.find? fun e => p.wsb.toUpper.str = e.1).map Prod.snd).getD .unknown }
      st := .msgHead }) .msgConnection := by
  intro q hq c
  rw [parseOne, hq]
  rfl

theorem collects_transferEncoding : Collects H (fun p : BasicHeaderParser σ =>
    { p with
      wsb := p.wsb.toUpper.clear
      out := { p.out with transferEncoding :=
        if p.wsb.toUpper.str = ascii "CHUNKED" then .chunked else .unknown }
      st := .msgHead }) .msgTransferEncoding := by
  intro q hq c
  rw [parseOne, hq]
  rfl

theorem collects_contentLength : Collects H (fun p : BasicHeaderParser σ =>
    match strtol p.wsb.str with
    | none => { p with out := { p.out with contentLength := 0 } }.fail 400
    | some (n, _) => { p with out := { p.out with contentLength := UInt32.ofInt n } }.goOn .msgHead)
    .msgContentLength := by
  intro q hq c
  rw [parseOne, hq]
  rfl

/-- `Connection: CLOSE`. -/
theorem reads_connectionClose (h : p.At .msgHead out u) :
    ∃ q, Reads H p (fieldLine (ascii "Connection") (ascii "CLOSE")) q ∧
      q.At .msgHead { out with connection := .close } u := by
  have hfind : (connectionTable.find? fun e =>
      (CStr.mk 31 5 (ascii "CLOSE")).toUpper.str = e.1).map Prod.snd = some Connection.close := by decide
  apply reads_known h (e := (ascii "CONNECTION", .msgConnection)) ⟨by decide, by decide, by decide⟩
    (by decide) (by decide) collects_connection ⟨by decide, by decide, by decide, by decide⟩
  intro q hwsb hout huser
  refine ⟨rfl, rfl, congrArg CStr.s hwsb, ?_, huser⟩
  dsimp only
  have hlen : (ascii "CLOSE").length = 5 := rfl
  rw [hwsb, hout, hlen, hfind]
  rfl

/-- `Transfer-Encoding: chunked`. -/
theorem reads_chunked (h : p.At .msgHead out u) :
    ∃ q, Reads H p (fieldLine (ascii "Transfer-Encoding") (ascii "chunked")) q ∧
      q.At .msgHead { out with transferEncoding := .chunked } u := by
  have htext : (CStr.mk 31 7 (ascii "chunked")).toUpper.str = ascii "CHUNKED" := by decide
  apply reads_known h (e := (ascii "TRANSFER-ENCODING", .msgTransferEncoding))
    ⟨by decide, by decide, by decide⟩ (by decide) (by decide) collects_transferEncoding
    ⟨by decide, by decide, by decide, by decide⟩
  intro q hwsb hout huser
  refine ⟨rfl, rfl, congrArg CStr.s hwsb, ?_, huser⟩
  dsimp only
  have hlen : (ascii "chunked").length = 7 := rfl
  rw [hwsb, hout, hlen, if_pos htext]

/-- `Content-Length` with a decimal number. -/
theorem reads_contentLength (h : p.At .msgHead out u) {n : UInt32} (hn : n.toNat < 2 ^ 31) :
    ∃ q, Reads H p (fieldLine (ascii "Content-Length") (decimal n.toNat)) q ∧
      q.At .msgHead { out with contentLength := n } u := by
  have hv := isShortValue_decimal hn
  apply reads_known h (e := (ascii "CONTENT-LENGTH", .msgContentLength))
    ⟨by decide, by decide, by decide⟩ (by decide) (by decide) collects_contentLength hv
  intro q hwsb hout huser
  have hstr : strtol q.wsb.str = some ((n.toNat : Int), []) := by
    rw [hwsb, CStr.str, cString_of_ne_zero fun c hc => (hv.plain c hc).1, strtol_decimal hn]
  simp only [hstr]
  refine ⟨rfl, rfl, congrArg CStr.s hwsb, ?_, huser⟩
  show { q.out with contentLength := UInt32.ofInt (n.toNat : Int) } = _
  rw [hout, ofInt_natCast, UInt32.ofNat_toNat]

/-- The lines of the options. -/
theorem reads_options {w : HeaderWriter τ} (h : p.At .msgHead out u)
    (hout : out.connection = .none ∧ out.transferEncoding = .none ∧ out.contentLength = invalidLength)
    (hn : w.isChunked = false → w.contentLength.toNat < 2 ^ 31) :
    ∃ q, Reads H p w.optionLines q ∧ q.At .msgHead (w.header out) u := by
  obtain ⟨hconn, henc, hlen⟩ := hout
  have hclose : ∃ q, Reads H p
      (if w.isClose then fieldLine (ascii "Connection") (ascii "CLOSE") else []) q ∧
        q.At .msgHead { out with connection := if w.isClose then .close else .none } u := by
    cases w.isClose with
    | true => exact reads_connectionClose h
    | false =>
      refine ⟨p, Reads.nil (live_of_st h.st_eq (by decide)), h.st_eq, h.l_eq, h.s_eq, ?_, h.user_eq⟩
      rw [h.out_eq]
      simp only [Bool.false_eq_true, if_false, ← hconn]
  obtain ⟨q, hq, hqat⟩ := hclose
  have hframing : ∃ r, Reads H q (if w.isChunked
      then fieldLine (ascii "Transfer-Encoding") (ascii "chunked")
      else fieldLine (ascii "Content-Length") (decimal w.contentLength.toNat)) r ∧
        r.At .msgHead (w.header out) u := by
    unfold HeaderWriter.header
    cases hc : w.isChunked with
    | true =>
      obtain ⟨r, hr, hrat⟩ := reads_chunked (H := H) hqat
      refine ⟨r, hr, ?_⟩
      simp only [if_true, ← hlen]
      exact hrat
    | false =>
      obtain ⟨r, hr, hrat⟩ := reads_contentLength (H := H) hqat (hn hc)
      refine ⟨r, hr, ?_⟩
      simp only [Bool.false_eq_true, if_false, ← henc]
      exact hrat
  obtain ⟨r, hr, hrat⟩ := hframing
  exact ⟨r, hq.append hr, hrat⟩

theorem reads_fields {fields : List (List UInt8 × List UInt8)} (h : p.At .msgHead out u)
    (hfields : ∀ f ∈ fields, IsField f)
    (hcalls : (fields.flatMap fun f => fieldCalls f.1 f.2).foldlM H.message u = some u') :
    ∃ q, Reads H p (fields.flatMap fun f => fieldLine f.1 f.2) q ∧ q.At .msgHead out u' := by
  induction fields generalizing p u with
  | nil =>
    obtain rfl := Option.some.inj hcalls
    exact ⟨p, Reads.nil (live_of_st h.st_eq (by decide)), h⟩
  | cons f fs ih =>
    have hf := hfields f (List.mem_cons_self ..)
    rw [List.flatMap_cons, List.foldlM_append] at hcalls
    obtain ⟨u₁, hu₁, hrest⟩ := Option.bind_eq_some_iff.mp hcalls
    obtain ⟨q, hq, hqat⟩ := reads_message h hf.name hf.unknown hf.line hu₁
    obtain ⟨r, hr, hrat⟩ := ih hqat (fun g hg => hfields g (List.mem_cons_of_mem _ hg)) hrest
    exact ⟨r, hq.append hr, hrat⟩

end BasicHeaderParser

/-- The framing that a writer announces passes the parser's test. -/
theorem testHeader_readBack {τ : Type} {w : HeaderWriter τ} {start : StartLine} {out : BasicHeader}
    (hn : w.isChunked = false → w.contentLength.toNat < 2 ^ 31) :
    testHeader (readBack w start out) = .ok (readBack w start out) := by
  have hversion : (readBack w start out).version = some .v11 := by
    cases start <;> rfl
  rw [testHeader, hversion]
  simp only
  cases hc : w.isChunked with
  | true =>
    have hlen : (readBack w start out).contentLength = invalidLength := by
      rw [readBack, HeaderWriter.header, hc]
      rfl
    have henc : (readBack w start out).transferEncoding = .chunked := by
      rw [readBack, HeaderWriter.header, hc]
      rfl
    rw [if_pos hlen, henc]
    rfl
  | false =>
    have hlen : (readBack w start out).contentLength = w.contentLength := by
      rw [readBack, HeaderWriter.header, hc]
      rfl
    have henc : (readBack w start out).transferEncoding = .none := by
      rw [readBack, HeaderWriter.header, hc]
      rfl
    have hne : ¬ w.contentLength = invalidLength := by
      intro heq
      have hlt := hn hc
      rw [heq] at hlt
      exact absurd hlt (by decide)
    rw [if_neg (by rw [hlen]; exact hne), henc]
    rfl

open BasicHeaderParser in
/-- A header that was written is accepted and consumed to its last byte, whatever follows it and
however it is cut, and gives back what the writer was told. -/
theorem header_agrees {σ τ : Type} {S : PtrStream τ} {sent : τ → List UInt8} (hS : S.Appends sent)
    (w : HeaderWriter τ) (start : StartLine) (fields : List (List UInt8 × List UInt8))
    (hplain : start.Plain) (hfields : ∀ f ∈ fields, IsField f)
    (hn : w.isChunked = false → w.contentLength.toNat < 2 ^ 31)
    (hwrite : (w.writeHeader S start fields).1 = true) {H : HeaderHandler σ} {u u₁ u₂ : σ}
    (hurl : start.urlCalls.foldlM H.url u = some u₁)
    (hmsg : (start.messageCalls ++ fields.flatMap fun f => fieldCalls f.1 f.2).foldlM H.message u₁ =
      some u₂) (out : BasicHeader) :
    ∃ bytes, sent (w.writeHeader S start fields).2.refStream = sent w.refStream ++ bytes ∧
      ∀ reads rest, (∀ r ∈ reads, r ≠ []) → reads.flatten = bytes ++ rest →
        (parse H (ofHandlers out u) reads).ok = true ∧
        (parse H (ofHandlers out u) reads).consumed = bytes.length ∧
        (parse H (ofHandlers out u) reads).parser.out = readBack w start out ∧
        (parse H (ofHandlers out u) reads).parser.user = u₂ := by
  have hpath : ∀ m host port path, start = .request m host port path → IsText path := by
    intro m host port path heq c hc h0
    subst heq
    have hlt := hplain.plain c hc
    rw [h0] at hlt
    exact absurd hlt (by decide)
  have htext : ∀ f ∈ fields, IsText f.1 ∧ IsText f.2 := by
    intro f hf
    exact ⟨fun c hc => ((hfields f hf).name.plain c hc).1, (hfields f hf).text⟩
  refine ⟨_, HeaderWriter.sent_writeHeader hS hpath htext hwrite, ?_⟩
  intro reads rest hne hflat
  rw [List.foldlM_append] at hmsg
  obtain ⟨v, hv, hrest⟩ := Option.bind_eq_some_iff.mp hmsg
  let out₀ : BasicHeader :=
    { out with connection := .none, contentLength := invalidLength, transferEncoding := .none }
  have hinit : (ofHandlers out u).parseInit.At .start out₀ u := ⟨rfl, rfl, rfl, rfl, rfl⟩
  obtain ⟨q, hq, hqat⟩ := reads_start hinit hplain hurl hv
  have hkept : (start.header out₀).connection = .none ∧
      (start.header out₀).transferEncoding = .none ∧
      (start.header out₀).contentLength = invalidLength := by
    cases start <;> exact ⟨rfl, rfl, rfl⟩
  obtain ⟨r, hr, hrat⟩ := reads_options (H := H) hqat hkept hn
  obtain ⟨t, ht, htat⟩ := reads_fields hrat hfields hrest
  have hback : w.header (start.header out₀) = readBack w start out := by
    cases start <;> rfl
  rw [hback] at htat
  have hall : Reads H (ofHandlers out u).parseInit (headerText w start fields) t :=
    (hq.append hr).append ht
  obtain ⟨hok, hcons, hout, huser⟩ := parse_of_reads hall htat (testHeader_readBack hn) hne hflat
  refine ⟨hok, ?_, hout, huser⟩
  rw [hcons, List.length_append]
  rfl

/-- A stream that keeps what is written. -/
def sinkStream : PtrStream (List UInt8) where
  write := fun t bs => (true, t ++ bs)
  flush := fun t => (true, t)
  setWriteEncoding := fun t _ => t

theorem sinkStream_appends : sinkStream.Appends id := ⟨fun _ _ _ => rfl, fun _ => rfl, fun _ _ => rfl⟩

/-- A writer as `initialize` leaves it, for a request of its own. -/
def freshWriter : HeaderWriter (List UInt8) := (HeaderWriter.ofStream sinkStream [] none).2

def localhost : IPv4Addr := ⟨htonl 0x7f000001⟩

/-- A chunked POST with one field. -/
theorem header_agrees_post :
    ∃ bytes : List UInt8, ∀ reads rest, (∀ r ∈ reads, r ≠ []) → reads.flatten = bytes ++ rest →
      (BasicHeaderParser.parse noteHandler (BasicHeaderParser.ofHandlers zeroHeader ([], []))
        reads).ok = true := by
  have hfields : ∀ f ∈ [(ascii "X-Id", ascii " 7")], IsField f := by
    intro f hf
    rw [List.mem_singleton] at hf
    subst hf
    have htext : ∀ c ∈ ascii " 7", c ≠ 0 := by decide
    exact ⟨⟨by decide, by decide, by decide⟩, by decide, htext, by decide⟩
  have h := header_agrees sinkStream_appends freshWriter.setChunked
    (.request .post localhost 80 (ascii "/rpc")) [(ascii "X-Id", ascii " 7")]
    ⟨by decide, by decide⟩ hfields (fun hc => nomatch hc) (by decide +kernel) (H := noteHandler)
    (u := ([], [])) rfl rfl zeroHeader
  obtain ⟨bytes, -, hreads⟩ := h
  exact ⟨bytes, fun reads rest hne hflat => (hreads reads rest hne hflat).1⟩

/-- What the handlers and the parser make of a GET with a path and one field. -/
def readGet (path : List UInt8) (fields : List (List UInt8 × List UInt8)) :
    BasicHeaderParser.StreamResult (List UInt8 × List MessageCall) :=
  BasicHeaderParser.parse noteHandler (BasicHeaderParser.ofHandlers zeroHeader ([], []))
    [(freshWriter.writeHeader sinkStream (.request .get localhost 80 path) fields).2.refStream]

/-- Without a path the version is taken for one. A field that the parser knows does not come to
the message handler, and a line end in a value ends the field. -/
theorem not_header_agrees :
    (readGet [] []).ok = false ∧
    (readGet (ascii "/") [(ascii "Connection", ascii "upgrade")]).parser.user.2 =
      fieldCalls (ascii "Host") (hostText localhost 80) ∧
    (readGet (ascii "/") [(ascii "X", ascii "a\nb")]).ok = false := by
  decide +kernel

end MiMic.Http
