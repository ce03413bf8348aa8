import MiMic.Httpd.Responder

/-!
# Failures behind a header

What the functions of `NyLPC_cHttpHeaderWriter` report when the stream under them fails, and
what `NyLPC_cHttpdConnection_sendResponseHeader2` and `NyLPC_cHttpClient_sendMethod` make of it.
The stream may fail at any call, for good or for a while.
-/
namespace MiMic.Http

variable {τ : Type}

/-- A stream that notes the answer to each of its writes and flushes. -/
def PtrStream.logged (S : PtrStream τ) : PtrStream (τ × List Bool) where
  write t bs := ((S.write t.1 bs).1, (S.write t.1 bs).2, t.2 ++ [(S.write t.1 bs).1])
  flush t := ((S.flush t.1).1, (S.flush t.1).2, t.2 ++ [(S.flush t.1).1])
  setWriteEncoding t e := (S.setWriteEncoding t.1 e, t.2)

/-- A call on a header writer. `NyLPC_THttpMethodType_toString` has no text for other methods. -/
inductive HeaderOp
  | setChunked
  | setContentLength (n : UInt32)
  | setConnectionClose (isClose : Bool)
  | writeRequestHeader (m : Option HttpMethod) (host : IPv4Addr) (port : UInt16) (path : List UInt8)
  | writeResponseHeader (status : UInt16)
  | writeMessage (name field : List UInt8)
  | writeRawMessage (header : List UInt8)
  | close

/-- What the call returns, nothing for a `void` function, and the writer behind it. -/
def HeaderOp.run (S : PtrStream τ) (w : HeaderWriter τ) : HeaderOp → Option Bool × HeaderWriter τ
  | setChunked => (none, w.setChunked)
  | setContentLength n => (none, w.setContentLength n)
  | setConnectionClose isClose => (none, w.setConnectionClose isClose)
  | writeRequestHeader none _ _ _ => (some false, w)
  | writeRequestHeader (some m) host port path =>
      ((w.writeRequestHeader S m host port path).map some id)
  | writeResponseHeader status => (w.writeResponseHeader S status).map some id
  | writeMessage name field => (w.writeMessage S name field).map some id
  | writeRawMessage header => (w.writeRawMessage S header).map some id
  | close => (w.close S).map some id

/-- The calls that write. -/
def HeaderOp.Writes : HeaderOp → Prop
  | setChunked | setContentLength _ | setConnectionClose _ | writeRequestHeader none _ _ _ => False
  | _ => True

def runOps (S : PtrStream τ) (w : HeaderWriter τ) (ops : List HeaderOp) : HeaderWriter τ :=
  ops.foldl (fun w op => (op.run S w).2) w

namespace HeaderWriter

/-- The answers of the stream so far. -/
def answers (w : HeaderWriter (τ × List Bool)) : List Bool := w.refStream.2

def HasFailed (w : HeaderWriter (τ × List Bool)) : Prop := false ∈ w.answers

instance (w : HeaderWriter (τ × List Bool)) : Decidable w.HasFailed :=
  inferInstanceAs (Decidable (false ∈ w.answers))

/-- A call leaves the flag as it is, and returns whether the stream took all that it wrote. -/
structure Reports (w : HeaderWriter (τ × List Bool)) (r : Bool × HeaderWriter (τ × List Bool)) :
    Prop where
  isError : r.2.isError = false
  grown : ∃ b bs, r.2.answers = w.answers ++ b :: bs ∧ (r.1 = true ↔ false ∉ b :: bs)

variable {S : PtrStream τ} {w : HeaderWriter (τ × List Bool)}

/-- The first write that is refused is the last one of its function. -/
theorem writePieces_reports (hw : w.isError = false) (p : List UInt8) (ps : List (List UInt8)) :
    Reports w (w.writePieces S.logged (p :: ps)) := by
  induction ps generalizing w p with
  | nil =>
    rw [writePieces]
    by_cases hok : (S.logged.write w.refStream p).1 = true
    · rw [if_pos hok]
      exact ⟨hw, true, [], congrArg (w.answers ++ [·]) hok, by simp [writePieces]⟩
    · rw [if_neg hok]
      exact ⟨rfl, false, [], congrArg (w.answers ++ [·]) (Bool.eq_false_iff.mpr hok), by simp⟩
  | cons q ps ih =>
    rw [writePieces]
    by_cases hok : (S.logged.write w.refStream p).1 = true
    · rw [if_pos hok]
      have hnext := ih (w := { w with refStream := (S.logged.write w.refStream p).2 }) hw q
      obtain ⟨b, bs, hlog, hall⟩ := hnext.grown
      have hone : answers { w with refStream := (S.logged.write w.refStream p).2 } =
          w.answers ++ [true] := congrArg (w.answers ++ [·]) hok
      refine ⟨hnext.isError, true, b :: bs, ?_, ?_⟩
      · rw [hlog, hone, List.append_assoc]
        rfl
      · rw [hall]
        simp
    · rw [if_neg hok]
      exact ⟨rfl, false, [], congrArg (w.answers ++ [·]) (Bool.eq_false_iff.mpr hok), by simp⟩

theorem close_reports (hw : w.isError = false) : Reports w (w.close S.logged) := by
  have hno : ¬ w.isError = true := by simp [hw]
  rw [close, if_neg hno]
  by_cases hok : (S.logged.write w.refStream (ascii "\r\n")).1 = true
  · simp only [if_pos hok]
    refine ⟨hw, true, [(S.logged.flush (S.logged.write w.refStream (ascii "\r\n")).2).1], ?_, ?_⟩
    · have hone : (S.logged.write w.refStream (ascii "\r\n")).2.2 = w.answers ++ [true] :=
        congrArg (w.answers ++ [·]) hok
      show (S.logged.write w.refStream (ascii "\r\n")).2.2 ++ [_] = _
      rw [hone, List.append_assoc]
      rfl
    · simp
  · simp only [if_neg hok]
    exact ⟨hw, false, [], congrArg (w.answers ++ [·]) (Bool.eq_false_iff.mpr hok), by simp⟩

theorem writeRequestHeader_reports (hw : w.isError = false) (m : HttpMethod) (host : IPv4Addr)
    (port : UInt16) (path : List UInt8) :
    Reports w (w.writeRequestHeader S.logged m host port path) := by
  have hno : ¬ w.isError = true := by simp [hw]
  rw [writeRequestHeader, if_neg hno]
  exact writePieces_reports hw _ _

theorem writeResponseHeader_reports (hw : w.isError = false) (status : UInt16) :
    Reports w (w.writeResponseHeader S.logged status) := by
  have hno : ¬ w.isError = true := by simp [hw]
  rw [writeResponseHeader, if_neg hno]
  exact writePieces_reports hw _ _

theorem writeMessage_reports (hw : w.isError = false) (name field : List UInt8) :
    Reports w (w.writeMessage S.logged name field) := by
  have hno : ¬ w.isError = true := by simp [hw]
  rw [writeMessage, if_neg hno]
  exact writePieces_reports hw _ _

theorem writeRawMessage_reports (hw : w.isError = false) (header : List UInt8) :
    Reports w (w.writeRawMessage S.logged header) := by
  have hno : ¬ w.isError = true := by simp [hw]
  rw [writeRawMessage, if_neg hno]
  exact writePieces_reports hw _ _

end HeaderWriter

open HeaderWriter (Reports HasFailed answers)

variable {S : PtrStream τ}

/-- What a call does: it writes and reports, or it neither writes nor returns `TRUE`. -/
theorem HeaderOp.run_cases (op : HeaderOp) {w : HeaderWriter (τ × List Bool)}
    (hw : w.isError = false) :
    (op.Writes ∧ ∃ ok, (op.run S.logged w).1 = some ok ∧ Reports w (ok, (op.run S.logged w).2)) ∨
    (¬ op.Writes ∧ (op.run S.logged w).1 ≠ some true ∧ (op.run S.logged w).2.isError = false ∧
      answers (op.run S.logged w).2 = answers w) := by
  cases op with
  | setChunked => exact Or.inr ⟨id, by simp [run], hw, rfl⟩
  | setContentLength n => exact Or.inr ⟨id, by simp [run], hw, rfl⟩
  | setConnectionClose isClose => exact Or.inr ⟨id, by simp [run], hw, rfl⟩
  | writeRequestHeader m host port path =>
    cases m with
    | none => exact Or.inr ⟨id, by simp [run], hw, rfl⟩
    | some m => exact Or.inl ⟨trivial, _, rfl, w.writeRequestHeader_reports hw m host port path⟩
  | writeResponseHeader status =>
    exact Or.inl ⟨trivial, _, rfl, HeaderWriter.writeResponseHeader_reports hw status⟩
  | writeMessage name field =>
    exact Or.inl ⟨trivial, _, rfl, HeaderWriter.writeMessage_reports hw name field⟩
  | writeRawMessage header =>
    exact Or.inl ⟨trivial, _, rfl, HeaderWriter.writeRawMessage_reports hw header⟩
  | close => exact Or.inl ⟨trivial, _, rfl, HeaderWriter.close_reports hw⟩

theorem isError_runOps (ops : List HeaderOp) {w : HeaderWriter (τ × List Bool)}
    (hw : w.isError = false) : (runOps S.logged w ops).isError = false := by
  induction ops generalizing w with
  | nil => exact hw
  | cons op ops ih =>
    refine ih ?_
    obtain ⟨-, ok, -, hr⟩ | ⟨-, -, hr, -⟩ := op.run_cases hw
    · exact hr.isError
    · exact hr

/-- No call returns `TRUE` that fails or comes behind a failure, and none behind a failure writes. -/
def FailuresStick (S : PtrStream τ) (w : HeaderWriter (τ × List Bool)) (ops : List HeaderOp) : Prop :=
  ∀ before op behind, ops = before ++ op :: behind →
    let w₁ := runOps S.logged w before
    let r := op.run S.logged w₁
    (HasFailed r.2 → r.1 ≠ some true) ∧ (HasFailed w₁ → r.1 ≠ some true ∧ answers r.2 = answers w₁)

/-- Behind a failure the caller makes no call that writes. -/
def StopsAtFailure (S : PtrStream τ) (w : HeaderWriter (τ × List Bool)) (ops : List HeaderOp) : Prop :=
  ∀ before op behind, ops = before ++ op :: behind →
    HasFailed (runOps S.logged w before) → ¬ op.Writes

theorem failuresStick_iff (ops : List HeaderOp) {w : HeaderWriter (τ × List Bool)}
    (hw : w.isError = false) : FailuresStick S w ops ↔ StopsAtFailure S w ops := by
  constructor
  · intro hstick before op behind hops hfail hwrites
    have hw₁ := isError_runOps (S := S) before hw
    obtain ⟨-, hsame⟩ := (hstick before op behind hops).2 hfail
    obtain ⟨-, ok, -, hr⟩ | ⟨hno, -⟩ := op.run_cases (S := S) hw₁
    · obtain ⟨b, bs, hgrown, -⟩ := hr.grown
      rw [hsame] at hgrown
      exact absurd hgrown (by simp)
    · exact hno hwrites
  · intro hstops before op behind hops
    have hw₁ := isError_runOps (S := S) before hw
    have hstop := hstops before op behind hops
    dsimp only
    obtain ⟨hwrites, ok, hret, hr⟩ | ⟨-, hret, -, hsame⟩ := op.run_cases (S := S) hw₁
    · refine ⟨fun hfail => ?_, fun hfail => absurd hwrites (hstop hfail)⟩
      obtain ⟨b, bs, hgrown, hall⟩ := hr.grown
      have hbefore : ¬ HasFailed (runOps S.logged w before) := fun hf => hstop hf hwrites
      rw [HasFailed, show answers (op.run S.logged (runOps S.logged w before)).2 = _ from hgrown,
        List.mem_append] at hfail
      have hnew := hfail.resolve_left hbefore
      rw [hret]
      intro htrue
      exact hall.mp (Option.some.inj htrue) hnew
    · exact ⟨fun _ => hret, fun _ => ⟨hret, hsame⟩⟩

end MiMic.Http

namespace MiMic.Httpd

open Http
open Http.HeaderWriter (Reports answers)

variable {τ : Type}

/-- The lines that `sendResponseHeader2` writes, as long as the calls succeed. -/
def responseLines (S : PtrStream τ) (w : HeaderWriter τ) (code : UInt16) (contentType : List UInt8)
    (additional : Option (List UInt8)) : Bool × HeaderWriter τ :=
  let r := w.writeResponseHeader S code
  if !r.1 then r
  else
    let r := r.2.writeMessage S (ascii "Content-type") contentType
    if !r.1 then r
    else
      match additional with
      | none => r
      | some header => r.2.writeRawMessage S header

/-- What becomes of the stream: what `close` returns is not looked at. -/
def endHeader (S : PtrStream τ) (r : Bool × HeaderWriter τ) : Bool × τ :=
  if r.1 then (true, (r.2.close S).2.refStream) else (false, r.2.refStream)

/-- The header writer of `sendResponseHeader2`; without a length the body is chunked. -/
def responseWriter (S : PtrStream τ) (conn : HttpdConnection) (t : τ) (len : Option UInt32) :
    HeaderWriter τ :=
  let w := (HeaderWriter.ofStream S t none).2
  let w := match len with
    | none => w.setChunked
    | some n => w.setContentLength n
  w.setConnectionClose (conn.connectionMessageMode ≠ .keep)

/-- `NyLPC_cHttpdConnection_sendResponseHeader2` up to the end of the header. -/
def sendResponseHeader2 (S : PtrStream τ) (conn : HttpdConnection) (t : τ) (code : UInt16)
    (contentType : List UInt8) (len : Option UInt32) (additional : Option (List UInt8)) : Bool × τ :=
  if conn.resStatus ≠ .head then (false, t)
  else endHeader S (responseLines S (responseWriter S conn t len) code contentType additional)

/-- `NyLPC_TcHttpClient_ST_*`. -/
inductive ClientSt
  | closed | idle | sendReqBody | recvResHead | recvResBody
deriving DecidableEq, Repr

/-- `NyLPC_TcHttpClient_t`, with the address of its peer. -/
structure HttpClient (τ : Type) where
  state : ClientSt
  stream : τ
  peerAddr : IPv4Addr
  peerPort : UInt16

/-- `NyLPC_cHttpHeaderWriter_CONTENT_LENGTH_UNLIMITED`. -/
def contentLengthUnlimited : UInt32 := 0xffffffff

/-- What `sendMethod` is asked to send. -/
structure ClientRequest where
  method : Option HttpMethod
  path : List UInt8
  contentLength : UInt32
  mimeType : Option (List UInt8)
  additionalHeader : Option (List UInt8)

namespace HttpClient

/-- The header writer of `sendMethod`, which always asks for the end of the connection. -/
def requestWriter (S : PtrStream τ) (c : HttpClient τ) (req : ClientRequest) : HeaderWriter τ :=
  let w := (HeaderWriter.ofStream S c.stream none).2.setConnectionClose true
  if req.contentLength = contentLengthUnlimited then w.setChunked
  else w.setContentLength req.contentLength

/-- The lines that it writes, as long as the calls succeed. -/
def requestLines (S : PtrStream τ) (c : HttpClient τ) (req : ClientRequest) : Bool × HeaderWriter τ :=
  let w := c.requestWriter S req
  match req.method with
  | none => (false, w)
  | some m =>
    let r := w.writeRequestHeader S m c.peerAddr c.peerPort req.path
    if !r.1 then r
    else
      let r := match req.mimeType with
        | none => r
        | some mime => r.2.writeMessage S (ascii "Content-type") mime
      if !r.1 then r
      else
        match req.additionalHeader with
        | none => r
        | some header => r.2.writeRawMessage S header

/-- `NyLPC_cHttpClient_sendMethod`; behind the header the stream is set up for the body. -/
def sendMethod (S : PtrStream τ) (c : HttpClient τ) (req : ClientRequest) : Bool × HttpClient τ :=
  if c.state ≠ .idle then (false, c)
  else
    let r := endHeader S (c.requestLines S req)
    if !r.1 then (false, { c with stream := r.2 })
    else
      let t := S.setWriteEncoding r.2 .none
      let t := S.setWriteEncoding t (if req.contentLength = 0xffffffff then .chunked else .none)
      (true, { c with state := .sendReqBody, stream := t })

end HttpClient

/-- The connection with its own stream reports what this model reports. -/
theorem Responder.sendResponseHeader2_reports {c c' : Responder} {code : UInt16}
    {contentType : List UInt8} {len : Option UInt32} {additional : Option (List UInt8)} {ok : Bool}
    (h : c.sendResponseHeader2 code contentType len additional = some (c', ok)) :
    ok = (Httpd.sendResponseHeader2 HttpStream.ptrStream c.connection c.stream code contentType len
      additional).1 := by
  rw [Responder.sendResponseHeader2] at h
  rw [Httpd.sendResponseHeader2]
  by_cases hst : c.connection.resStatus ≠ .head
  · rw [if_pos hst] at h ⊢
    exact (Prod.mk.inj (Option.some.inj h)).2.symm
  · rw [if_neg hst] at h ⊢
    have hlines : Responder.writeLines (c.headWriter len) code contentType additional =
        responseLines HttpStream.ptrStream
          (responseWriter HttpStream.ptrStream c.connection c.stream len) code contentType
          additional := rfl
    simp only [hlines] at h
    rw [endHeader]
    cases hok : (responseLines HttpStream.ptrStream
        (responseWriter HttpStream.ptrStream c.connection c.stream len) code contentType additional).1 with
    | false =>
      simp only [hok, Bool.not_false, if_true] at h
      exact (Prod.mk.inj (Option.some.inj h)).2.symm
    | true =>
      simp only [hok, Bool.not_true, Bool.false_eq_true, if_false] at h
      obtain ⟨w, -, hw⟩ := Option.map_eq_some_iff.mp h
      exact (Prod.mk.inj hw).2.symm

/-- The lines of a header so far: the flag is not set, and `TRUE` stands for no failure. -/
structure Tells (r : Bool × HeaderWriter (τ × List Bool)) : Prop where
  isError : r.2.isError = false
  ok : r.1 = true → false ∉ answers r.2

theorem Tells.next {r r' : Bool × HeaderWriter (τ × List Bool)} (h : Tells r) (hok : r.1 = true)
    (hr : Reports r.2 r') : Tells r' := by
  obtain ⟨b, bs, hgrown, hall⟩ := hr.grown
  refine ⟨hr.isError, fun htrue => ?_⟩
  rw [hgrown, List.mem_append, not_or]
  exact ⟨h.ok hok, hall.mp htrue⟩

variable {S : PtrStream τ}

/-- The lines of the user come last. -/
theorem Tells.additional {r : Bool × HeaderWriter (τ × List Bool)} (h : Tells r)
    (additional : Option (List UInt8)) :
    Tells (if !r.1 then r
      else
        match additional with
        | none => r
        | some header => r.2.writeRawMessage S.logged header) := by
  cases hok : r.1 with
  | false => simpa using h
  | true =>
    cases additional with
    | none => simpa using h
    | some header =>
      simpa using h.next hok (HeaderWriter.writeRawMessage_reports (S := S) h.isError header)

theorem tells_responseLines {w : HeaderWriter (τ × List Bool)} (h : Tells (true, w)) (code : UInt16)
    (contentType : List UInt8) (additional : Option (List UInt8)) :
    Tells (responseLines S.logged w code contentType additional) := by
  have h1 := h.next rfl (HeaderWriter.writeResponseHeader_reports (S := S) h.isError code)
  rw [responseLines]
  cases hok1 : (w.writeResponseHeader S.logged code).1 with
  | false => simpa [hok1] using h1
  | true =>
    have h2 := h1.next hok1
      (HeaderWriter.writeMessage_reports (S := S) h1.isError (ascii "Content-type") contentType)
    simp only [Bool.not_true, Bool.false_eq_true, if_false]
    exact h2.additional additional

theorem HttpClient.tells_requestLines (c : HttpClient (τ × List Bool)) (req : ClientRequest)
    (h : Tells (true, c.requestWriter S.logged req)) : Tells (c.requestLines S.logged req) := by
  rw [requestLines]
  cases req.method with
  | none => exact ⟨h.isError, fun hf => nomatch hf⟩
  | some m =>
    have h1 := h.next rfl (HeaderWriter.writeRequestHeader_reports (S := S) h.isError m c.peerAddr
      c.peerPort req.path)
    dsimp only
    cases hok1 : ((c.requestWriter S.logged req).writeRequestHeader S.logged m c.peerAddr
        c.peerPort req.path).1 with
    | false => simpa [hok1] using h1
    | true =>
      have h2 : Tells (match req.mimeType with
          | none => (c.requestWriter S.logged req).writeRequestHeader S.logged m c.peerAddr
              c.peerPort req.path
          | some mime => ((c.requestWriter S.logged req).writeRequestHeader S.logged m c.peerAddr
              c.peerPort req.path).2.writeMessage S.logged (ascii "Content-type") mime) := by
        cases req.mimeType with
        | none => exact h1
        | some mime => exact h1.next hok1 (HeaderWriter.writeMessage_reports h1.isError _ mime)
      simp only [Bool.not_true, Bool.false_eq_true, if_false]
      exact h2.additional req.additionalHeader

/-- The stream takes the empty line and the flush that end a header, if it took its lines. -/
def EndTaken (S : PtrStream τ) (r : Bool × HeaderWriter τ) : Prop :=
  r.1 = true → (r.2.close S).1 = true

/-- `TRUE` is right exactly when the end of the header does not fail alone. -/
theorem endHeader_iff {r : Bool × HeaderWriter (τ × List Bool)} (h : Tells r) :
    ((endHeader S.logged r).1 = true → false ∉ (endHeader S.logged r).2.2) ↔ EndTaken S.logged r := by
  rw [endHeader, EndTaken]
  have hclose := HeaderWriter.close_reports (S := S) h.isError
  obtain ⟨b, bs, hgrown, hall⟩ := hclose.grown
  have hlog : (r.2.close S.logged).2.refStream.2 = answers r.2 ++ b :: bs := hgrown
  cases hok : r.1 with
  | false => simp
  | true =>
    have hbefore := h.ok hok
    simp only [if_true, true_implies, hlog]
    rw [hall, List.mem_append, not_or]
    exact and_iff_right hbefore

theorem tells_responseWriter (conn : HttpdConnection) (t : τ) (len : Option UInt32) :
    Tells (true, responseWriter S.logged conn (t, []) len) := by
  cases len <;> exact ⟨rfl, fun _ => List.not_mem_nil⟩

theorem HttpClient.tells_requestWriter {c : HttpClient (τ × List Bool)} (req : ClientRequest)
    (hlog : c.stream.2 = []) : Tells (true, c.requestWriter S.logged req) := by
  have hstart : ∀ w : HeaderWriter (τ × List Bool), w.refStream.2 = c.stream.2 → w.isError = false →
      Tells (true, w) := fun w hw he => ⟨he, fun _ => by
        rw [answers, hw, hlog]
        exact List.not_mem_nil⟩
  rw [requestWriter]
  split
  · exact hstart _ rfl rfl
  · exact hstart _ rfl rfl

theorem sendResponseHeader2_iff (S : PtrStream τ) (conn : HttpdConnection) (t : τ) (code : UInt16)
    (contentType : List UInt8) (len : Option UInt32) (additional : Option (List UInt8)) :
    ((sendResponseHeader2 S.logged conn (t, []) code contentType len additional).1 = true →
      false ∉ (sendResponseHeader2 S.logged conn (t, []) code contentType len additional).2.2) ↔
    (conn.resStatus = .head → EndTaken S.logged (responseLines S.logged
      (responseWriter S.logged conn (t, []) len) code contentType additional)) := by
  rw [sendResponseHeader2]
  by_cases hst : conn.resStatus = .head
  · rw [if_neg (not_not.mpr hst), endHeader_iff (tells_responseLines (tells_responseWriter conn t len)
      code contentType additional)]
    exact ⟨fun h _ => h, fun h => h hst⟩
  · rw [if_pos hst]
    exact iff_of_true (fun hf => nomatch hf) fun h => absurd h hst

namespace HttpClient

/-- The client on a stream that notes its answers. -/
def logged (c : HttpClient τ) : HttpClient (τ × List Bool) :=
  ⟨c.state, (c.stream, []), c.peerAddr, c.peerPort⟩

theorem sendMethod_iff (S : PtrStream τ) (c : HttpClient τ) (req : ClientRequest) :
    ((c.logged.sendMethod S.logged req).1 = true →
      false ∉ (c.logged.sendMethod S.logged req).2.stream.2) ↔
    (c.state = .idle → EndTaken S.logged (c.logged.requestLines S.logged req)) := by
  have htells : Tells (c.logged.requestLines S.logged req) :=
    c.logged.tells_requestLines req (tells_requestWriter req rfl)
  rw [sendMethod]
  by_cases hst : c.state = .idle
  · have hidle : ¬ c.logged.state ≠ .idle := not_not.mpr hst
    have hend := endHeader_iff (S := S) htells
    rw [if_neg hidle, forall_prop_of_true hst, ← hend]
    cases hok : (endHeader S.logged (c.logged.requestLines S.logged req)).1 with
    | false => simp [hok]
    | true =>
      simp only [hok, Bool.not_true, Bool.false_eq_true, if_false]
      rfl
  · have hother : c.logged.state ≠ .idle := hst
    rw [if_pos hother]
    exact iff_of_true (fun hf => nomatch hf) fun h => absurd h hst

end HttpClient

/-- Failures stick exactly in the runs whose caller stops at them; the two functions that send a
header report its failures exactly when its end does not fail alone. -/
theorem header_failures (S : PtrStream τ) :
    (∀ (t : τ) (reqHeader : Option BasicHeader) (ops : List HeaderOp),
      FailuresStick S (HeaderWriter.ofStream S.logged (t, []) reqHeader).2 ops ↔
        StopsAtFailure S (HeaderWriter.ofStream S.logged (t, []) reqHeader).2 ops) ∧
    (∀ (conn : HttpdConnection) (t : τ) (code : UInt16) (contentType : List UInt8)
        (len : Option UInt32) (additional : Option (List UInt8)),
      ((sendResponseHeader2 S.logged conn (t, []) code contentType len additional).1 = true →
        false ∉ (sendResponseHeader2 S.logged conn (t, []) code contentType len additional).2.2) ↔
      (conn.resStatus = .head → EndTaken S.logged (responseLines S.logged
        (responseWriter S.logged conn (t, []) len) code contentType additional))) ∧
    (∀ (c : HttpClient τ) (req : ClientRequest),
      ((c.logged.sendMethod S.logged req).1 = true →
        false ∉ (c.logged.sendMethod S.logged req).2.stream.2) ↔
      (c.state = .idle → EndTaken S.logged (c.logged.requestLines S.logged req))) := by
  refine ⟨fun t reqHeader ops => failuresStick_iff ops ?_, sendResponseHeader2_iff S,
    HttpClient.sendMethod_iff S⟩
  cases reqHeader with
  | none => rfl
  | some h =>
    rw [HeaderWriter.ofStream]
    split <;> rfl

/-- A stream that gives the answers of its list, then always `TRUE`. -/
def answering : PtrStream (List Bool) where
  write t _ := (t.headD true, t.tail)
  flush t := (t.headD true, t.tail)
  setWriteEncoding t _ := t

/-- A field is lost, and the header is closed with `TRUE`; the empty line is lost, and the response
counts as sent; the flush is refused, and the request counts as sent. -/
theorem not_header_failures :
    ¬ FailuresStick answering (HeaderWriter.ofStream answering.logged ([false], []) none).2
        [.writeMessage (ascii "Content-type") (ascii "text/html"), .close] ∧
    ¬ ((sendResponseHeader2 answering.logged ⟨.done, .head, .keep, 0, 0⟩
          (List.replicate 13 true ++ [false], []) 200 (ascii "text/html") (some 0) none).1 = true →
        false ∉ (sendResponseHeader2 answering.logged ⟨.done, .head, .keep, 0, 0⟩
          (List.replicate 13 true ++ [false], []) 200 (ascii "text/html") (some 0) none).2.2) ∧
    ¬ (((⟨.idle, List.replicate 14 true ++ [false], ⟨0⟩, 80⟩ : HttpClient (List Bool)).logged.sendMethod
          answering.logged ⟨some .post, ascii "/", 0, none, none⟩).1 = true →
        false ∉ ((⟨.idle, List.replicate 14 true ++ [false], ⟨0⟩, 80⟩ :
          HttpClient (List Bool)).logged.sendMethod answering.logged
            ⟨some .post, ascii "/", 0, none, none⟩).2.stream.2) := by
  refine ⟨fun h => ?_, by decide +kernel, by decide +kernel⟩
  have hclose := (h [.writeMessage (ascii "Content-type") (ascii "text/html")] .close [] rfl).2
  exact (hclose (by decide +kernel)).1 (by decide +kernel)

end MiMic.Httpd
