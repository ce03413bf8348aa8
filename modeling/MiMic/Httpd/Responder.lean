import MiMic.Http.BodyWriter
import MiMic.Http.HeaderWriter
import MiMic.Httpd.Connection

/-!
# Writing a response

The response functions of `NyLPC_TcHttpdConnection_t` with the bytes that they write: the header
writer and the body writer share a place in the connection, the status says which of them it is.
`none` is a store outside of a send buffer.
-/
namespace MiMic.Http

/-- The stream as the header writer uses it. Without an encoding no write stores outside of its
buffer, so the last lines of the two functions are not reached behind a header. -/
def HttpStream.ptrStream : PtrStream HttpStream where
  write st bs :=
    match st.writeFunc bs with
    | some (st, ok) => (ok, st)
    | none => (false, st)
  flush st :=
    match st.flushFunc with
    | some st => (true, st)
    | none => (false, st)
  setWriteEncoding st et := (st.setWriteEncoding et).getD st

namespace HeaderWriter

variable {τ : Type}

/-- `NyLPC_cHttpHeaderWriter_writeRawMessage`. -/
def writeRawMessage (S : PtrStream τ) (w : HeaderWriter τ) (header : List UInt8) :
    Bool × HeaderWriter τ :=
  if w.isError then (false, w) else writePieces S w [cString header]

end HeaderWriter

/-- `NyLPC_cHttpBodyWriter_setContentLength`. -/
def BodyWriter.setContentLength (w : BodyWriter) : Option BodyWriter :=
  (w.stream.setWriteEncoding .none).map fun st => { w with stream := st, isChunked := false }

end MiMic.Http

namespace MiMic.Httpd

open Http

/-- A connection with the method of its request, its stream and the flags of its body writer. -/
structure Responder where
  connection : HttpdConnection
  method : HttpMethod
  stream : HttpStream
  isChunked : Bool
  isError : Bool

namespace Responder

def setConnectionMode (c : Responder) (m : ConnectionMode) : Responder :=
  { c with connection := c.connection.setConnectionMode m }

/-- `HTTP/1.1 100 Continue` and an empty line. -/
def continueText : List UInt8 := ascii "HTTP/1.1 100 Continue\r\n\r\n"

/-- `NyLPC_cHttpdConnection_send100Continue`. -/
def send100Continue (c : Responder) : Responder × Bool :=
  if c.connection.resStatus ≠ .head then
    ({ c with connection := (c.connection.send100Continue false).1 }, false)
  else
    let r := HttpStream.ptrStream.write c.stream continueText
    ({ c with
        stream := r.2
        connection := (c.connection.send100Continue r.1).1 }, r.1)

/-- The header writer as `sendResponseHeader2` sets it up; without a length the body is chunked. -/
def headWriter (c : Responder) (len : Option UInt32) : HeaderWriter HttpStream :=
  let w := (HeaderWriter.ofStream HttpStream.ptrStream c.stream none).2
  let w := match len with
    | none => w.setChunked
    | some n => w.setContentLength n
  w.setConnectionClose (c.connection.connectionMessageMode ≠ .keep)

/-- The lines of a response header, as long as their writes succeed. -/
def writeLines (w : HeaderWriter HttpStream) (code : UInt16) (contentType : List UInt8)
    (additional : Option (List UInt8)) : Bool × HeaderWriter HttpStream :=
  let S := HttpStream.ptrStream
  let r := w.writeResponseHeader S code
  if !r.1 then r
  else
    let r := r.2.writeMessage S (ascii "Content-type") contentType
    if !r.1 then r
    else
      match additional with
      | none => r
      | some header => r.2.writeRawMessage S header

/-- The body writer behind a header. -/
def bodyWriter (st : HttpStream) (len : Option UInt32) : Option BodyWriter :=
  (BodyWriter.init st).bind fun w =>
    match len with
    | none => w.setChunked
    | some _ => w.setContentLength

/-- `NyLPC_cHttpdConnection_sendResponseHeader2`; what `close` returns is not looked at. -/
def sendResponseHeader2 (c : Responder) (code : UInt16) (contentType : List UInt8)
    (len : Option UInt32) (additional : Option (List UInt8)) : Option (Responder × Bool) :=
  if c.connection.resStatus ≠ .head then
    some ({ c with connection := (c.connection.sendResponseHeader false).1 }, false)
  else
    let r := writeLines (c.headWriter len) code contentType additional
    if !r.1 then
      some ({ c with
        stream := r.2.refStream
        connection := (c.connection.sendResponseHeader false).1 }, false)
    else
      (bodyWriter (r.2.close HttpStream.ptrStream).2.refStream len).map fun w =>
        (⟨(c.connection.sendResponseHeader true).1, c.method, w.stream, w.isChunked, w.isError⟩, true)

/-- `NyLPC_cHttpdConnection_sendResponseHeader`. -/
def sendResponseHeader (c : Responder) (code : UInt16) (contentType : List UInt8)
    (additional : Option (List UInt8)) : Option (Responder × Bool) :=
  c.sendResponseHeader2 code contentType none additional

/-- `NyLPC_cHttpdConnection_sendResponseBody` and `sendResponseBodyF`. -/
def sendResponseBody (c : Responder) (call : BodyCall) : Option (Responder × Bool) :=
  if c.connection.resStatus ≠ .body then
    some ({ c with connection := (c.connection.sendResponseBody false).1 }, false)
  else
    (call.run ⟨c.stream, c.isChunked, c.isError⟩).map fun (w, ok) =>
      (⟨(c.connection.sendResponseBody ok).1, c.method, w.stream, w.isChunked, w.isError⟩, ok)

/-- Calls one after the other, whatever they return. -/
def sendAll (c : Responder) : List BodyCall → Option Responder
  | [] => some c
  | call :: calls => (c.sendResponseBody call).bind fun r => r.1.sendAll calls

/-- The `static` function `sendErrorResponse` of the connection: a header without a body. -/
def sendHeaderOnly (c : Responder) (status : UInt16) : Responder :=
  let S := HttpStream.ptrStream
  let w := (HeaderWriter.ofStream S c.stream none).2.setConnectionClose true
  { c with stream := ((w.writeResponseHeader S status).2.close S).2.refStream }

/-- `NyLPC_cHttpdConnection_closeResponse`. -/
def closeResponse (c : Responder) : Option (Responder × Bool) :=
  let r := c.connection.closeResponse
  match c.connection.resStatus with
  | .closed => some ({ c with connection := r.1 }, r.2)
  | .error => some ({ c with connection := r.1 }, r.2)
  | .head => some ({ c.sendHeaderOnly 500 with connection := r.1 }, r.2)
  | .body =>
      (BodyWriter.close ⟨c.stream, c.isChunked, c.isError⟩).map fun (w, _) =>
        (⟨r.1, c.method, w.stream, w.isChunked, w.isError⟩, r.2)

def htmlType : List UInt8 := ascii "text/html"

/-- The format of `NyLPC_cHttpdUtils_sendErrorResponse`. -/
def errorFormat : List UInt8 :=
  ascii "<!DOCTYPE html><html><head><title>MiMicHTTPD</title></head><body>Status " ++
    (ascii "%d" ++ ascii "</body></html>")

theorem formatText_error (status : UInt16) :
    (formatText errorFormat [.word status.toUInt32]).isSome := by
  have hconv : ascii "%d" = [0x25, 0x64] := rfl
  rw [formatText, errorFormat, textLoop_lit (by decide), hconv]
  show (Option.map _ (textLoop .text (0x25 :: 0x64 :: ascii "</body></html>") _)).isSome = true
  rw [textLoop_percent, textLoop_d, textLoop_all (by decide)]
  rfl

def errorBody (status : UInt16) : BodyCall :=
  .format errorFormat [.word status.toUInt32] (formatText_error status)

/-- `NyLPC_cHttpdUtils_sendErrorResponse`. -/
def sendErrorResponse (c : Responder) (status : UInt16) : Option Responder :=
  ((c.setConnectionMode .close).sendResponseHeader status htmlType none).bind fun r =>
    if r.1.method ≠ .head then (r.1.sendResponseBody (errorBody status)).map Prod.fst else some r.1

/-- `NyLPC_cHttpdUtils_sendFixedContentBatch`. -/
def sendFixedContentBatch (c : Responder) (contentType content : List UInt8)
    (fits : content.length < 2 ^ 31) : Option (Responder × Bool) :=
  let size := some (UInt32.ofNat content.length)
  match c.method with
  | .head => (c.sendResponseHeader2 200 contentType size none).map fun r => (r.1, true)
  | .get =>
      (c.sendResponseHeader2 200 contentType size none).bind fun r =>
        (r.1.sendResponseBody (.write content fits)).map fun r => (r.1, true)
  | .post | .mSearch | .notify =>
      (c.sendResponseHeader2 405 htmlType (some 0) none).map fun r => (r.1, false)

/-- The additional lines of `NyLPC_cHttpdUtils_sendJsonHeader`. -/
def jsonLines : List UInt8 :=
  ascii "Access-Control-Allow-Origin:*\r\nPragma: no-cache\r\nCache-Control: no-cache\r\n"

/-- `NyLPC_cHttpdUtils_sendJsonHeader`. -/
def sendJsonHeader (c : Responder) : Option (Responder × Bool) :=
  c.sendResponseHeader 200 (ascii "application/json") (some jsonLines)

end Responder

end MiMic.Httpd
