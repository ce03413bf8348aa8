import MiMic.Http.BodyStream
import MiMic.Httpd.HeaderErrors
import MiMic.Lib.System

/-!
# The HTTP client

`NyLPC_cHttpClient` has one union for the header writer, the body writer, the header parser and the
body parser. The socket, what the server sends, and how much of it a read finds come with the
calls. `none` stands for the use of a member that the union does not hold.
-/
namespace MiMic.Httpcl

open Verif Http Httpd BasicHeaderParser

variable {τ : Type}

/-- The member of `pw` that was set up last. -/
inductive Pw
  | none
  | headWriter
  | bodyWriter (isChunked isError : Bool)
  | headParser
  | bodyParser (p : BasicBodyParser)

/-- The client with its socket: whether it is connected, what the server is going to send as far as it
has not been read, and how often `NyLPC_iTcpSocket_close` was called since the connection was made. A
server that closes early lets every later read find nothing. -/
structure Client (τ : Type) where
  base : HttpClient τ
  pw : Pw
  connected : Bool
  rx : List UInt8
  closes : Nat
  finalized : Bool

/-- `NyLPC_cHttpClient_initialize`. -/
def Client.ofSocket (t : τ) (addr : IPv4Addr) (port : UInt16) : Client τ :=
  ⟨⟨.closed, t, addr, port⟩, .none, false, [], 0, false⟩

def Client.setState (c : Client τ) (state : ClientSt) : Client τ := { c with base := { c.base with state } }

/-- `NyLPC_cHttpClient_close`. The functions that finalize the members do nothing. -/
def Client.close (c : Client τ) : Client τ :=
  if c.base.state = .closed then c
  else { c.setState .closed with connected := false, closes := c.closes + 1 }

/-- `NyLPC_cHttpClient_connect`. The socket has to be closed; a server that answers gives the
stream to it and what it is going to send. -/
def Client.connect (c : Client τ) (addr : IPv4Addr) (port : UInt16) (server : Option (τ × List UInt8)) :
    Bool × Client τ :=
  let c := c.close
  if c.connected then (false, c)
  else
    match server with
    | none => (false, c)
    | some (t, rx) =>
        (true, { c with base := ⟨.idle, t, addr, port⟩, connected := true, rx := rx, closes := 0 })

/-- `NyLPC_cHttpClient_sendMethod`. -/
def Client.sendMethod (S : PtrStream τ) (c : Client τ) (req : ClientRequest) : Bool × Client τ :=
  if c.base.state ≠ .idle then (false, c)
  else
    let r := c.base.sendMethod S req
    let pw := if r.1 then .bodyWriter (req.contentLength == contentLengthUnlimited) false else .headWriter
    (r.1, { c with base := r.2, pw := pw })

/-- `printHandler` of the body writer, on the stream and its error flag. -/
def printHandler (S : PtrStream τ) (w : τ × Bool) (buf : List UInt8) : Bool × τ × Bool :=
  if w.2 then (false, w)
  else
    let r := S.write w.1 (BodyWriter.ofLength buf (UInt32.ofNat buf.length))
    (r.1, r.2, !r.1)

/-- The pieces of a format; the last one decides what is returned. -/
def printPieces (S : PtrStream τ) (w : τ × Bool) : List (List UInt8) → Bool × τ × Bool
  | [] => (true, w)
  | [piece] => printHandler S w piece
  | piece :: pieces => printPieces S (printHandler S w piece).2 pieces

/-- `NyLPC_cHttpBodyWriter_write` and `NyLPC_cHttpBodyWriter_formatV`. -/
def writeCall (S : PtrStream τ) (w : τ × Bool) : BodyCall → Bool × τ × Bool
  | .write buf _ => printHandler S w buf
  | .format fmt args _ =>
      if w.2 then (false, w) else printPieces S w ((formatPrint fmt args).getD [])

/-- `NyLPC_cHttpBodyWriter_close`; what the flush returns is not looked at. -/
def closeBody (S : PtrStream τ) (isChunked : Bool) (w : τ × Bool) : Bool × τ × Bool :=
  if w.2 then (false, w)
  else if isChunked then
    let r := S.write (S.setWriteEncoding w.1 .none) [chZero, chCr, chLf, chCr, chLf]
    if r.1 then (true, (S.flush r.2).2, false) else (false, r.2, true)
  else (true, (S.flush w.1).2, false)

/-- `NyLPC_cHttpClient_write`, `writeFormat` and `writeFormatV`. -/
def Client.write (S : PtrStream τ) (c : Client τ) (call : BodyCall) : Option (Bool × Client τ) :=
  if c.base.state ≠ .sendReqBody then some (false, c)
  else
    match c.pw with
    | .bodyWriter isChunked isError =>
        let r := writeCall S (c.base.stream, isError) call
        let c := { c with base := { c.base with stream := r.2.1 }, pw := .bodyWriter isChunked r.2.2 }
        some (r.1, if r.1 then c else c.close)
    | _ => none

/-- The client's header parser has no handlers. -/
def noHandlers : HeaderHandler Unit := ⟨none, none⟩

/-- What reads of these sizes show of a stream, one after the other. -/
def cut : List UInt8 → List Nat → List (List UInt8)
  | _, [] => []
  | s, n :: ns => s.take n :: cut (s.drop n) ns

/-- The loop over the headers with the status 100: the header that ends it, or nothing for a
failure, and what has not been read. The sizes of the reads are given for each header; `header` is
what stands in the variable before. -/
def readHeaders : BasicHeader → List UInt8 → List (List Nat) → Option BasicHeader × List UInt8
  | _, rx, [] => (none, rx)
  | header, rx, sizes :: later =>
      let r := parse noHandlers (ofHandlers header ()) (cut rx sizes)
      if !r.ok then (none, rx.drop r.consumed)
      else if r.parser.out.type ≠ .response then (none, rx.drop r.consumed)
      else if r.parser.out.status = 100 then readHeaders r.parser.out (rx.drop r.consumed) later
      else (some r.parser.out, rx.drop r.consumed)

/-- `NyLPC_cHttpBodyParser_parseInit` on memory that held something else. -/
def bodyParserOf (p : BasicBodyParser) (header : BasicHeader) : BasicBodyParser :=
  parseInit p (if header.transferEncoding = .chunked then .chunked else .none) header.contentLength

/-- What a call finds in memory that it does not set up, and in the socket. -/
structure Answers where
  header : BasicHeader
  parser : BasicBodyParser
  sizes : List (List Nat)

/-- `NyLPC_cHttpClient_getStatus`. -/
def Client.getStatus (S : PtrStream τ) (c : Client τ) (a : Answers) : Option (UInt16 × Client τ) :=
  if c.base.state ≠ .sendReqBody then some (0, c)
  else
    match c.pw with
    | .bodyWriter isChunked isError =>
        let r := closeBody S isChunked (c.base.stream, isError)
        let c := { c with base := { c.base with stream := r.2.1 }, pw := .bodyWriter isChunked r.2.2 }
        if !r.1 then some (0, c.close)
        else
          let h := readHeaders a.header c.rx a.sizes
          let c := { c.setState .recvResHead with pw := .headParser, rx := h.2 }
          match h.1 with
          | none => some (0, c.close)
          | some header =>
              some (header.status.toUInt16,
                { c.setState .recvResBody with pw := .bodyParser (bodyParserOf a.parser header) })
    | _ => none

/-- The size of the buffer, which is handed on as `NyLPC_TInt16`; without room one byte is stored. -/
def bufLimit (size : UInt32) : Nat := size.toUInt16.toInt16.toInt.toNat

/-- `NyLPC_cHttpClient_read` when the socket has so many bytes: the bytes for `TRUE`. -/
def Client.read (c : Client τ) (size : UInt32) (available : Nat) : Option (Option (List UInt8) × Client τ) :=
  if c.base.state ≠ .recvResBody then some (none, c)
  else
    match c.pw with
    | .bodyParser p =>
        match streamCall p c.rx ⟨available, bufLimit size⟩ with
        | .read buf p n => some (some buf, { c with pw := .bodyParser p, rx := c.rx.drop n })
        | .noData | .error => some (none, c.close)
    | _ => none

inductive Call (τ : Type)
  | connect (addr : IPv4Addr) (port : UInt16) (server : Option (τ × List UInt8))
  | close
  | sendMethod (req : ClientRequest)
  | write (call : BodyCall)
  | getStatus (a : Answers)
  | read (size : UInt32) (available : Nat)
  | finalize

inductive Result
  | bool (b : Bool)
  | status (s : UInt16)
  | data (d : Option (List UInt8))
  | void
deriving DecidableEq, Repr

/-- The results that report a failure. -/
def Result.Failed : Result → Prop
  | bool b => b = false
  | status s => s = 0
  | data d => d = none
  | void => False

def Client.run (S : PtrStream τ) (c : Client τ) : Call τ → Option (Result × Client τ)
  | .connect addr port server => some (.bool (c.connect addr port server).1, (c.connect addr port server).2)
  | .close => some (.void, c.close)
  | .sendMethod req => some (.bool (c.sendMethod S req).1, (c.sendMethod S req).2)
  | .write call => (c.write S call).map fun r => (.bool r.1, r.2)
  | .getStatus a => (c.getStatus S a).map fun r => (.status r.1, r.2)
  | .read size available => (c.read size available).map fun r => (.data r.1, r.2)
  | .finalize => some (.void, { c.close with finalized := true })

/-- The states in which a call is allowed. -/
def Call.Allowed (state : ClientSt) : Call τ → Prop
  | .connect .. | .close | .finalize => True
  | .sendMethod _ => state = .idle
  | .write _ | .getStatus _ => state = .sendReqBody
  | .read .. => state = .recvResBody

/-- A client behind some calls; `finalize` is the last one. -/
inductive Reaches (S : PtrStream τ) : Client τ → Prop
  | start (t : τ) (addr : IPv4Addr) (port : UInt16) : Reaches S (Client.ofSocket t addr port)
  | call {c c' : Client τ} {call : Call τ} {r : Result} : Reaches S c → c.finalized = false →
      c.run S call = some (r, c') → Reaches S c'

end MiMic.Httpcl
