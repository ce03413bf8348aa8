import MiMic.Core.Chars

/-!
# The HTTP body parsers

`NyLPC_cHttpBasicBodyParser` hands the body to a handler byte by byte; the handler of
`NyLPC_cHttpBodyParser` puts the bytes into a buffer and interrupts when that is full.
-/
namespace MiMic.Http

inductive TransferEncoding
  | none | chunked
deriving DecidableEq, Repr

inductive BodySt
  | chunkHeaderStart | chunkHeaderSp | chunkHeaderExt | chunkBody | chunkFooter | chunkEnd
  | body | eob | error | null
deriving DecidableEq, Repr

/-- `recvLen` is an `int` of 32 bits; it shares its memory with `contentLength`, and each is
used with its own encoding only. -/
structure BasicBodyParser where
  encodeType : TransferEncoding
  status : BodySt
  recvLen : Int
  contentLength : UInt32
deriving DecidableEq, Repr

/-- `NyLPC_cHttpBasicBodyParser_parseInit`. -/
def parseInit (p : BasicBodyParser) (encoding : TransferEncoding) (contentLength : UInt32) :
    BasicBodyParser :=
  match encoding with
  | .chunked => { p with encodeType := .chunked, status := .chunkHeaderStart, recvLen := 0 }
  | .none => { p with encodeType := .none, contentLength := contentLength, status := .body }

/-- What the loop does with a character. -/
inductive CharStep
  | next (p : BasicBodyParser)
  /-- The character goes to the handler. -/
  | deliver (p : BasicBodyParser)
  /-- The body has ended behind the character. -/
  | stop (p : BasicBodyParser)
  | error

/-- The limit of a chunk size, tested after each digit. -/
def maxChunkSize : Int := 0x0fffffff

/-- `recv_len*16+NyLPC_ctox(c)`, as the CPU wraps it. -/
def nextRecvLen (p : BasicBodyParser) (c : UInt8) : Int :=
  (p.recvLen * 16 + (ctox c).toNat).bmod (2 ^ 32)

/-- `ST_CHUNK_HEADER_EXT`: everything up to LF is skipped. -/
def extChar (p : BasicBodyParser) (c : UInt8) : CharStep :=
  if c = chLf then
    if p.recvLen = 0 then .next { p with status := .chunkEnd }
    else .next { p with status := .chunkBody }
  else .next { p with status := .chunkHeaderExt }

/-- The switch of the chunked branch. A character that only changes the state is looked at
again in the new one. -/
def chunkedChar (p : BasicBodyParser) (c : UInt8) : CharStep :=
  match p.status with
  | .chunkBody =>
      let p := { p with recvLen := p.recvLen - 1 }
      .deliver (if p.recvLen = 0 then { p with status := .chunkFooter } else p)
  | .chunkHeaderStart =>
      if isXDigit c then
        if nextRecvLen p c > maxChunkSize then .error
        else .next { p with recvLen := nextRecvLen p c }
      else if c = chSpace then .next { p with status := .chunkHeaderSp }
      else if c = chCr ∨ c = chLf then extChar p c
      else .error
  | .chunkHeaderSp => if c = chSpace then .next p else extChar p c
  | .chunkHeaderExt => extChar p c
  | .chunkFooter =>
      if c = chCr then .next p
      else if c = chLf then .next { p with status := .chunkHeaderStart }
      else .error
  | .chunkEnd =>
      if c = chCr then .next p
      else if c = chLf then .stop { p with status := .eob }
      else .error
  | _ => .error

/-- How a call of `parseChar` ends: the number of characters it took, or -1; then `i` is the
character at which the error was found. -/
inductive ParseEnd
  | took (n : Nat)
  | error (i : Nat)
deriving DecidableEq, Repr

def ParseEnd.succ : ParseEnd → ParseEnd
  | took n => took (n + 1)
  | error i => error (i + 1)

/-- `buf` are the bytes that the handler has put into its buffer. -/
structure ParseResult where
  parser : BasicBodyParser
  buf : List UInt8
  ending : ParseEnd
deriving DecidableEq, Repr

def ParseResult.succ (r : ParseResult) : ParseResult := { r with ending := r.ending.succ }

/-- The loop of the chunked branch, with the handler of `NyLPC_cHttpBodyParser`. -/
def parseChunked (bufSize : Nat) : BasicBodyParser → List UInt8 → List UInt8 → ParseResult
  | p, buf, [] => ⟨p, buf, .took 0⟩
  | p, buf, c :: cs =>
      match chunkedChar p c with
      | .next p' => (parseChunked bufSize p' buf cs).succ
      | .deliver p' =>
          if bufSize > (buf ++ [c]).length then (parseChunked bufSize p' (buf ++ [c]) cs).succ
          else ⟨p', buf ++ [c], .took 1⟩
      | .stop p' => ⟨p', buf, .took 1⟩
      | .error => ⟨{ p with status := .error }, buf, .error 0⟩

/-- The test behind the loop of the branch without encoding. -/
def endPlain (p : BasicBodyParser) (buf : List UInt8) (n : Nat) : ParseResult :=
  ⟨if p.contentLength = 0 then { p with status := .eob } else p, buf, .took n⟩

def parsePlain (bufSize : Nat) : BasicBodyParser → List UInt8 → List UInt8 → ParseResult
  | p, buf, [] => endPlain p buf 0
  | p, buf, c :: cs =>
      if p.contentLength > 0 then
        let p' := { p with contentLength := p.contentLength - 1 }
        if bufSize > (buf ++ [c]).length then (parsePlain bufSize p' (buf ++ [c]) cs).succ
        else endPlain p' (buf ++ [c]) 1
      else endPlain p buf 0

/-- `NyLPC_cHttpBasicBodyParser_parseChar`. -/
def parseChar (bufSize : Nat) (p : BasicBodyParser) (buf cs : List UInt8) : ParseResult :=
  match p.encodeType with
  | .chunked => parseChunked bufSize p buf cs
  | .none =>
      if p.status ≠ .body then ⟨{ p with status := .error }, buf, .error 0⟩
      else parsePlain bufSize p buf cs

/-- `NyLPC_cHttpBodyParser_parseStream` into a buffer of `bufSize` bytes, when the stream
returns the bytes `rx`. -/
def parseStream (bufSize : Nat) (p : BasicBodyParser) (rx : List UInt8) : ParseResult :=
  if p.status = .eob then ⟨p, [], .took 0⟩ else parseChar bufSize p [] rx

/-- One call: how many bytes the stream has when it is made, and the size of its buffer. -/
structure ReadCall where
  available : Nat
  bufSize : Nat

/-- The body read so far: the parser, the bytes returned by the calls, how many bytes of the
stream were taken, and where an error was found. -/
structure BodyRun where
  parser : BasicBodyParser
  body : List UInt8
  taken : Nat
  errorAt : Option Nat
deriving DecidableEq, Repr

/-- The calls go on until the parser reports the end of the body or an error. -/
def readBody : BasicBodyParser → List UInt8 → List ReadCall → BodyRun
  | p, _, [] => ⟨p, [], 0, none⟩
  | p, s, call :: calls =>
      if p.status = .eob then ⟨p, [], 0, none⟩
      else
        let r := parseStream call.bufSize p (s.take call.available)
        match r.ending with
        | .error i => ⟨r.parser, [], 0, some i⟩
        | .took n =>
            let rest := readBody r.parser (s.drop n) calls
            ⟨rest.parser, r.buf ++ rest.body, n + rest.taken, rest.errorAt.map (n + ·)⟩

/-- The bytes of the stream that were looked at. -/
def BodyRun.looked (r : BodyRun) : Nat :=
  match r.errorAt with
  | some i => i + 1
  | none => r.taken

end MiMic.Http
