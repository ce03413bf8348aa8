import MiMic.Core.Text

/-!
# The HTTP header parser

`NyLPC_cHttpBasicHeaderParser` reads a request or a response, character by character, up to
the empty line. It keeps a token in a work text of 31 characters and hands the URL and the
fields it does not know to the handlers of its user.
-/
namespace MiMic.Http

/-- `NyLPC_THttpMessgeHeader_TransferEncoding`. -/
inductive HeaderEncoding
  | none | chunked | unknown
deriving DecidableEq, Repr

/-- `NyLPC_THttpMessgeHeader_Connection`. -/
inductive Connection
  | none | close | keepAlive | upgrade | unknown
deriving DecidableEq, Repr

inductive HttpVersion
  | v09 | v10 | v11 | unknown
deriving DecidableEq, Repr

inductive HttpMethod
  | get | post | head | mSearch | notify
deriving DecidableEq, Repr

inductive HeaderType
  | request | response
deriving DecidableEq, Repr

/-- `NyLPC_THttpBasicHeader`. The version stands at one place for both start lines, method and
status have their own; `none` is what none of the constants stands for. -/
structure BasicHeader where
  transferEncoding : HeaderEncoding
  connection : Connection
  type : HeaderType
  version : Option HttpVersion
  method : Option HttpMethod
  status : UInt32
  contentLength : UInt32
deriving DecidableEq, Repr

/-- `NyLPC_THttpContentLength_INVALID_LENGTH`. -/
def invalidLength : UInt32 := 0xffffffff

def HttpMethod.toString : HttpMethod → List UInt8
  | .get => ascii "GET"
  | .post => ascii "POST"
  | .head => ascii "HEAD"
  | .mSearch => ascii "M-SEARCH"
  | .notify => ascii "NOTIFY"

/-- `method_id_table`. -/
def methodIdTable : List HttpMethod := [.get, .post, .head, .mSearch, .notify]

/-- `parseRequestMethodStr`. -/
def parseRequestMethodStr (t : CStr) : Option HttpMethod :=
  methodIdTable.find? fun m => stricmp t.str m.toString == 0

/-- `parseHttpVersionStr`: `none` for `FALSE`, `some none` for `TRUE` with nothing stored. -/
def parseHttpVersionStr (t : CStr) : Option (Option HttpVersion) :=
  if t.l < 6 then none
  else if t.str.take 5 ≠ ascii "HTTP/" then none
  else
    match strtol (t.str.drop 5) with
    | none => none
    | some (ma, p) =>
      if p.head? ≠ some chDot then none
      else
        match strtoul p.tail with
        | none => none
        | some (n, _) =>
          let mi := n.toInt32
          if ma < 0 ∨ mi < 0 then none
          else if ma = 0 then if 9 ≤ mi then some (some .v09) else some none
          else if ma = 1 then
            if mi = 0 then some (some .v10)
            else if 1 ≤ mi then some (some .v11)
            else some (some .unknown)
          else some (some .unknown)

/-- `testHeader`: the header it leaves, or an error code. -/
def testHeader (h : BasicHeader) : Except UInt16 BasicHeader :=
  match h.version with
  | some .v09 =>
      if h.type = .request ∧ h.method ≠ some .get then .error 400
      else if h.transferEncoding ≠ .none then .error 400
      else .ok { h with contentLength := 0, connection := .close }
  | some .v10 =>
      if h.transferEncoding ≠ .none then .error 406
      else .ok { h with
        contentLength := if h.contentLength = invalidLength then 0 else h.contentLength
        connection := .close }
  | some .v11 =>
      if h.contentLength = invalidLength then
        if h.transferEncoding ≠ .chunked then .ok { h with contentLength := 0 } else .ok h
      else if h.transferEncoding ≠ .none then .error 400
      else .ok h
  | some .unknown => .error 505
  | none => .error 500

inductive HeaderSt
  | start | rlUrl | rlVersion | slStatusCode | slReason
  | msgHead | msgParam | msgContentLength | msgConnection | msgTransferEncoding
  | eoh | error
deriving DecidableEq, Repr

/-- `NyLPC_TcHttpBasicHeaderParser_Handler`, over what the handlers keep. A field is announced
by its name, its value follows character by character, and a NUL ends it. -/
structure HeaderHandler (σ : Type) where
  messageHandler : Option (σ → Option (List UInt8) → UInt8 → Bool × σ)
  urlHandler : Option (σ → UInt8 → Bool × σ)

/-- The parser, the header it writes, and what its handlers keep. -/
structure BasicHeaderParser (σ : Type) where
  rcode : UInt16
  st : HeaderSt
  wsb : CStr
  out : BasicHeader
  user : σ

namespace BasicHeaderParser

variable {σ : Type}

def fail (p : BasicHeaderParser σ) (rcode : UInt16) : BasicHeaderParser σ :=
  { p with rcode := rcode, st := .error }

/-- Clear the work text and go on in `st`. -/
def goOn (p : BasicHeaderParser σ) (st : HeaderSt) : BasicHeaderParser σ :=
  { p with wsb := p.wsb.clear, st := st }

/-- Put a character into the work text, an error when it is full. -/
def put (p : BasicHeaderParser σ) (c : UInt8) : BasicHeaderParser σ :=
  match p.wsb.put c with
  | some wsb => { p with wsb := wsb }
  | none => p.fail 500

/-- The work text as a mark that a token has begun. -/
def mark (p : BasicHeaderParser σ) : BasicHeaderParser σ :=
  if p.wsb.l = 0 then { p with wsb := (p.wsb.put 0x43).getD p.wsb } else p

/-- Tell the message handler, if there is one, and go on as `k` says if it agrees. -/
def callMessage (H : HeaderHandler σ) (p : BasicHeaderParser σ) (name : Option (List UInt8))
    (c : UInt8) (k : BasicHeaderParser σ → BasicHeaderParser σ) : BasicHeaderParser σ :=
  match H.messageHandler with
  | none => k p
  | some f =>
      if (f p.user name c).1 then k { p with user := (f p.user name c).2 }
      else { p with user := (f p.user name c).2 }.fail 500

def callUrl (H : HeaderHandler σ) (p : BasicHeaderParser σ) (c : UInt8)
    (k : BasicHeaderParser σ → BasicHeaderParser σ) : BasicHeaderParser σ :=
  match H.urlHandler with
  | none => k p
  | some f =>
      if (f p.user c).1 then k { p with user := (f p.user c).2 }
      else { p with user := (f p.user c).2 }.fail 500

/-- A value that is collected in the work text up to LF: spaces in front and CR are left out. -/
def parseValue (close : BasicHeaderParser σ → BasicHeaderParser σ) (p : BasicHeaderParser σ)
    (c : UInt8) : BasicHeaderParser σ :=
  if p.wsb.l = 0 ∧ c = chSpace then p
  else if c = chCr then p
  else if c = chLf then close p
  else p.put c

def parseMessageTransferEncoding : BasicHeaderParser σ → UInt8 → BasicHeaderParser σ :=
  parseValue fun p =>
    let wsb := p.wsb.toUpper
    { p with
      wsb := wsb.clear
      out := { p.out with transferEncoding :=
        if wsb.str = ascii "CHUNKED" then .chunked else .unknown }
      st := .msgHead }

/-- The texts of `parseMessage_Connection`. -/
def connectionTable : List (List UInt8 × Connection) :=
  [(ascii "CLOSE", .close), (ascii "KEEP-ALIVE", .keepAlive),
    (ascii "UPGRADE", .upgrade)]

def parseMessageConnection : BasicHeaderParser σ → UInt8 → BasicHeaderParser σ :=
  parseValue fun p =>
    let wsb := p.wsb.toUpper
    { p with
      wsb := wsb.clear
      out := { p.out with
        connection := ((connectionTable.find? fun e => wsb.str = e.1).map Prod.snd).getD .unknown }
      st := .msgHead }

/-- `*o_out=strtol(p,&e,10)` is stored also where `e==p`, as zero. -/
def parseMessageContentLength : BasicHeaderParser σ → UInt8 → BasicHeaderParser σ :=
  parseValue fun p =>
    match strtol p.wsb.str with
    | none => { p with out := { p.out with contentLength := 0 } }.fail 400
    | some (n, _) => { p with out := { p.out with contentLength := UInt32.ofInt n } }.goOn .msgHead

def parseVersion : BasicHeaderParser σ → UInt8 → BasicHeaderParser σ :=
  parseValue fun p =>
    match parseHttpVersionStr p.wsb with
    | none => { p with wsb := p.wsb.clear }.fail 505
    | some v => { p with out := { p.out with version := v <|> p.out.version } }.goOn .msgHead

def parseStatusCode (p : BasicHeaderParser σ) (c : UInt8) : BasicHeaderParser σ :=
  if p.wsb.l = 0 ∧ c = chSpace then p
  else if c = chSpace then
    match strtol p.wsb.str with
    | none => { p with out := { p.out with status := 0 } }.fail 400
    | some (n, _) => { p with out := { p.out with status := UInt32.ofInt n } }.goOn .slReason
  else p.put c

def parseReason (p : BasicHeaderParser σ) (c : UInt8) : BasicHeaderParser σ :=
  if c = chLf then p.goOn .msgHead else p

def parseMessageParam (H : HeaderHandler σ) (p : BasicHeaderParser σ) (c : UInt8) :
    BasicHeaderParser σ :=
  if p.wsb.l = 0 ∧ c = chSpace then p
  else if c = chCr then p.mark
  else if c = chLf then callMessage H p.mark none 0 fun p => p.goOn .msgHead
  else callMessage H p.mark none c id

/-- `KNOWN_MSG`. -/
def knownMsg : List (List UInt8 × HeaderSt) :=
  [(ascii "CONNECTION", .msgConnection),
    (ascii "CONTENT-LENGTH", .msgContentLength),
    (ascii "TRANSFER-ENCODING", .msgTransferEncoding)]

/-- The end of a field's name. Without a handler the name stays in the work text. -/
def parseName (H : HeaderHandler σ) (p : BasicHeaderParser σ) : BasicHeaderParser σ :=
  match knownMsg.find? fun e => p.wsb.str = e.1 with
  | some e => p.goOn e.2
  | none =>
      if H.messageHandler.isSome then
        callMessage H p (some p.wsb.str) 0 fun p => p.goOn .msgParam
      else { p with st := .msgParam }

def parseMessage1 (H : HeaderHandler σ) (p : BasicHeaderParser σ) (c : UInt8) :
    BasicHeaderParser σ :=
  if c = chColon then parseName H { p with wsb := p.wsb.toUpper }
  else if c = chCr then p
  else if c = chLf then if p.wsb.l = 0 then p.goOn .eoh else p.fail 400
  else p.put c

def parseRequestUrl (H : HeaderHandler σ) (p : BasicHeaderParser σ) (c : UInt8) :
    BasicHeaderParser σ :=
  if p.wsb.l = 0 ∧ c = chSpace then p
  else if c = chSpace then callUrl H { p with wsb := p.wsb.clear } 0 fun p => { p with st := .rlVersion }
  else callUrl H p.mark c id

/-- The end of the first token: a version begins a status line, a method a request line. -/
def parseStartToken (p : BasicHeaderParser σ) : BasicHeaderParser σ :=
  match parseHttpVersionStr p.wsb with
  | some v =>
      { p with out := { p.out with version := v <|> p.out.version, type := .response } }.goOn
        .slStatusCode
  | none =>
      match parseRequestMethodStr p.wsb with
      | none => { p with out := { p.out with method := none } }.fail 400
      | some m => { p with out := { p.out with method := some m, type := .request } }.goOn .rlUrl

def parseStartLine (p : BasicHeaderParser σ) (c : UInt8) : BasicHeaderParser σ :=
  if c = chSpace then p.parseStartToken else p.put c

/-- The switch of `parseChar`. -/
def parseOne (H : HeaderHandler σ) (p : BasicHeaderParser σ) (c : UInt8) : BasicHeaderParser σ :=
  match p.st with
  | .start => parseStartLine p c
  | .msgParam => parseMessageParam H p c
  | .msgHead => parseMessage1 H p c
  | .rlUrl => parseRequestUrl H p c
  | .rlVersion => parseVersion p c
  | .slStatusCode => parseStatusCode p c
  | .slReason => parseReason p c
  | .msgContentLength => parseMessageContentLength p c
  | .msgConnection => parseMessageConnection p c
  | .msgTransferEncoding => parseMessageTransferEncoding p c
  | .eoh => p.fail 500
  | .error => p.fail 500

/-- The loop of `parseChar`: how many characters it takes, which is without the one that is
refused. -/
def parseLoop (H : HeaderHandler σ) :
    BasicHeaderParser σ → List UInt8 → Nat × BasicHeaderParser σ
  | p, [] => (0, p)
  | p, c :: cs =>
      if (parseOne H p c).st = .error then (0, parseOne H p c)
      else if (parseOne H p c).st = .eoh then (1, parseOne H p c)
      else ((parseLoop H (parseOne H p c) cs).1 + 1, (parseLoop H (parseOne H p c) cs).2)

/-- `NyLPC_cHttpBasicHeaderParser_parseChar`. -/
def parseChar (H : HeaderHandler σ) (p : BasicHeaderParser σ) (cs : List UInt8) :
    Nat × BasicHeaderParser σ :=
  if p.st = .error then (0, p) else parseLoop H p cs

/-- `NyLPC_cHttpBasicHeaderParser_initialize`. -/
def ofHandlers (out : BasicHeader) (user : σ) : BasicHeaderParser σ where
  rcode := 0
  st := .error
  wsb := CStr.ofSize 32
  out := out
  user := user

/-- `NyLPC_cHttpBasicHeaderParser_parseInit`. -/
def parseInit (p : BasicHeaderParser σ) : BasicHeaderParser σ :=
  { p with
    out := { p.out with
      connection := .none, contentLength := invalidLength, transferEncoding := .none }
    st := .start }

/-- `NyLPC_cHttpBasicHeaderParser_parseFinish`. -/
def parseFinish (p : BasicHeaderParser σ) : Bool × BasicHeaderParser σ :=
  if p.st ≠ .eoh then (false, p)
  else
    match testHeader p.out with
    | .error rcode => (false, p.fail rcode)
    | .ok h => (true, { p with out := h })

/-- What `parseStream` leaves: its answer, the parser, and how far the stream was read. -/
structure StreamResult (σ : Type) where
  ok : Bool
  parser : BasicHeaderParser σ
  consumed : Nat

/-- `NyLPC_cHttpBasicHeaderParser_parseStream`, when the reads show these pieces one after the
other and nothing after them; a piece without characters is a read that times out. -/
def parseStream (H : HeaderHandler σ) :
    BasicHeaderParser σ → List (List UInt8) → StreamResult σ
  | p, [] => ⟨false, p, 0⟩
  | p, r :: rs =>
      if r = [] then ⟨false, p, 0⟩
      else if (parseChar H p r).2.st = .error then ⟨false, (parseChar H p r).2, (parseChar H p r).1⟩
      else if (parseChar H p r).2.st = .eoh then ⟨true, (parseChar H p r).2, (parseChar H p r).1⟩
      else
        let rest := parseStream H (parseChar H p r).2 rs
        ⟨rest.ok, rest.parser, (parseChar H p r).1 + rest.consumed⟩

/-- A whole header: `parseInit`, `parseStream` and `parseFinish`. -/
def parse (H : HeaderHandler σ) (p : BasicHeaderParser σ) (reads : List (List UInt8)) :
    StreamResult σ :=
  let r := parseStream H p.parseInit reads
  if r.ok then ⟨r.parser.parseFinish.1, r.parser.parseFinish.2, r.consumed⟩ else r

end BasicHeaderParser

end MiMic.Http
