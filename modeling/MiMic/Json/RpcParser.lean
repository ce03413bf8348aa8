import MiMic.Core.Chars

/-!
# The JSON-RPC parser

A state machine over single characters. What a character stores into the result is
returned as a list of stores, and `RpcResult.apply` carries them out. In the result
`id` lies right before `param_buf`, so that `area` holds the bytes of both.
-/
namespace MiMic.Json

/-- `i_c-'0'`, sign included. -/
def digitValue (c : UInt8) : UInt32 := c.toUInt32 - chZero.toUInt32

def isSignedCharSet (c : UInt8) : Bool := c == chMinus || isDigit c || c == 0

def convertSingleCharEscape (c : UInt8) : Option UInt8 :=
  if c = chZero then some 0
  else if c = 0x72 then some 0x0d
  else if c = 0x6e then some 0x0a
  else if c = 0x74 then some 0x09
  else if c = 0x27 then some 0x27
  else if c = chQuote then some chQuote
  else if c = chBackslash then some chBackslash
  else none

structure JsonRpcMethodDef where
  name : List UInt8
  paramPatt : List UInt8

structure JsonRpcClassDef where
  namesPace : List UInt8
  className : List UInt8
  functions : List JsonRpcMethodDef

/-- `strncmp(s,t,l)==0`; no string holds its terminator. -/
def strncmpEq (s t : List UInt8) (l : Nat) : Bool := (s ++ [0]).take l == (t ++ [0]).take l

/-- The search in a function table, by an index of eight bits: `none` when it never ends. -/
def findMethod (functions : List JsonRpcMethodDef) (name : List UInt8) : Option (Option UInt8) :=
  match (functions.take 256).findIdx? (·.name == name) with
  | some i => some (some (UInt8.ofNat i))
  | none => if functions.length < 256 then some none else none

def findInClasses (ns class_ method : List UInt8) :
    List JsonRpcClassDef → Option (Option (JsonRpcClassDef × UInt8))
  | [] => some none
  | d :: rest =>
      if strncmpEq d.namesPace ns ns.length && strncmpEq d.className class_ class_.length then
        (findMethod d.functions method).map fun r => r.map fun i => (d, i)
      else findInClasses ns class_ method rest

/-- `findFunction`; the path has two colons that end the namespace and the class. -/
def findFunction (tbl : List JsonRpcClassDef) (path : List UInt8) :
    Option (Option (JsonRpcClassDef × UInt8)) :=
  let ns := path.takeWhile (· != chColon)
  match path.dropWhile (· != chColon) with
  | [] => some none
  | _ :: rest =>
      let class_ := rest.takeWhile (· != chColon)
      match rest.dropWhile (· != chColon) with
      | [] => some none
      | _ :: method => findInClasses ns class_ method tbl

inductive ResultType
  | unknown | result | method
deriving DecidableEq, Repr

/-- `NyLPC_TJsonRpcParserResult_NUMBER_OF_PARAM_INDEX`. -/
abbrev numberOfParamIndex : Nat := 32

/-- `NyLPC_TJsonRpcParserResult_PARAM_BUF`. -/
abbrev paramBufSize : Nat := 256

/-- `union NyLPC_TJsonRpcParserResult`. `area` are the bytes from `id` on, `param_buf`
begins at offset four; `classDef` is `none` while it holds no valid pointer. -/
structure RpcResult where
  type : ResultType
  funcNumber : UInt8
  area : Nat → UInt8
  paramIndex : Nat → UInt8
  classDef : Option JsonRpcClassDef

/-- The writes into the result; `param` stores at an offset into `param_buf`. -/
inductive Store
  | param (off : Int) (data : List UInt8)
  | index (i : Nat) (n : UInt8)
  | id (n : UInt32)
  | method (d : JsonRpcClassDef) (i : UInt8)
  | badMethod

/-- `memcpy` to `off` bytes behind the start of the area. -/
def storeBytes (area : Nat → UInt8) (off : Nat) (data : List UInt8) : Nat → UInt8 :=
  fun o => if off ≤ o ∧ o < off + data.length then data.getD (o - off) 0 else area o

namespace RpcResult

def apply (r : RpcResult) : Store → RpcResult
  | .param off data => { r with area := storeBytes r.area (4 + off).toNat data }
  | .index i n => { r with paramIndex := Function.update r.paramIndex i n }
  | .id n => { r with area := storeBytes r.area 0 (u32Bytes n) }
  | .method d i => { r with type := .method, funcNumber := i, classDef := some d }
  | .badMethod => { r with type := .method, classDef := none }

def applyAll (r : RpcResult) (stores : List Store) : RpcResult := stores.foldl apply r

/-- `param_patt[i]` of the resolved method; `none` when that dereferences no valid pointer. -/
def paramType (r : RpcResult) (i : Nat) : Option UInt8 :=
  r.classDef.bind fun d => (d.functions[r.funcNumber.toNat]?).map fun m => m.paramPatt.getD i 0

end RpcResult

inductive ParserSt
  | start | finished | error | nameQ | nameStr | nvSep | val | valStr | valUint | next | params
deriving DecidableEq, Repr

inductive ParamSt
  | start | val | int | uint | str | strEscapeHex | strEscape | byte | bstr | next
deriving DecidableEq, Repr

inductive NameId
  | unknown | version | method | params | id
deriving DecidableEq, Repr

/-- `NyLPC_TcJsonRpcParser_WORK_MAX`. -/
abbrev workMax : Nat := 44

/-- `buf` holds the characters of the name or value that is being read. The numbers share
their memory with `buf` and are set before they are read. -/
structure Parser where
  st : ParserSt
  pst : ParamSt
  nameId : NameId
  pcounter : UInt8
  buf : List UInt8
  n : UInt8
  strSt : UInt8
  vt : UInt8
  int32v : UInt32
  int32s : UInt32
  uint32 : UInt32

/-- The new parser state and what was stored on the way. -/
structure Effect where
  parser : Parser
  stores : List Store

def Parser.fail (p : Parser) : Effect := ⟨{ p with st := .error }, []⟩

def Parser.keep (p : Parser) : Effect := ⟨p, []⟩

def Effect.storing (e : Effect) (s : Store) : Effect := { e with stores := e.stores ++ [s] }

/-- `NyLPC_cJsonRpcParser_initParser`. -/
def initParser (p : Parser) (r : RpcResult) : Parser × RpcResult :=
  ({ p with st := .start, pcounter := 0 }, { r with type := .unknown, paramIndex := fun _ => 0xff })

/-- `((n+3)/4)*4`, kept in eight bits. -/
def align4 (n : UInt8) : UInt8 := UInt8.ofNat ((n.toNat + 3) / 4 * 4)

/-- The beginning of a string: one byte is kept free for its length. -/
def paramBeginQuoted (p : Parser) (c : UInt8) (p' : Parser) : Effect :=
  if c = chQuote then
    if p.n.toNat ≥ paramBufSize then
      ⟨{ p with st := .error, pcounter := p.pcounter + 1 }, [.index p.pcounter.toNat p.n]⟩
    else ⟨{ p' with n := p.n + 1 }, [.index p.pcounter.toNat p.n]⟩
  else p.fail

/-- The beginning of a value of the given type, in `PARAM_ST_VAL`. -/
def paramBegin (p : Parser) (patt c : UInt8) : Effect :=
  let i := p.pcounter.toNat
  let p' := { p with pcounter := p.pcounter + 1 }
  if patt = 0x64 then
    if isSignedCharSet c then
      ⟨{ p' with
        pst := .int
        int32s := if c = chMinus then 0 - 1 else 1
        int32v := if c = chMinus then 0 else digitValue c
        n := align4 p.n }, [.index i (align4 p.n)]⟩
    else p.fail
  else if patt = 0x75 then
    if isDigit c then
      ⟨{ p' with pst := .uint, uint32 := digitValue c, n := align4 p.n }, [.index i (align4 p.n)]⟩
    else p.fail
  else if patt = 0x62 then
    if isDigit c then ⟨{ p' with pst := .byte, uint32 := digitValue c }, [.index i p.n]⟩ else p.fail
  else if patt = 0x73 then paramBeginQuoted p c { p' with pst := .str }
  else if patt = 0x42 then paramBeginQuoted p c { p' with pst := .bstr, strSt := 0 }
  else p.fail

/-- `PARAM_ST_VAL`. -/
def paramVal (p : Parser) (r : RpcResult) (c : UInt8) : Option Effect :=
  if numberOfParamIndex ≤ p.pcounter.toNat then some p.fail
  else if strchr [chSpace] c then some p.keep
  else if strchr [chRightBracket] c then some ⟨{ p with st := .next, pcounter := 0xff }, []⟩
  else (r.paramType p.pcounter.toNat).map fun patt => paramBegin p patt c

/-- The state behind a number, for the character that ends it. -/
def numberEnd (p : Parser) (c : UInt8) : Option Parser :=
  if c = chSpace then some { p with pst := .next }
  else if c = chComma then some { p with pst := .val }
  else if c = chRightBracket then some { p with st := .next }
  else none

/-- The end of a number of `size` bytes: `n` is advanced first, and `n` of eight bits is
compared with the size of the buffer. -/
def paramNumber (p : Parser) (c : UInt8) (size : UInt8) (data : List UInt8) : Effect :=
  match numberEnd p c with
  | none => p.fail
  | some p' =>
      let n := p.n + size
      if n.toNat > paramBufSize then { p' with n := n }.fail
      else ⟨{ p' with n := n }, [.param ((n.toNat : Int) - size.toNat) data]⟩

def paramInt (p : Parser) (c : UInt8) : Effect :=
  if isDigit c then { p with int32v := p.int32v * 10 + digitValue c }.keep
  else paramNumber p c 4 (u32Bytes (p.int32v * p.int32s))

def paramUint (p : Parser) (c : UInt8) : Effect :=
  if isDigit c then { p with uint32 := p.uint32 * 10 + digitValue c }.keep
  else paramNumber p c 4 (u32Bytes p.uint32)

def paramByte (p : Parser) (c : UInt8) : Effect :=
  if isDigit c then { p with uint32 := p.uint32 * 10 + digitValue c }.keep
  else paramNumber p c 1 [UInt8.ofNat (p.uint32.toNat % 256)]

/-- `param_buf[n]=v; n++`, behind the test of `n`. -/
def putByte (p : Parser) (v : UInt8) : Effect :=
  if p.n.toNat ≥ paramBufSize then p.fail
  else ⟨{ p with n := p.n + 1 }, [.param p.n.toNat [v]]⟩

/-- `param_index[_pcounter-1]`, where the length of the string goes. -/
def stringIndex (p : Parser) (r : RpcResult) : UInt8 := r.paramIndex (p.pcounter.toNat - 1)

def paramStr (p : Parser) (r : RpcResult) (c : UInt8) : Effect :=
  if c = chQuote then
    if p.n.toNat ≥ paramBufSize then p.fail
    else
      let idx := stringIndex p r
      ⟨{ p with n := p.n + 1, pst := .next },
        [.param p.n.toNat [0], .param idx.toNat [p.n + 1 - idx - 2]]⟩
  else if c = chBackslash then { p with pst := .strEscape }.keep
  else putByte p c

def paramStrEscape (p : Parser) (c : UInt8) : Effect :=
  if c = chLetterX then { p with pst := .strEscapeHex, strSt := 0, vt := 0 }.keep
  else if p.n.toNat ≥ paramBufSize then p.fail
  else
    match convertSingleCharEscape c with
    | none => p.fail
    | some v => putByte { p with pst := .str } v

def paramStrEscapeHex (p : Parser) (c : UInt8) : Effect :=
  if isXDigit c then
    let p := { p with vt := (p.vt <<< (4 : UInt8)) ||| ctox c, strSt := p.strSt + 1 }
    if p.strSt ≥ 2 then putByte { p with pst := .str } p.vt else p.keep
  else p.fail

def paramBstr (p : Parser) (r : RpcResult) (c : UInt8) : Effect :=
  if c = chQuote then
    if p.strSt ≠ 0 then p.fail
    else
      let idx := stringIndex p r
      ⟨{ p with pst := .next }, [.param idx.toNat [p.n - idx - 1]]⟩
  else if isXDigit c then
    if p.strSt = 0 then { p with vt := ctox c, strSt := 1 }.keep
    else if p.strSt = 1 then
      putByte { p with vt := (p.vt <<< (4 : UInt8)) ||| ctox c, strSt := 0 }
        ((p.vt <<< (4 : UInt8)) ||| ctox c)
    else p.keep
  else p.fail

/-- `putchar_params`; `none` when it reads a method table through an invalid pointer. -/
def putcharParams (p : Parser) (r : RpcResult) (c : UInt8) : Option Effect :=
  match p.pst with
  | .start =>
      if c = chLeftBracket then some { p with n := 0, pst := .val }.keep
      else if strchr [chSpace] c then some p.keep
      else some p.fail
  | .val => paramVal p r c
  | .int => some (paramInt p c)
  | .uint => some (paramUint p c)
  | .byte => some (paramByte p c)
  | .str => some (paramStr p r c)
  | .strEscape => some (paramStrEscape p c)
  | .strEscapeHex => some (paramStrEscapeHex p c)
  | .bstr => some (paramBstr p r c)
  | .next =>
      if c = chSpace then some p.keep
      else if c = chComma then some { p with pst := .val }.keep
      else if c = chRightBracket then some { p with st := .next }.keep
      else some p.fail

/-- `NyLPC_TTextIdTbl_getMatchId` over `method_name_tbl`. -/
def nameIdOf (name : List UInt8) : NameId :=
  if name = [0x6a, 0x73, 0x6f, 0x6e, 0x72, 0x70, 0x63] then .version
  else if name = [0x6d, 0x65, 0x74, 0x68, 0x6f, 0x64] then .method
  else if name = [0x70, 0x61, 0x72, 0x61, 0x6d, 0x73] then .params
  else if name = [0x69, 0x64] then .id
  else .unknown

/-- One more character of a name or a string value. -/
def bufferChar (p : Parser) (c : UInt8) : Effect :=
  let p := { p with n := p.n + 1 }
  if p.n.toNat ≥ workMax then p.fail else { p with buf := p.buf ++ [c] }.keep

def putNameStr (p : Parser) (r : RpcResult) (c : UInt8) : Effect :=
  if c = chQuote then
    let p := { p with nameId := nameIdOf (cString p.buf), st := .nvSep }
    match p.nameId with
    | .method => if r.type ≠ .unknown then p.fail else p.keep
    | .params => if p.pcounter ≠ 0 then p.fail else p.keep
    | _ => p.keep
  else bufferChar p c

def putNvSep (p : Parser) (c : UInt8) : Effect :=
  if c = chColon then
    if p.nameId = .params then { p with pst := .start, st := .params }.keep
    else { p with st := .val, n := 0 }.keep
  else if strchr [chSpace] c then p.keep
  else p.fail

def putVal (p : Parser) (c : UInt8) : Effect :=
  if c = chQuote then { p with st := .valStr, n := 0, buf := [] }.keep
  else if strchr [chSpace] c then p.keep
  else if isDigit c then { p with uint32 := digitValue c, st := .valUint }.keep
  else p.fail

/-- `valTerminator2St`. -/
def valTerminator2St (c : UInt8) : ParserSt :=
  if c = chSpace then .next
  else if c = chRightBrace then .finished
  else if c = chComma then .nameQ
  else .error

def putValUint (p : Parser) (c : UInt8) : Effect :=
  if isDigit c then { p with uint32 := p.uint32 * 10 + digitValue c }.keep
  else if strchr [chSpace, chComma, chRightBrace] c then
    match p.nameId with
    | .id => ⟨{ p with st := valTerminator2St c }, [.id p.uint32]⟩
    | .unknown => { p with st := valTerminator2St c }.keep
    | _ => p.fail
  else p.fail

/-- `none` when the search for the method never ends. -/
def putValStr (tbl : List JsonRpcClassDef) (p : Parser) (c : UInt8) : Option Effect :=
  if c = chQuote then
    match p.nameId with
    | .version =>
        some (if cString p.buf = [0x32, 0x2e, 0x30] then { p with st := .next }.keep else p.fail)
    | .method =>
        (findFunction tbl (cString p.buf)).map fun found =>
          match found with
          | none => p.fail.storing .badMethod
          | some (d, i) => ⟨{ p with st := .next }, [.method d i]⟩
    | .unknown => some { p with st := .next }.keep
    | _ => some p.fail
  else some (bufferChar p c)

/-- `NyLPC_cJsonRpcParser_putChar`; `none` when it does not return, or reads a method table
through an invalid pointer. -/
def putChar (tbl : List JsonRpcClassDef) (p : Parser) (r : RpcResult) (c : UInt8) : Option Effect :=
  match p.st with
  | .params => putcharParams p r c
  | .start =>
      some (if c = chLeftBrace then { p with st := .nameQ }.keep
        else if strchr [chSpace] c then p.keep
        else p.fail)
  | .nameQ =>
      some (if c = chQuote then { p with st := .nameStr, n := 0, buf := [] }.keep
        else if strchr [chSpace] c then p.keep
        else p.fail)
  | .nameStr => some (putNameStr p r c)
  | .nvSep => some (putNvSep p c)
  | .val => some (putVal p c)
  | .valUint => some (putValUint p c)
  | .valStr => putValStr tbl p c
  | .next =>
      some (if c = chComma then { p with st := .nameQ }.keep
        else if c = chRightBrace then { p with st := .finished }.keep
        else if strchr [chSpace] c then p.keep
        else p.fail)
  | .finished => some p.fail
  | .error => some p.fail

end MiMic.Json
