import MiMic.Vm.TxtCompiler
import MiMic.Vm.MiMicVM
import MiMic.Lib.CodeLayout
import MiMic.Lib.System

/-!
# The remote MCU module

The URL handler with its two compilers, the execution of a request and of the virtual machine.
One work area serves all requests; the connection lock lets one of them in at a time.
-/
namespace MiMic.Vm

def SIZE_OF_IBUF : Nat := 256

/-- `NyLPC_TcStr_t` on a buffer of 16 bytes. `clear` only resets the length: the text of an empty
string is what was there before. -/
structure TStr where
  text : List UInt8
  l : Nat
deriving DecidableEq, Repr

def TStr.fresh : TStr := ⟨[], 0⟩

def TStr.clear (s : TStr) : TStr := { s with l := 0 }

def TStr.put (s : TStr) (c : UInt8) : Option TStr :=
  if s.l < 15 then some ⟨s.text.take s.l ++ [c], s.l + 1⟩ else none

def bytes (s : String) : List UInt8 := s.toList.map Char.toUInt8

inductive ContentId
  | unknown | mvm | status
deriving DecidableEq, Repr

inductive AState
  | path | queryName | queryValue | queryValueV | queryValueO | queryValueBc | queryValueDb
deriving DecidableEq, Repr

inductive QValO
  | unknown | xml | json
deriving DecidableEq, Repr

inductive QValV
  | unknown | v1
deriving DecidableEq, Repr

/-- `struct TModMiMicRemoteMcuHeader`. `bc_buf` is the memory under `binarray`; `dbPart` is an
index into it, `none` for NULL. -/
structure Header where
  contentId : ContentId
  astate : AState
  prefixLen : Int16
  tstr : TStr
  binarray : UInt32ArrayPtr
  binparser : DbCompiler
  txtcmp : TxtCompiler
  v : QValV
  o : QValO
  dbPart : Option Nat
  txtLen : Nat
  dbLen : Nat

/-- `NyLPC_TTextIdTbl_getMatchId` on `url_tbl`. -/
def urlId (s : List UInt8) : ContentId :=
  if s = bytes "mvm.api" then .mvm else if s = bytes "status.api" then .status else .unknown

/-- The state for a query of a name, `qname_id_table`. -/
def queryState (s : List UInt8) : AState :=
  if s = bytes "o" then .queryValueO
  else if s = bytes "bc" then .queryValueBc
  else if s = bytes "v" then .queryValueV
  else .queryValue

def chQuestion : UInt8 := '?'.toUInt8
def chAmpersand : UInt8 := '&'.toUInt8
def chEqual : UInt8 := '='.toUInt8

namespace Header

/-- A query item ends. -/
def valueEnd (c : UInt8) : Bool := c == 0 || c == chAmpersand

/-- The buffer and the values of a program that begins. -/
def beginProgram (h : Header) : Header :=
  { h with
    txtLen := 0, dbLen := 0, dbPart := none, o := .json, v := .unknown,
    binarray := .setBuf h.binarray.mem SIZE_OF_IBUF h.binarray.written }

/-- `ST_PARSE_PATH`; `none` is the `ERROR` exit. -/
def pathChar (h : Header) (c : UInt8) : Option Header :=
  if c ≠ 0 ∧ c ≠ chQuestion then (h.tstr.put c).map fun s => { h with tstr := s }
  else
    let h' :=
      { h with contentId := urlId h.tstr.text, tstr := h.tstr.clear, astate := .queryName }
    if h'.contentId = .mvm then some h'.beginProgram else some h'

def queryNameChar (h : Header) (c : UInt8) : Option Header :=
  if c ≠ 0 ∧ c ≠ chAmpersand ∧ c ≠ chEqual then
    (h.tstr.put c).map fun s => { h with tstr := s }
  else some { h with tstr := h.tstr.clear, astate := queryState h.tstr.text }

def queryValueChar (h : Header) (c : UInt8) : Option Header :=
  if valueEnd c then some { h with astate := .queryName } else some h

def queryValueOChar (h : Header) (c : UInt8) : Option Header :=
  if valueEnd c then
    let o := if h.tstr.text = bytes "j" then .json
      else if h.tstr.text = bytes "x" then .xml else h.o
    some { h with o := o, astate := .queryName, tstr := h.tstr.clear }
  else (h.tstr.put c).map fun s => { h with tstr := s }

def queryValueVChar (h : Header) (c : UInt8) : Option Header :=
  if valueEnd c then
    let v := if h.tstr.text = bytes "1" then .v1 else h.v
    some { h with v := v, astate := .queryName, tstr := h.tstr.clear }
  else (h.tstr.put c).map fun s => { h with tstr := s }

/-- `ST_PARSE_QUERY_VALUE_BC`. The end of the item is passed over: only `.E` leaves this state. -/
def queryValueBcChar (h : Header) (c : UInt8) : Header × Bool :=
  if valueEnd c then (h, true)
  else
    match h.txtcmp.compileFragment2 c h.binarray with
    | (t, bin, .ok _) => ({ h with txtcmp := t, binarray := bin }, true)
    | (t, bin, .okEnd ol) =>
      let txtLen := SIZE_OF_IBUF - bin.len + ol
      ({ h with
        txtcmp := t, binarray := bin, txtLen := txtLen, dbPart := some txtLen,
        astate := .queryValueDb }, true)
    | (t, bin, .continue) => ({ h with txtcmp := t, binarray := bin }, true)
    | (t, bin, .ng) => ({ h with txtcmp := t, binarray := bin }, false)

/-- `ST_PARSE_QUERY_VALUE_DB`. -/
def queryValueDbChar (h : Header) (c : UInt8) : Header × Bool :=
  if valueEnd c then
    if h.binparser.hasFragment then (h, false)
    else ({ h with dbLen := h.binarray.ptr - h.dbPart.getD 0, astate := .queryName }, true)
  else
    match h.binparser.compileFragment2 c h.binarray with
    | (d, bin, .continue) => ({ h with binparser := d, binarray := bin }, true)
    | (d, bin, .ok) =>
      match bin.seek 1 with
      | some bin' => ({ h with binparser := d, binarray := bin' }, true)
      | none => ({ h with binparser := d, binarray := bin }, false)
    | (d, bin, .error) => ({ h with binparser := d, binarray := bin }, false)

/-- An exit at `ERROR` leaves the work area as it is. -/
def orError (h : Header) : Option Header → Header × Bool
  | some h' => (h', true)
  | none => (h, false)

/-- `urlHandler`, with the value it returns. -/
def urlHandler (h : Header) (c : UInt8) : Header × Bool :=
  if h.prefixLen < 0 then ({ h with prefixLen := h.prefixLen + 1 }, true)
  else
    match h.astate with
    | .path => h.orError (h.pathChar c)
    | st =>
      if h.contentId = .mvm then
        match st with
        | .queryName => h.orError (h.queryNameChar c)
        | .queryValue => h.orError (h.queryValueChar c)
        | .queryValueO => h.orError (h.queryValueOChar c)
        | .queryValueV => h.orError (h.queryValueVChar c)
        | .queryValueBc => h.queryValueBcChar c
        | .queryValueDb => h.queryValueDbChar c
        | .path => (h, false)
      else (h, false)

end Header

/-- What surrounds the module: the length of its root path, and what a store to an address does
to its work area and to the registers of the machine. -/
structure Platform where
  rootLen : Nat
  store : UInt32 → UInt32 → Header → Header
  storeRegs : UInt32 → UInt32 → (Fin NUMBER_OF_WM → UInt32) → Fin NUMBER_OF_WM → UInt32

/-- The preparation in `NyLPC_cModRemoteMcu_execute`. -/
def Header.prepare (P : Platform) (h : Header) : Header :=
  { h with
    prefixLen := Int16.ofInt (-((Int16.ofNat P.rootLen).toInt + 2)), astate := .path,
    tstr := .fresh, binparser := .init, txtcmp := h.txtcmp.init }

/-- `struct TVmEventHandler`. -/
structure EventHandler where
  dbPos : Nat
  stLen : Nat
  isSendBody : Bool
deriving DecidableEq, Repr

/-- The host of one instruction: the work area, the handler, and what the outside answers, the
word that a load finds and whether a piece of the body was taken. -/
structure Host where
  hdr : Header
  eh : EventHandler
  loaded : UInt32
  putOk : Bool

/-- `mvmputs_json`; the text it sends is left out. -/
def mvmputs (h : Host) (_ : UInt32) : Host × Bool :=
  if h.eh.isSendBody then ({ h with eh := { h.eh with stLen := h.eh.stLen + 1 } }, h.putOk)
  else (h, true)

def mvmgets (h : Host) : Host × Option UInt32 :=
  if h.hdr.dbLen ≤ h.eh.dbPos then (h, none)
  else ({ h with eh := { h.eh with dbPos := h.eh.dbPos + 1 } },
    some (h.hdr.binarray.mem (h.hdr.dbPart.getD 0 + h.eh.dbPos)).toUInt32)

/-- The handlers `mvm` installs; `nativeCall` refuses every call. -/
def events (P : Platform) : TEvent Host where
  putStream := mvmputs
  getStream := mvmgets
  sleep h _ := h
  nativeCall h _ regs := (h, regs, RESULT_RUNTIME_NG_CALL)
  load h _ _ := h.loaded
  store h regs a v := ({ h with hdr := P.store a v h.hdr }, P.storeRegs a v regs)

inductive Phase
  | idle | parsing | parsed | running
deriving DecidableEq, Repr

/-- The work area, and while it runs the machine: `size` is `i_size_of_instruction`. -/
structure Mcu where
  hdr : Header
  phase : Phase
  wm : Nat → UInt32
  pc : Nat
  size : Nat
  eh : EventHandler

inductive Method
  | get | head | other
deriving DecidableEq, Repr

/-- What happens to the module. A request begins; its URL is handed over character by character
and ended by a space; the header parser or the stream fails; the header is complete, the answer's
header was sent or not, the machine starts on whatever its stack frame held; one instruction. -/
inductive Event
  | execute
  | url (c : UInt8)
  | urlEnd
  | fail
  | finish (m : Method) (sent : Bool) (wm : Nat → UInt32)
  | vm (loaded : UInt32) (putOk : Bool)

namespace Mcu

/-- The instruction at the program counter. -/
def process (P : Platform) (s : Mcu) (loaded : UInt32) (putOk : Bool) : Processed Host :=
  processInstruction (events P) (fun h => h.hdr.binarray.mem) s.pc
    ⟨s.wm, ⟨s.hdr, s.eh, loaded, putOk⟩⟩

/-- A character of the URL; the request is given up when the handler refuses it. -/
def urlChar (s : Mcu) (c : UInt8) (next : Phase) : Mcu :=
  let r := s.hdr.urlHandler c
  { s with hdr := r.1, phase := if r.2 then next else .idle }

/-- The tests in `execute` and `mvm` before the machine runs. -/
def runs (s : Mcu) (m : Method) (sent : Bool) : Bool :=
  m ≠ .other && s.hdr.contentId = .mvm && s.hdr.v = .v1 && s.hdr.o = .json && sent &&
    decide (0 < s.hdr.txtLen)

def step (P : Platform) (s : Mcu) : Event → Option Mcu
  | .execute =>
    if s.phase = .idle then some { s with hdr := s.hdr.prepare P, phase := .parsing } else none
  | .url c => if s.phase = .parsing ∧ c ≠ 0x20 then some (s.urlChar c .parsing) else none
  | .urlEnd => if s.phase = .parsing then some (s.urlChar 0 .parsed) else none
  | .fail =>
    if s.phase = .parsing ∨ s.phase = .parsed then some { s with phase := .idle } else none
  | .finish m sent wm =>
    if s.phase = .parsed then
      if s.runs m sent then
        some { s with
          phase := .running, wm := wm, pc := 0, size := s.hdr.txtLen,
          eh := ⟨0, 0, m = .get⟩ }
      else some { s with phase := .idle }
    else none
  | .vm loaded putOk =>
    if s.phase = .running then
      let r := s.process P loaded putOk
      let pc := advance s.pc r.inByte
      some { s with
        hdr := r.vm.host.hdr, eh := r.vm.host.eh, wm := r.vm.wm, pc := pc,
        phase := if 0 < r.inByte ∧ pc < s.size then .running else .idle }
    else none

end Mcu

/-- The first words of the instructions that the compiler emitted for the latest URL path, with
the places where it put them. -/
def recordEmitted (emitted : List (Nat × Word)) (s : Mcu) (e : Event) (s' : Mcu) :
    List (Nat × Word) :=
  match e with
  | .url _ | .urlEnd =>
    if s.hdr.astate = .path ∧ s'.hdr.astate ≠ .path ∧ s'.hdr.contentId = .mvm then []
    else if s.hdr.astate = .queryValueBc ∧ s'.phase ≠ .idle ∧
        s.hdr.binarray.ptr < s'.hdr.binarray.ptr then
      emitted ++ [(s.hdr.binarray.ptr, s'.hdr.binarray.mem s.hdr.binarray.ptr)]
    else emitted
  | _ => emitted

/-- The static work area at power on. -/
def Mcu.Initial (s : Mcu) : Prop :=
  s.phase = .idle ∧ s.hdr.contentId = .unknown ∧ s.hdr.txtLen = 0 ∧ s.hdr.dbLen = 0 ∧
    s.hdr.binarray.written = []

def remoteMcu (P : Platform) : Verif.System (Mcu × List (Nat × Word)) Event :=
  Verif.System.observe ⟨Mcu.Initial, Mcu.step P⟩ [] recordEmitted

/-- The registers in an instruction's first word, by the type of its operand. -/
def regsOf (w : Word) : OprType → List Nat
  | .wmWm => [w.b2.toNat, w.b3.toNat]
  | .wmH08 | .wmH16 | .wmH32 | .wm => [w.b2.toNat]
  | .none | .h08 | .h16 | .h32 => []

/-- The registers an instruction names. -/
def operandRegs (w : Word) : List Nat := ((OprType.ofCode w.oprtype).map (regsOf w)).getD []

/-- The safety of a state: the compilers stayed inside the buffer, and where the machine is about
to fetch there is, inside the text, the first word of an instruction that the compiler emitted,
and it names registers that exist. -/
def SafeState (p : Mcu × List (Nat × Word)) : Prop :=
  (∀ i ∈ p.1.hdr.binarray.written, i < SIZE_OF_IBUF) ∧
    (p.1.phase = .running → p.1.pc < p.1.hdr.txtLen ∧
      (p.1.pc, p.1.hdr.binarray.mem p.1.pc) ∈ p.2 ∧
      ∀ r ∈ operandRegs (p.1.hdr.binarray.mem p.1.pc), r < NUMBER_OF_WM)

end MiMic.Vm
