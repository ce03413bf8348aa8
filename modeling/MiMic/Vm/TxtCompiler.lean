import MiMic.Vm.Instruction

/-!
# The compilers of the text part and of the DB part

Both take the URL character by character and write words where the array pointer stands. The
words of the array are memory addressed from the start of the buffer, and `written` keeps the
addresses that were stored to.
-/
namespace MiMic.Vm

/-- `NyLPC_TUInt32ArrayPtr`: what is left of a buffer, `len` words from `ptr` on. -/
structure UInt32ArrayPtr where
  mem : Nat → Word
  ptr : Nat
  len : Nat
  written : List Nat

namespace UInt32ArrayPtr

def setBuf (mem : Nat → Word) (len : Nat) (written : List Nat) : UInt32ArrayPtr :=
  ⟨mem, 0, len, written⟩

/-- `NyLPC_TUInt32ArrayPtr_seek`; `none` is FALSE. -/
def seek (p : UInt32ArrayPtr) (n : Nat) : Option UInt32ArrayPtr :=
  if p.len < n then none else some { p with ptr := p.ptr + n, len := p.len - n }

def store (p : UInt32ArrayPtr) (i : Nat) (w : Word) : UInt32ArrayPtr :=
  { p with mem := Function.update p.mem i w, written := i :: p.written }

end UInt32ArrayPtr

/-- `NyLPC_TcMiMicTxtCompiler_ST`. -/
inductive TxtSt
  | opc | opr | ctr | ok | ng
deriving DecidableEq, Repr

/-- `NyLPC_TcMiMicTxtCompiler_RET`, with the `o_bin_len` it reports. -/
inductive TxtRet
  | ok (binLen : Nat)
  | okEnd (binLen : Nat)
  | continue
  | ng
deriving DecidableEq, Repr

/-- `NyLPC_TcMiMicTxtCompiler_t`; `tmp` holds the `tmp_len` characters collected. -/
structure TxtCompiler where
  st : TxtSt
  currentOpc : OpType
  currentOprtype : OprType
  instLen : Nat
  oprbcLen : Nat
  tmp : List UInt8
deriving DecidableEq, Repr

/-- `txt2WMId`. The byte is stored before it is compared with the number of registers. -/
def txt2WMId (txt : List UInt8) (out : UInt8) : UInt8 × Bool :=
  match txt2UInt txt with
  | some v => (v.toUInt8, decide (v.toUInt8.toNat ≤ NUMBER_OF_WM))
  | none => (out, false)

def txt2H08 (txt : List UInt8) (out : UInt8) : UInt8 × Bool :=
  match txt2UInt txt with
  | some v => (v.toUInt8, true)
  | none => (out, false)

def txt2H32 (txt : List UInt8) (out : Word) : Word × Bool :=
  match txt2UInt txt with
  | some v => (Word.ofUInt32 v, true)
  | none => (out, false)

/-- The operand of an instruction, converted into its first and second word. -/
def convertOperand : OprType → List UInt8 → Word → Word → (Word × Word) × Bool
  | .wmWm, tmp, w, w' =>
    let r := txt2WMId (tmp.take 2) w.b2
    if r.2 then
      let r' := txt2WMId ((tmp.drop 2).take 2) w.b3
      (({ w with b2 := r.1, b3 := r'.1 }, w'), r'.2)
    else (({ w with b2 := r.1 }, w'), false)
  | .wmH08, tmp, w, w' =>
    let r := txt2WMId (tmp.take 2) w.b2
    if r.2 then
      let r' := txt2H08 ((tmp.drop 2).take 2) w.b3
      (({ w with b2 := r.1, b3 := r'.1 }, w'), r'.2)
    else (({ w with b2 := r.1 }, w'), false)
  | .wmH32, tmp, w, w' =>
    let r := txt2WMId (tmp.take 2) w.b2
    if r.2 then
      let r' := txt2H32 ((tmp.drop 2).take 8) w'
      (({ w with b2 := r.1 }, r'.1), r'.2)
    else (({ w with b2 := r.1 }, w'), false)
  | .wm, tmp, w, w' =>
    let r := txt2WMId (tmp.take 2) w.b2
    (({ w with b2 := r.1 }, w'), r.2)
  | .h32, tmp, w, w' =>
    let r := txt2H32 (tmp.take 8) w'
    ((w, r.1), r.2)
  | .h08, tmp, w, w' =>
    let r := txt2H08 (tmp.take 2) w.b2
    (({ w with b2 := r.1 }, w'), r.2)
  | _, _, w, w' => ((w, w'), false)

namespace TxtCompiler

def init (c : TxtCompiler) : TxtCompiler := { c with st := .opc, tmp := [] }

/-- The `ERROR` exit. -/
def error (c : TxtCompiler) (bin : UInt32ArrayPtr) : TxtCompiler × UInt32ArrayPtr × TxtRet :=
  ({ c with st := .ng }, bin, .ng)

/-- Two letters of an operation are there. -/
def finishOpc (c : TxtCompiler) (bin : UInt32ArrayPtr) :
    TxtCompiler × UInt32ArrayPtr × TxtRet :=
  match bc2opc c.tmp with
  | some (op, t) =>
    let c := { c with
      currentOpc := op, currentOprtype := t, oprbcLen := (getOpInfo t).1,
      instLen := (getOpInfo t).2 }
    if c.oprbcLen ≤ 0 then
      match bin.seek 1 with
      | none => c.error bin
      | some bin' =>
        let w := { bin.mem bin.ptr with opc := op.code, oprtype := t.code }
        ({ c with tmp := [] }, bin'.store bin.ptr w, .ok c.instLen)
    else ({ c with tmp := [], st := .opr }, bin, .continue)
  | none => if bc2ctrlc c.tmp then ({ c with tmp := [] }, bin, .okEnd 0) else c.error bin

/-- The words of an instruction, its second one only where it has two. -/
def storeInstruction (bin : UInt32ArrayPtr) (ptr instLen : Nat) (ws : Word × Word) :
    UInt32ArrayPtr :=
  if instLen = 2 then (bin.store ptr ws.1).store (ptr + 1) ws.2 else bin.store ptr ws.1

/-- All characters of the operand are there. -/
def finishOpr (c : TxtCompiler) (bin : UInt32ArrayPtr) :
    TxtCompiler × UInt32ArrayPtr × TxtRet :=
  match bin.seek c.instLen with
  | none => c.error bin
  | some bin' =>
    let w := { bin.mem bin.ptr with opc := c.currentOpc.code, oprtype := c.currentOprtype.code }
    let r := convertOperand c.currentOprtype c.tmp w (bin.mem (bin.ptr + 1))
    let bin'' := storeInstruction bin' bin.ptr c.instLen r.1
    if r.2 then ({ c with tmp := [], st := .opc }, bin'', .ok c.instLen) else c.error bin''

/-- One turn of the loop of `NyLPC_cMiMicTxtCompiler_compileFragment`. -/
def compileChar (c : TxtCompiler) (ch : UInt8) (bin : UInt32ArrayPtr) :
    TxtCompiler × UInt32ArrayPtr × TxtRet :=
  match c.st with
  | .opc =>
    if 2 < c.tmp.length then c.error bin
    else
      let c := { c with tmp := c.tmp ++ [ch] }
      if c.tmp.length = 2 then c.finishOpc bin else (c, bin, .continue)
  | .opr =>
    let c := { c with tmp := c.tmp ++ [ch] }
    if c.oprbcLen = c.tmp.length then c.finishOpr bin else (c, bin, .continue)
  | _ => c.error bin

/-- What a call leaves behind: `parsed` is `o_parsed_bc`, which an error does not set. -/
structure Compiled where
  c : TxtCompiler
  bin : UInt32ArrayPtr
  ret : TxtRet
  parsed : Nat

/-- `NyLPC_cMiMicTxtCompiler_compileFragment`: up to the end of an instruction or of the text. -/
def compileFragment (c : TxtCompiler) : List UInt8 → UInt32ArrayPtr → Compiled
  | [], bin => ⟨c, bin, .continue, 0⟩
  | ch :: bc, bin =>
    match c.compileChar ch bin with
    | (c', bin', .continue) =>
      let r := compileFragment c' bc bin'
      { r with parsed := r.parsed + 1 }
    | (c', bin', ret) => ⟨c', bin', ret, 1⟩

/-- `NyLPC_cMiMicTxtCompiler_compileFragment2` feeds one character. -/
def compileFragment2 (c : TxtCompiler) (ch : UInt8) (bin : UInt32ArrayPtr) :
    TxtCompiler × UInt32ArrayPtr × TxtRet :=
  let r := c.compileFragment [ch] bin
  (r.c, r.bin, r.ret)

theorem compileFragment2_eq (c : TxtCompiler) (ch : UInt8) (bin : UInt32ArrayPtr) :
    c.compileFragment2 ch bin = c.compileChar ch bin := by
  rw [compileFragment2, compileFragment]
  obtain ⟨c', bin', ret⟩ := c.compileChar ch bin
  cases ret <;> rfl

end TxtCompiler

/-- `NyLPC_TcMiMicDbCompiler_RET`. -/
inductive DbRet
  | ok | continue | error
deriving DecidableEq, Repr

/-- `NyLPC_TcMiMicDbCompiler_t`: the characters of an unfinished word. -/
structure DbCompiler where
  tmp : List UInt8
deriving DecidableEq, Repr

namespace DbCompiler

def init : DbCompiler := ⟨[]⟩

/-- `NyLPC_cMiMicDbCompiler_hasFragment`. -/
def hasFragment (d : DbCompiler) : Bool := 0 < d.tmp.length

/-- `NyLPC_cMiMicDbCompiler_compileFragment2`, on the word `o_val` points to. The word is stored
here, before the caller moves its pointer and finds out whether there was room. -/
def compileFragment2 (d : DbCompiler) (ch : UInt8) (bin : UInt32ArrayPtr) :
    DbCompiler × UInt32ArrayPtr × DbRet :=
  let tmp := d.tmp ++ [ch]
  if tmp.length = 8 then
    match txt2UInt tmp with
    | some v => (⟨[]⟩, bin.store bin.ptr (Word.ofUInt32 v), .ok)
    | none => (⟨[]⟩, bin, .error)
  else (⟨tmp⟩, bin, .continue)

end DbCompiler

end MiMic.Vm
