import MiMic.Vm.TxtCompiler
import MiMic.Vm.MiMicVM

/-!
# Programs

Instructions as a syntax of their own: their text form, the interpreter that says what they mean,
and what a word of bytecode stands for.
-/
namespace MiMic.Vm

abbrev Reg := Fin NUMBER_OF_WM

/-- A register or an immediate word. -/
inductive Src
  | wm (r : Reg)
  | h32 (v : UInt32)
deriving DecidableEq, Repr

/-- The amount of a shift. -/
inductive Amount
  | wm (r : Reg)
  | h08 (n : UInt8)
deriving DecidableEq, Repr

inductive AluOp
  | and | or | xor | add | sub | mul
deriving DecidableEq, Repr

inductive Instr
  | alu (f : AluOp) (d : Reg) (s : Src)
  | ld (d : Reg) (s : Src)
  | not (d : Reg)
  | shl (d : Reg) (n : Amount)
  | shr (d : Reg) (n : Amount)
  | mget (d : Reg) (s : Src)
  | mput (d : Reg) (s : Src)
  | sget (d : Reg)
  | sput (s : Src)
  | nop
  | sleep (n : UInt8)
  | call (s : Src)
  | exit
deriving DecidableEq, Repr

/-- The eight registers and the host. -/
structure State (H : Type) where
  wm : Reg → UInt32
  host : H

inductive StepResult (H : Type)
  | next (s : State H)
  | stop (s : State H) (code : UInt32)

section

variable {H : Type}

def State.set (s : State H) (d : Reg) (v : UInt32) : State H :=
  { s with wm := Function.update s.wm d v }

def Src.val (s : State H) : Src → UInt32
  | .wm r => s.wm r
  | .h32 v => v

def Amount.val (s : State H) : Amount → UInt32
  | .wm r => s.wm r
  | .h08 n => n.toUInt32

def AluOp.eval : AluOp → UInt32 → UInt32 → UInt32
  | .and => (· &&& ·)
  | .or => (· ||| ·)
  | .xor => (· ^^^ ·)
  | .add => (· + ·)
  | .sub => (· - ·)
  | .mul => (· * ·)

/-- The reference interpreter, one instruction. -/
def Instr.exec (ev : TEvent H) (s : State H) : Instr → StepResult H
  | .alu f d x => .next (s.set d (f.eval (s.wm d) (x.val s)))
  | .ld d x => .next (s.set d (x.val s))
  | .not d => .next (s.set d (~~~s.wm d))
  | .shl d n => .next (s.set d (shl32 (s.wm d) (n.val s)))
  | .shr d n => .next (s.set d (shr32 (s.wm d) (n.val s)))
  | .mget d x => .next (s.set d (ev.load s.host s.wm (x.val s)))
  | .mput d x => .next { s with host := (ev.store s.host s.wm (x.val s) (s.wm d)).1 }
  | .sget d =>
    match ev.getStream s.host with
    | (h, some v) => .next ({ s with host := h }.set d v)
    | (h, none) => .stop { s with host := h } RESULT_RUNTIME_NG
  | .sput x =>
    match ev.putStream s.host (x.val s) with
    | (h, true) => .next { s with host := h }
    | (h, false) => .stop { s with host := h } RESULT_RUNTIME_NG
  | .nop => .next s
  | .sleep n => .next { s with host := ev.sleep s.host n.toUInt32 }
  | .call x =>
    match ev.nativeCall s.host (x.val s) s.wm with
    | (h, wm, code) => if resultIsOK code then .next ⟨wm, h⟩ else .stop ⟨wm, h⟩ code
  | .exit => .stop s RESULT_OK

/-- The reference interpreter: the state, the result and how many instructions came before the
one that stopped it. -/
def interpret (ev : TEvent H) : List Instr → State H → State H × UInt32 × Nat
  | [], s => (s, RESULT_OK, 0)
  | i :: prog, s =>
    match i.exec ev s with
    | .next s' =>
      let r := interpret ev prog s'
      (r.1, r.2.1, r.2.2 + 1)
    | .stop s' code => (s', code, 0)

/-- The place that an `MPUT` stores to is none of the registers. -/
def Instr.SparesRegs (ev : TEvent H) (s : State H) : Instr → Prop
  | .mput d x => (ev.store s.host s.wm (x.val s) (s.wm d)).2 = s.wm
  | _ => True

/-- No instruction that is run changes the `size` words of the code, and no `MPUT` a register. -/
def SparesCode (ev : TEvent H) (code : H → Nat → Word) (size : Nat) :
    List Instr → State H → Prop
  | [], _ => True
  | i :: prog, s =>
    i.SparesRegs ev s ∧
      match i.exec ev s with
      | .next s' => (∀ j < size, code s'.host j = code s.host j) ∧ SparesCode ev code size prog s'
      | .stop _ _ => True

end

inductive Operands
  | none
  | wmWm (a b : Reg)
  | wmH08 (a : Reg) (n : UInt8)
  | wmH32 (a : Reg) (v : UInt32)
  | wm (a : Reg)
  | h08 (n : UInt8)
  | h32 (v : UInt32)
deriving DecidableEq, Repr

def Operands.type : Operands → OprType
  | .none => .none
  | .wmWm _ _ => .wmWm
  | .wmH08 _ _ => .wmH08
  | .wmH32 _ _ => .wmH32
  | .wm _ => .wm
  | .h08 _ => .h08
  | .h32 _ => .h32

def regText (r : Reg) : List UInt8 := Verif.Hex.text 2 r

def h08Text (n : UInt8) : List UInt8 := Verif.Hex.text 2 n.toNat

def h32Text (v : UInt32) : List UInt8 := Verif.Hex.text 8 v.toNat

def Operands.text : Operands → List UInt8
  | .none => []
  | .wmWm a b => regText a ++ regText b
  | .wmH08 a n => regText a ++ h08Text n
  | .wmH32 a v => regText a ++ h32Text v
  | .wm a => regText a
  | .h08 n => h08Text n
  | .h32 v => h32Text v

def Operands.ofSrc (d : Reg) : Src → Operands
  | .wm r => .wmWm d r
  | .h32 v => .wmH32 d v

def Operands.ofAmount (d : Reg) : Amount → Operands
  | .wm r => .wmWm d r
  | .h08 n => .wmH08 d n

def Operands.ofSingle : Src → Operands
  | .wm r => .wm r
  | .h32 v => .h32 v

def AluOp.op : AluOp → OpType
  | .and => .and
  | .or => .or
  | .xor => .xor
  | .add => .add
  | .sub => .sub
  | .mul => .mul

/-- Operation and operands of an instruction. -/
def Instr.parts : Instr → OpType × Operands
  | .alu f d x => (f.op, .ofSrc d x)
  | .ld d x => (.ld, .ofSrc d x)
  | .not d => (.not, .wm d)
  | .shl d n => (.shl, .ofAmount d n)
  | .shr d n => (.shr, .ofAmount d n)
  | .mget d x => (.mget, .ofSrc d x)
  | .mput d x => (.mput, .ofSrc d x)
  | .sget d => (.sget, .wm d)
  | .sput x => (.sput, .ofSingle x)
  | .nop => (.nop, .none)
  | .sleep n => (.nop, .h08 n)
  | .call x => (.call, .ofSingle x)
  | .exit => (.exit, .none)

/-- The two letters of an operation with an operand of a type. -/
def letters (op : OpType) (t : OprType) : List UInt8 :=
  match bcTypeTbl.find? fun e => e.2 == (op, t) with
  | some e => [e.1.1.toUInt8, e.1.2.toUInt8]
  | none => []

def Instr.text (i : Instr) : List UInt8 :=
  letters i.parts.1 i.parts.2.type ++ i.parts.2.text

/-- The words an instruction takes. -/
def Instr.size (i : Instr) : Nat := words i.parts.2.type

def programSize (prog : List Instr) : Nat := (prog.map Instr.size).sum

/-- The text form of a program, ended by `.E`. -/
def programText (prog : List Instr) : List UInt8 :=
  prog.flatMap Instr.text ++ ['.'.toUInt8, 'E'.toUInt8]

def regOf (b : UInt8) : Option Reg :=
  if h : b.toNat < NUMBER_OF_WM then some ⟨b.toNat, h⟩ else none

/-- The operands in an instruction's words. -/
def readOperands (w next : Word) : OprType → Option Operands
  | .none => some .none
  | .wmWm => (regOf w.b2).bind fun a => (regOf w.b3).map fun b => .wmWm a b
  | .wmH08 => (regOf w.b2).map fun a => .wmH08 a w.b3
  | .wmH32 => (regOf w.b2).map fun a => .wmH32 a next.toUInt32
  | .wm => (regOf w.b2).map .wm
  | .h08 => some (.h08 w.b2)
  | .h32 => some (.h32 next.toUInt32)
  | .wmH16 => none
  | .h16 => none

/-- The instruction of an operation and its operands. -/
def Instr.ofParts : OpType → Operands → Option Instr
  | .and, .wmWm a b => some (.alu .and a (.wm b))
  | .and, .wmH32 a v => some (.alu .and a (.h32 v))
  | .or, .wmWm a b => some (.alu .or a (.wm b))
  | .or, .wmH32 a v => some (.alu .or a (.h32 v))
  | .xor, .wmWm a b => some (.alu .xor a (.wm b))
  | .xor, .wmH32 a v => some (.alu .xor a (.h32 v))
  | .add, .wmWm a b => some (.alu .add a (.wm b))
  | .add, .wmH32 a v => some (.alu .add a (.h32 v))
  | .sub, .wmWm a b => some (.alu .sub a (.wm b))
  | .sub, .wmH32 a v => some (.alu .sub a (.h32 v))
  | .mul, .wmWm a b => some (.alu .mul a (.wm b))
  | .mul, .wmH32 a v => some (.alu .mul a (.h32 v))
  | .ld, .wmWm a b => some (.ld a (.wm b))
  | .ld, .wmH32 a v => some (.ld a (.h32 v))
  | .not, .wm a => some (.not a)
  | .shl, .wmWm a b => some (.shl a (.wm b))
  | .shl, .wmH08 a n => some (.shl a (.h08 n))
  | .shr, .wmWm a b => some (.shr a (.wm b))
  | .shr, .wmH08 a n => some (.shr a (.h08 n))
  | .mget, .wmWm a b => some (.mget a (.wm b))
  | .mget, .wmH32 a v => some (.mget a (.h32 v))
  | .mput, .wmWm a b => some (.mput a (.wm b))
  | .mput, .wmH32 a v => some (.mput a (.h32 v))
  | .sget, .wm a => some (.sget a)
  | .sput, .wm a => some (.sput (.wm a))
  | .sput, .h32 v => some (.sput (.h32 v))
  | .nop, .none => some .nop
  | .nop, .h08 n => some (.sleep n)
  | .call, .wm a => some (.call (.wm a))
  | .call, .h32 v => some (.call (.h32 v))
  | .exit, .none => some .exit
  | _, _ => none

/-- The instruction two words stand for. -/
def decodeWord (w next : Word) : Option Instr :=
  (OpType.ofCode w.opc).bind fun op =>
    (OprType.ofCode w.oprtype).bind fun t =>
      (readOperands w next t).bind fun o => Instr.ofParts op o

/-- The instructions from word `pc` up to word `size`. -/
def decodeFrom (mem : Nat → Word) (size : Nat) : Nat → Nat → Option (List Instr)
  | 0, _ => none
  | fuel + 1, pc =>
    if pc = size then some []
    else (decodeWord (mem pc) (mem (pc + 1))).bind fun i =>
      (decodeFrom mem size fuel (pc + i.size)).map (i :: ·)

/-- A text of `size` words. -/
def decodeText (mem : Nat → Word) (size : Nat) : Option (List Instr) :=
  decodeFrom mem size (size + 1) 0

theorem Instr.ofParts_parts (i : Instr) : Instr.ofParts i.parts.1 i.parts.2 = some i := by
  cases i with
  | alu f d x => cases f <;> cases x <;> rfl
  | ld d x | mget d x | mput d x | sput x | call x => cases x <;> rfl
  | shl d n | shr d n => cases n <;> rfl
  | not d | sget d | nop | sleep n | exit => rfl

theorem Instr.parts_of_ofParts {op : OpType} {o : Operands} {i : Instr}
    (h : Instr.ofParts op o = some i) : i.parts = (op, o) := by
  cases op <;> cases o
  all_goals first
    | cases h; rfl
    | cases h

theorem Instr.size_pos (i : Instr) : 0 < i.size := by
  rw [Instr.size]
  generalize i.parts.2.type = t
  cases t <;> decide

/-- What a decoded word says of its bytes. -/
theorem decodeWord_eq_some {w next : Word} {i : Instr} (h : decodeWord w next = some i) :
    OpType.ofCode w.opc = some i.parts.1 ∧ OprType.ofCode w.oprtype = some i.parts.2.type ∧
      readOperands w next i.parts.2.type = some i.parts.2 := by
  obtain ⟨op, hop, h⟩ := Option.bind_eq_some_iff.mp h
  obtain ⟨t, ht, h⟩ := Option.bind_eq_some_iff.mp h
  obtain ⟨o, ho, h⟩ := Option.bind_eq_some_iff.mp h
  have hparts := Instr.parts_of_ofParts h
  have htype : o.type = t := by
    cases t <;> simp only [readOperands, Option.bind_eq_some_iff, Option.map_eq_some_iff,
      Option.some.injEq] at ho
    case none | h08 | h32 => subst ho; rfl
    case wmWm => obtain ⟨a, _, b, _, rfl⟩ := ho; rfl
    case wmH08 | wmH32 | wm => obtain ⟨a, _, rfl⟩ := ho; rfl
    case wmH16 | h16 => cases ho
  rw [hparts]
  exact ⟨hop, ht.trans (congrArg some htype.symm), by rw [htype]; exact ho⟩

theorem words_eq_one {t : OprType} (h : words t ≠ 2) : words t = 1 := by
  have hle : words t = 1 ∨ words t = 2 := by cases t <;> decide
  exact hle.resolve_right h

theorem readOperands_next {w next : Word} (next' : Word) {t : OprType} (h : words t = 1) :
    readOperands w next t = readOperands w next' t := by
  cases t <;> first | rfl | cases h

/-- An instruction of one word does not depend on the word behind it. -/
theorem decodeWord_next {w next : Word} (next' : Word) {i : Instr} (h : decodeWord w next = some i)
    (hnext : next = next' ∨ i.size ≠ 2) : decodeWord w next' = some i := by
  obtain rfl | hsize := hnext
  · exact h
  · obtain ⟨hop, ht, ho⟩ := decodeWord_eq_some h
    rw [decodeWord, hop, Option.bind_some, ht, Option.bind_some,
      readOperands_next next (words_eq_one hsize), ho, Option.bind_some, Instr.ofParts_parts]

end MiMic.Vm
