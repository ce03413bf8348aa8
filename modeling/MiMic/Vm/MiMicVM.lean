import MiMic.Vm.Instruction

/-!
# MiMicVM

One instruction, and the loop over the bytecode. The handler, the streams and the memory that
`MGET` and `MPUT` reach are the host's, and so are the words that the loop fetches; `wm` goes on
behind the eight registers, as memory does.
-/
namespace MiMic.Vm

/-- `NyLPC_TcMiMicVM_TEvent` on a host of state `H`, and the memory of the machine, where the
registers have their place too. -/
structure TEvent (H : Type) where
  putStream : H → UInt32 → H × Bool
  getStream : H → H × Option UInt32
  sleep : H → UInt32 → H
  nativeCall : H → UInt32 → (Fin NUMBER_OF_WM → UInt32) →
    H × (Fin NUMBER_OF_WM → UInt32) × UInt32
  load : H → (Fin NUMBER_OF_WM → UInt32) → UInt32 → UInt32
  store : H → (Fin NUMBER_OF_WM → UInt32) → UInt32 → UInt32 → H × (Fin NUMBER_OF_WM → UInt32)

/-- `NyLPC_TcMiMicVM_t` and its host. -/
structure TcMiMicVM (H : Type) where
  wm : Nat → UInt32
  host : H

def RESULT_OK : UInt32 := 0x00000000
def RESULT_RUNTIME_NG : UInt32 := 0x80010000
def RESULT_RUNTIME_NG_CALL : UInt32 := 0x80010022

/-- `NyLPC_cMiMicVM_RESULT_isOK`. -/
def resultIsOK (v : UInt32) : Bool := v &&& 0x80000000 == 0x00000000

/-- Shifts by a register or by a byte: the core takes the low byte of the amount, and nothing is
left of the word from 32 on. -/
def shl32 (v n : UInt32) : UInt32 := if n.toNat % 256 < 32 then v <<< UInt32.ofNat (n.toNat % 256) else 0

def shr32 (v n : UInt32) : UInt32 := if n.toNat % 256 < 32 then v >>> UInt32.ofNat (n.toNat % 256) else 0

/-- Where the first switch of `process_instruction` leaves: behind it, through `EXIT`, at `ERROR`
or at `ERROR_INHERIT`. -/
inductive Outcome (H : Type)
  | done (vm : TcMiMicVM H)
  | exit (vm : TcMiMicVM H)
  | error (vm : TcMiMicVM H)
  | inherit (vm : TcMiMicVM H) (code : UInt32)

namespace TcMiMicVM

variable {H : Type}

def setWm (vm : TcMiMicVM H) (r : Nat) (v : UInt32) : TcMiMicVM H :=
  { vm with wm := Function.update vm.wm r v }

/-- The registers as the native code sees them. -/
def regs (vm : TcMiMicVM H) : Fin NUMBER_OF_WM → UInt32 := fun r => vm.wm r

def setRegs (vm : TcMiMicVM H) (f : Fin NUMBER_OF_WM → UInt32) : TcMiMicVM H :=
  { vm with wm := fun i => if h : i < NUMBER_OF_WM then f ⟨i, h⟩ else vm.wm i }

end TcMiMicVM

section

variable {H : Type}

/-- AND, OR, XOR, ADD, SUB, MUL and LD: a register and a register or an immediate. -/
def binary (f : UInt32 → UInt32 → UInt32) (t : Option OprType) (ist : Word) (h32 : UInt32)
    (vm : TcMiMicVM H) : Outcome H :=
  match t with
  | some .wmWm => .done (vm.setWm ist.b2.toNat (f (vm.wm ist.b2.toNat) (vm.wm ist.b3.toNat)))
  | some .wmH32 => .done (vm.setWm ist.b2.toNat (f (vm.wm ist.b2.toNat) h32))
  | _ => .error vm

/-- SHL and SHR: the amount is a byte of the word or a register. -/
def shift (f : UInt32 → UInt32 → UInt32) (t : Option OprType) (ist : Word) (vm : TcMiMicVM H) :
    Outcome H :=
  match t with
  | some .wmH08 => .done (vm.setWm ist.b2.toNat (f (vm.wm ist.b2.toNat) ist.b3.toUInt32))
  | some .wmWm => .done (vm.setWm ist.b2.toNat (f (vm.wm ist.b2.toNat) (vm.wm ist.b3.toNat)))
  | _ => .error vm

def callNative (ev : TEvent H) (id : UInt32) (vm : TcMiMicVM H) : Outcome H :=
  let r := ev.nativeCall vm.host id vm.regs
  let vm := { vm.setRegs r.2.1 with host := r.1 }
  if resultIsOK r.2.2 then .done vm else .inherit vm r.2.2

def putStream (ev : TEvent H) (v : UInt32) (vm : TcMiMicVM H) : Outcome H :=
  let r := ev.putStream vm.host v
  let vm := { vm with host := r.1 }
  if r.2 then .done vm else .error vm

def putMemory (ev : TEvent H) (addr v : UInt32) (vm : TcMiMicVM H) : TcMiMicVM H :=
  let r := ev.store vm.host vm.regs addr v
  { vm.setRegs r.2 with host := r.1 }

/-- The first switch of `process_instruction`, on the operation and the operand type. -/
def operate (ev : TEvent H) (op : OpType) (t : Option OprType) (ist : Word) (h32 : UInt32)
    (vm : TcMiMicVM H) : Outcome H :=
  match op with
  | .and => binary (· &&& ·) t ist h32 vm
  | .or => binary (· ||| ·) t ist h32 vm
  | .xor => binary (· ^^^ ·) t ist h32 vm
  | .add => binary (· + ·) t ist h32 vm
  | .sub => binary (· - ·) t ist h32 vm
  | .mul => binary (· * ·) t ist h32 vm
  | .ld => binary (fun _ v => v) t ist h32 vm
  | .not =>
    match t with
    | some .wm => .done (vm.setWm ist.b2.toNat (~~~vm.wm ist.b2.toNat))
    | _ => .error vm
  | .shl => shift shl32 t ist vm
  | .shr => shift shr32 t ist vm
  | .mget =>
    match t with
    | some .wmH32 => .done (vm.setWm ist.b2.toNat (ev.load vm.host vm.regs h32))
    | some .wmWm => .done (vm.setWm ist.b2.toNat (ev.load vm.host vm.regs (vm.wm ist.b3.toNat)))
    | _ => .error vm
  | .mput =>
    match t with
    | some .wmH32 => .done (putMemory ev h32 (vm.wm ist.b2.toNat) vm)
    | some .wmWm => .done (putMemory ev (vm.wm ist.b3.toNat) (vm.wm ist.b2.toNat) vm)
    | _ => .error vm
  | .sget =>
    match t with
    | some .wm =>
      match ev.getStream vm.host with
      | (h, some v) => .done ({ vm with host := h }.setWm ist.b2.toNat v)
      | (h, none) => .error { vm with host := h }
    | _ => .error vm
  | .sput =>
    match t with
    | some .wm => putStream ev (vm.wm ist.b2.toNat) vm
    | some .h32 => putStream ev h32 vm
    | _ => .error vm
  | .nop =>
    match t with
    | some .none => .done vm
    | some .h08 => .done { vm with host := ev.sleep vm.host ist.b2.toUInt32 }
    | _ => .error vm
  | .call =>
    match t with
    | some .wm => callNative ev (vm.wm ist.b2.toNat) vm
    | some .h32 => callNative ev h32 vm
    | _ => .error vm
  | .exit => .exit vm

/-- The second switch: the words of the instruction. -/
def words : OprType → Nat
  | .none | .wmWm | .wmH08 | .wm | .h08 | .h16 => 1
  | .wmH16 | .wmH32 | .h32 => 2

/-- The machine and the compiler count the same words. -/
theorem words_eq (t : OprType) : words t = (getOpInfo t).2 := by
  cases t <;> rfl

/-- What `process_instruction` leaves: the words processed and `o_code`. -/
structure Processed (H : Type) where
  vm : TcMiMicVM H
  inByte : Nat
  code : UInt32

/-- `process_instruction`, on the words at `pc`. The second switch reads the operand type again,
behind what the first one may have stored. -/
def processInstruction (ev : TEvent H) (code : H → Nat → Word) (pc : Nat) (vm : TcMiMicVM H) :
    Processed H :=
  let ist := code vm.host pc
  match OpType.ofCode ist.opc with
  | none => ⟨vm, 0, RESULT_RUNTIME_NG⟩
  | some op =>
    match operate ev op (OprType.ofCode ist.oprtype) ist (code vm.host (pc + 1)).toUInt32 vm with
    | .exit vm => ⟨vm, 0, RESULT_OK⟩
    | .error vm => ⟨vm, 0, RESULT_RUNTIME_NG⟩
    | .inherit vm code => ⟨vm, 0, code⟩
    | .done vm =>
      match OprType.ofCode (code vm.host pc).oprtype with
      | some t => ⟨vm, words t, RESULT_OK⟩
      | none => ⟨vm, 0, RESULT_RUNTIME_NG⟩

/-- `pc+=proc_in_byte` on 16 bits. -/
def advance (pc n : Nat) : Nat := (pc + n) % 65536

/-- The loop of `NyLPC_cMiMicVM_run`, with the program counter it leaves; `none` when the fuel
is spent. `code` reads the words from the memory of the host. -/
def runFrom (ev : TEvent H) (code : H → Nat → Word) (size : Nat) :
    Nat → Nat → TcMiMicVM H → Option (TcMiMicVM H × UInt32 × Nat)
  | 0, _, _ => none
  | fuel + 1, pc, vm =>
    let r := processInstruction ev code pc vm
    if 0 < r.inByte ∧ advance pc r.inByte < size then
      runFrom ev code size fuel (advance pc r.inByte) r.vm
    else some (r.vm, r.code, advance pc r.inByte)

/-- `NyLPC_cMiMicVM_run`. -/
def run (ev : TEvent H) (code : H → Nat → Word) (size fuel : Nat) (vm : TcMiMicVM H) :
    Option (TcMiMicVM H × UInt32 × Nat) :=
  if 0 < size then runFrom ev code size fuel 0 vm else some (vm, RESULT_OK, 0)

end

end MiMic.Vm
