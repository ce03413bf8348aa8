import MiMic.Core.Chars
import MiMic.Lib.Hex

/-!
# MiMicVM instructions

The codes of operations and operands, the layout of an instruction in 32-bit words, the tables
of the text form. The target is little endian: the first byte of a word is the operation.
-/
namespace MiMic.Vm

/-- `NyLPC_TcMiMicVM_OP_TYPE`. -/
inductive OpType
  | and | or | xor | not | shl | shr | add | sub | mul | mget | mput | sget | sput
  | nop | exit | call | ld
deriving DecidableEq, Repr

def OpType.code : OpType → UInt8
  | .and => 0x11
  | .or => 0x12
  | .xor => 0x13
  | .not => 0x14
  | .shl => 0x21
  | .shr => 0x22
  | .add => 0x31
  | .sub => 0x32
  | .mul => 0x33
  | .mget => 0x41
  | .mput => 0x42
  | .sget => 0x51
  | .sput => 0x52
  | .nop => 0x61
  | .exit => 0x62
  | .call => 0x63
  | .ld => 0x71

def OpType.all : List OpType :=
  [.and, .or, .xor, .not, .shl, .shr, .add, .sub, .mul, .mget, .mput, .sget, .sput,
    .nop, .exit, .call, .ld]

def OpType.ofCode (b : UInt8) : Option OpType := OpType.all.find? (·.code == b)

/-- `NyLPC_TcMiMicVM_OPR_TYPE`. -/
inductive OprType
  | none | wmWm | wmH08 | wmH16 | wmH32 | wm | h08 | h16 | h32
deriving DecidableEq, Repr

def OprType.code : OprType → UInt8
  | .none => 0x01
  | .wmWm => 0x11
  | .wmH08 => 0x12
  | .wmH16 => 0x13
  | .wmH32 => 0x14
  | .wm => 0x21
  | .h08 => 0x22
  | .h16 => 0x23
  | .h32 => 0x24

def OprType.all : List OprType := [.none, .wmWm, .wmH08, .wmH16, .wmH32, .wm, .h08, .h16, .h32]

def OprType.ofCode (b : UInt8) : Option OprType := OprType.all.find? (·.code == b)

@[simp] theorem OpType.ofCode_code (op : OpType) : OpType.ofCode op.code = some op := by
  cases op <;> rfl

@[simp] theorem OprType.ofCode_code (t : OprType) : OprType.ofCode t.code = some t := by
  cases t <;> rfl

/-- `NyLPC_TcMiMicVM_OPR_TYPE_getOpInfo`: characters of the operand, words of the instruction. -/
def getOpInfo : OprType → Nat × Nat
  | .none => (0, 1)
  | .wmWm => ((1 + 1) * 2, 1)
  | .wmH08 => ((1 + 1) * 2, 1)
  | .wmH16 => ((1 + 2) * 2, 2)
  | .wmH32 => ((1 + 4) * 2, 2)
  | .wm => (1 * 2, 1)
  | .h08 => (1 * 2, 1)
  | .h16 => (2 * 2, 1)
  | .h32 => (4 * 2, 2)

/-- A word of the bytecode seen through `NyLPC_TcMiMicVM_TInstruction`. The third byte is `wm`,
`wm1` or the `h8` of `h8_32`, the last one `wm2` or the `h8` of `wmh08_32`. -/
structure Word where
  opc : UInt8
  oprtype : UInt8
  b2 : UInt8
  b3 : UInt8
deriving DecidableEq, Repr

def Word.zero : Word := ⟨0, 0, 0, 0⟩

def Word.toUInt32 (w : Word) : UInt32 :=
  UInt32.ofNat (w.opc.toNat + 256 * w.oprtype.toNat + 65536 * w.b2.toNat + 16777216 * w.b3.toNat)

def Word.ofUInt32 (v : UInt32) : Word :=
  ⟨UInt8.ofNat v.toNat, UInt8.ofNat (v.toNat / 256), UInt8.ofNat (v.toNat / 65536),
    UInt8.ofNat (v.toNat / 16777216)⟩

@[simp] theorem Word.toUInt32_ofUInt32 (v : UInt32) : (Word.ofUInt32 v).toUInt32 = v := by
  apply UInt32.toNat_inj.mp
  have := v.toNat_lt
  simp only [Word.ofUInt32, Word.toUInt32, UInt8.toNat_ofNat', UInt32.toNat_ofNat']
  omega

/-- `NyLPC_TcMiMicVM_NUMBER_OF_WM`. -/
def NUMBER_OF_WM : Nat := 8

/-- One digit of `txt2UInt`. -/
def txtDigit (c : UInt8) : Option UInt8 :=
  if 0x66 ≥ c ∧ c ≥ 0x61 then some (c - 0x61 + 10)
  else if 0x39 ≥ c ∧ c ≥ 0x30 then some (c - 0x30)
  else none

/-- The number `txt2UInt` collects in `ret`, of the characters it is given. -/
def txt2UInt (txt : List UInt8) : Option UInt32 :=
  txt.foldlM (fun ret c => (txtDigit c).map fun d => ret <<< 4 ||| d.toUInt32) 0

theorem txtDigit_eq (c : UInt8) : (txtDigit c).map UInt8.toNat = Verif.Hex.ofDigit c := by
  have hall : ∀ k : Fin 256,
      (txtDigit (UInt8.ofNat k)).map UInt8.toNat = Verif.Hex.ofDigit (UInt8.ofNat k) := by
    decide +kernel
  have h := hall ⟨c.toNat, c.toNat_lt⟩
  rwa [UInt8.ofNat_toNat] at h

/-- A digit put behind a number, in the word and in the numbers. -/
theorem shift_or_digit (v : Nat) {d : UInt8} (hd : d.toNat < 16) :
    UInt32.ofNat v <<< 4 ||| d.toUInt32 = UInt32.ofNat (16 * v + d.toNat) := by
  have hor : 16 * v + d.toNat = 2 ^ 4 * v ||| d.toNat := by
    have := Nat.two_pow_add_eq_or_of_lt (i := 4) (b := d.toNat) (by omega) v
    omega
  apply UInt32.toNat_inj.mp
  rw [hor, UInt32.toNat_or, UInt32.toNat_shiftLeft, UInt32.toNat_ofNat', UInt32.toNat_ofNat',
    Nat.or_mod_two_pow, UInt8.toNat_toUInt32, Nat.shiftLeft_eq]
  have h4 : (4 : UInt32).toNat % 32 = 4 := rfl
  rw [h4, Nat.mod_eq_of_lt (a := d.toNat) (by omega)]
  congr 1
  omega

/-- `txt2UInt` reads the number of the digits, in 32 bits. -/
theorem txt2UInt_eq (txt : List UInt8) :
    txt2UInt txt = (Verif.Hex.value txt).map UInt32.ofNat := by
  induction txt using List.reverseRecOn with
  | nil => rfl
  | append_singleton txt c ih =>
    have hsplit : txt2UInt (txt ++ [c]) = (txt2UInt txt).bind fun ret =>
        (txtDigit c).map fun d => ret <<< 4 ||| d.toUInt32 := by
      rw [txt2UInt, List.foldlM_append]
      change (txt2UInt txt).bind (fun v => ((txtDigit c).map _).bind some) = _
      simp only [Option.bind_fun_some]
    rw [hsplit, ih, Verif.Hex.value_append, Option.map_bind, Option.bind_map]
    congr 1
    funext v
    rw [Function.comp_apply, Function.comp_apply, Verif.Hex.push]
    cases hd : txtDigit c with
    | none => rw [← txtDigit_eq, hd]; rfl
    | some d =>
      have heq := txtDigit_eq c
      rw [hd, Option.map_some] at heq
      rw [← heq, Option.map_some, Option.map_some, Option.map_some,
        shift_or_digit v (Verif.Hex.ofDigit_lt heq.symm)]

/-- A field of the text form gives back what it was written from. -/
theorem txt2UInt_text {n v : Nat} (h : v < 16 ^ n) :
    txt2UInt (Verif.Hex.text n v) = some (UInt32.ofNat v) := by
  rw [txt2UInt_eq, Verif.Hex.value_text h, Option.map_some]

/-- The table of `bc2opc`. -/
def bcTypeTbl : List ((Char × Char) × OpType × OprType) :=
  [(('A', 'A'), .and, .wmWm),
    (('A', 'B'), .and, .wmH32),
    (('A', 'E'), .or, .wmWm),
    (('A', 'F'), .or, .wmH32),
    (('A', 'I'), .xor, .wmWm),
    (('A', 'J'), .xor, .wmH32),
    (('A', 'M'), .not, .wm),
    (('B', 'A'), .shl, .wmH08),
    (('B', 'B'), .shl, .wmWm),
    (('B', 'E'), .shr, .wmH08),
    (('B', 'F'), .shr, .wmWm),
    (('C', 'A'), .add, .wmWm),
    (('C', 'B'), .add, .wmH32),
    (('C', 'E'), .sub, .wmWm),
    (('C', 'F'), .sub, .wmH32),
    (('C', 'I'), .mul, .wmWm),
    (('C', 'J'), .mul, .wmH32),
    (('D', 'A'), .mget, .wmH32),
    (('D', 'B'), .mget, .wmWm),
    (('D', 'E'), .mput, .wmH32),
    (('D', 'F'), .mput, .wmWm),
    (('E', 'A'), .sget, .wm),
    (('E', 'E'), .sput, .wm),
    (('E', 'F'), .sput, .h32),
    (('F', 'A'), .ld, .wmWm),
    (('F', 'B'), .ld, .wmH32),
    (('Z', 'A'), .nop, .none),
    (('Z', 'B'), .nop, .h08),
    (('Z', 'E'), .call, .wm),
    (('Z', 'F'), .call, .h32),
    (('Z', 'Z'), .exit, .none)]

def bc2opc (bc : List UInt8) : Option (OpType × OprType) :=
  (bcTypeTbl.find? fun e => bc == [e.1.1.toUInt8, e.1.2.toUInt8]).map (·.2)

/-- `bc2ctrlc`: `.E` is the only control code, `CP_TYPE_END` without an operand. -/
def bc2ctrlc (bc : List UInt8) : Bool := bc == ['.'.toUInt8, 'E'.toUInt8]

end MiMic.Vm
