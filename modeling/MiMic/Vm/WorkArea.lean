import MiMic.Vm.RemoteMcu

/-!
# The work area

What one instruction does to the work area and what one character of the URL does to the buffer,
for the steps that keep clear of the defects: register 8, a DB part that a later text part would
cover, a DB word behind a full buffer, a store into the module's own memory.
-/
namespace MiMic.Vm

open Verif (Laid)

/-- The fields of an operand's text that name a register. -/
def regFields : OprType → List UInt8 → List (List UInt8)
  | .wmWm, tmp => [tmp.take 2, (tmp.drop 2).take 2]
  | .wmH08, tmp | .wmH32, tmp | .wm, tmp => [tmp.take 2]
  | _, _ => []

/-- Where an instruction stores to memory, and what. -/
def storesAt (ist : Word) (h32 : UInt32) (wm : Nat → UInt32) : Option (UInt32 × UInt32) :=
  if OpType.ofCode ist.opc = some .mput then
    match OprType.ofCode ist.oprtype with
    | some .wmH32 => some (h32, wm ist.b2.toNat)
    | some .wmWm => some (wm ist.b3.toNat, wm ist.b2.toNat)
    | _ => none
  else none

/-- The character goes to one of the compilers. -/
def Header.Compiles (h : Header) (st : AState) (c : UInt8) : Prop :=
  0 ≤ h.prefixLen ∧ h.contentId = .mvm ∧ h.astate = st ∧ Header.valueEnd c = false

/-- An operand that is complete with this character names no register 8. -/
def Header.NamesRegisters (h : Header) (c : UInt8) : Prop :=
  h.Compiles .queryValueBc c → h.txtcmp.st = .opr →
    h.txtcmp.oprbcLen = (h.txtcmp.tmp ++ [c]).length →
    ∀ f ∈ regFields h.txtcmp.currentOprtype (h.txtcmp.tmp ++ [c]),
      (txt2UInt f).map UInt32.toUInt8 ≠ some 8

/-- A text part ends only where no DB word was put before. -/
def Header.EndsBeforeDb (h : Header) (c : UInt8) : Prop :=
  h.Compiles .queryValueBc c → h.txtcmp.st = .opc → bc2ctrlc (h.txtcmp.tmp ++ [c]) = true →
    h.dbLen = 0

/-- A DB word that is complete with this character finds room. -/
def Header.DbFits (h : Header) (c : UInt8) : Prop :=
  h.Compiles .queryValueDb c → (h.binparser.tmp ++ [c]).length = 8 →
    (txt2UInt (h.binparser.tmp ++ [c])).isSome → 0 < h.binarray.len

def Header.CharOk (h : Header) (c : UInt8) : Prop :=
  h.NamesRegisters c ∧ h.EndsBeforeDb c ∧ h.DbFits c

/-- A store leaves the work area alone. -/
def Mcu.StoresApart (P : Platform) (s : Mcu) : Prop :=
  ∀ a v, storesAt (s.hdr.binarray.mem s.pc) (s.hdr.binarray.mem (s.pc + 1)).toUInt32 s.wm =
    some (a, v) → P.store a v s.hdr = s.hdr

/-- The steps that keep clear of the defects. -/
def Event.Ok (P : Platform) (p : Mcu × List (Nat × Word)) : Event → Prop
  | .url c => p.1.hdr.CharOk c
  | .urlEnd => p.1.hdr.CharOk 0
  | .vm _ _ => p.1.StoresApart P
  | _ => True

/-- Where an outcome leaves the machine. -/
def Outcome.machine {H : Type} : Outcome H → TcMiMicVM H
  | .done vm | .exit vm | .error vm | .inherit vm _ => vm

theorem processInstruction_vm {H : Type} (ev : TEvent H) (code : H → Nat → Word) (pc : Nat)
    (vm : TcMiMicVM H) :
    (processInstruction ev code pc vm).vm = vm ∨
      ∃ op, OpType.ofCode (code vm.host pc).opc = some op ∧
        (processInstruction ev code pc vm).vm =
          (operate ev op (OprType.ofCode (code vm.host pc).oprtype) (code vm.host pc)
            (code vm.host (pc + 1)).toUInt32 vm).machine := by
  rw [processInstruction]
  cases hop : OpType.ofCode (code vm.host pc).opc with
  | none => exact .inl rfl
  | some op =>
    refine .inr ⟨op, rfl, ?_⟩
    simp only
    generalize operate ev op (OprType.ofCode (code vm.host pc).oprtype) (code vm.host pc)
      (code vm.host (pc + 1)).toUInt32 vm = out
    cases out with
    | done vm' =>
      simp only
      cases OprType.ofCode (code vm'.host pc).oprtype <;> rfl
    | exit vm' | error vm' | inherit vm' code => rfl

section

variable {P : Platform} {ist next : Word} {vm : TcMiMicVM Host}

theorem binary_hdr (f : UInt32 → UInt32 → UInt32) (t : Option OprType) (h32 : UInt32) :
    (binary f t ist h32 vm).machine.host.hdr = vm.host.hdr := by
  fun_cases binary f t ist h32 vm <;> rfl

theorem shift_hdr (f : UInt32 → UInt32 → UInt32) (t : Option OprType) :
    (shift f t ist vm).machine.host.hdr = vm.host.hdr := by
  fun_cases shift f t ist vm <;> rfl

theorem putStream_hdr (v : UInt32) :
    (putStream (events P) v vm).machine.host.hdr = vm.host.hdr := by
  have hput : (mvmputs vm.host v).1.hdr = vm.host.hdr := by
    rw [mvmputs]
    split_ifs <;> rfl
  rw [putStream]
  split_ifs <;> exact hput

theorem callNative_hdr (v : UInt32) :
    (callNative (events P) v vm).machine.host.hdr = vm.host.hdr := by
  rw [callNative]
  split_ifs <;> rfl

theorem mvmgets_hdr (h : Host) : (mvmgets h).1.hdr = h.hdr := by
  rw [mvmgets]
  split_ifs <;> rfl

/-- No instruction but a store touches the work area. -/
theorem operate_hdr {op : OpType} (hop : OpType.ofCode ist.opc = some op)
    (hstore : ∀ a v, storesAt ist next.toUInt32 vm.wm = some (a, v) →
      P.store a v vm.host.hdr = vm.host.hdr) :
    (operate (events P) op (OprType.ofCode ist.oprtype) ist next.toUInt32
      vm).machine.host.hdr = vm.host.hdr := by
  revert hstore
  rw [storesAt, hop]
  generalize OprType.ofCode ist.oprtype = t
  intro hstore
  cases op with
  | and | or | xor | add | sub | mul => exact binary_hdr _ t _
  | ld => exact binary_hdr (fun _ v => v) t _
  | shl | shr => exact shift_hdr _ t
  | not | mget | nop =>
    unfold operate
    simp only
    split <;> rfl
  | mput =>
    unfold operate
    simp only
    split
    · exact hstore _ _ rfl
    · exact hstore _ _ rfl
    · rfl
  | sget =>
    have hget := mvmgets_hdr vm.host
    unfold operate
    simp only [events]
    split
    · generalize mvmgets vm.host = r at hget
      obtain ⟨h, v⟩ := r
      cases v <;> exact hget
    · rfl
  | sput =>
    unfold operate
    simp only
    split
    · exact putStream_hdr _
    · exact putStream_hdr _
    · rfl
  | call =>
    unfold operate
    simp only
    split
    · exact callNative_hdr _
    · exact callNative_hdr _
    · rfl
  | exit => rfl

theorem processInstruction_hdr {code : Host → Nat → Word} {pc : Nat}
    (hstore : ∀ a v, storesAt (code vm.host pc) (code vm.host (pc + 1)).toUInt32 vm.wm =
      some (a, v) → P.store a v vm.host.hdr = vm.host.hdr) :
    (processInstruction (events P) code pc vm).vm.host.hdr = vm.host.hdr := by
  obtain h | ⟨op, hop, h⟩ := processInstruction_vm (events P) code pc vm
  · rw [h]
  · rw [h]
    exact operate_hdr hop hstore

end

/-- The words of an instruction, as its first word says. -/
def sizeOf (w : Word) : Nat := ((OprType.ofCode w.oprtype).map words).getD 0

/-- An instruction that goes on is as long as its first word then says. -/
theorem processInstruction_inByte {H : Type} (ev : TEvent H) (code : H → Nat → Word) (pc : Nat)
    (vm : TcMiMicVM H) (h : 0 < (processInstruction ev code pc vm).inByte) :
    (processInstruction ev code pc vm).inByte =
      sizeOf (code (processInstruction ev code pc vm).vm.host pc) := by
  revert h
  rw [processInstruction, sizeOf]
  cases OpType.ofCode (code vm.host pc).opc with
  | none => exact fun h => absurd h (lt_irrefl 0)
  | some op =>
    simp only
    generalize operate ev op (OprType.ofCode (code vm.host pc).oprtype) (code vm.host pc)
      (code vm.host (pc + 1)).toUInt32 vm = out
    cases out with
    | done vm' =>
      simp only
      cases ht : OprType.ofCode (code vm'.host pc).oprtype with
      | none => exact fun h => absurd h (lt_irrefl 0)
      | some t =>
        intro _
        simp only
        rw [ht]
        rfl
    | exit vm' | error vm' | inherit vm' code => exact fun h => absurd h (lt_irrefl 0)

/-- A text compiler that knows what its operand is. -/
def TxtCompiler.Wf (c : TxtCompiler) : Prop :=
  c.st = .opr → c.instLen = words c.currentOprtype

/-- What an emitted instruction has put into the buffer. -/
structure Emitted (bin bin' : UInt32ArrayPtr) : Prop where
  ptr : bin'.ptr = bin.ptr + sizeOf (bin'.mem bin.ptr)
  len : bin'.len + sizeOf (bin'.mem bin.ptr) = bin.len
  size : 0 < sizeOf (bin'.mem bin.ptr)

/-- What every character keeps: the words before the pointer, and the writes inside the room. -/
structure Inside (bin bin' : UInt32ArrayPtr) : Prop where
  mem : ∀ j < bin.ptr, bin'.mem j = bin.mem j
  written : ∀ i ∈ bin'.written, i ∈ bin.written ∨ i < bin.ptr + bin.len

theorem Inside.refl (bin : UInt32ArrayPtr) : Inside bin bin :=
  ⟨fun _ _ => rfl, fun _ h => .inl h⟩

theorem txt2WMId_ok {txt : List UInt8} {out b : UInt8} (h : txt2WMId txt out = (b, true))
    (h8 : (txt2UInt txt).map UInt32.toUInt8 ≠ some 8) : b.toNat < NUMBER_OF_WM := by
  rw [txt2WMId] at h
  cases hv : txt2UInt txt with
  | none =>
    rw [hv] at h
    cases h
  | some v =>
    simp only [hv, Prod.mk.injEq, decide_eq_true_eq] at h
    obtain ⟨rfl, hle⟩ := h
    rw [hv, Option.map_some] at h8
    have hne : v.toUInt8.toNat ≠ 8 := fun he =>
      h8 (congrArg some (UInt8.toNat_inj.mp (he.trans rfl)))
    exact Nat.lt_of_le_of_ne hle hne

theorem sizeOf_code {w : Word} {t : OprType} (h : w.oprtype = t.code) : sizeOf w = words t := by
  rw [sizeOf, h, OprType.ofCode_code]
  rfl

theorem operandRegs_code {w : Word} {t : OprType} (h : w.oprtype = t.code) :
    operandRegs w = regsOf w t := by
  rw [operandRegs, h, OprType.ofCode_code]
  rfl

/-- Converting an operand leaves the first two bytes alone. -/
theorem convertOperand_oprtype (t : OprType) (tmp : List UInt8) (w w' : Word) :
    (convertOperand t tmp w w').1.1.oprtype = w.oprtype := by
  fun_cases convertOperand t tmp w w' <;> rfl

/-- A converted operand names the registers its text names. -/
theorem convertOperand_ok {t : OprType} {tmp : List UInt8} {w w' : Word} {ws : Word × Word}
    (ht : w.oprtype = t.code) (h : convertOperand t tmp w w' = (ws, true))
    (hf : ∀ f ∈ regFields t tmp, (txt2UInt f).map UInt32.toUInt8 ≠ some 8) :
    ws.1.oprtype = t.code ∧ ∀ r ∈ operandRegs ws.1, r < NUMBER_OF_WM := by
  have hws : ws.1.oprtype = t.code := by
    have := convertOperand_oprtype t tmp w w'
    rw [h] at this
    exact this.trans ht
  have key : ∀ {txt out}, (txt2UInt txt).map UInt32.toUInt8 ≠ some 8 →
      (txt2WMId txt out).2 = true → (txt2WMId txt out).1.toNat < NUMBER_OF_WM :=
    fun h8 hok => txt2WMId_ok (Prod.ext rfl hok) h8
  refine ⟨hws, ?_⟩
  rw [operandRegs_code hws]
  intro r hr
  cases t with
  | wmWm =>
    simp only [convertOperand] at h
    split_ifs at h with h1
    · obtain ⟨rfl, h2⟩ := Prod.mk.inj h
      obtain rfl | rfl := List.mem_pair.mp hr
      · exact key (hf _ (List.mem_cons_self ..)) h1
      · exact key (hf _ (List.mem_cons_of_mem _ (List.mem_cons_self ..))) h2
    · cases (Prod.mk.inj h).2
  | wmH08 =>
    simp only [convertOperand] at h
    split_ifs at h with h1
    · obtain ⟨rfl, -⟩ := Prod.mk.inj h
      obtain rfl := List.mem_singleton.mp hr
      exact key (hf _ (List.mem_cons_self ..)) h1
    · cases (Prod.mk.inj h).2
  | wmH32 =>
    simp only [convertOperand] at h
    split_ifs at h with h1
    · obtain ⟨rfl, -⟩ := Prod.mk.inj h
      obtain rfl := List.mem_singleton.mp hr
      exact key (hf _ (List.mem_cons_self ..)) h1
    · cases (Prod.mk.inj h).2
  | wm =>
    simp only [convertOperand] at h
    obtain ⟨rfl, h1⟩ := Prod.mk.inj h
    obtain rfl := List.mem_singleton.mp hr
    exact key (hf _ (List.mem_cons_self ..)) h1
  | h08 | h32 | none => exact nomatch hr
  | wmH16 | h16 => cases (Prod.mk.inj h).2

theorem seek_eq_some {bin bin' : UInt32ArrayPtr} {n : Nat} (h : bin.seek n = some bin') :
    n ≤ bin.len ∧ bin' = { bin with ptr := bin.ptr + n, len := bin.len - n } := by
  rw [UInt32ArrayPtr.seek] at h
  split_ifs at h with hn
  exact ⟨Nat.le_of_not_lt hn, (Option.some.inj h).symm⟩

/-- A store at the pointer, with room there. -/
theorem Inside.store {bin bin' : UInt32ArrayPtr} {i : Nat} (h : Inside bin bin')
    (hlo : bin.ptr ≤ i) (hhi : i < bin.ptr + bin.len) (w : Word) :
    Inside bin (bin'.store i w) := by
  constructor
  · intro j hj
    exact (Function.update_of_ne (by omega) _ _).trans (h.mem j hj)
  · intro k hk
    obtain rfl | hk := List.mem_cons.mp hk
    · exact .inr hhi
    · exact h.written k hk

theorem storeInstruction_inside (bin : UInt32ArrayPtr) {n : Nat} (hn : 0 < n)
    (hroom : n ≤ bin.len) (ptr' len' : Nat) (ws : Word × Word) :
    Inside bin (TxtCompiler.storeInstruction { bin with ptr := ptr', len := len' } bin.ptr n ws) ∧
      (TxtCompiler.storeInstruction { bin with ptr := ptr', len := len' } bin.ptr n ws).mem
        bin.ptr = ws.1 := by
  have h0 : Inside bin { bin with ptr := ptr', len := len' } :=
    ⟨fun _ _ => rfl, fun _ h => .inl h⟩
  have h1 := h0.store (le_refl bin.ptr) (by omega) ws.1
  rw [TxtCompiler.storeInstruction]
  split_ifs with h2
  · refine ⟨h1.store (by omega) (by omega) ws.2, ?_⟩
    exact (Function.update_of_ne (by omega) _ _).trans (Function.update_self _ _ _)
  · exact ⟨h1, Function.update_self _ _ _⟩

theorem storeInstruction_ptr (bin : UInt32ArrayPtr) (ptr n : Nat) (ws : Word × Word) :
    (TxtCompiler.storeInstruction bin ptr n ws).ptr = bin.ptr := by
  rw [TxtCompiler.storeInstruction]
  split_ifs <;> rfl

theorem storeInstruction_len (bin : UInt32ArrayPtr) (ptr n : Nat) (ws : Word × Word) :
    (TxtCompiler.storeInstruction bin ptr n ws).len = bin.len := by
  rw [TxtCompiler.storeInstruction]
  split_ifs <;> rfl

/-- What a character of the text part leaves behind. -/
def CharSpec (c : TxtCompiler) (ch : UInt8) (bin : UInt32ArrayPtr) :
    TxtCompiler × UInt32ArrayPtr × TxtRet → Prop
  | (c', bin', .continue) => c'.Wf ∧ bin' = bin
  | (c', bin', .okEnd n) => c'.Wf ∧ bin' = bin ∧ n = 0 ∧ c.st = .opc ∧ bc2ctrlc (c.tmp ++ [ch]) = true
  | (c', bin', .ok _) => c'.Wf ∧ Inside bin bin' ∧ Emitted bin bin' ∧
      ((c.st = .opr → c.oprbcLen = (c.tmp ++ [ch]).length →
          ∀ f ∈ regFields c.currentOprtype (c.tmp ++ [ch]),
            (txt2UInt f).map UInt32.toUInt8 ≠ some 8) →
        ∀ r ∈ operandRegs (bin'.mem bin.ptr), r < NUMBER_OF_WM)
  | (_, bin', .ng) => Inside bin bin'

theorem finishOpc_spec {c : TxtCompiler} {ch : UInt8} {bin : UInt32ArrayPtr} (hst : c.st = .opc) :
    CharSpec c ch bin (({ c with tmp := c.tmp ++ [ch] } : TxtCompiler).finishOpc bin) := by
  rw [TxtCompiler.finishOpc]
  split
  next op t hop =>
    simp only
    split_ifs with hnone
    · have ht : t = .none := by
        revert hnone
        cases t <;> decide
      subst ht
      split
      · exact Inside.refl bin
      next bin' hseek =>
        obtain ⟨hroom, rfl⟩ := seek_eq_some hseek
        obtain ⟨hin, hmem⟩ := storeInstruction_inside bin Nat.one_pos hroom (bin.ptr + 1)
          (bin.len - 1)
          ({ bin.mem bin.ptr with opc := op.code, oprtype := OprType.none.code }, Word.zero)
        have hcode := congrArg Word.oprtype hmem
        have hw := sizeOf_code (t := .none) hcode
        refine ⟨fun h => ?_, hin, ⟨?_, ?_, ?_⟩, ?_⟩
        · rw [hst] at h
          cases h
        · exact (congrArg (bin.ptr + ·) hw).symm
        · exact (congrArg (bin.len - 1 + ·) hw).trans (Nat.sub_add_cancel hroom)
        · exact Nat.lt_of_lt_of_eq Nat.one_pos hw.symm
        · intro _ r hr
          have hnil := congrArg (r ∈ ·) (operandRegs_code (t := .none) hcode)
          exact nomatch hnil.mp hr
    · exact ⟨fun _ => (words_eq t).symm, rfl⟩
  next =>
    split_ifs with hend
    · exact ⟨fun h => (nomatch hst.symm.trans h), rfl, rfl, hst, hend⟩
    · exact Inside.refl bin

theorem finishOpr_spec {c : TxtCompiler} {ch : UInt8} {bin : UInt32ArrayPtr} (hst : c.st = .opr)
    (hc : c.Wf) (hlen : c.oprbcLen = (c.tmp ++ [ch]).length) :
    CharSpec c ch bin (({ c with tmp := c.tmp ++ [ch] } : TxtCompiler).finishOpr bin) := by
  have hsize := hc hst
  have hpos : 0 < words c.currentOprtype := by
    generalize c.currentOprtype = t
    cases t <;> decide
  rw [TxtCompiler.finishOpr]
  split
  · exact Inside.refl bin
  next bin' hseek =>
    obtain ⟨hroom, rfl⟩ := seek_eq_some hseek
    have hroom' : c.instLen ≤ bin.len := hroom
    simp only
    obtain ⟨⟨ws, ok⟩, hconv⟩ : ∃ r, convertOperand c.currentOprtype (c.tmp ++ [ch])
      { bin.mem bin.ptr with opc := c.currentOpc.code, oprtype := c.currentOprtype.code }
      (bin.mem (bin.ptr + 1)) = r := ⟨_, rfl⟩
    obtain ⟨hin, hmem⟩ := storeInstruction_inside bin (by omega) hroom'
      (bin.ptr + c.instLen) (bin.len - c.instLen) ws
    simp only [hconv]
    cases ok with
    | false => exact hin
    | true =>
      have hty : ws.1.oprtype = c.currentOprtype.code := by
        have := convertOperand_oprtype c.currentOprtype (c.tmp ++ [ch])
          { bin.mem bin.ptr with opc := c.currentOpc.code, oprtype := c.currentOprtype.code }
          (bin.mem (bin.ptr + 1))
        rw [hconv] at this
        exact this
      have hw : sizeOf ws.1 = c.instLen := (sizeOf_code hty).trans hsize.symm
      refine ⟨fun h => (nomatch h), hin, ⟨?_, ?_, ?_⟩, ?_⟩
      · rw [hmem, hw]
        exact storeInstruction_ptr _ _ _ _
      · rw [hmem, hw]
        exact (congrArg (· + c.instLen) (storeInstruction_len _ _ _ _)).trans
          (Nat.sub_add_cancel hroom')
      · rw [hmem, hw]
        omega
      · intro hf
        rw [hmem]
        exact (convertOperand_ok rfl hconv (hf hst hlen)).2

/-- What a character does to a compiler that knows its operand. -/
theorem compileChar_spec {c : TxtCompiler} (hc : c.Wf) (ch : UInt8) (bin : UInt32ArrayPtr) :
    CharSpec c ch bin (c.compileChar ch bin) := by
  rw [TxtCompiler.compileChar]
  split
  next hst =>
    split_ifs with hlen
    · exact Inside.refl bin
    · simp only
      split_ifs with h2
      · exact finishOpc_spec hst
      · exact ⟨fun h => (nomatch hst.symm.trans h), rfl⟩
  next hst =>
    simp only
    split_ifs with hlen
    · exact finishOpr_spec hst hc hlen
    · exact ⟨fun _ => hc hst, rfl⟩
  next => exact Inside.refl bin

/-- An instruction of the compiler that names registers that exist. -/
def Head (mem : Nat → Word) (emitted : List (Nat × Word)) (i : Nat) : Prop :=
  (i, mem i) ∈ emitted ∧ ∀ r ∈ operandRegs (mem i), r < NUMBER_OF_WM

/-- Instructions one after another, from word `a` to word `b`. -/
def Text (mem : Nat → Word) (emitted : List (Nat × Word)) : Nat → Nat → Prop :=
  Laid (Head mem emitted) fun i => sizeOf (mem i)

theorem Text.congr {mem mem' : Nat → Word} {emitted emitted' : List (Nat × Word)} {a b : Nat}
    (h : Text mem emitted a b) (hmem : ∀ i < b, mem' i = mem i) (hsub : emitted ⊆ emitted') :
    Text mem' emitted' a b := by
  apply Laid.congr h
  · intro i hi hh
    rw [Head, hmem i hi]
    exact ⟨hsub hh.1, hh.2⟩
  · intro i hi
    rw [hmem i hi]

/-- What holds of the work area at any time. -/
structure Base (h : Header) (emitted : List (Nat × Word)) : Prop where
  written : ∀ i ∈ h.binarray.written, i < SIZE_OF_IBUF
  bound : h.txtLen ≤ SIZE_OF_IBUF
  text : Text h.binarray.mem emitted 0 h.txtLen

/-- What holds while the queries of a program are read. -/
structure Live (h : Header) (emitted : List (Nat × Word)) : Prop where
  room : h.binarray.ptr + h.binarray.len = SIZE_OF_IBUF
  le : h.txtLen ≤ h.binarray.ptr
  code : h.astate ≠ .queryValueDb → h.dbLen = 0 → Text h.binarray.mem emitted 0 h.binarray.ptr
  db : h.astate = .queryValueDb → h.dbPart = some h.txtLen

/-- What holds while a URL is read. -/
structure Parsing (h : Header) (emitted : List (Nat × Word)) : Prop extends Base h emitted where
  wf : h.txtcmp.Wf
  live : h.astate ≠ .path → h.contentId = .mvm → Live h emitted

/-- `recordEmitted` on the work area; `ok` is the value `urlHandler` returned. -/
def recordUrl (emitted : List (Nat × Word)) (h h' : Header) (ok : Bool) : List (Nat × Word) :=
  if h.astate = .path ∧ h'.astate ≠ .path ∧ h'.contentId = .mvm then []
  else if h.astate = .queryValueBc ∧ ok = true ∧ h.binarray.ptr < h'.binarray.ptr then
    emitted ++ [(h.binarray.ptr, h'.binarray.mem h.binarray.ptr)]
  else emitted

/-- What a call of `urlHandler` has to leave. -/
def UrlSpec (emitted : List (Nat × Word)) (h : Header) (r : Header × Bool) : Prop :=
  Base r.1 (recordUrl emitted h r.1 r.2) ∧
    (r.2 = true → Parsing r.1 (recordUrl emitted h r.1 r.2))

theorem recordUrl_same {emitted : List (Nat × Word)} {h h' : Header} {ok : Bool}
    (hpath : h.astate = .path → h'.astate = .path) (hptr : h'.binarray.ptr ≤ h.binarray.ptr) :
    recordUrl emitted h h' ok = emitted := by
  rw [recordUrl, if_neg (fun hc => hc.2.1 (hpath hc.1)), if_neg (fun hc => absurd hc.2.2 (by omega))]

theorem urlSpec_accepted {emitted emitted' : List (Nat × Word)} {h h' : Header}
    (hrec : recordUrl emitted h h' true = emitted') (hb : Base h' emitted') (hwf : h'.txtcmp.Wf)
    (hl : h'.astate ≠ .path → h'.contentId = .mvm → Live h' emitted') :
    UrlSpec emitted h (h', true) := by
  subst hrec
  exact ⟨hb, fun _ => ⟨hb, hwf, hl⟩⟩

theorem urlSpec_failed {emitted emitted' : List (Nat × Word)} {h h' : Header}
    (hrec : recordUrl emitted h h' false = emitted') (hb : Base h' emitted') :
    UrlSpec emitted h (h', false) := by
  subst hrec
  exact ⟨hb, fun h => nomatch h⟩

theorem Base.of_eq {emitted : List (Nat × Word)} {h h' : Header} (hb : Base h emitted)
    (hbin : h'.binarray = h.binarray) (htxt : h'.txtLen = h.txtLen) : Base h' emitted := by
  refine ⟨?_, ?_, ?_⟩
  · rw [hbin]
    exact hb.written
  · rw [htxt]
    exact hb.bound
  · rw [hbin, htxt]
    exact hb.text

/-- A call that refuses without touching the buffer. -/
theorem urlSpec_refused {emitted : List (Nat × Word)} {h : Header} (hp : Parsing h emitted) :
    UrlSpec emitted h (h, false) := by
  exact urlSpec_failed (recordUrl_same id (le_refl _)) hp.toBase

/-- A call that only moves between the states outside the compilers. -/
theorem urlSpec_quiet {emitted : List (Nat × Word)} {h h' : Header} (hp : Parsing h emitted)
    (hpath : h.astate = .path → h'.astate = .path)
    (hpath' : h'.astate ≠ .path → h.astate ≠ .path)
    (hdb : h.astate ≠ .queryValueDb) (hdb' : h'.astate ≠ .queryValueDb)
    (hbin : h'.binarray = h.binarray) (hid : h'.contentId = h.contentId)
    (htxt : h'.txtLen = h.txtLen) (hlen : h'.dbLen = h.dbLen) (hcmp : h'.txtcmp = h.txtcmp) :
    UrlSpec emitted h (h', true) := by
  refine urlSpec_accepted (recordUrl_same hpath (by rw [hbin])) (hp.toBase.of_eq hbin htxt)
    (by rw [hcmp]; exact hp.wf) ?_
  intro hne hmvm
  have hl := hp.live (hpath' hne) (hid.symm.trans hmvm)
  refine ⟨?_, ?_, ?_, fun h => absurd h hdb'⟩
  · rw [hbin]
    exact hl.room
  · rw [hbin, htxt]
    exact hl.le
  · intro _ h0
    rw [hbin]
    exact hl.code hdb (hlen.symm.trans h0)

theorem beginProgram_spec {emitted : List (Nat × Word)} {h : Header} (hp : Parsing h emitted)
    (hst : h.astate = .path) {h' : Header} (hst' : h'.astate = .queryName)
    (hid : h'.contentId = .mvm) (hbin : h'.binarray = h.binarray) (hcmp : h'.txtcmp = h.txtcmp) :
    UrlSpec emitted h (h'.beginProgram, true) := by
  have hne : h'.beginProgram.astate ≠ .path := fun h => nomatch hst'.symm.trans h
  have hrec : recordUrl emitted h h'.beginProgram true = [] := if_pos ⟨hst, hne, hid⟩
  have hbase : Base h'.beginProgram [] := by
    refine ⟨?_, Nat.zero_le _, Laid.nil 0⟩
    change ∀ i ∈ h'.binarray.written, i < SIZE_OF_IBUF
    rw [hbin]
    exact hp.written
  refine urlSpec_accepted hrec hbase ?_ fun _ _ => ⟨rfl, le_refl _, fun _ _ => Laid.nil 0, ?_⟩
  · change h'.txtcmp.Wf
    rw [hcmp]
    exact hp.wf
  · exact fun h => nomatch hst'.symm.trans h

/-- Another content leaves the program alone; all of its queries are refused. -/
theorem otherContent_spec {emitted : List (Nat × Word)} {h h' : Header} (hp : Parsing h emitted)
    (hid : h'.contentId ≠ .mvm) (hbin : h'.binarray = h.binarray) (htxt : h'.txtLen = h.txtLen)
    (hcmp : h'.txtcmp = h.txtcmp) : UrlSpec emitted h (h', true) := by
  refine urlSpec_accepted ?_ (hp.toBase.of_eq hbin htxt) (by rw [hcmp]; exact hp.wf)
    fun _ h => absurd h hid
  rw [recordUrl, if_neg (fun hc => hid hc.2.2),
    if_neg (fun hc => absurd hc.2.2 (by rw [hbin]; exact lt_irrefl _))]

theorem pathChar_spec {emitted : List (Nat × Word)} {h : Header} (hp : Parsing h emitted)
    (hst : h.astate = .path) (c : UInt8) : UrlSpec emitted h (h.orError (h.pathChar c)) := by
  have hdb : h.astate ≠ .queryValueDb := by
    rw [hst]
    decide
  rw [Header.pathChar]
  split_ifs with hc
  · cases h.tstr.put c with
    | none => exact urlSpec_refused hp
    | some t => exact urlSpec_quiet hp id id hdb hdb rfl rfl rfl rfl rfl
  · simp only
    split_ifs with hid
    · exact beginProgram_spec hp hst rfl hid rfl rfl
    · exact otherContent_spec hp hid rfl rfl rfl

theorem queryState_ne (s : List UInt8) :
    queryState s ≠ .path ∧ queryState s ≠ .queryValueDb := by
  rw [queryState]
  split_ifs <;> decide

theorem queryNameChar_spec {emitted : List (Nat × Word)} {h : Header} (hp : Parsing h emitted)
    (hst : h.astate = .queryName) (c : UInt8) :
    UrlSpec emitted h (h.orError (h.queryNameChar c)) := by
  have hpath : h.astate ≠ .path := by rw [hst]; decide
  have hdb : h.astate ≠ .queryValueDb := by rw [hst]; decide
  rw [Header.queryNameChar]
  split_ifs with hc
  · cases h.tstr.put c with
    | none => exact urlSpec_refused hp
    | some t => exact urlSpec_quiet hp id id hdb hdb rfl rfl rfl rfl rfl
  · exact urlSpec_quiet hp (fun h => absurd h hpath) (fun _ => hpath) hdb (queryState_ne _).2
      rfl rfl rfl rfl rfl

/-- A value outside the compilers: collected, and at its end back to the names. -/
theorem quietValue_spec {emitted : List (Nat × Word)} {h : Header} (hp : Parsing h emitted)
    (hpath : h.astate ≠ .path) (hdb : h.astate ≠ .queryValueDb) (c : UInt8) :
    UrlSpec emitted h (h.orError (h.queryValueChar c)) ∧
      UrlSpec emitted h (h.orError (h.queryValueOChar c)) ∧
      UrlSpec emitted h (h.orError (h.queryValueVChar c)) := by
  have hend : ∀ h' : Header, h'.astate = .queryName → h'.binarray = h.binarray →
      h'.contentId = h.contentId → h'.txtLen = h.txtLen → h'.dbLen = h.dbLen →
      h'.txtcmp = h.txtcmp → UrlSpec emitted h (h', true) := by
    intro h' hst'
    exact urlSpec_quiet hp (fun h => absurd h hpath) (fun _ => hpath) hdb (by rw [hst']; decide)
  have hput : UrlSpec emitted h
      (h.orError ((h.tstr.put c).map fun s => { h with tstr := s })) := by
    cases h.tstr.put c with
    | none => exact urlSpec_refused hp
    | some t => exact urlSpec_quiet hp id id hdb hdb rfl rfl rfl rfl rfl
  refine ⟨?_, ?_, ?_⟩
  · rw [Header.queryValueChar]
    split_ifs
    · exact hend _ rfl rfl rfl rfl rfl rfl
    · exact urlSpec_quiet hp id id hdb hdb rfl rfl rfl rfl rfl
  · rw [Header.queryValueOChar]
    by_cases hc : Header.valueEnd c = true
    · rw [if_pos hc]
      exact hend _ rfl rfl rfl rfl rfl rfl
    · rw [if_neg hc]
      exact hput
  · rw [Header.queryValueVChar]
    by_cases hc : Header.valueEnd c = true
    · rw [if_pos hc]
      exact hend _ rfl rfl rfl rfl rfl rfl
    · rw [if_neg hc]
      exact hput

/-- The text so far stays where it is under writes behind it. -/
theorem Base.inside {emitted emitted' : List (Nat × Word)} {h h' : Header} (hb : Base h emitted)
    (hroom : h.binarray.ptr + h.binarray.len = SIZE_OF_IBUF) (hle : h.txtLen ≤ h.binarray.ptr)
    (hin : Inside h.binarray h'.binarray) (htxt : h'.txtLen = h.txtLen)
    (hsub : emitted ⊆ emitted') : Base h' emitted' := by
  refine ⟨?_, by rw [htxt]; exact hb.bound, ?_⟩
  · intro i hi
    obtain h1 | h2 := hin.written i hi
    · exact hb.written i h1
    · omega
  · rw [htxt]
    exact hb.text.congr (fun i hi => hin.mem i (by omega)) hsub

theorem queryValueBcChar_spec {emitted : List (Nat × Word)} {h : Header} (hp : Parsing h emitted)
    (hid : h.contentId = .mvm) (hst : h.astate = .queryValueBc) (hpre : 0 ≤ h.prefixLen)
    {c : UInt8} (hok : h.CharOk c) : UrlSpec emitted h (h.queryValueBcChar c) := by
  have hpath : h.astate ≠ .path := by rw [hst]; decide
  have hdb : h.astate ≠ .queryValueDb := by rw [hst]; decide
  obtain ⟨hroom, hle, hcode, -⟩ := hp.live hpath hid
  rw [Header.queryValueBcChar]
  split_ifs with hend
  · exact urlSpec_quiet hp id id hdb hdb rfl rfl rfl rfl rfl
  have hcomp : h.Compiles .queryValueBc c := ⟨hpre, hid, hst, Bool.eq_false_of_not_eq_true hend⟩
  have hspec := compileChar_spec hp.wf c h.binarray
  rw [TxtCompiler.compileFragment2_eq]
  generalize h.txtcmp.compileChar c h.binarray = r at hspec ⊢
  obtain ⟨t, bin, ret⟩ := r
  have hrec : ∀ h' ok, (ok = true → h'.binarray.ptr ≤ h.binarray.ptr) →
      recordUrl emitted h h' ok = emitted := by
    intro h' ok hptr
    rw [recordUrl, if_neg (fun hc => hpath hc.1),
      if_neg (fun hc => absurd hc.2.2 (Nat.not_lt.mpr (hptr hc.2.1)))]
  cases ret with
  | ok n =>
    obtain ⟨hwf, hin, hem, hregs⟩ := hspec
    have hsize := hem.size
    have hptr := hem.ptr
    have hlen := hem.len
    have hsub : emitted ⊆ emitted ++ [(h.binarray.ptr, bin.mem h.binarray.ptr)] :=
      List.subset_append_left _ _
    refine urlSpec_accepted ?_ (hp.toBase.inside hroom hle hin rfl hsub) hwf
      fun _ _ => ⟨?_, ?_, ?_, fun h => absurd h hdb⟩
    · rw [recordUrl, if_neg (fun hc => hpath hc.1), if_pos ⟨hst, rfl, by simp only; omega⟩]
    · simp only
      omega
    · simp only
      omega
    · intro _ h0
      have htext := (hcode hdb h0).congr hin.mem hsub
      simp only
      rw [hptr]
      exact Laid.snoc htext
        ⟨List.mem_append_right _ (List.mem_singleton.mpr rfl), hregs (hok.1 hcomp)⟩ hsize
  | okEnd n =>
    obtain ⟨hwf, rfl, rfl, hopc, hctl⟩ := hspec
    have h0 := hok.2.1 hcomp hopc hctl
    have hfull : SIZE_OF_IBUF - h.binarray.len + 0 = h.binarray.ptr := by omega
    simp only
    rw [hfull]
    exact urlSpec_accepted (hrec _ _ fun _ => le_refl _)
      ⟨hp.written, by simp only; omega, hcode hdb h0⟩ hwf
      fun _ _ => ⟨hroom, le_refl _, fun h => absurd rfl h, fun _ => rfl⟩
  | «continue» =>
    obtain ⟨hwf, rfl⟩ := hspec
    exact urlSpec_accepted (hrec _ _ fun _ => le_refl _) (hp.toBase.of_eq rfl rfl) hwf
      fun _ _ => ⟨hroom, hle, fun _ => hcode hdb, fun h => absurd h hdb⟩
  | ng =>
    have hin : Inside h.binarray bin := hspec
    exact urlSpec_failed (hrec _ _ fun h => nomatch h)
      (hp.toBase.inside hroom hle hin rfl (List.Subset.refl _))

theorem queryValueDbChar_spec {emitted : List (Nat × Word)} {h : Header} (hp : Parsing h emitted)
    (hid : h.contentId = .mvm) (hst : h.astate = .queryValueDb) (hpre : 0 ≤ h.prefixLen)
    {c : UInt8} (hok : h.CharOk c) : UrlSpec emitted h (h.queryValueDbChar c) := by
  have hpath : h.astate ≠ .path := by rw [hst]; decide
  have hbc : h.astate ≠ .queryValueBc := by rw [hst]; decide
  obtain ⟨hroom, hle, -, hdb⟩ := hp.live hpath hid
  have hrec : ∀ h' ok, recordUrl emitted h h' ok = emitted := by
    intro h' ok
    rw [recordUrl, if_neg (fun hc => hpath hc.1), if_neg (fun hc => hbc hc.1)]
  rw [Header.queryValueDbChar]
  by_cases hend : Header.valueEnd c = true
  · rw [if_pos hend]
    by_cases hfrag : h.binparser.hasFragment = true
    · rw [if_pos hfrag]
      exact urlSpec_refused hp
    · rw [if_neg hfrag, hdb hst, Option.getD_some]
      refine urlSpec_accepted (hrec _ _) (hp.toBase.of_eq rfl rfl) hp.wf
        fun _ _ => ⟨hroom, hle, ?_, fun h => nomatch h⟩
      intro _ h0
      have heq : h.binarray.ptr = h.txtLen := Nat.le_antisymm (Nat.sub_eq_zero_iff_le.mp h0) hle
      simp only
      rw [heq]
      exact hp.text
  · rw [if_neg hend]
    have hcomp : h.Compiles .queryValueDb c := ⟨hpre, hid, hst, Bool.eq_false_of_not_eq_true hend⟩
    have hkeep : ∀ d, UrlSpec emitted h ({ h with binparser := d }, true) := by
      intro d
      exact urlSpec_accepted (hrec _ _) (hp.toBase.of_eq rfl rfl) hp.wf
        fun _ _ => ⟨hroom, hle, fun h => absurd hst h, hdb⟩
    rw [DbCompiler.compileFragment2]
    by_cases hfull : (h.binparser.tmp ++ [c]).length = 8
    · rw [if_pos hfull]
      cases htxt : txt2UInt (h.binparser.tmp ++ [c]) with
      | none =>
        exact urlSpec_failed (hrec _ _) (hp.toBase.of_eq rfl rfl)
      | some v =>
        have hpos := hok.2.2 hcomp hfull (by rw [htxt]; rfl)
        have hin := (Inside.refl h.binarray).store (le_refl _) (by omega) (Word.ofUInt32 v)
        have hseek : (h.binarray.store h.binarray.ptr (Word.ofUInt32 v)).seek 1 =
            some { h.binarray.store h.binarray.ptr (Word.ofUInt32 v) with
              ptr := h.binarray.ptr + 1, len := h.binarray.len - 1 } :=
          if_neg (Nat.not_lt.mpr hpos)
        simp only [hseek]
        refine urlSpec_accepted (hrec _ _)
          (hp.toBase.inside hroom hle ⟨hin.mem, hin.written⟩ rfl (List.Subset.refl _)) hp.wf
          fun _ _ => ⟨?_, ?_, fun h => absurd hst h, hdb⟩
        · simp only
          omega
        · simp only
          omega
    · rw [if_neg hfull]
      exact hkeep _

/-- A character of the URL keeps the work area in order. -/
theorem urlHandler_spec {emitted : List (Nat × Word)} {h : Header} (hp : Parsing h emitted)
    {c : UInt8} (hok : h.CharOk c) : UrlSpec emitted h (h.urlHandler c) := by
  rw [Header.urlHandler]
  by_cases hpre : h.prefixLen < 0
  · rw [if_pos hpre]
    refine urlSpec_accepted (recordUrl_same id (le_refl _)) (hp.toBase.of_eq rfl rfl) hp.wf ?_
    intro hne hid
    obtain ⟨h1, h2, h3, h4⟩ := hp.live hne hid
    exact ⟨h1, h2, h3, h4⟩
  rw [if_neg hpre]
  have hpre' : 0 ≤ h.prefixLen := Int16.not_lt.mp hpre
  cases hst : h.astate with
  | path => exact pathChar_spec hp hst c
  | queryName =>
    simp only
    split_ifs with hid
    · exact queryNameChar_spec hp hst c
    · exact urlSpec_refused hp
  | queryValue =>
    simp only
    split_ifs with hid
    · exact (quietValue_spec hp (by rw [hst]; decide) (by rw [hst]; decide) c).1
    · exact urlSpec_refused hp
  | queryValueO =>
    simp only
    split_ifs with hid
    · exact (quietValue_spec hp (by rw [hst]; decide) (by rw [hst]; decide) c).2.1
    · exact urlSpec_refused hp
  | queryValueV =>
    simp only
    split_ifs with hid
    · exact (quietValue_spec hp (by rw [hst]; decide) (by rw [hst]; decide) c).2.2
    · exact urlSpec_refused hp
  | queryValueBc =>
    simp only
    split_ifs with hid
    · exact queryValueBcChar_spec hp hid hst hpre' hok
    · exact urlSpec_refused hp
  | queryValueDb =>
    simp only
    split_ifs with hid
    · exact queryValueDbChar_spec hp hid hst hpre' hok
    · exact urlSpec_refused hp

end MiMic.Vm
