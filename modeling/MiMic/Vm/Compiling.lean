import MiMic.Vm.Execution

/-!
# The compiler on whole programs

The loop of a caller that feeds fragments, the machine on single characters it amounts to, what
one instruction's text does to it, and with that what the text of a program compiles to.
-/
namespace MiMic.Vm

/-- Where feeding stands: `sum` adds up the reported lengths, `ended` is `RET_OK_END`. -/
structure Fed where
  c : TxtCompiler
  bin : UInt32ArrayPtr
  sum : Nat
  ended : Bool

def Fed.add (n : Nat) (f : Fed) : Fed := { f with sum := n + f.sum }

/-- Call `compileFragment` until a fragment is used up, as the source's callers do: after `RET_OK`
with what is left behind `o_parsed_bc`. `none` is `RET_NG`, or fuel that is spent. -/
def feedFragment : Nat → TxtCompiler → List UInt8 → UInt32ArrayPtr → Option Fed
  | 0, _, _, _ => none
  | fuel + 1, c, bc, bin =>
    let r := c.compileFragment bc bin
    match r.ret with
    | .ok n => (feedFragment fuel r.c (bc.drop r.parsed) r.bin).map (.add n)
    | .okEnd n => some ⟨r.c, r.bin, n, true⟩
    | .continue => some ⟨r.c, r.bin, 0, false⟩
    | .ng => none

/-- All fragments, up to the end of the text. -/
def feed (c : TxtCompiler) : List (List UInt8) → UInt32ArrayPtr → Option Fed
  | [], bin => some ⟨c, bin, 0, false⟩
  | bc :: bcs, bin =>
    (feedFragment (bc.length + 1) c bc bin).bind fun f =>
      if f.ended then some f else (feed f.c bcs f.bin).map (.add f.sum)

/-- The same one character at a time. -/
def feedChars (c : TxtCompiler) : List UInt8 → UInt32ArrayPtr → Option Fed
  | [], bin => some ⟨c, bin, 0, false⟩
  | ch :: bc, bin =>
    match c.compileChar ch bin with
    | (c', bin', .ok n) => (feedChars c' bc bin').map (.add n)
    | (c', bin', .okEnd n) => some ⟨c', bin', n, true⟩
    | (c', bin', .continue) => feedChars c' bc bin'
    | (_, _, .ng) => none

theorem Fed.add_add (m n : Nat) (f : Fed) : Fed.add m (Fed.add n f) = Fed.add (m + n) f := by
  rw [Fed.add, Fed.add, Fed.add, Nat.add_assoc]

theorem Fed.add_zero (f : Fed) : Fed.add 0 f = f := by
  rw [Fed.add, Nat.zero_add]

/-- What one call says of the characters it was given. -/
theorem feedChars_compileFragment (c : TxtCompiler) (bc : List UInt8) (bin : UInt32ArrayPtr) :
    feedChars c bc bin =
      match (c.compileFragment bc bin).ret with
      | .ok n => (feedChars (c.compileFragment bc bin).c
          (bc.drop (c.compileFragment bc bin).parsed) (c.compileFragment bc bin).bin).map (.add n)
      | .okEnd n => some ⟨(c.compileFragment bc bin).c, (c.compileFragment bc bin).bin, n, true⟩
      | .continue => some ⟨(c.compileFragment bc bin).c, (c.compileFragment bc bin).bin, 0, false⟩
      | .ng => none := by
  induction bc generalizing c bin with
  | nil => rfl
  | cons ch bc ih =>
    rw [feedChars, TxtCompiler.compileFragment]
    obtain ⟨c', bin', ret⟩ := c.compileChar ch bin
    cases ret with
    | «continue» => exact ih c' bin'
    | ok n | okEnd n | ng => rfl

/-- A call that reports an instruction has used up at least one character. -/
theorem parsed_pos {c : TxtCompiler} {bc : List UInt8} {bin : UInt32ArrayPtr} {n : Nat}
    (h : (c.compileFragment bc bin).ret = .ok n) : 0 < (c.compileFragment bc bin).parsed := by
  cases bc with
  | nil => cases h
  | cons ch bc =>
    rw [TxtCompiler.compileFragment] at h ⊢
    revert h
    obtain ⟨c', bin', ret⟩ := c.compileChar ch bin
    cases ret with
    | «continue» => exact fun _ => Nat.succ_pos _
    | ok n | okEnd n | ng => exact fun _ => Nat.one_pos

theorem feedFragment_eq {fuel : Nat} (c : TxtCompiler) {bc : List UInt8} (bin : UInt32ArrayPtr)
    (h : bc.length < fuel) : feedFragment fuel c bc bin = feedChars c bc bin := by
  induction fuel generalizing c bc bin with
  | zero => exact absurd h (Nat.not_lt_zero _)
  | succ fuel ih =>
    rw [feedFragment, feedChars_compileFragment]
    cases hret : (c.compileFragment bc bin).ret with
    | ok n =>
      have hpos := parsed_pos hret
      by_cases hnil : bc = []
      · subst hnil
        cases hret
      · have hlen := List.length_pos_iff.mpr hnil
        simp only
        rw [ih]
        rw [List.length_drop]
        omega
    | okEnd n | ng | «continue» => rfl

theorem feedChars_append (c : TxtCompiler) (a b : List UInt8) (bin : UInt32ArrayPtr) :
    feedChars c (a ++ b) bin = (feedChars c a bin).bind fun f =>
      if f.ended then some f else (feedChars f.c b f.bin).map (.add f.sum) := by
  induction a generalizing c bin with
  | nil =>
    change feedChars c b bin = (feedChars c b bin).map (Fed.add 0)
    rw [show Fed.add 0 = id from funext Fed.add_zero, Option.map_id, id]
  | cons ch a ih =>
    rw [List.cons_append, feedChars, feedChars]
    obtain ⟨c', bin', ret⟩ := c.compileChar ch bin
    cases ret with
    | ok n =>
      simp only [ih]
      cases feedChars c' a bin' with
      | none => rfl
      | some f =>
        rw [Option.bind_some, Option.map_some, Option.bind_some]
        change _ = if f.ended then some (f.add n)
          else (feedChars f.c b f.bin).map (Fed.add (n + f.sum))
        cases hend : f.ended with
        | true => rfl
        | false =>
          simp only [Bool.false_eq_true, if_false, Option.map_map]
          congr 1
          funext g
          exact Fed.add_add n f.sum g
    | okEnd n => rfl
    | «continue» => exact ih c' bin'
    | ng => rfl

/-- However the text is cut, feeding its fragments is feeding its characters. -/
theorem feed_eq (c : TxtCompiler) (bcs : List (List UInt8)) (bin : UInt32ArrayPtr) :
    feed c bcs bin = feedChars c bcs.flatten bin := by
  induction bcs generalizing c bin with
  | nil => rfl
  | cons bc bcs ih =>
    rw [feed, List.flatten_cons, feedChars_append, feedFragment_eq c bin (Nat.lt_succ_self _)]
    simp only [ih]

/-- The words behind an instruction that was just stored. -/
def UInt32ArrayPtr.AdvancedBy (bin bin' : UInt32ArrayPtr) (n : Nat) : Prop :=
  bin'.ptr = bin.ptr + n ∧ bin'.len + n = bin.len ∧ ∀ j < bin.ptr, bin'.mem j = bin.mem j

/-- The characters of an operand are collected until the last one is there. -/
theorem feedChars_operand {c : TxtCompiler} (hst : c.st = .opr) {u : List UInt8} (hu : u ≠ [])
    (hlen : c.oprbcLen = c.tmp.length + u.length) (rest : List UInt8) (bin : UInt32ArrayPtr) :
    feedChars c (u ++ rest) bin =
      match ({ c with tmp := c.tmp ++ u } : TxtCompiler).finishOpr bin with
      | (c', bin', .ok n) => (feedChars c' rest bin').map (.add n)
      | (c', bin', .okEnd n) => some ⟨c', bin', n, true⟩
      | (c', bin', .continue) => feedChars c' rest bin'
      | (_, _, .ng) => none := by
  induction u generalizing c with
  | nil => exact absurd rfl hu
  | cons ch u ih =>
    obtain ⟨st, op, t, il, ol, tmp⟩ := c
    obtain rfl : st = .opr := hst
    obtain rfl : ol = tmp.length + (ch :: u).length := hlen
    rw [List.cons_append, feedChars, TxtCompiler.compileChar]
    by_cases hnil : u = []
    · subst hnil
      simp only [List.length_append, if_true, List.nil_append]
    · have hpos := List.length_pos_iff.mpr hnil
      have hmore : tmp.length + (ch :: u).length ≠ (tmp ++ [ch]).length := by
        rw [List.length_append, List.length_cons, List.length_singleton]
        omega
      have hlen' : tmp.length + (ch :: u).length = (tmp ++ [ch]).length + u.length := by
        rw [List.length_append, List.length_cons, List.length_singleton]
        omega
      have hrest := ih (c := ⟨.opr, op, t, il, tmp.length + (ch :: u).length, tmp ++ [ch]⟩) rfl
        hnil hlen'
      simp only [hmore, if_false]
      rw [hrest]
      simp only [List.append_assoc, List.singleton_append]

theorem txt2WMId_regText (r : Reg) (out : UInt8) :
    txt2WMId (regText r) out = (UInt8.ofNat r, true) := by
  have hall : ∀ r : Reg, txt2UInt (regText r) = some (UInt32.ofNat r) ∧
      (UInt32.ofNat r).toUInt8 = UInt8.ofNat r ∧ (UInt8.ofNat r).toNat ≤ NUMBER_OF_WM := by
    decide
  obtain ⟨htxt, hbyte, hle⟩ := hall r
  rw [txt2WMId, htxt]
  simp only [hbyte, hle, decide_true]

theorem txt2H08_h08Text (n : UInt8) (out : UInt8) : txt2H08 (h08Text n) out = (n, true) := by
  have htxt : txt2UInt (h08Text n) = some (UInt32.ofNat n.toNat) :=
    txt2UInt_text (by have := n.toNat_lt; omega)
  have hbyte : (UInt32.ofNat n.toNat).toUInt8 = n := by
    apply UInt8.toNat_inj.mp
    have := n.toNat_lt
    rw [UInt32.toNat_toUInt8, UInt32.toNat_ofNat']
    omega
  rw [txt2H08, htxt]
  simp only [hbyte]

theorem txt2H32_h32Text (v : UInt32) (out : Word) :
    txt2H32 (h32Text v) out = (Word.ofUInt32 v, true) := by
  have htxt : txt2UInt (h32Text v) = some (UInt32.ofNat v.toNat) :=
    txt2UInt_text (by have := v.toNat_lt; omega)
  rw [txt2H32, htxt, UInt32.ofNat_toNat]

/-- The operand's text puts the operands into the words. -/
theorem convertOperand_text (o : Operands) (ho : o ≠ .none) (w w' : Word) :
    ∃ ws, convertOperand o.type o.text w w' = (ws, true) ∧ ws.1.opc = w.opc ∧
      ws.1.oprtype = w.oprtype ∧ readOperands ws.1 ws.2 o.type = some o := by
  have hreg : ∀ r : Reg, regOf (UInt8.ofNat r) = some r := by decide
  have hlen : ∀ r : Reg, (regText r).length = 2 := fun r => Verif.Hex.length_text _ _
  have hlen8 : ∀ n, (h08Text n).length = 2 := fun n => Verif.Hex.length_text _ _
  have hlen32 : ∀ v, (h32Text v).length = 8 := fun v => Verif.Hex.length_text _ _
  cases o with
  | none => exact absurd rfl ho
  | wmWm a b =>
    refine ⟨({ w with b2 := UInt8.ofNat a, b3 := UInt8.ofNat b }, w'), ?_, rfl, rfl, ?_⟩
    · change convertOperand .wmWm (regText a ++ regText b) w w' = _
      rw [convertOperand, List.take_left' (hlen a), List.drop_left' (hlen a),
        List.take_of_length_le (hlen b).le]
      simp only [txt2WMId_regText, if_true]
    · change (regOf (UInt8.ofNat a)).bind (fun a => (regOf (UInt8.ofNat b)).map _) = _
      rw [hreg, hreg]
      rfl
  | wmH08 a n =>
    refine ⟨({ w with b2 := UInt8.ofNat a, b3 := n }, w'), ?_, rfl, rfl, ?_⟩
    · change convertOperand .wmH08 (regText a ++ h08Text n) w w' = _
      rw [convertOperand, List.take_left' (hlen a), List.drop_left' (hlen a),
        List.take_of_length_le (hlen8 n).le]
      simp only [txt2WMId_regText, txt2H08_h08Text, if_true]
    · change (regOf (UInt8.ofNat a)).map _ = _
      rw [hreg]
      rfl
  | wmH32 a v =>
    refine ⟨({ w with b2 := UInt8.ofNat a }, Word.ofUInt32 v), ?_, rfl, rfl, ?_⟩
    · change convertOperand .wmH32 (regText a ++ h32Text v) w w' = _
      rw [convertOperand, List.take_left' (hlen a), List.drop_left' (hlen a),
        List.take_of_length_le (hlen32 v).le]
      simp only [txt2WMId_regText, txt2H32_h32Text, if_true]
    · change (regOf (UInt8.ofNat a)).map _ = _
      rw [hreg, Option.map_some, Word.toUInt32_ofUInt32]
  | wm a =>
    refine ⟨({ w with b2 := UInt8.ofNat a }, w'), ?_, rfl, rfl, ?_⟩
    · change convertOperand .wm (regText a) w w' = _
      rw [convertOperand, List.take_of_length_le (hlen a).le]
      simp only [txt2WMId_regText]
    · change (regOf (UInt8.ofNat a)).map _ = _
      rw [hreg]
      rfl
  | h08 n =>
    refine ⟨({ w with b2 := n }, w'), ?_, rfl, rfl, rfl⟩
    change convertOperand .h08 (h08Text n) w w' = _
    rw [convertOperand, List.take_of_length_le (hlen8 n).le]
    simp only [txt2H08_h08Text]
  | h32 v =>
    refine ⟨(w, Word.ofUInt32 v), ?_, rfl, rfl, ?_⟩
    · change convertOperand .h32 (h32Text v) w w' = _
      rw [convertOperand, List.take_of_length_le (hlen32 v).le]
      simp only [txt2H32_h32Text]
    · change some (Operands.h32 (Word.ofUInt32 v).toUInt32) = _
      rw [Word.toUInt32_ofUInt32]

/-- Every instruction has its two letters in the table. -/
theorem letters_spec (i : Instr) : ∃ m m', letters i.parts.1 i.parts.2.type = [m, m'] ∧
    bc2opc [m, m'] = some (i.parts.1, i.parts.2.type) := by
  have hall : ∀ e ∈ bcTypeTbl, letters e.2.1 e.2.2 = [e.1.1.toUInt8, e.1.2.toUInt8] ∧
      bc2opc [e.1.1.toUInt8, e.1.2.toUInt8] = some e.2 := by decide
  have hmem : (i.parts.1, i.parts.2.type) ∈ bcTypeTbl.map (·.2) := by
    apply List.contains_iff_mem.mp
    cases i with
    | alu f d x => cases f <;> cases x <;> rfl
    | ld d x | mget d x | mput d x | sput x | call x => cases x <;> rfl
    | shl d n | shr d n => cases n <;> rfl
    | not d | sget d | nop | sleep n | exit => rfl
  obtain ⟨e, he, heq⟩ := List.mem_map.mp hmem
  obtain ⟨hlet, hop⟩ := hall e he
  rw [heq] at hlet hop
  exact ⟨_, _, hlet, hop⟩

theorem length_operands (o : Operands) : o.text.length = (getOpInfo o.type).1 := by
  cases o <;>
    simp [Operands.text, Operands.type, getOpInfo, regText, h08Text, h32Text]

/-- A compiler between two instructions. -/
def TxtCompiler.Fresh (c : TxtCompiler) : Prop := c.st = .opc ∧ c.tmp = []

theorem decodeWord_intro {w next : Word} {i : Instr} (hopc : w.opc = i.parts.1.code)
    (ht : w.oprtype = i.parts.2.type.code)
    (ho : readOperands w next i.parts.2.type = some i.parts.2) : decodeWord w next = some i := by
  rw [decodeWord, hopc, OpType.ofCode_code, Option.bind_some, ht, OprType.ofCode_code,
    Option.bind_some, ho, Option.bind_some, Instr.ofParts_parts]

/-- Two characters between instructions are looked up. -/
theorem feedChars_letters {c : TxtCompiler} (hc : c.Fresh) (m m' : UInt8) (rest : List UInt8)
    (bin : UInt32ArrayPtr) :
    feedChars c (m :: m' :: rest) bin =
      match ({ c with tmp := [m, m'] } : TxtCompiler).finishOpc bin with
      | (c', bin', .ok n) => (feedChars c' rest bin').map (.add n)
      | (c', bin', .okEnd n) => some ⟨c', bin', n, true⟩
      | (c', bin', .continue) => feedChars c' rest bin'
      | (_, _, .ng) => none := by
  obtain ⟨st, op, t, il, ol, tmp⟩ := c
  obtain ⟨rfl, rfl⟩ : st = .opc ∧ tmp = [] := hc
  rfl

theorem mem_store_store (bin : UInt32ArrayPtr) (i : Nat) (w w' : Word) :
    ((bin.store i w).store (i + 1) w').mem i = w ∧
      ((bin.store i w).store (i + 1) w').mem (i + 1) = w' ∧
      ∀ j < i, ((bin.store i w).store (i + 1) w').mem j = bin.mem j := by
  refine ⟨?_, Function.update_self _ _ _, ?_⟩
  · exact (Function.update_of_ne (by omega) _ _).trans (Function.update_self _ _ _)
  · intro j hj
    exact (Function.update_of_ne (by omega) _ _).trans (Function.update_of_ne (by omega) _ _)

/-- Where the words of an instruction end up. -/
theorem storeInstruction_spec (bin : UInt32ArrayPtr) (ptr n : Nat) (ws : Word × Word) :
    (TxtCompiler.storeInstruction bin ptr n ws).ptr = bin.ptr ∧
      (TxtCompiler.storeInstruction bin ptr n ws).len = bin.len ∧
      (TxtCompiler.storeInstruction bin ptr n ws).mem ptr = ws.1 ∧
      (n = 2 → (TxtCompiler.storeInstruction bin ptr n ws).mem (ptr + 1) = ws.2) ∧
      ∀ j < ptr, (TxtCompiler.storeInstruction bin ptr n ws).mem j = bin.mem j := by
  rw [TxtCompiler.storeInstruction]
  split_ifs with h
  · obtain ⟨h1, h2, h3⟩ := mem_store_store bin ptr ws.1 ws.2
    exact ⟨rfl, rfl, h1, fun _ => h2, h3⟩
  · refine ⟨rfl, rfl, Function.update_self _ _ _, fun hn => absurd hn h, ?_⟩
    intro j hj
    exact Function.update_of_ne (by omega) _ _

/-- Room for an instruction moves the pointer over it. -/
def UInt32ArrayPtr.over (bin : UInt32ArrayPtr) (n : Nat) : UInt32ArrayPtr :=
  { bin with ptr := bin.ptr + n, len := bin.len - n }

theorem seek_of_le {bin : UInt32ArrayPtr} {n : Nat} (h : n ≤ bin.len) :
    bin.seek n = some (bin.over n) := by
  rw [UInt32ArrayPtr.seek, if_neg (by omega), UInt32ArrayPtr.over]

theorem finishOpc_single {c : TxtCompiler} {op : OpType} (hop : bc2opc c.tmp = some (op, .none))
    {bin : UInt32ArrayPtr} (hroom : 1 ≤ bin.len) :
    ∃ c', c.finishOpc bin = (c', (bin.over 1).store bin.ptr
        { bin.mem bin.ptr with opc := op.code, oprtype := OprType.none.code }, .ok 1) ∧
      c'.st = c.st ∧ c'.tmp = [] := by
  rw [TxtCompiler.finishOpc, hop, seek_of_le hroom]
  exact ⟨_, rfl, rfl, rfl⟩

theorem finishOpc_operand {c : TxtCompiler} {op : OpType} {t : OprType}
    (hop : bc2opc c.tmp = some (op, t)) (ht : 0 < (getOpInfo t).1) (bin : UInt32ArrayPtr) :
    c.finishOpc bin = (⟨.opr, op, t, (getOpInfo t).2, (getOpInfo t).1, []⟩, bin, .continue) := by
  rw [TxtCompiler.finishOpc, hop]
  exact if_neg (Nat.not_le.mpr ht)

theorem finishOpr_ok {c : TxtCompiler} {bin : UInt32ArrayPtr} (hroom : c.instLen ≤ bin.len)
    {ws : Word × Word}
    (hconv : convertOperand c.currentOprtype c.tmp
      { bin.mem bin.ptr with opc := c.currentOpc.code, oprtype := c.currentOprtype.code }
      (bin.mem (bin.ptr + 1)) = (ws, true)) :
    c.finishOpr bin = ({ c with tmp := [], st := .opc },
      TxtCompiler.storeInstruction (bin.over c.instLen) bin.ptr c.instLen ws, .ok c.instLen) := by
  rw [TxtCompiler.finishOpr, seek_of_le hroom]
  simp only [hconv, if_true]

/-- The text of an instruction compiles to words that stand for it. -/
theorem feedChars_instruction {c : TxtCompiler} (hc : c.Fresh) (i : Instr)
    {bin : UInt32ArrayPtr} (hroom : i.size ≤ bin.len) (rest : List UInt8) :
    ∃ c' bin', feedChars c (i.text ++ rest) bin = (feedChars c' rest bin').map (.add i.size) ∧
      c'.Fresh ∧ bin.AdvancedBy bin' i.size ∧
      decodeWord (bin'.mem bin.ptr) (bin'.mem (bin.ptr + 1)) = some i := by
  obtain ⟨m, m', hlet, hop⟩ := letters_spec i
  have hsize : i.size = (getOpInfo i.parts.2.type).2 := words_eq _
  have hlen := length_operands i.parts.2
  rw [Instr.text, hlet, List.append_assoc, List.cons_append, List.cons_append, List.nil_append,
    feedChars_letters hc]
  by_cases hnone : i.parts.2 = .none
  · -- without an operand the word is stored at once
    have htype : i.parts.2.type = .none := by rw [hnone]; rfl
    have htext : i.parts.2.text = [] := by rw [hnone]; rfl
    have hone : i.size = 1 := by rw [hsize, htype]; rfl
    rw [htype] at hop
    obtain ⟨c', hfin, hst, htmp⟩ := finishOpc_single (c := { c with tmp := [m, m'] }) hop
      (show 1 ≤ bin.len by omega)
    rw [hfin, htext, hone]
    refine ⟨c', _, rfl, ⟨hst.trans hc.1, htmp⟩, ⟨rfl, ?_, ?_⟩, ?_⟩
    · exact Nat.sub_add_cancel (by omega)
    · intro j hj
      exact Function.update_of_ne (by omega) _ _
    · have hw : ((bin.over 1).store bin.ptr
          { bin.mem bin.ptr with opc := i.parts.1.code, oprtype := OprType.none.code }).mem
          bin.ptr =
          { bin.mem bin.ptr with opc := i.parts.1.code, oprtype := OprType.none.code } :=
        Function.update_self _ _ _
      rw [hw]
      apply decodeWord_intro rfl
      · rw [htype]
      · rw [htype, hnone]
        rfl
  · -- the operand is collected behind the letters
    have hpos : 0 < (getOpInfo i.parts.2.type).1 := by
      revert hnone
      generalize i.parts.2 = o
      intro hnone
      cases o with
      | none => exact absurd rfl hnone
      | wmWm | wmH08 | wmH32 | wm | h08 | h32 => exact Nat.succ_pos _
    rw [finishOpc_operand (c := { c with tmp := [m, m'] }) hop hpos]
    obtain ⟨ws, hconv, hopc, hoprtype, hread⟩ := convertOperand_text i.parts.2 hnone
      { bin.mem bin.ptr with opc := i.parts.1.code, oprtype := i.parts.2.type.code }
      (bin.mem (bin.ptr + 1))
    have hfin := finishOpr_ok
      (c := ⟨.opr, i.parts.1, i.parts.2.type, (getOpInfo i.parts.2.type).2,
        (getOpInfo i.parts.2.type).1, i.parts.2.text⟩)
      (show (getOpInfo i.parts.2.type).2 ≤ bin.len by omega) hconv
    rw [← hsize] at hfin
    obtain ⟨hptr, hlen', hw, hw', hframe⟩ :=
      storeInstruction_spec (bin.over i.size) bin.ptr i.size ws
    have hne : i.parts.2.text ≠ [] := by
      apply List.ne_nil_of_length_pos
      omega
    simp only
    rw [feedChars_operand rfl hne (by rw [hlen]; exact (Nat.zero_add _).symm), ← hsize]
    simp only [List.nil_append, hfin]
    refine ⟨_, _, rfl, ⟨rfl, rfl⟩, ⟨hptr, ?_, hframe⟩, ?_⟩
    · rw [hlen']
      exact Nat.sub_add_cancel hroom
    · rw [hw]
      apply decodeWord_intro hopc hoprtype
      by_cases h2 : i.size = 2
      · rw [hw' h2]
        exact hread
      · rw [readOperands_next _ (words_eq_one h2)]
        exact hread

theorem UInt32ArrayPtr.AdvancedBy.trans {a b c : UInt32ArrayPtr} {m n : Nat}
    (h : a.AdvancedBy b m) (h' : b.AdvancedBy c n) : a.AdvancedBy c (m + n) := by
  obtain ⟨hp, hl, hm⟩ := h
  obtain ⟨hp', hl', hm'⟩ := h'
  refine ⟨by omega, by omega, ?_⟩
  intro j hj
  rw [hm' j (by omega), hm j hj]

/-- The text of a program is taken to its end, and its words decode to the program. -/
theorem feedChars_program (prog : List Instr) {c : TxtCompiler} (hc : c.Fresh)
    {bin : UInt32ArrayPtr} (hroom : programSize prog ≤ bin.len) :
    ∃ c' bin', feedChars c (programText prog) bin = some ⟨c', bin', programSize prog, true⟩ ∧
      bin.AdvancedBy bin' (programSize prog) ∧
      ∀ fuel, prog.length < fuel → decodeFrom bin'.mem bin'.ptr fuel bin.ptr = some prog := by
  induction prog generalizing c bin with
  | nil =>
    obtain ⟨st, op, t, il, ol, tmp⟩ := c
    obtain ⟨rfl, rfl⟩ : st = .opc ∧ tmp = [] := hc
    refine ⟨⟨.opc, op, t, il, ol, []⟩, bin, rfl, ⟨rfl, rfl, fun _ _ => rfl⟩, ?_⟩
    intro fuel hfuel
    obtain ⟨fuel, rfl⟩ := Nat.exists_eq_succ_of_ne_zero (Nat.ne_of_gt hfuel)
    exact if_pos rfl
  | cons i prog ih =>
    rw [programSize_cons] at hroom ⊢
    have htext : programText (i :: prog) = i.text ++ programText prog := by
      rw [programText, List.flatMap_cons, List.append_assoc, programText]
    obtain ⟨c₁, bin₁, hfeed, hfresh, hadv, hdec⟩ :=
      feedChars_instruction hc i (show i.size ≤ bin.len by omega) (programText prog)
    obtain ⟨hptr, hlen, -⟩ := id hadv
    obtain ⟨c₂, bin₂, hfeed₂, hadv₂, hdec₂⟩ := ih hfresh
      (show programSize prog ≤ bin₁.len by omega)
    obtain ⟨hptr₂, -, hmem₂⟩ := id hadv₂
    refine ⟨c₂, bin₂, ?_, hadv.trans hadv₂, ?_⟩
    · rw [htext, hfeed, hfeed₂]
      rfl
    · intro fuel hfuel
      obtain ⟨fuel, rfl⟩ := Nat.exists_eq_succ_of_ne_zero (Nat.ne_of_gt (Nat.zero_lt_of_lt hfuel))
      have hpos := i.size_pos
      rw [decodeFrom, if_neg (by omega), hmem₂ _ (by omega)]
      have hnext : bin₁.mem (bin.ptr + 1) = bin₂.mem (bin.ptr + 1) ∨ i.size ≠ 2 := by
        by_cases h2 : i.size = 2
        · exact .inl (hmem₂ _ (by omega)).symm
        · exact .inr h2
      rw [decodeWord_next _ hdec hnext, Option.bind_some, ← hptr,
        hdec₂ fuel (by rw [List.length_cons] at hfuel; omega), Option.map_some]

theorem decodeFrom_shift (mem : Nat → Word) (base size n : Nat) :
    ∀ pc, decodeFrom (fun j => mem (base + j)) size n pc =
      decodeFrom mem (base + size) n (base + pc) := by
  induction n with
  | zero =>
    intro pc
    rfl
  | succ n ih =>
    intro pc
    simp only [decodeFrom, ih, Nat.add_assoc, Nat.add_right_inj]

theorem length_le_programSize (prog : List Instr) : prog.length ≤ programSize prog := by
  induction prog with
  | nil => exact Nat.zero_le _
  | cons i prog ih =>
    have := i.size_pos
    rw [programSize_cons, List.length_cons]
    omega

/-- A program in its text form, cut anyhow, is taken to its end. The words are those of the uncut
text, they decode to the program, the reported lengths are their number, and the machine on them
is the reference interpreter on the program, as long as the program spares its own words and the
registers. -/
theorem compile_runs (prog : List Instr) (c : TxtCompiler) {frags : List (List UInt8)}
    (hcut : frags.flatten = programText prog) {bin : UInt32ArrayPtr}
    (hroom : programSize prog ≤ bin.len) (hlen : bin.len < 65536) :
    ∃ f : Fed, feed c.init frags bin = some f ∧ f.ended = true ∧
      feed c.init [programText prog] bin = some f ∧
      f.bin.ptr = bin.ptr + f.sum ∧ f.sum = programSize prog ∧
      decodeText (fun j => f.bin.mem (bin.ptr + j)) f.sum = some prog ∧
      ∀ (H : Type) (ev : TEvent H) (code : H → Nat → Word) (vm : TcMiMicVM H) (fuel : Nat),
        prog.length ≤ fuel → (∀ j < f.sum, code vm.host j = f.bin.mem (bin.ptr + j)) →
        SparesCode ev code f.sum prog vm.state →
        ∃ vm', run ev code f.sum fuel vm =
            some (vm', (interpret ev prog vm.state).2.1, stopPc ev prog vm.state) ∧
          vm'.state = (interpret ev prog vm.state).1 := by
  obtain ⟨c', bin', hfeed, ⟨hptr, -, -⟩, hdec⟩ :=
    feedChars_program prog (c := c.init) ⟨rfl, rfl⟩ hroom
  have htext : decodeText (fun j => bin'.mem (bin.ptr + j)) (programSize prog) = some prog := by
    have := length_le_programSize prog
    rw [decodeText, decodeFrom_shift, ← hptr]
    exact hdec _ (by omega)
  refine ⟨⟨c', bin', programSize prog, true⟩, ?_, rfl, ?_, hptr, rfl, htext, ?_⟩
  · rw [feed_eq, hcut, hfeed]
  · rw [feed_eq, List.flatten_singleton, hfeed]
  · intro H ev code vm fuel hfuel hcode hspares
    exact run_eq ev (by omega) htext hfuel vm hcode hspares

def r0 : Reg := ⟨0, by decide⟩

def r1 : Reg := ⟨1, by decide⟩

/-- Load 5, double it, put it into memory, get it back and put it out. -/
def doubling : List Instr :=
  [.ld r0 (.h32 5), .alu .add r0 (.wm r0), .mput r0 (.h32 0x1000), .mget r1 (.h32 0x1000),
    .sput (.wm r1), .exit]

/-- A compiler before its first `init`. -/
def zeroedCompiler : TxtCompiler := ⟨.ng, .nop, .none, 0, 0, []⟩

/-- A host that is a memory of words, with the code at its beginning. -/
abbrev Ram := UInt32 → Word

def ramCode (h : Ram) (j : Nat) : Word := h (UInt32.ofNat (4 * j))

def ramEvents : TEvent Ram where
  putStream h _ := (h, true)
  getStream h := (h, none)
  sleep h _ := h
  nativeCall h _ regs := (h, regs, RESULT_RUNTIME_NG_CALL)
  load h _ a := (h a).toUInt32
  store h regs a v := (Function.update h a (Word.ofUInt32 v), regs)

def ramOf (f : Fed) : Ram := fun a => f.bin.mem (a.toNat / 4)

/-- The array of 256 words that the compiler fills. -/
def emptyArray : UInt32ArrayPtr := ⟨fun _ => Word.zero, 0, 256, []⟩

theorem ramCode_ramOf (f : Fed) {j : Nat} (h : j < 65536) :
    ramCode (ramOf f) j = f.bin.mem (0 + j) := by
  have ha : (UInt32.ofNat (4 * j)).toNat / 4 = 0 + j := by
    rw [UInt32.toNat_ofNat']
    omega
  rw [ramCode, ramOf, ha]

theorem compile_runs_doubling : ∃ (f : Fed) (vm : TcMiMicVM Ram),
    feed zeroedCompiler.init [(programText doubling).take 5, (programText doubling).drop 5]
      emptyArray = some f ∧ f.sum = 9 ∧
    run ramEvents ramCode f.sum 6 ⟨fun _ => 0, ramOf f⟩ = some (vm, RESULT_OK, 8) ∧
    vm.wm 1 = 10 := by
  have hcut : [(programText doubling).take 5, (programText doubling).drop 5].flatten =
      programText doubling := by decide
  have hroom : programSize doubling ≤ emptyArray.len := by
    change programSize doubling ≤ 256
    decide
  obtain ⟨f, hf, -, -, -, hsum, -, hrun⟩ :=
    compile_runs doubling zeroedCompiler hcut hroom (show 256 < 65536 by decide)
  have hnine : f.sum = 9 := hsum.trans (by decide)
  have hspares : SparesCode ramEvents ramCode f.sum doubling
      (TcMiMicVM.state ⟨fun _ => 0, ramOf f⟩) := by
    have hstore : ∀ (h : Ram) (w : Word), ∀ j < f.sum,
        ramCode (Function.update h 0x1000 w) j = ramCode h j := by
      intro h w j hj
      refine Function.update_of_ne (fun he => ?_) _ _
      have hnat := congrArg UInt32.toNat he
      rw [UInt32.toNat_ofNat'] at hnat
      change 4 * j % 4294967296 = 4096 at hnat
      omega
    exact .intro trivial (.intro (fun _ _ => rfl) (.intro trivial (.intro (fun _ _ => rfl)
      (.intro rfl (.intro (hstore _ _) (.intro trivial (.intro (fun _ _ => rfl)
        (.intro trivial (.intro (fun _ _ => rfl) (.intro trivial trivial))))))))))
  obtain ⟨vm, hvm, hst⟩ := hrun Ram ramEvents ramCode ⟨fun _ => 0, ramOf f⟩ 6 (by decide)
    (fun j hj => ramCode_ramOf f (by omega)) hspares
  refine ⟨f, vm, hf, hnine, hvm, ?_⟩
  have hloaded : (interpret ramEvents doubling (TcMiMicVM.state ⟨fun _ => 0, ramOf f⟩)).1.wm r1 =
      (Word.ofUInt32 10).toUInt32 := rfl
  exact (congrFun (congrArg State.wm hst) r1).trans (hloaded.trans (Word.toUInt32_ofUInt32 10))

/-- Put a word that is no instruction over the `NOP` that comes next. -/
def overwriting : List Instr := [.ld r0 (.h32 0xffffffff), .mput r0 (.h32 16), .nop]

/-- A program that stores into its own words is not run as the interpreter runs it. -/
theorem code_overwritten : ¬ ∀ (prog : List Instr) (c : TxtCompiler) (frags : List (List UInt8)),
    frags.flatten = programText prog → ∀ bin : UInt32ArrayPtr, programSize prog ≤ bin.len →
      bin.len < 65536 → ∃ f : Fed, feed c.init frags bin = some f ∧
        ∀ (H : Type) (ev : TEvent H) (code : H → Nat → Word) (vm : TcMiMicVM H) (fuel : Nat),
          prog.length ≤ fuel → (∀ j < f.sum, code vm.host j = f.bin.mem (bin.ptr + j)) →
          ∃ vm', run ev code f.sum fuel vm =
              some (vm', (interpret ev prog vm.state).2.1, stopPc ev prog vm.state) ∧
            vm'.state = (interpret ev prog vm.state).1 := by
  intro h
  have hfed : (feed zeroedCompiler.init [programText overwriting] emptyArray).any (fun f =>
      f.sum == 5 && (run ramEvents ramCode f.sum 3 ⟨fun _ => 0, ramOf f⟩).any
        fun r => r.2.1 == RESULT_RUNTIME_NG) = true := by decide +kernel
  obtain ⟨f, hf, hrun⟩ := h overwriting zeroedCompiler [programText overwriting] (by decide)
    emptyArray (by decide : programSize overwriting ≤ 256) (by decide : 256 < 65536)
  rw [hf, Option.any_some, Bool.and_eq_true, beq_iff_eq] at hfed
  obtain ⟨vm', hvm, -⟩ := hrun Ram ramEvents ramCode ⟨fun _ => 0, ramOf f⟩ 3 (by decide)
    fun j hj => ramCode_ramOf f (by omega)
  rw [hvm, Option.any_some, beq_iff_eq] at hfed
  exact absurd hfed.2 (by decide : RESULT_OK ≠ RESULT_RUNTIME_NG)

end MiMic.Vm
