import MiMic.Vm.Program

/-!
# The machine runs what the words stand for

One instruction of the machine does what the reference interpreter does, as long as the word is
one that decodes; the loop over a text that decodes is the interpreter's run.
-/
namespace MiMic.Vm

variable {H : Type}

/-- The registers and the host of the machine. -/
def TcMiMicVM.state (vm : TcMiMicVM H) : State H := ⟨vm.regs, vm.host⟩

theorem TcMiMicVM.state_setWm (vm : TcMiMicVM H) (d : Reg) (v : UInt32) :
    (vm.setWm d v).state = vm.state.set d v := by
  rw [TcMiMicVM.state, TcMiMicVM.state, State.set]
  congr 1
  funext r
  change Function.update vm.wm d v r = Function.update vm.regs d v r
  rw [Function.update_apply, Function.update_apply]
  simp only [Fin.val_inj]
  rfl

theorem TcMiMicVM.state_setRegs (vm : TcMiMicVM H) (f : Reg → UInt32) (h : H) :
    TcMiMicVM.state { vm.setRegs f with host := h } = ⟨f, h⟩ := by
  rw [TcMiMicVM.state]
  congr 1
  funext r
  exact dif_pos r.isLt

theorem regOf_eq_some {b : UInt8} {r : Reg} (h : regOf b = some r) : b.toNat = r := by
  rw [regOf] at h
  split_ifs at h with hb
  exact congrArg Fin.val (Option.some.inj h)

/-- One outcome of the machine is one result of the reference. -/
def Agrees (n : Nat) (out : Outcome H) : StepResult H → Prop
  | .next s => ∃ vm, out = .done vm ∧ vm.state = s ∧ 0 < n
  | .stop s code => ∃ vm, vm.state = s ∧
      (out = .exit vm ∧ code = RESULT_OK ∨ out = .error vm ∧ code = RESULT_RUNTIME_NG ∨
        out = .inherit vm code)

section

variable (ev : TEvent H) {w next : Word} (vm : TcMiMicVM H)

/-- The registers that the operand names are the reference's. -/
theorem readSrc {d : Reg} {x : Src}
    (h : readOperands w next (Operands.ofSrc d x).type = some (.ofSrc d x)) :
    w.b2.toNat = d ∧
      ((Operands.ofSrc d x).type = .wmWm ∧ x.val vm.state = vm.wm w.b3.toNat ∨
        (Operands.ofSrc d x).type = .wmH32 ∧ x.val vm.state = next.toUInt32) := by
  cases x with
  | wm r =>
    obtain ⟨a, ha, hmap⟩ := Option.bind_eq_some_iff.mp h
    obtain ⟨b, hb, he⟩ := Option.map_eq_some_iff.mp hmap
    obtain ⟨rfl, rfl⟩ : a = d ∧ b = r := by cases he; exact ⟨rfl, rfl⟩
    refine ⟨regOf_eq_some ha, .inl ⟨rfl, ?_⟩⟩
    rw [regOf_eq_some hb]
    rfl
  | h32 v =>
    obtain ⟨a, ha, he⟩ := Option.map_eq_some_iff.mp h
    cases he
    exact ⟨regOf_eq_some ha, .inr ⟨rfl, rfl⟩⟩

theorem readAmount {d : Reg} {n : Amount}
    (h : readOperands w next (Operands.ofAmount d n).type = some (.ofAmount d n)) :
    w.b2.toNat = d ∧
      ((Operands.ofAmount d n).type = .wmWm ∧ n.val vm.state = vm.wm w.b3.toNat ∨
        (Operands.ofAmount d n).type = .wmH08 ∧ n.val vm.state = w.b3.toUInt32) := by
  cases n with
  | wm r =>
    obtain ⟨a, ha, hmap⟩ := Option.bind_eq_some_iff.mp h
    obtain ⟨b, hb, he⟩ := Option.map_eq_some_iff.mp hmap
    obtain ⟨rfl, rfl⟩ : a = d ∧ b = r := by cases he; exact ⟨rfl, rfl⟩
    refine ⟨regOf_eq_some ha, .inl ⟨rfl, ?_⟩⟩
    rw [regOf_eq_some hb]
    rfl
  | h08 v =>
    obtain ⟨a, ha, he⟩ := Option.map_eq_some_iff.mp h
    cases he
    exact ⟨regOf_eq_some ha, .inr ⟨rfl, rfl⟩⟩

theorem readSingle {x : Src}
    (h : readOperands w next (Operands.ofSingle x).type = some (.ofSingle x)) :
    (Operands.ofSingle x).type = .wm ∧ x.val vm.state = vm.wm w.b2.toNat ∨
      (Operands.ofSingle x).type = .h32 ∧ x.val vm.state = next.toUInt32 := by
  cases x with
  | wm r =>
    obtain ⟨a, ha, he⟩ := Option.map_eq_some_iff.mp h
    obtain rfl : a = r := by cases he; rfl
    refine .inl ⟨rfl, ?_⟩
    rw [regOf_eq_some ha]
    rfl
  | h32 v =>
    cases Option.some.inj h
    exact .inr ⟨rfl, rfl⟩

theorem readWm {d : Reg} (h : readOperands w next .wm = some (.wm d)) : w.b2.toNat = d := by
  obtain ⟨a, ha, he⟩ := Option.map_eq_some_iff.mp h
  cases he
  exact regOf_eq_some ha

/-- The registers of the machine are those of its state. -/
theorem wm_eq (d : Reg) : vm.wm d = vm.state.wm d := rfl

theorem agrees_set {n : Nat} {d : Reg} {k : Nat} (hk : k = d) (hn : 0 < n) (v : UInt32) :
    Agrees n (.done (vm.setWm k v)) (.next (vm.state.set d v)) := by
  subst hk
  exact ⟨_, rfl, vm.state_setWm d v, hn⟩

theorem binary_agrees (f : UInt32 → UInt32 → UInt32) {d : Reg} {x : Src}
    (h : readOperands w next (Operands.ofSrc d x).type = some (.ofSrc d x)) :
    Agrees (words (Operands.ofSrc d x).type)
      (binary f (some (Operands.ofSrc d x).type) w next.toUInt32 vm)
      (.next (vm.state.set d (f (vm.state.wm d) (x.val vm.state)))) := by
  obtain ⟨hd, ⟨ht, hx⟩ | ⟨ht, hx⟩⟩ := readSrc vm h
  · rw [ht, hx, ← wm_eq, ← hd]
    exact agrees_set vm hd (by decide) _
  · rw [ht, hx, ← wm_eq, ← hd]
    exact agrees_set vm hd (by decide) _

theorem shift_agrees (f : UInt32 → UInt32 → UInt32) {d : Reg} {n : Amount}
    (h : readOperands w next (Operands.ofAmount d n).type = some (.ofAmount d n)) :
    Agrees (words (Operands.ofAmount d n).type)
      (shift f (some (Operands.ofAmount d n).type) w vm)
      (.next (vm.state.set d (f (vm.state.wm d) (n.val vm.state)))) := by
  obtain ⟨hd, ⟨ht, hx⟩ | ⟨ht, hx⟩⟩ := readAmount vm h
  · rw [ht, hx, ← wm_eq, ← hd]
    exact agrees_set vm hd (by decide) _
  · rw [ht, hx, ← wm_eq, ← hd]
    exact agrees_set vm hd (by decide) _

theorem putStream_agrees {n : Nat} (hn : 0 < n) (v : UInt32) :
    Agrees n (putStream ev v vm)
      (match ev.putStream vm.host v with
        | (g, true) => .next { vm.state with host := g }
        | (g, false) => .stop { vm.state with host := g } RESULT_RUNTIME_NG) := by
  rw [putStream]
  cases hput : ev.putStream vm.host v with
  | mk g b =>
    cases b with
    | true => exact ⟨_, rfl, rfl, hn⟩
    | false => exact ⟨_, rfl, .inr (.inl ⟨rfl, rfl⟩)⟩

theorem callNative_agrees {n : Nat} (hn : 0 < n) (v : UInt32) :
    Agrees n (callNative ev v vm)
      (match ev.nativeCall vm.host v vm.regs with
        | (g, wm, code) => if resultIsOK code then .next ⟨wm, g⟩ else .stop ⟨wm, g⟩ code) := by
  rw [callNative]
  cases hcall : ev.nativeCall vm.host v vm.regs with
  | mk g r =>
    cases hok : resultIsOK r.2 with
    | true =>
      simp only [hok, if_true]
      exact ⟨_, rfl, vm.state_setRegs r.1 g, hn⟩
    | false =>
      simp only [hok, Bool.false_eq_true, if_false]
      exact ⟨_, vm.state_setRegs r.1 g, .inr (.inr rfl)⟩

theorem putMemory_agrees {n : Nat} (hn : 0 < n) (addr v : UInt32)
    (h : (ev.store vm.state.host vm.state.wm addr v).2 = vm.state.wm) :
    Agrees n (.done (putMemory ev addr v vm))
      (.next { vm.state with host := (ev.store vm.state.host vm.state.wm addr v).1 }) := by
  refine ⟨_, rfl, ?_, hn⟩
  rw [putMemory, vm.state_setRegs]
  exact congrArg (fun f => State.mk f (ev.store vm.state.host vm.state.wm addr v).1) h

/-- The first switch does what the instruction means. -/
theorem operate_agrees {i : Instr} (h : readOperands w next i.parts.2.type = some i.parts.2)
    (hregs : i.SparesRegs ev vm.state) :
    Agrees i.size (operate ev i.parts.1 (some i.parts.2.type) w next.toUInt32 vm)
      (i.exec ev vm.state) := by
  cases i with
  | alu f d x => cases f <;> exact binary_agrees vm _ h
  | ld d x => exact binary_agrees vm (fun _ v => v) h
  | shl d n => exact shift_agrees vm _ h
  | shr d n => exact shift_agrees vm _ h
  | not d =>
    have hd := readWm h
    change Agrees 1 (.done (vm.setWm w.b2.toNat (~~~vm.wm w.b2.toNat)))
      (.next (vm.state.set d (~~~vm.wm d)))
    rw [← hd]
    exact agrees_set vm hd (by decide) _
  | mget d x =>
    change Agrees (words (Operands.ofSrc d x).type)
      (operate ev .mget (some (Operands.ofSrc d x).type) w next.toUInt32 vm) _
    obtain ⟨hd, ⟨ht, hx⟩ | ⟨ht, hx⟩⟩ := readSrc vm h
    · rw [ht, Instr.exec, hx]
      exact agrees_set vm hd (by decide) _
    · rw [ht, Instr.exec, hx]
      exact agrees_set vm hd (by decide) _
  | mput d x =>
    change Agrees (words (Operands.ofSrc d x).type)
      (operate ev .mput (some (Operands.ofSrc d x).type) w next.toUInt32 vm) _
    obtain ⟨hd, ⟨ht, hx⟩ | ⟨ht, hx⟩⟩ := readSrc vm h
    · rw [Instr.SparesRegs, hx, ← wm_eq, ← hd] at hregs
      rw [ht, Instr.exec, hx, ← wm_eq, ← hd]
      exact putMemory_agrees ev vm Nat.one_pos _ _ hregs
    · rw [Instr.SparesRegs, hx, ← wm_eq, ← hd] at hregs
      rw [ht, Instr.exec, hx, ← wm_eq, ← hd]
      exact putMemory_agrees ev vm Nat.two_pos _ _ hregs
  | sget d =>
    have hd := readWm h
    change Agrees 1 (operate ev .sget (some .wm) w next.toUInt32 vm) _
    have hhost : vm.state.host = vm.host := rfl
    rw [Instr.exec, operate, hhost]
    cases hget : ev.getStream vm.host with
    | mk g v =>
      cases v with
      | none => exact ⟨{ vm with host := g }, rfl, .inr (.inl ⟨rfl, rfl⟩)⟩
      | some v => exact agrees_set { vm with host := g } hd Nat.one_pos v
  | sput x =>
    change Agrees (words (Operands.ofSingle x).type)
      (operate ev .sput (some (Operands.ofSingle x).type) w next.toUInt32 vm) _
    obtain ⟨ht, hx⟩ | ⟨ht, hx⟩ := readSingle vm h
    · rw [ht, Instr.exec, hx]
      exact putStream_agrees ev vm Nat.one_pos _
    · rw [ht, Instr.exec, hx]
      exact putStream_agrees ev vm Nat.two_pos _
  | nop => exact ⟨_, rfl, rfl, by decide⟩
  | sleep n =>
    cases Option.some.inj h
    exact ⟨_, rfl, rfl, Instr.size_pos _⟩
  | call x =>
    change Agrees (words (Operands.ofSingle x).type)
      (operate ev .call (some (Operands.ofSingle x).type) w next.toUInt32 vm) _
    obtain ⟨ht, hx⟩ | ⟨ht, hx⟩ := readSingle vm h
    · rw [ht, Instr.exec, hx]
      exact callNative_agrees ev vm Nat.one_pos _
    · rw [ht, Instr.exec, hx]
      exact callNative_agrees ev vm Nat.two_pos _
  | exit => exact ⟨vm, rfl, .inl ⟨rfl, rfl⟩⟩

variable {code : H → Nat → Word} {pc : Nat}

/-- One instruction of the machine, whose own word is still there when it is done. -/
theorem processInstruction_next {i : Instr} {s : State H}
    (h : decodeWord (code vm.host pc) (code vm.host (pc + 1)) = some i)
    (hregs : i.SparesRegs ev vm.state) (hs : i.exec ev vm.state = .next s)
    (hcode : code s.host pc = code vm.host pc) :
    ∃ vm', processInstruction ev code pc vm = ⟨vm', i.size, RESULT_OK⟩ ∧ vm'.state = s := by
  obtain ⟨hop, ht, ho⟩ := decodeWord_eq_some h
  have hag := operate_agrees ev vm ho hregs
  rw [hs] at hag
  obtain ⟨vm', hout, rfl, -⟩ := hag
  have hword : code vm'.host pc = code vm.host pc := hcode
  refine ⟨vm', ?_, rfl⟩
  rw [processInstruction]
  simp only [hop, ht, hout, hword]
  rfl

theorem processInstruction_stop {i : Instr} {s : State H} {r : UInt32}
    (h : decodeWord (code vm.host pc) (code vm.host (pc + 1)) = some i)
    (hregs : i.SparesRegs ev vm.state) (hs : i.exec ev vm.state = .stop s r) :
    ∃ vm', processInstruction ev code pc vm = ⟨vm', 0, r⟩ ∧ vm'.state = s := by
  obtain ⟨hop, ht, ho⟩ := decodeWord_eq_some h
  have hag := operate_agrees ev vm ho hregs
  rw [hs] at hag
  obtain ⟨vm', hst, ⟨hout, rfl⟩ | ⟨hout, rfl⟩ | hout⟩ := hag <;>
  · refine ⟨vm', ?_, hst⟩
    rw [processInstruction]
    simp only [hop, ht, hout]

end

/-- The word after the instructions that came before the one that stopped the interpreter. -/
def stopPc (ev : TEvent H) (prog : List Instr) (s : State H) : Nat :=
  programSize (prog.take (interpret ev prog s).2.2)

theorem decodeFrom_size {mem : Nat → Word} {size n : Nat} :
    ∀ {prog : List Instr} {pc : Nat}, decodeFrom mem size n pc = some prog →
      pc + programSize prog = size := by
  induction n with
  | zero =>
    intro prog pc h
    cases h
  | succ n ih =>
    intro prog pc h
    rw [decodeFrom] at h
    split_ifs at h with hpc
    · cases h
      exact hpc
    · obtain ⟨i, -, h⟩ := Option.bind_eq_some_iff.mp h
      obtain ⟨rest, hrest, rfl⟩ := Option.map_eq_some_iff.mp h
      have := ih hrest
      rw [programSize, List.map_cons, List.sum_cons]
      rw [programSize] at this
      omega

theorem programSize_cons (i : Instr) (prog : List Instr) :
    programSize (i :: prog) = i.size + programSize prog := by
  rw [programSize, List.map_cons, List.sum_cons, programSize]

theorem programSize_pos {prog : List Instr} (h : prog ≠ []) : 0 < programSize prog := by
  obtain ⟨i, rest, rfl⟩ := List.exists_cons_of_ne_nil h
  have := i.size_pos
  rw [programSize_cons]
  omega

theorem stopPc_next {ev : TEvent H} {i : Instr} {s s' : State H} (prog : List Instr)
    (h : i.exec ev s = .next s') : stopPc ev (i :: prog) s = i.size + stopPc ev prog s' := by
  rw [stopPc, interpret, h]
  exact programSize_cons _ _

/-- Behind `pc` the machine runs the program that stands there, as long as it stays there. -/
theorem runFrom_eq (ev : TEvent H) {code : H → Nat → Word} {mem : Nat → Word} {size : Nat}
    (hsize : size < 65536) :
    ∀ {prog : List Instr} {n pc fuel : Nat} (vm : TcMiMicVM H), prog ≠ [] →
      decodeFrom mem size n pc = some prog → prog.length ≤ fuel →
      (∀ j < size, code vm.host j = mem j) → SparesCode ev code size prog vm.state →
      ∃ vm', runFrom ev code size fuel pc vm =
          some (vm', (interpret ev prog vm.state).2.1, pc + stopPc ev prog vm.state) ∧
        vm'.state = (interpret ev prog vm.state).1 := by
  intro prog
  induction prog with
  | nil =>
    intro n pc fuel vm hne _ _ _ _
    exact absurd rfl hne
  | cons i rest ih =>
    intro n pc fuel vm _ hdec hfuel hcode hspares
    obtain ⟨hregs, hspares⟩ := hspares
    obtain ⟨fuel, rfl⟩ : ∃ f, fuel = f + 1 := ⟨fuel - 1, by rw [List.length_cons] at hfuel; omega⟩
    have hend := decodeFrom_size hdec
    rw [programSize_cons] at hend
    obtain ⟨n, rfl⟩ : ∃ m, n = m + 1 := by
      cases n with
      | zero => cases hdec
      | succ n => exact ⟨n, rfl⟩
    have hpos := i.size_pos
    rw [decodeFrom, if_neg (by omega)] at hdec
    obtain ⟨j, hj, hmap⟩ := Option.bind_eq_some_iff.mp hdec
    obtain ⟨rest', hrest, heq⟩ := Option.map_eq_some_iff.mp hmap
    obtain ⟨rfl, rfl⟩ := List.cons.inj heq
    -- the word behind the text is no part of the last instruction
    have hword : decodeWord (code vm.host pc) (code vm.host (pc + 1)) = some j := by
      rw [hcode pc (by omega)]
      refine decodeWord_next _ hj ?_
      by_cases h2 : j.size = 2
      · exact .inl (hcode (pc + 1) (by omega)).symm
      · exact .inr h2
    rw [runFrom]
    cases hs : j.exec ev vm.state with
    | next s =>
      rw [hs] at hspares
      obtain ⟨hkept, hspares⟩ := hspares
      obtain ⟨vm', hp, rfl⟩ :=
        processInstruction_next ev vm hword hregs hs (hkept pc (by omega))
      have hadv : advance pc j.size = pc + j.size := Nat.mod_eq_of_lt (by omega)
      rw [hp, stopPc_next rest' hs, interpret, hs, hadv]
      by_cases hnil : rest' = []
      · subst hnil
        have hfull : pc + j.size = size := hend
        rw [if_neg (by omega)]
        exact ⟨vm', rfl, rfl⟩
      · have hlt := programSize_pos hnil
        rw [if_pos ⟨hpos, by omega⟩]
        obtain ⟨vm'', hrun, hst'⟩ := ih vm' hnil hrest (Nat.le_of_succ_le_succ hfuel)
          (fun k hk => (hkept k hk).trans (hcode k hk)) hspares
        exact ⟨vm'', hrun.trans (by rw [Nat.add_assoc]), hst'⟩
    | stop s code =>
      obtain ⟨vm', hp, hst⟩ := processInstruction_stop ev vm hword hregs hs
      have hadv : advance pc 0 = pc := Nat.mod_eq_of_lt (by omega)
      rw [hp, stopPc, interpret, hs, hadv, if_neg (fun h => absurd h.1 (lt_irrefl 0))]
      exact ⟨vm', rfl, hst⟩

/-- The machine on a text of instructions is the interpreter on the instructions: the same
registers and host, the same result, stopped at the same place. -/
theorem run_eq (ev : TEvent H) {code : H → Nat → Word} {mem : Nat → Word} {size : Nat}
    (hsize : size < 65536) {prog : List Instr} (hdec : decodeText mem size = some prog) {fuel : Nat}
    (hfuel : prog.length ≤ fuel) (vm : TcMiMicVM H) (hcode : ∀ j < size, code vm.host j = mem j)
    (hspares : SparesCode ev code size prog vm.state) :
    ∃ vm', run ev code size fuel vm =
        some (vm', (interpret ev prog vm.state).2.1, stopPc ev prog vm.state) ∧
      vm'.state = (interpret ev prog vm.state).1 := by
  have hend := decodeFrom_size hdec
  rw [run]
  by_cases hnil : prog = []
  · subst hnil
    have h0 : size = 0 := by simpa [programSize] using hend.symm
    rw [h0, if_neg (lt_irrefl 0)]
    exact ⟨vm, rfl, rfl⟩
  · have := programSize_pos hnil
    rw [if_pos (by omega)]
    obtain ⟨vm', hrun, hst⟩ := runFrom_eq ev hsize vm hnil hdec hfuel hcode hspares
    exact ⟨vm', by rw [hrun, Nat.zero_add], hst⟩

end MiMic.Vm
