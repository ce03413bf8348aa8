import MiMic.Vm.WorkArea

/-!
# Safety of the machine

The invariant over the runs of the module that keep clear of the defects, and a run that does not.
-/
namespace MiMic.Vm

open Verif (Laid)

/-- What holds of the module all along. -/
structure McuInv (p : Mcu × List (Nat × Word)) : Prop where
  base : Base p.1.hdr p.2
  parsing : p.1.phase = .parsing → Parsing p.1.hdr p.2
  running : p.1.phase = .running → p.1.size = p.1.hdr.txtLen ∧ p.1.pc < p.1.size ∧
    Text p.1.hdr.binarray.mem p.2 p.1.pc p.1.size

theorem mcuInv_init (s : Mcu) (h : s.Initial) : McuInv (s, []) := by
  obtain ⟨hphase, -, htxt, -, hwritten⟩ := h
  refine ⟨⟨?_, ?_, ?_⟩, fun h => (nomatch hphase.symm.trans h),
    fun h => (nomatch hphase.symm.trans h)⟩
  · rw [hwritten]
    exact fun _ h => nomatch h
  · rw [htxt]
    exact Nat.zero_le _
  · rw [htxt]
    exact Laid.nil 0

theorem recordEmitted_url {emitted : List (Nat × Word)} {s : Mcu} {e : Event} {c : UInt8}
    {next : Phase} (he : e = .url c ∨ e = .urlEnd) (hnext : next ≠ .idle) :
    recordEmitted emitted s e (s.urlChar c next) =
      recordUrl emitted s.hdr (s.hdr.urlHandler c).1 (s.hdr.urlHandler c).2 := by
  have hphase : (s.urlChar c next).phase ≠ .idle ↔ (s.hdr.urlHandler c).2 = true := by
    rw [Mcu.urlChar]
    cases (s.hdr.urlHandler c).2 with
    | true => exact ⟨fun _ => rfl, fun _ => hnext⟩
    | false => exact ⟨fun h => absurd rfl h, fun h => nomatch h⟩
  obtain rfl | rfl := he <;>
  · simp only [recordEmitted, recordUrl, hphase]
    rfl

/-- A character of the URL keeps the invariant, whatever follows it. -/
theorem mcuInv_url {emitted : List (Nat × Word)} {s : Mcu} (hi : McuInv (s, emitted))
    (hphase : s.phase = .parsing) {e : Event} {c : UInt8} {next : Phase}
    (he : e = .url c ∨ e = .urlEnd) (hnext : next ≠ .idle ∧ next ≠ .running)
    (hok : s.hdr.CharOk c) :
    McuInv (s.urlChar c next, recordEmitted emitted s e (s.urlChar c next)) := by
  obtain ⟨hbase, hpars⟩ := urlHandler_spec (hi.parsing hphase) hok
  rw [recordEmitted_url he hnext.1]
  refine ⟨hbase, ?_, ?_⟩
  · intro hp
    apply hpars
    by_contra hno
    exact nomatch (if_neg hno).symm.trans hp
  · intro hp
    change (if (s.hdr.urlHandler c).2 = true then next else Phase.idle) = .running at hp
    split_ifs at hp
    exact absurd hp hnext.2

/-- One instruction goes on to the next one of the text. -/
theorem mcuInv_vm {P : Platform} {emitted : List (Nat × Word)} {s : Mcu}
    (hi : McuInv (s, emitted)) (hphase : s.phase = .running) (hok : s.StoresApart P)
    {loaded : UInt32} {putOk : Bool} {s' : Mcu}
    (hs : s.step P (.vm loaded putOk) = some s') : McuInv (s', emitted) := by
  obtain ⟨hsize, hlt, htext⟩ := hi.running hphase
  have hhdr : (s.process P loaded putOk).vm.host.hdr = s.hdr :=
    @processInstruction_hdr P ⟨s.wm, ⟨s.hdr, s.eh, loaded, putOk⟩⟩ (fun h => h.hdr.binarray.mem)
      s.pc hok
  rw [Mcu.step, if_pos hphase] at hs
  obtain rfl := Option.some.inj hs
  refine ⟨?_, ?_, ?_⟩
  · simp only [hhdr]
    exact hi.base
  · simp only
    intro hp
    split_ifs at hp
  · simp only [hhdr]
    intro hp
    split_ifs at hp with hgo
    obtain ⟨-, -, hrest⟩ := Laid.next htext hlt
    have hbyte : (s.process P loaded putOk).inByte = sizeOf (s.hdr.binarray.mem s.pc) := by
      have h := processInstruction_inByte _ _ _ _ hgo.1
      exact h.trans (congrArg (fun h => sizeOf (h.binarray.mem s.pc)) hhdr)
    have hle := Laid.le hrest
    have hbound : s.hdr.txtLen ≤ 256 := hi.base.bound
    have hadv : advance s.pc (s.process P loaded putOk).inByte =
        s.pc + sizeOf (s.hdr.binarray.mem s.pc) := by
      rw [hbyte]
      exact Nat.mod_eq_of_lt (by simp only at *; omega)
    refine ⟨hsize, hgo.2, ?_⟩
    rw [hadv]
    exact hrest

theorem mcuInv_step {P : Platform} {p q : Mcu × List (Nat × Word)} {e : Event} (hi : McuInv p)
    (hok : e.Ok P p) (hs : (remoteMcu P).step p e = some q) : McuInv q := by
  obtain ⟨s, emitted⟩ := p
  obtain ⟨s', emitted'⟩ := q
  obtain ⟨hstep, rfl⟩ := Verif.System.observe_step.mp hs
  clear hs
  have hs : s.step P e = some s' := hstep
  cases e with
  | execute =>
    rw [Mcu.step] at hs
    split_ifs at hs
    obtain rfl := Option.some.inj hs
    have hbase : Base (s.hdr.prepare P) emitted := hi.base.of_eq rfl rfl
    exact ⟨hbase, fun _ => ⟨hbase, fun h => (nomatch h), fun h => absurd rfl h⟩,
      fun h => nomatch h⟩
  | url c =>
    rw [Mcu.step] at hs
    split_ifs at hs with hc
    obtain rfl := Option.some.inj hs
    exact mcuInv_url hi hc.1 (.inl rfl) (by decide) hok
  | urlEnd =>
    rw [Mcu.step] at hs
    split_ifs at hs with hc
    obtain rfl := Option.some.inj hs
    exact mcuInv_url hi hc (.inr rfl) (by decide) hok
  | fail =>
    rw [Mcu.step] at hs
    split_ifs at hs
    obtain rfl := Option.some.inj hs
    exact ⟨hi.base, fun h => (nomatch h), fun h => (nomatch h)⟩
  | finish m sent wm =>
    rw [Mcu.step] at hs
    split_ifs at hs with hparsed hruns
    · obtain rfl := Option.some.inj hs
      have hpos : 0 < s.hdr.txtLen := by
        rw [Mcu.runs, Bool.and_eq_true] at hruns
        exact of_decide_eq_true hruns.2
      exact ⟨hi.base, fun h => (nomatch h), fun _ => ⟨rfl, hpos, hi.base.text⟩⟩
    · obtain rfl := Option.some.inj hs
      exact ⟨hi.base, fun h => (nomatch h), fun h => (nomatch h)⟩
  | vm loaded putOk =>
    have hphase : s.phase = .running := by
      by_contra hno
      rw [Mcu.step, if_neg hno] at hs
      cases hs
    exact mcuInv_vm hi hphase hok hs

/-- Every request that keeps clear of the defects is safe, and so is everything after it. -/
theorem runs_safe {P : Platform} {p : Mcu × List (Nat × Word)}
    (h : (remoteMcu P).Reaches (Event.Ok P) p) : SafeState p := by
  have hi : McuInv p := by
    refine Verif.System.Reaches.invariant (P := McuInv) ?_ ?_ h
    · intro p hp
      obtain ⟨s, emitted⟩ := p
      obtain ⟨hs, rfl⟩ := hp
      exact mcuInv_init s hs
    · exact fun p e q hi hok hs => mcuInv_step hi hok hs
  refine ⟨hi.base.written, fun hrun => ?_⟩
  obtain ⟨hsize, hlt, htext⟩ := hi.running hrun
  obtain ⟨hhead, -, -⟩ := Laid.next htext hlt
  exact ⟨hsize ▸ hlt, hhead.1, hhead.2⟩

section

variable {H : Type}

/-- Machines that differ at most behind the registers. -/
def SameRegs (a b : TcMiMicVM H) : Prop := a.host = b.host ∧ ∀ r < NUMBER_OF_WM, a.wm r = b.wm r

/-- A machine that left alone what lies behind the registers. -/
def KeepsRest (a b : TcMiMicVM H) : Prop := ∀ r, NUMBER_OF_WM ≤ r → b.wm r = a.wm r

/-- Outcomes of one kind, on machines that differ at most behind the registers. -/
def SameOutcome : Outcome H → Outcome H → Prop
  | .done a, .done b | .exit a, .exit b | .error a, .error b => SameRegs a b
  | .inherit a c, .inherit b d => SameRegs a b ∧ c = d
  | _, _ => False

variable {a b : TcMiMicVM H}

theorem SameRegs.set (h : SameRegs a b) {r : Nat} {u v : UInt32} (huv : u = v) :
    SameRegs (a.setWm r u) (b.setWm r v) := by
  subst huv
  refine ⟨h.1, fun k hk => ?_⟩
  change Function.update a.wm r u k = Function.update b.wm r u k
  rw [Function.update_apply, Function.update_apply, h.2 k hk]

theorem keepsRest_set (a : TcMiMicVM H) {r : Nat} (hr : r < NUMBER_OF_WM) (v : UInt32) :
    KeepsRest a (a.setWm r v) :=
  fun _ hk => Function.update_of_ne (Nat.ne_of_gt (Nat.lt_of_lt_of_le hr hk)) _ _

theorem SameRegs.regs (h : SameRegs a b) : a.regs = b.regs := funext fun r => h.2 r r.isLt

theorem binary_confined (f : UInt32 → UInt32 → UInt32) (t : Option OprType) {ist : Word}
    (h32 : UInt32) (hregs : ∀ r ∈ (t.map (regsOf ist)).getD [], r < NUMBER_OF_WM)
    (h : SameRegs a b) :
    SameOutcome (binary f t ist h32 a) (binary f t ist h32 b) ∧
      KeepsRest a (binary f t ist h32 a).machine := by
  unfold binary
  split
  · have h2 := hregs ist.b2.toNat (List.mem_cons_self ..)
    have h3 := hregs ist.b3.toNat (List.mem_cons_of_mem _ (List.mem_cons_self ..))
    exact ⟨h.set (by rw [h.2 _ h2, h.2 _ h3]), keepsRest_set a h2 _⟩
  · have h2 := hregs ist.b2.toNat (List.mem_cons_self ..)
    exact ⟨h.set (by rw [h.2 _ h2]), keepsRest_set a h2 _⟩
  · exact ⟨h, fun _ _ => rfl⟩

theorem shift_confined (f : UInt32 → UInt32 → UInt32) (t : Option OprType) {ist : Word}
    (hregs : ∀ r ∈ (t.map (regsOf ist)).getD [], r < NUMBER_OF_WM) (h : SameRegs a b) :
    SameOutcome (shift f t ist a) (shift f t ist b) ∧
      KeepsRest a (shift f t ist a).machine := by
  unfold shift
  split
  · have h2 := hregs ist.b2.toNat (List.mem_cons_self ..)
    exact ⟨h.set (by rw [h.2 _ h2]), keepsRest_set a h2 _⟩
  · have h2 := hregs ist.b2.toNat (List.mem_cons_self ..)
    have h3 := hregs ist.b3.toNat (List.mem_cons_of_mem _ (List.mem_cons_self ..))
    exact ⟨h.set (by rw [h.2 _ h2, h.2 _ h3]), keepsRest_set a h2 _⟩
  · exact ⟨h, fun _ _ => rfl⟩

theorem putStream_confined (ev : TEvent H) {u v : UInt32} (huv : u = v) (h : SameRegs a b) :
    SameOutcome (putStream ev u a) (putStream ev v b) ∧
      KeepsRest a (putStream ev u a).machine := by
  subst huv
  rw [putStream, putStream, ← h.1]
  split_ifs
  · exact ⟨⟨rfl, h.2⟩, fun _ _ => rfl⟩
  · exact ⟨⟨rfl, h.2⟩, fun _ _ => rfl⟩

theorem setRegs_same (a b : TcMiMicVM H) (f : Fin NUMBER_OF_WM → UInt32) {r : Nat}
    (hr : r < NUMBER_OF_WM) : (a.setRegs f).wm r = (b.setRegs f).wm r := by
  rw [TcMiMicVM.setRegs, TcMiMicVM.setRegs]
  simp only [dif_pos hr]

theorem setRegs_rest (a : TcMiMicVM H) (f : Fin NUMBER_OF_WM → UInt32) {r : Nat}
    (hr : NUMBER_OF_WM ≤ r) : (a.setRegs f).wm r = a.wm r :=
  dif_neg (Nat.not_lt.mpr hr)

theorem putMemory_confined (ev : TEvent H) {x y u v : UInt32} (hxy : x = y) (huv : u = v)
    (h : SameRegs a b) : SameRegs (putMemory ev x u a) (putMemory ev y v b) ∧
      KeepsRest a (putMemory ev x u a) := by
  subst hxy huv
  rw [putMemory, putMemory, ← h.1, ← h.regs]
  exact ⟨⟨rfl, fun _ hr => setRegs_same a b _ hr⟩, fun _ hr => setRegs_rest a _ hr⟩

theorem callNative_confined (ev : TEvent H) {u v : UInt32} (huv : u = v) (h : SameRegs a b) :
    SameOutcome (callNative ev u a) (callNative ev v b) ∧
      KeepsRest a (callNative ev u a).machine := by
  subst huv
  rw [callNative, callNative, ← h.1, ← h.regs]
  split_ifs
  · exact ⟨⟨rfl, fun _ hr => setRegs_same a b _ hr⟩, fun _ hr => setRegs_rest a _ hr⟩
  · exact ⟨⟨⟨rfl, fun _ hr => setRegs_same a b _ hr⟩, rfl⟩, fun _ hr => setRegs_rest a _ hr⟩

/-- An instruction that names registers below eight uses these and no others: what it does is
the same whatever lies behind them, and what lies there stays. -/
theorem operate_confined (ev : TEvent H) (op : OpType) (t : Option OprType) {ist : Word}
    (h32 : UInt32) (hregs : ∀ r ∈ (t.map (regsOf ist)).getD [], r < NUMBER_OF_WM)
    (h : SameRegs a b) :
    SameOutcome (operate ev op t ist h32 a) (operate ev op t ist h32 b) ∧
      KeepsRest a (operate ev op t ist h32 a).machine := by
  have hsame : SameOutcome (.error a) (.error b) ∧ KeepsRest a a := ⟨h, fun _ _ => rfl⟩
  cases op with
  | and | or | xor | add | sub | mul => exact binary_confined _ t h32 hregs h
  | ld => exact binary_confined (fun _ v => v) t h32 hregs h
  | shl | shr => exact shift_confined _ t hregs h
  | not =>
    unfold operate
    simp only
    split
    · have h2 := hregs ist.b2.toNat (List.mem_cons_self ..)
      exact ⟨h.set (by rw [h.2 _ h2]), keepsRest_set a h2 _⟩
    · exact hsame
  | mget =>
    unfold operate
    simp only
    split
    · have h2 := hregs ist.b2.toNat (List.mem_cons_self ..)
      exact ⟨h.set (by rw [h.1, h.regs]), keepsRest_set a h2 _⟩
    · have h2 := hregs ist.b2.toNat (List.mem_cons_self ..)
      have h3 := hregs ist.b3.toNat (List.mem_cons_of_mem _ (List.mem_cons_self ..))
      exact ⟨h.set (by rw [h.1, h.regs, h.2 _ h3]), keepsRest_set a h2 _⟩
    · exact hsame
  | mput =>
    unfold operate
    simp only
    split
    · have h2 := hregs ist.b2.toNat (List.mem_cons_self ..)
      exact putMemory_confined ev rfl (h.2 _ h2) h
    · have h2 := hregs ist.b2.toNat (List.mem_cons_self ..)
      have h3 := hregs ist.b3.toNat (List.mem_cons_of_mem _ (List.mem_cons_self ..))
      exact putMemory_confined ev (h.2 _ h3) (h.2 _ h2) h
    · exact hsame
  | sget =>
    unfold operate
    simp only [← h.1]
    split
    · have h2 := hregs ist.b2.toNat (List.mem_cons_self ..)
      obtain ⟨g, v⟩ := ev.getStream a.host
      cases v with
      | none => exact ⟨⟨rfl, h.2⟩, fun _ _ => rfl⟩
      | some v =>
        have hg : SameRegs { a with host := g } { b with host := g } := ⟨rfl, h.2⟩
        exact ⟨hg.set rfl, keepsRest_set { a with host := g } h2 v⟩
    · exact hsame
  | sput =>
    unfold operate
    simp only
    split
    · have h2 := hregs ist.b2.toNat (List.mem_cons_self ..)
      exact putStream_confined ev (h.2 _ h2) h
    · exact putStream_confined ev rfl h
    · exact hsame
  | nop =>
    unfold operate
    simp only [← h.1]
    split
    · exact hsame
    · exact ⟨⟨rfl, h.2⟩, fun _ _ => rfl⟩
    · exact hsame
  | call =>
    unfold operate
    simp only
    split
    · have h2 := hregs ist.b2.toNat (List.mem_cons_self ..)
      exact callNative_confined ev (h.2 _ h2) h
    · exact callNative_confined ev rfl h
    · exact hsame
  | exit => exact ⟨h, fun _ _ => rfl⟩

end

/-- A board that keeps the module's memory out of the programs' reach, served at `/rm/`. -/
def board : Platform := ⟨2, fun _ _ h => h, fun _ _ regs => regs⟩

def powerOn : Mcu :=
  ⟨⟨.unknown, .path, 0, .fresh, ⟨fun _ => .zero, 0, 0, []⟩, .init,
    ⟨.opc, .and, .none, 0, 0, []⟩, .unknown, .unknown, none, 0, 0⟩, .idle, fun _ => 0, 0, 0,
    ⟨0, 0, false⟩⟩

theorem powerOn_init : (remoteMcu board).init (powerOn, []) := ⟨⟨rfl, rfl, rfl, rfl, rfl⟩, rfl⟩

/-- A GET request for a URL, up to the machine's first instruction. -/
def request (url : String) : List Event :=
  .execute :: (bytes url).map .url ++ [.urlEnd, .finish .get true fun _ => 0]

instance (h : Header) (st : AState) (c : UInt8) : Decidable (h.Compiles st c) :=
  inferInstanceAs (Decidable (_ ∧ _ ∧ _ ∧ _))

instance (h : Header) (c : UInt8) : Decidable (h.CharOk c) :=
  inferInstanceAs (Decidable ((_ → _ → _ → _) ∧ (_ → _ → _ → _) ∧ (_ → _ → _ → _)))

/-- The steps that keep clear of the defects on this board, where stores go elsewhere. -/
def boardOk (p : Mcu × List (Nat × Word)) : Event → Bool
  | .url c => decide (p.1.hdr.CharOk c)
  | .urlEnd => decide (p.1.hdr.CharOk 0)
  | _ => true

theorem boardOk_ok (p : Mcu × List (Nat × Word)) (e : Event) (h : boardOk p e = true) :
    e.Ok board p := by
  cases e with
  | url c => exact of_decide_eq_true (p := p.1.hdr.CharOk c) h
  | urlEnd => exact of_decide_eq_true (p := p.1.hdr.CharOk 0) h
  | vm loaded putOk => exact fun _ _ _ => rfl
  | execute | fail | finish m sent wm => trivial

/-- A program that puts out the word of its DB part. -/
theorem runs_safe_board : ∃ p, (remoteMcu board).Reaches (Event.Ok board) p ∧
    p.1.phase = .running ∧ SafeState p := by
  have hruns : ((remoteMcu board).runChecked boardOk (powerOn, [])
      (request "/rm/mvm.api?v=1&bc=EA07EE07ZZ.E0000002a")).any
        (fun p => p.1.phase == .running) = true := by decide +kernel
  obtain ⟨p, hp, hrun⟩ := Verif.System.exists_of_runChecked boardOk_ok powerOn_init hruns
  exact ⟨p, hp, by simpa using hrun, runs_safe hp⟩

/-- The machine is about to run an instruction with register 8. -/
def fetchesRegister8 (p : Mcu × List (Nat × Word)) : Bool :=
  p.1.phase == .running && 8 ∈ operandRegs (p.1.hdr.binarray.mem p.1.pc)

/-- `AM08`, the complement of register 8, is compiled and run. -/
theorem not_runs_safe : ∃ p, (remoteMcu board).Reaches Verif.System.anyStep p ∧ ¬ SafeState p := by
  have hruns : ((remoteMcu board).run (powerOn, [])
      (request "/rm/mvm.api?v=1&bc=AM08ZZ.E")).any fetchesRegister8 = true := by decide +kernel
  obtain ⟨p, hp, h8⟩ := Verif.System.exists_of_run powerOn_init hruns
  refine ⟨p, hp, fun hsafe => ?_⟩
  obtain ⟨hrun, hreg⟩ := (Bool.and_eq_true _ _).mp h8
  have hlt := (hsafe.2 (by simpa using hrun)).2.2 8 (of_decide_eq_true hreg)
  exact absurd hlt (lt_irrefl 8)

end MiMic.Vm
