import MiMic.Lib.System
import MiMic.Json.CharEffect

/-!
# Where the parameters are stored

Beside the parser runs a note of the message so far: how many bytes its parameters have
claimed, counted without wrapping, and what has been stored. The fill level of the code is
that number in eight bits, which is what the tests against 256 miss.
-/
namespace MiMic.Json

open Verif

def Store.isValue : Store → Bool
  | .param _ _ => true
  | .index _ _ => true
  | _ => false

/-- The bytes of `param_buf` that are written. -/
def Store.offsets : Store → List Int
  | .param off data => (List.range data.length).map fun k : Nat => off + (k : Int)
  | _ => []

def Store.indices : Store → List Nat
  | .index i _ => [i]
  | _ => []

def Store.isId : Store → Bool
  | .id _ => true
  | _ => false

def Store.isMethod : Store → Bool
  | .method _ _ => true
  | _ => false

/-- What the message has stored: the bytes its parameters claimed, the offsets and indices
that were written, whether its method was resolved and its id stored. -/
structure StorageNote where
  fill : Nat
  written : List Int
  indexed : List Nat
  resolved : Bool
  idStored : Bool

def StorageNote.empty : StorageNote := ⟨0, [], [], false, false⟩

def noteStorage (h : StorageNote) (p : Parser) (eff : Effect) : StorageNote where
  fill :=
    if p.st = .params ∧ p.pst ≠ .start then h.fill + (eff.parser.n - p.n).toNat else h.fill
  written := h.written ++ eff.stores.flatMap Store.offsets
  indexed := h.indexed ++ eff.stores.flatMap Store.indices
  resolved := h.resolved || eff.stores.any Store.isMethod
  idStored := h.idStored || eff.stores.any Store.isId

/-- A message begins, or its next character arrives. -/
inductive RpcEvent
  | init
  | put (c : UInt8)

structure RpcState where
  parser : Parser
  result : RpcResult
  note : StorageNote

/-- `initParser` on a result that still holds whatever it held. -/
def beginMessage (p : Parser) (r : RpcResult) : RpcState :=
  ⟨(initParser p r).1, (initParser p r).2, .empty⟩

def putStep (x : RpcState) (eff : Effect) : RpcState :=
  ⟨eff.parser, x.result.applyAll eff.stores, noteStorage x.note x.parser eff⟩

/-- Messages read one after the other into one result. -/
def storageSystem (tbl : List JsonRpcClassDef) : System RpcState RpcEvent where
  init x := ∃ p r, x = beginMessage p r
  step x
    | .init => some (beginMessage x.parser x.result)
    | .put c => (putChar tbl x.parser x.result c).map (putStep x)

/-- The storage a character leads to is safe. -/
structure StoreSafe (x : RpcState) (eff : Effect) : Prop where
  inBuf : ∀ off data, Store.param off data ∈ eff.stores →
    0 ≤ off ∧ off + data.length ≤ paramBufSize
  inIndex : ∀ i n, Store.index i n ∈ eff.stores → i < numberOfParamIndex
  paramsKept : ∀ o ∈ x.note.written,
    (x.result.applyAll eff.stores).area (4 + o).toNat = x.result.area (4 + o).toNat
  indexKept : ∀ i ∈ x.note.indexed,
    (x.result.applyAll eff.stores).paramIndex i = x.result.paramIndex i
  idKept : x.note.idStored = true →
    ∀ o < 4, (x.result.applyAll eff.stores).area o = x.result.area o
  methodKept : x.note.resolved = true →
    (x.result.applyAll eff.stores).type = x.result.type ∧
    (x.result.applyAll eff.stores).funcNumber = x.result.funcNumber ∧
    (x.result.applyAll eff.stores).classDef = x.result.classDef
  afterMethod : ∀ s ∈ eff.stores, s.isValue = true → x.note.resolved = true
  overflow : paramBufSize < (noteStorage x.note x.parser eff).fill → eff.parser.st = .error

/-- A number ends before the last byte of the buffer, a string at the latest with it; a
value begins once the method is known; the message has one id. -/
structure StorageOk (x : RpcState) (e : RpcEvent) : Prop where
  room : ∀ c, e = .put c → x.parser.st = .params →
    x.note.fill + roomNeeded x.parser x.result c ≤ paramBufSize
  method : ∀ c, e = .put c → x.parser.st = .params → beginsValue x.parser c = true →
    x.result.type = .method
  idOnce : ∀ c, e = .put c → x.parser.st = .valUint → x.parser.nameId = .id →
    endsUint c = true → x.note.idStored = false

theorem storeBytes_outside {area : Nat → UInt8} {off o : Nat} {data : List UInt8}
    (h : o < off ∨ off + data.length ≤ o) : storeBytes area off data o = area o :=
  if_neg (by omega)

section

variable {r : RpcResult}

theorem apply_value_method {s : Store} (h : s.isValue = true) :
    (r.apply s).type = r.type ∧ (r.apply s).funcNumber = r.funcNumber ∧
      (r.apply s).classDef = r.classDef := by
  cases s with
  | param off data => exact ⟨rfl, rfl, rfl⟩
  | index i n => exact ⟨rfl, rfl, rfl⟩
  | id n => cases h
  | method d i => cases h
  | badMethod => cases h

/-- Stores of values leave the method alone. -/
theorem applyAll_value_method {ss : List Store} (h : ∀ s ∈ ss, s.isValue = true) :
    (r.applyAll ss).type = r.type ∧ (r.applyAll ss).funcNumber = r.funcNumber ∧
      (r.applyAll ss).classDef = r.classDef := by
  induction ss generalizing r with
  | nil => exact ⟨rfl, rfl, rfl⟩
  | cons s ss ih =>
    obtain ⟨h1, h2, h3⟩ := apply_value_method (r := r) (h s List.mem_cons_self)
    obtain ⟨i1, i2, i3⟩ := @ih (r.apply s) fun t ht => h t (List.mem_cons_of_mem s ht)
    exact ⟨i1.trans h1, i2.trans h2, i3.trans h3⟩

theorem Store.isValue_spec {s : Store} (h : s.isValue = true) :
    s.isMethod = false ∧ s.isId = false := by
  cases s with
  | param off data => exact ⟨rfl, rfl⟩
  | index i n => exact ⟨rfl, rfl⟩
  | id n => cases h
  | method d i => cases h
  | badMethod => cases h

/-- A byte outside of all the stores keeps its value. -/
theorem applyAll_area {ss : List Store} {o : Int} (hv : ∀ s ∈ ss, s.isValue = true)
    (h : ∀ off data, .param off data ∈ ss → 0 ≤ off ∧ (o < off ∨ off + data.length ≤ o)) :
    (r.applyAll ss).area (4 + o).toNat = r.area (4 + o).toNat := by
  induction ss generalizing r with
  | nil => rfl
  | cons s ss ih =>
    have hrest := @ih (r.apply s) (fun t ht => hv t (List.mem_cons_of_mem s ht))
      fun off data ht => h off data (List.mem_cons_of_mem s ht)
    refine hrest.trans ?_
    cases s with
    | param off data =>
      obtain ⟨h0, hout⟩ := h off data List.mem_cons_self
      exact storeBytes_outside (by omega)
    | index i n => rfl
    | id n => cases hv _ List.mem_cons_self
    | method d i => rfl
    | badMethod => rfl

theorem applyAll_paramIndex {ss : List Store} {i : Nat} (h : ∀ n, .index i n ∉ ss) :
    (r.applyAll ss).paramIndex i = r.paramIndex i := by
  induction ss generalizing r with
  | nil => rfl
  | cons s ss ih =>
    have hrest := @ih (r.apply s) fun n hn => h n (List.mem_cons_of_mem s hn)
    refine hrest.trans ?_
    cases s with
    | param off data => rfl
    | index j n =>
      refine Function.update_of_ne ?_ _ _
      intro hij
      exact h n (hij ▸ List.mem_cons_self)
    | id n => rfl
    | method d i => rfl
    | badMethod => rfl

end

/-- The bytes and the indices stored so far lie below the fill level and the counter. -/
structure BufferInv (h : StorageNote) (pcounter : UInt8) : Prop where
  fill_le : h.fill ≤ paramBufSize
  within : ∀ o ∈ h.written, 0 ≤ o ∧ o < h.fill
  counted : ∀ i ∈ h.indexed, i < pcounter.toNat
  fresh : pcounter = 0 → h.fill = 0

/-- Inside the parameters: `n` is the fill level, and the length of an open string has a
byte of its own that nothing was written to. -/
structure ParamsInv (x : RpcState) : Prop where
  starting : x.parser.pst = .start → x.parser.pcounter = 0
  level : x.parser.pst ≠ .start → x.parser.n.toNat = x.note.fill % 256
  open_ : x.parser.pst.inString = true → ∃ start : Nat, start < x.note.fill ∧
    (stringIndex x.parser x.result).toNat = start ∧ (start : Int) ∉ x.note.written
  checked : x.parser.pst ≠ .start → x.parser.pst ≠ .val →
    x.note.resolved = true ∧ x.parser.pcounter ≠ 0

structure StorageInv (x : RpcState) : Prop where
  buffer : BufferInv x.note x.parser.pcounter
  params : x.parser.st = .params → ParamsInv x
  paramsOnce : x.parser.expects .params = true → x.parser.pcounter = 0
  methodOnce : x.parser.expects .method = true → x.result.type = .unknown
  typed : x.result.type = .method → x.parser.st ≠ .error → x.note.resolved = true
  resolved : x.note.resolved = true → x.result.type = .method

theorem StorageInv.beginMessage (p : Parser) (r : RpcResult) :
    StorageInv (beginMessage p r) where
  buffer :=
    { fill_le := Nat.zero_le _
      within := fun _ ho => nomatch ho
      counted := fun _ hi => nomatch hi
      fresh := fun _ => rfl }
  params := ParserSt.noConfusion
  paramsOnce := fun _ => rfl
  methodOnce := fun _ => rfl
  typed := ResultType.noConfusion
  resolved := Bool.noConfusion

theorem mem_offsets {off o : Int} {data : List UInt8} :
    o ∈ Store.offsets (.param off data) ↔ off ≤ o ∧ o < off + data.length := by
  simp only [Store.offsets, List.mem_map, List.mem_range]
  constructor
  · intro ⟨k, hk, ho⟩
    omega
  · intro ⟨h1, h2⟩
    exact ⟨(o - off).toNat, by omega, by omega⟩

theorem mem_written {h : StorageNote} {p : Parser} {eff : Effect} {o : Int}
    (ho : o ∈ (noteStorage h p eff).written) :
    o ∈ h.written ∨
      ∃ off data, Store.param off data ∈ eff.stores ∧ off ≤ o ∧ o < off + data.length := by
  obtain hold | hnew := List.mem_append.mp ho
  · exact Or.inl hold
  · obtain ⟨s, hs, hmem⟩ := List.mem_flatMap.mp hnew
    cases s with
    | param off data => exact Or.inr ⟨off, data, hs, mem_offsets.mp hmem⟩
    | index i n => cases hmem
    | id n => cases hmem
    | method d i => cases hmem
    | badMethod => cases hmem

theorem mem_indexed {h : StorageNote} {p : Parser} {eff : Effect} {i : Nat}
    (hi : i ∈ (noteStorage h p eff).indexed) :
    i ∈ h.indexed ∨ ∃ n, Store.index i n ∈ eff.stores := by
  obtain hold | hnew := List.mem_append.mp hi
  · exact Or.inl hold
  · obtain ⟨s, hs, hmem⟩ := List.mem_flatMap.mp hnew
    cases s with
    | index j n =>
      obtain rfl := List.mem_singleton.mp hmem
      exact Or.inr ⟨n, hs⟩
    | param off data => cases hmem
    | id n => cases hmem
    | method d i => cases hmem
    | badMethod => cases hmem

theorem noteStorage_fill {h : StorageNote} {p : Parser} {eff : Effect} (hst : p.st = .params)
    (hp : p.pst ≠ .start) :
    (noteStorage h p eff).fill = h.fill + (eff.parser.n - p.n).toNat := if_pos ⟨hst, hp⟩

theorem noteStorage_fill_le {h : StorageNote} {p : Parser} {eff : Effect} :
    h.fill ≤ (noteStorage h p eff).fill := by
  unfold noteStorage
  dsimp only
  split
  · omega
  · exact le_rfl

/-- A character that stores nothing and leaves the fill level alone leaves the note alone. -/
theorem noteStorage_silent {h : StorageNote} {p p' : Parser}
    (hn : p.st = .params → p.pst ≠ .start → p'.n = p.n) : noteStorage h p ⟨p', []⟩ = h := by
  have hfill : (noteStorage h p ⟨p', []⟩).fill = h.fill := by
    unfold noteStorage
    dsimp only
    split
    · next hc =>
      rw [hn hc.1 hc.2, UInt8.sub_self]
      rfl
    · rfl
  simp only [noteStorage] at hfill ⊢
  rw [hfill]
  simp

/-- Eight bits of the fill level, whatever was added to it. -/
theorem level_next {n n' : UInt8} {fill : Nat} (h : n.toNat = fill % 256) :
    n'.toNat = (fill + (n' - n).toNat) % 256 := by
  have h1 := n.toNat_lt
  have h2 := n'.toNat_lt
  rw [UInt8.toNat_sub]
  omega

theorem toNat_add_sub_self (n size : UInt8) : (n + size - n).toNat = size.toNat := by
  rw [UInt8.add_comm, UInt8.add_sub_cancel]

/-- Aligning never claims more than the buffer has. -/
theorem align4_fill {n : UInt8} {fill : Nat} (h : n.toNat = fill % 256) (hle : fill ≤ 256) :
    fill + (align4 n - n).toNat ≤ 256 := by
  have h1 := n.toNat_lt
  have ha : (align4 n).toNat = (n.toNat + 3) / 4 * 4 % 256 := UInt8.toNat_ofNat'
  rw [UInt8.toNat_sub]
  omega

theorem putStep_silent {x : RpcState} {p' : Parser}
    (hn : x.parser.st = .params → x.parser.pst ≠ .start → p'.n = x.parser.n) :
    putStep x ⟨p', []⟩ = ⟨p', x.result, x.note⟩ := by
  unfold putStep
  rw [noteStorage_silent hn]
  rfl

/-- What stores nothing is safe. -/
theorem storeSafe_silent {x : RpcState} {p' : Parser} (inv : StorageInv x)
    (hn : x.parser.st = .params → x.parser.pst ≠ .start → p'.n = x.parser.n) :
    StoreSafe x ⟨p', []⟩ where
  inBuf := fun _ _ hm => nomatch hm
  inIndex := fun _ _ hm => nomatch hm
  paramsKept := fun _ _ => rfl
  indexKept := fun _ _ => rfl
  idKept := fun _ _ _ => rfl
  methodKept := fun _ => ⟨rfl, rfl, rfl⟩
  afterMethod := fun _ hm => nomatch hm
  overflow := by
    rw [noteStorage_silent hn]
    intro hover
    exact absurd inv.buffer.fill_le (Nat.not_le.mpr hover)

theorem StaysWith.idle {p p' : Parser} (h : StaysWith p p') : p'.st.awaitsValue = false := by
  obtain hs | hs | hs := h.st <;> rw [hs] <;> rfl

section

variable {tbl : List JsonRpcClassDef} {x : RpcState} {c : UInt8} {eff : Effect}

/-- Inside the parameters nothing waits for a name's value, and the result keeps its method. -/
theorem StorageInv.of_values (inv : StorageInv x) (hst : x.parser.st = .params)
    (hv : ∀ s ∈ eff.stores, s.isValue = true) (hidle : eff.parser.st.awaitsValue = false)
    (hbuf : BufferInv (noteStorage x.note x.parser eff) eff.parser.pcounter)
    (hparams : eff.parser.st = .params → ParamsInv (putStep x eff)) :
    StorageInv (putStep x eff) := by
  have hres : (putStep x eff).note.resolved = x.note.resolved := by
    have hany : eff.stores.any Store.isMethod = false := by
      rw [List.any_eq_false]
      intro s hs
      rw [(Store.isValue_spec (hv s hs)).1]
      exact Bool.false_ne_true
    exact (congrArg (x.note.resolved || ·) hany).trans (Bool.or_false _)
  have htype : (putStep x eff).result.type = x.result.type := (applyAll_value_method hv).1
  constructor
  · exact hbuf
  · exact hparams
  · intro he
    rw [show (putStep x eff).parser.expects _ = false from Parser.expects_of_idle hidle] at he
    cases he
  · intro he
    rw [show (putStep x eff).parser.expects _ = false from Parser.expects_of_idle hidle] at he
    cases he
  · intro ht _
    rw [hres]
    exact inv.typed (htype.symm.trans ht) (by simp [hst])
  · intro hr
    rw [htype]
    exact inv.resolved (hres.symm.trans hr)

/-- Values that lie between the old and the new fill level, in bytes nothing was written to,
are safe. -/
theorem values_step (inv : StorageInv x) (hst : x.parser.st = .params)
    (hv : ∀ s ∈ eff.stores, s.isValue = true) (hres : x.note.resolved = true)
    (hfill : (noteStorage x.note x.parser eff).fill ≤ paramBufSize)
    (hbuf : ∀ off data, Store.param off data ∈ eff.stores → 0 ≤ off ∧
      off + data.length ≤ (noteStorage x.note x.parser eff).fill ∧
      ∀ o ∈ x.note.written, o < off ∨ off + data.length ≤ o)
    (hidx : ∀ i n, Store.index i n ∈ eff.stores → i < numberOfParamIndex ∧
      i < eff.parser.pcounter.toNat ∧ i ∉ x.note.indexed)
    (hcount : x.parser.pcounter.toNat ≤ eff.parser.pcounter.toNat)
    (hpos : eff.parser.pcounter ≠ 0) (hidle : eff.parser.st.awaitsValue = false)
    (hparams : eff.parser.st = .params → ParamsInv (putStep x eff)) :
    StoreSafe x eff ∧ StorageInv (putStep x eff) := by
  have harea : ∀ o : Int, o < 0 ∨ o ∈ x.note.written →
      (x.result.applyAll eff.stores).area (4 + o).toNat = x.result.area (4 + o).toNat := by
    intro o ho
    refine applyAll_area hv fun off data hm => ?_
    obtain ⟨h0, -, hout⟩ := hbuf off data hm
    exact ⟨h0, ho.elim (fun hneg => Or.inl (by omega)) fun hw => hout o hw⟩
  constructor
  · constructor
    · intro off data hm
      obtain ⟨h0, hend, -⟩ := hbuf off data hm
      exact ⟨h0, by omega⟩
    · exact fun i n hm => (hidx i n hm).1
    · exact fun o ho => harea o (Or.inr ho)
    · intro i hi
      exact applyAll_paramIndex fun n hm => (hidx i n hm).2.2 hi
    · intro _ o ho
      have := harea (o - 4 : Int) (Or.inl (by omega))
      rwa [show ((4 : Int) + (o - 4)).toNat = o by omega] at this
    · exact fun _ => applyAll_value_method hv
    · exact fun _ _ _ => hres
    · exact fun hover => absurd hfill (Nat.not_le.mpr hover)
  · refine inv.of_values hst hv hidle ?_ hparams
    have hle : x.note.fill ≤ (noteStorage x.note x.parser eff).fill := noteStorage_fill_le
    constructor
    · exact hfill
    · intro o ho
      obtain hold | ⟨off, data, hm, hlo, hhi⟩ := mem_written ho
      · have := inv.buffer.within o hold
        omega
      · obtain ⟨h0, hend, -⟩ := hbuf off data hm
        omega
    · intro i hi
      obtain hold | ⟨n, hm⟩ := mem_indexed hi
      · exact (inv.buffer.counted i hold).trans_le hcount
      · exact (hidx i n hm).2.1
    · exact fun h0 => absurd h0 hpos

/-- A character of the parameters that stores nothing. -/
theorem silent_step {p' : Parser} (inv : StorageInv x) (hst : x.parser.st = .params)
    (hn : x.parser.pst ≠ .start → p'.n = x.parser.n) (hidle : p'.st.awaitsValue = false)
    (hcount : x.parser.pcounter.toNat ≤ p'.pcounter.toNat)
    (hparams : p'.st = .params → ParamsInv ⟨p', x.result, x.note⟩) :
    StoreSafe x ⟨p', []⟩ ∧ StorageInv (putStep x ⟨p', []⟩) := by
  have hn' : x.parser.st = .params → x.parser.pst ≠ .start → p'.n = x.parser.n := fun _ => hn
  refine ⟨storeSafe_silent inv hn', inv.of_values hst (fun _ hm => nomatch hm) hidle ?_ ?_⟩
  · rw [noteStorage_silent hn']
    constructor
    · exact inv.buffer.fill_le
    · exact inv.buffer.within
    · exact fun i hi => (inv.buffer.counted i hi).trans_le hcount
    · intro (h0 : p'.pcounter = 0)
      rw [h0] at hcount
      exact inv.buffer.fresh (UInt8.toNat_inj.mp (Nat.le_zero.mp hcount))
  · rw [putStep_silent hn']
    exact hparams

/-- The type of the parameter was looked up in the method that the message named. -/
theorem resolved_of_begins (inv : StorageInv x) (hst : x.parser.st = .params)
    (hok : StorageOk x (.put c)) (hb : beginsValue x.parser c = true) :
    x.note.resolved = true ∧ x.parser.pst = .val ∧ x.parser.pcounter.toNat < numberOfParamIndex := by
  have hres : x.note.resolved = true := inv.typed (hok.method c rfl hst hb) (by simp [hst])
  simp only [beginsValue, Bool.and_eq_true, beq_iff_eq, decide_eq_true_eq] at hb
  exact ⟨hres, hb.1.1.1, hb.1.1.2⟩

/-- A value begins: its index is stored and its counter taken. -/
theorem begin_step {p' : Parser} {n : UInt8} (inv : StorageInv x) (hst : x.parser.st = .params)
    (hok : StorageOk x (.put c)) (hb : beginsValue x.parser c = true)
    (hst' : p'.st = x.parser.st) (hpst : p'.pst ≠ .start)
    (hcount : p'.pcounter = x.parser.pcounter + 1)
    (hfill : x.note.fill + (p'.n - x.parser.n).toNat ≤ paramBufSize)
    (hopen : p'.pst.inString = true → ∃ start : Nat,
      start < x.note.fill + (p'.n - x.parser.n).toNat ∧ n.toNat = start ∧
      (start : Int) ∉ x.note.written) :
    StoreSafe x ⟨p', [.index x.parser.pcounter.toNat n]⟩ ∧
      StorageInv (putStep x ⟨p', [.index x.parser.pcounter.toNat n]⟩) := by
  obtain ⟨hres, hval, hlt⟩ := resolved_of_begins inv hst hok hb
  have hne : x.parser.pst ≠ .start := by simp [hval]
  have hcount' : p'.pcounter.toNat = x.parser.pcounter.toNat + 1 := by
    rw [hcount, UInt8.toNat_add]
    exact Nat.mod_eq_of_lt (by simp only [numberOfParamIndex] at hlt; simp; omega)
  have hpos : p'.pcounter ≠ 0 := by
    intro h0
    rw [h0] at hcount'
    simp at hcount'
  have hnote : (noteStorage x.note x.parser ⟨p', [.index x.parser.pcounter.toNat n]⟩).fill =
      x.note.fill + (p'.n - x.parser.n).toNat := noteStorage_fill hst hne
  have hidle : p'.st.awaitsValue = false := by rw [hst', hst]; rfl
  refine values_step inv hst ?_ hres (by rw [hnote]; exact hfill) ?_ ?_ (by simp only; omega) hpos
    hidle ?_
  · intro s hs
    obtain rfl := List.mem_singleton.mp hs
    rfl
  · intro off data hm
    cases List.mem_singleton.mp hm
  · intro i m hm
    obtain ⟨rfl, -⟩ := Store.index.inj (List.mem_singleton.mp hm)
    refine ⟨hlt, by simp only; omega, fun hi => ?_⟩
    exact absurd (inv.buffer.counted _ hi) (Nat.lt_irrefl _)
  · intro _
    constructor
    · exact fun h => absurd h hpst
    · intro _
      change p'.n.toNat = _ % 256
      rw [show (putStep x _).note.fill = _ from hnote]
      exact level_next ((inv.params hst).level hne)
    · intro hstr
      obtain ⟨start, hlt', hn, hfree⟩ := hopen hstr
      refine ⟨start, ?_, ?_, ?_⟩
      · rw [show (putStep x _).note.fill = _ from hnote]
        exact hlt'
      · rw [← hn]
        have hidx : p'.pcounter.toNat - 1 = x.parser.pcounter.toNat := by omega
        change (Function.update x.result.paramIndex x.parser.pcounter.toNat n
          (p'.pcounter.toNat - 1)).toNat = n.toNat
        rw [hidx, Function.update_self]
      · intro hw
        obtain hold | ⟨off, data, hm, -⟩ := mem_written hw
        · exact hfree hold
        · cases List.mem_singleton.mp hm
    · exact fun _ _ => ⟨(Bool.or_eq_true _ _).mpr (Or.inl hres), hpos⟩

/-- Bytes of an open value are stored. -/
theorem store_step {p' : Parser} {stores : List Store} (inv : StorageInv x)
    (hst : x.parser.st = .params) (hstart : x.parser.pst ≠ .start) (hval : x.parser.pst ≠ .val)
    (hstay : StaysWith x.parser p') (hstart' : p'.pst ≠ .start)
    (hfill : x.note.fill + (p'.n - x.parser.n).toNat ≤ paramBufSize)
    (hparam : ∀ s ∈ stores, ∃ off data, s = .param off data)
    (hbuf : ∀ off data, Store.param off data ∈ stores → 0 ≤ off ∧
      off + data.length ≤ x.note.fill + (p'.n - x.parser.n).toNat ∧
      ∀ o ∈ x.note.written, o < off ∨ off + data.length ≤ o)
    (hopen : p'.pst.inString = true → x.parser.pst.inString = true ∧
      ∀ off data, Store.param off data ∈ stores → (x.note.fill : Int) ≤ off) :
    StoreSafe x ⟨p', stores⟩ ∧ StorageInv (putStep x ⟨p', stores⟩) := by
  have hpar := inv.params hst
  obtain ⟨hres, hpos⟩ := hpar.checked hstart hval
  have hnote : (noteStorage x.note x.parser ⟨p', stores⟩).fill =
      x.note.fill + (p'.n - x.parser.n).toNat := noteStorage_fill hst hstart
  have hpos' : p'.pcounter ≠ 0 := by
    rw [hstay.pcounter]
    exact hpos
  have hv : ∀ s ∈ stores, s.isValue = true := by
    intro s hs
    obtain ⟨off, data, rfl⟩ := hparam s hs
    rfl
  have hindex : ∀ i n, Store.index i n ∉ stores := by
    intro i n hm
    obtain ⟨off, data, h⟩ := hparam _ hm
    cases h
  refine values_step inv hst hv hres (by rw [hnote]; exact hfill) ?_
    (fun i n hm => absurd hm (hindex i n)) (by simp only [hstay.pcounter]; exact le_rfl) hpos'
    hstay.idle ?_
  · rw [hnote]
    exact hbuf
  · intro _
    constructor
    · exact fun h => absurd h hstart'
    · intro _
      change p'.n.toNat = _ % 256
      rw [show (putStep x _).note.fill = _ from hnote]
      exact level_next (hpar.level hstart)
    · intro hstr
      obtain ⟨hin, habove⟩ := hopen hstr
      obtain ⟨start, hlt, hidx, hfree⟩ := hpar.open_ hin
      refine ⟨start, ?_, ?_, ?_⟩
      · rw [show (putStep x _).note.fill = _ from hnote]
        omega
      · rw [← hidx]
        change ((x.result.applyAll stores).paramIndex (p'.pcounter.toNat - 1)).toNat = _
        rw [applyAll_paramIndex fun n => hindex _ n, hstay.pcounter]
        rfl
      · intro hw
        obtain hold | ⟨off, data, hm, hlo, -⟩ := mem_written hw
        · exact hfree hold
        · have := habove off data hm
          omega
    · exact fun _ _ => ⟨(Bool.or_eq_true _ _).mpr (Or.inl hres), hpos'⟩

theorem ParamSt.not_begin_of_string {s : ParamSt} (h : s.inString = true) : s ≠ .start ∧ s ≠ .val := by
  constructor <;> intro hs <;> rw [hs] at h <;> cases h

theorem ParamSt.not_begin_of_number {s : ParamSt} (h : s.inNumber = true) : s ≠ .start ∧ s ≠ .val := by
  constructor <;> intro hs <;> rw [hs] at h <;> cases h

theorem ParamSt.inString_of_number {s : ParamSt} (h : s.inNumber = true) : s.inString = false := by
  cases s <;> first | rfl | cases h

/-- Nothing was written to the bytes from the fill level on. -/
theorem StorageInv.free_above (inv : StorageInv x) {off : Int} {len : Nat}
    (h : (x.note.fill : Int) ≤ off) : ∀ o ∈ x.note.written, o < off ∨ off + len ≤ o := by
  intro o ho
  have := inv.buffer.within o ho
  omega

theorem free_at {written : List Int} {start : Nat} (hfree : (start : Int) ∉ written) :
    ∀ o ∈ written, o < start ∨ (start : Int) + 1 ≤ o := by
  intro o ho
  have hne : o ≠ start := fun h => hfree (h ▸ ho)
  omega

theorem claimed_one {n n' : UInt8} (h : n' = n + 1) : (n' - n).toNat = 1 := by
  rw [h]
  exact toNat_add_sub_self n 1

/-- `n` is the fill level itself while there is room. -/
theorem level_of_room {n : UInt8} {fill : Nat} (h : n.toNat = fill % 256) (hlt : fill < 256) :
    n.toNat = fill := h.trans (Nat.mod_eq_of_lt hlt)

theorem number_step {p' : Parser} (inv : StorageInv x) (hst : x.parser.st = .params)
    (hok : StorageOk x (.put c)) (hb : beginsValue x.parser c = true)
    (hst' : p'.st = x.parser.st) (hnum : p'.pst.inNumber = true)
    (hn : p'.n = x.parser.n ∨ p'.n = align4 x.parser.n)
    (hcount : p'.pcounter = x.parser.pcounter + 1) :
    StoreSafe x ⟨p', [.index x.parser.pcounter.toNat p'.n]⟩ ∧
      StorageInv (putStep x ⟨p', [.index x.parser.pcounter.toNat p'.n]⟩) := by
  obtain ⟨hstart', -⟩ := ParamSt.not_begin_of_number hnum
  obtain ⟨-, hval, -⟩ := resolved_of_begins inv hst hok hb
  have hlevel := (inv.params hst).level (by simp [hval])
  refine begin_step inv hst hok hb hst' hstart' hcount ?_ fun h => ?_
  · obtain hn | hn := hn
    · rw [hn, UInt8.sub_self]
      exact inv.buffer.fill_le
    · rw [hn]
      exact align4_fill hlevel inv.buffer.fill_le
  · rw [ParamSt.inString_of_number hnum] at h
    cases h

theorem string_step {p' : Parser} (inv : StorageInv x) (hst : x.parser.st = .params)
    (hok : StorageOk x (.put c)) (hb : beginsValue x.parser c = true)
    (hst' : p'.st = x.parser.st) (hstr : p'.pst.inString = true)
    (hroom : x.note.fill + 1 ≤ 256) (hn : p'.n = x.parser.n + 1)
    (hcount : p'.pcounter = x.parser.pcounter + 1) :
    StoreSafe x ⟨p', [.index x.parser.pcounter.toNat x.parser.n]⟩ ∧
      StorageInv (putStep x ⟨p', [.index x.parser.pcounter.toNat x.parser.n]⟩) := by
  obtain ⟨hstart', -⟩ := ParamSt.not_begin_of_string hstr
  obtain ⟨-, hval, -⟩ := resolved_of_begins inv hst hok hb
  have hlevel := level_of_room ((inv.params hst).level (by simp [hval])) hroom
  have hone := claimed_one hn
  refine begin_step inv hst hok hb hst' hstart' hcount (by rw [hone]; exact hroom) fun _ => ?_
  refine ⟨x.note.fill, by omega, hlevel, fun hw => ?_⟩
  have := inv.buffer.within _ hw
  omega

theorem byte_step {p' : Parser} {v : UInt8} (inv : StorageInv x) (hst : x.parser.st = .params)
    (hstr : x.parser.pst.inString = true) (hstay : StaysWith x.parser p')
    (hstr' : p'.pst.inString = true) (hroom : x.note.fill + 1 ≤ 256)
    (hn : p'.n = x.parser.n + 1) :
    StoreSafe x ⟨p', [.param x.parser.n.toNat [v]]⟩ ∧
      StorageInv (putStep x ⟨p', [.param x.parser.n.toNat [v]]⟩) := by
  obtain ⟨hstart, hval⟩ := ParamSt.not_begin_of_string hstr
  obtain ⟨hstart', -⟩ := ParamSt.not_begin_of_string hstr'
  have hlevel := level_of_room ((inv.params hst).level hstart) hroom
  have hone := claimed_one hn
  refine store_step inv hst hstart hval hstay hstart' (by rw [hone]; exact hroom)
    (fun s hs => ⟨_, _, List.mem_singleton.mp hs⟩) ?_ fun _ => ⟨hstr, ?_⟩
  · intro off data hm
    obtain ⟨rfl, rfl⟩ := Store.param.inj (List.mem_singleton.mp hm)
    rw [hone, hlevel, List.length_singleton]
    exact ⟨by omega, by omega, inv.free_above le_rfl⟩
  · intro off data hm
    obtain ⟨rfl, -⟩ := Store.param.inj (List.mem_singleton.mp hm)
    rw [hlevel]

theorem numberEnd_step {p' : Parser} {size : UInt8} {data : List UInt8} (inv : StorageInv x)
    (hst : x.parser.st = .params) (hnum : x.parser.pst.inNumber = true)
    (hstay : StaysWith x.parser p') (hstart' : p'.pst ≠ .start) (hstr' : p'.pst.inString = false)
    (hlen : data.length = size.toNat) (hroom : x.note.fill + (size.toNat + 1) ≤ 256)
    (hn : p'.n = x.parser.n + size) :
    StoreSafe x ⟨p', [.param (((x.parser.n + size).toNat : Int) - size.toNat) data]⟩ ∧
      StorageInv (putStep x
        ⟨p', [.param (((x.parser.n + size).toNat : Int) - size.toNat) data]⟩) := by
  obtain ⟨hstart, hval⟩ := ParamSt.not_begin_of_number hnum
  have hlevel := level_of_room ((inv.params hst).level hstart) (by omega)
  have hsize : (p'.n - x.parser.n).toNat = size.toNat := by
    rw [hn]
    exact toNat_add_sub_self _ size
  -- one byte is left, so that the end of the number does not wrap
  have hend : (x.parser.n + size).toNat = x.note.fill + size.toNat := by
    rw [UInt8.toNat_add]
    omega
  refine store_step inv hst hstart hval hstay hstart'
    (by simp only [hsize, paramBufSize]; omega) (fun s hs => ⟨_, _, List.mem_singleton.mp hs⟩) ?_
    fun h => ?_
  · intro off d hm
    obtain ⟨rfl, rfl⟩ := Store.param.inj (List.mem_singleton.mp hm)
    exact ⟨by omega, by omega, inv.free_above (by omega)⟩
  · rw [hstr'] at h
    cases h

theorem strEnd_step {p' : Parser} {len : UInt8} (inv : StorageInv x)
    (hst : x.parser.st = .params) (hstr : x.parser.pst.inString = true)
    (hstay : StaysWith x.parser p') (hnext : p'.pst = .next) (hroom : x.note.fill + 1 ≤ 256)
    (hn : p'.n = x.parser.n + 1) :
    StoreSafe x ⟨p', [.param x.parser.n.toNat [0],
        .param (stringIndex x.parser x.result).toNat [len]]⟩ ∧
      StorageInv (putStep x ⟨p', [.param x.parser.n.toNat [0],
        .param (stringIndex x.parser x.result).toNat [len]]⟩) := by
  obtain ⟨hstart, hval⟩ := ParamSt.not_begin_of_string hstr
  have hlevel := level_of_room ((inv.params hst).level hstart) hroom
  obtain ⟨start, hlt, hidx, hfree⟩ := (inv.params hst).open_ hstr
  have hone := claimed_one hn
  refine store_step inv hst hstart hval hstay (by simp [hnext]) (by rw [hone]; exact hroom)
    (fun s hs => ?_) ?_ fun h => ?_
  · obtain rfl | hs := List.mem_cons.mp hs
    · exact ⟨_, _, rfl⟩
    · exact ⟨_, _, List.mem_singleton.mp hs⟩
  · intro off d hm
    obtain hm | hm := List.mem_cons.mp hm
    · obtain ⟨rfl, rfl⟩ := Store.param.inj hm
      rw [hone, hlevel, List.length_singleton]
      exact ⟨by omega, by omega, inv.free_above le_rfl⟩
    · obtain ⟨rfl, rfl⟩ := Store.param.inj (List.mem_singleton.mp hm)
      rw [hone, hidx, List.length_singleton]
      exact ⟨by omega, by omega, free_at hfree⟩
  · rw [hnext] at h
    cases h

theorem bstrEnd_step {p' : Parser} {len : UInt8} (inv : StorageInv x)
    (hst : x.parser.st = .params) (hstr : x.parser.pst.inString = true)
    (hstay : StaysWith x.parser p') (hnext : p'.pst = .next) (hn : p'.n = x.parser.n) :
    StoreSafe x ⟨p', [.param (stringIndex x.parser x.result).toNat [len]]⟩ ∧
      StorageInv (putStep x ⟨p', [.param (stringIndex x.parser x.result).toNat [len]]⟩) := by
  obtain ⟨hstart, hval⟩ := ParamSt.not_begin_of_string hstr
  obtain ⟨start, hlt, hidx, hfree⟩ := (inv.params hst).open_ hstr
  have hzero : (p'.n - x.parser.n).toNat = 0 := by
    rw [hn, UInt8.sub_self]
    rfl
  refine store_step inv hst hstart hval hstay (by simp [hnext])
    (by rw [hzero]; exact inv.buffer.fill_le) (fun s hs => ⟨_, _, List.mem_singleton.mp hs⟩) ?_
    fun h => ?_
  · intro off d hm
    obtain ⟨rfl, rfl⟩ := Store.param.inj (List.mem_singleton.mp hm)
    rw [hzero, hidx, List.length_singleton]
    exact ⟨by omega, by omega, free_at hfree⟩
  · rw [hnext] at h
    cases h

/-- The step lemma inside the parameters, one case for each outcome of a character. -/
theorem param_step (inv : StorageInv x) (hst : x.parser.st = .params)
    (hok : StorageOk x (.put c)) (he : ParamEffect x.parser x.result c eff) :
    StoreSafe x eff ∧ StorageInv (putStep x eff) := by
  have hroom := hok.room c rfl hst
  have hpar := inv.params hst
  cases he with
  | fail h1 h2 h3 =>
    refine silent_step inv hst (fun _ => h2) (by rw [h1]; rfl) (by rw [h3]) fun h => ?_
    rw [h1] at h
    cases h
  | blank _ => exact silent_step inv hst (fun _ => rfl) (by rw [hst]; rfl) le_rfl fun _ => hpar
  | @enter p' hstart hstay hval hn =>
    have h0 := hpar.starting hstart
    refine silent_step inv hst (fun h => absurd hstart h) hstay.idle (by rw [hstay.pcounter])
      fun _ => ?_
    constructor
    · intro h
      rw [hval] at h
      cases h
    · intro _
      simp only [hn, inv.buffer.fresh h0]
      rfl
    · intro h
      rw [show p'.pst = .val from hval] at h
      cases h
    · exact fun _ h => absurd hval h
  | leave _ hlt hnext hn hcount =>
    refine silent_step inv hst (fun _ => hn) (by rw [hnext]; rfl) ?_ fun h => ?_
    · rw [hcount]
      simp only [numberOfParamIndex] at hlt
      simp
      omega
    · rw [hnext] at h
      cases h
  | number hb hst' hnum hn hcount => exact number_step inv hst hok hb hst' hnum hn hcount
  | string hb hst' hstr hneed hn hcount =>
    exact string_step inv hst hok hb hst' hstr (hneed ▸ hroom) hn hcount
  | quiet hstart hval hstay hstart' hstr hn =>
    refine silent_step inv hst (fun _ => hn) hstay.idle (by rw [hstay.pcounter]) fun _ => ?_
    constructor
    · exact fun h => absurd h hstart'
    · intro _
      simp only [hn]
      exact hpar.level hstart
    · intro h
      have hopen := hpar.open_ (hstr h)
      simp only [stringIndex, hstay.pcounter] at hopen ⊢
      exact hopen
    · intro _ _
      simp only [hstay.pcounter]
      exact hpar.checked hstart hval
  | byte hstr hstay hstr' hneed hn =>
    exact byte_step inv hst hstr hstay hstr' (hneed ▸ hroom) hn
  | numberEnd hnum hstay hstart' hstr' hlen hneed hn =>
    exact numberEnd_step inv hst hnum hstay hstart' hstr' hlen (hneed ▸ hroom) hn
  | strEnd hstr hstay hnext hneed hn =>
    exact strEnd_step inv hst hstr hstay hnext (hneed ▸ hroom) hn
  | bstrEnd hstr hstay hnext hn => exact bstrEnd_step inv hst hstr hstay hnext hn

theorem noteStorage_member_fill {h : StorageNote} {p : Parser} (hst : p.st ≠ .params) :
    (noteStorage h p eff).fill = h.fill := if_neg fun hc => hst hc.1

/-- What is stored outside of the parameters adds nothing to them. -/
theorem bufferInv_member {p' : Parser} {s : Store} (inv : StorageInv x)
    (hst : x.parser.st ≠ .params) (hs : s.isValue = false)
    (hc : p'.pcounter = x.parser.pcounter) :
    BufferInv (noteStorage x.note x.parser ⟨p', [s]⟩) p'.pcounter := by
  have hfill : (noteStorage x.note x.parser ⟨p', [s]⟩).fill = x.note.fill :=
    noteStorage_member_fill hst
  rw [hc]
  constructor
  · rw [hfill]
    exact inv.buffer.fill_le
  · intro o ho
    rw [hfill]
    obtain hold | ⟨off, data, hm, -⟩ := mem_written ho
    · exact inv.buffer.within o hold
    · obtain rfl := List.mem_singleton.mp hm
      cases hs
  · intro i hi
    obtain hold | ⟨n, hm⟩ := mem_indexed hi
    · exact inv.buffer.counted i hold
    · obtain rfl := List.mem_singleton.mp hm
      cases hs
  · rw [hfill]
    exact inv.buffer.fresh

theorem storeSafe_member {p' : Parser} {s : Store} (inv : StorageInv x)
    (hst : x.parser.st ≠ .params) (hs : s.isValue = false)
    (hid : s.isId = true → x.note.idStored = false)
    (hmethod : s.isId = false → x.note.resolved = false) :
    StoreSafe x ⟨p', [s]⟩ := by
  have hover : paramBufSize < (noteStorage x.note x.parser ⟨p', [s]⟩).fill → p'.st = .error := by
    rw [noteStorage_member_fill hst]
    exact fun h => absurd inv.buffer.fill_le (Nat.not_le.mpr h)
  have hvalue : ∀ t ∈ [s], t.isValue = true → x.note.resolved = true := by
    intro t ht hv
    rw [List.mem_singleton.mp ht, hs] at hv
    cases hv
  have hbuf : ∀ off data, Store.param off data ∈ [s] →
      0 ≤ off ∧ off + data.length ≤ paramBufSize := by
    intro off data hm
    rw [← List.mem_singleton.mp hm] at hs
    cases hs
  have hidx : ∀ i n, Store.index i n ∈ [s] → i < numberOfParamIndex := by
    intro i n hm
    rw [← List.mem_singleton.mp hm] at hs
    cases hs
  have hnever : ∀ {q : Prop}, x.note.resolved = false → x.note.resolved = true → q := by
    intro q h1 h2
    cases h1.symm.trans h2
  cases s with
  | param off data => cases hs
  | index i n => cases hs
  | id v =>
    refine ⟨hbuf, hidx, fun o ho => ?_, fun _ _ => rfl, fun h => ?_, fun _ => ⟨rfl, rfl, rfl⟩, hvalue,
      hover⟩
    · have := inv.buffer.within o ho
      exact storeBytes_outside (Or.inr (by simp only [u32Bytes, List.length_cons, List.length_nil]; omega))
    · cases (hid rfl).symm.trans h
  | method d i =>
    exact ⟨hbuf, hidx, fun _ _ => rfl, fun _ _ => rfl, fun _ _ _ => rfl, hnever (hmethod rfl), hvalue,
      hover⟩
  | badMethod =>
    exact ⟨hbuf, hidx, fun _ _ => rfl, fun _ _ => rfl, fun _ _ _ => rfl, hnever (hmethod rfl), hvalue,
      hover⟩

/-- The step lemma outside of the parameters. -/
theorem member_step (inv : StorageInv x) (hst : x.parser.st ≠ .params)
    (hok : StorageOk x (.put c)) (he : MemberEffect x.parser x.result c eff) :
    StoreSafe x eff ∧ StorageInv (putStep x eff) := by
  have hcount : ∀ {p' : Parser}, p'.pcounter = x.parser.pcounter →
      BufferInv x.note p'.pcounter := fun h => h ▸ inv.buffer
  have hunresolved : x.parser.expects .method = true → x.note.resolved = false := by
    intro hm
    cases hr : x.note.resolved with
    | false => rfl
    | true => cases (inv.resolved hr).symm.trans (inv.methodOnce hm)
  cases he with
  | @silent p' hst' hc herr hm hp =>
    have hn : x.parser.st = .params → x.parser.pst ≠ .start → p'.n = x.parser.n :=
      fun h => absurd h hst
    refine ⟨storeSafe_silent inv hn, ?_⟩
    rw [putStep_silent hn]
    exact
      { buffer := hcount hc
        params := fun h => absurd h hst'
        paramsOnce := fun h => hc.trans ((hp h).elim inv.paramsOnce id)
        methodOnce := fun h => (hm h).elim inv.methodOnce id
        typed := fun ht hne => inv.typed ht fun h => hne (herr h)
        resolved := inv.resolved }
  | @enter p' hp hst' hpst hc =>
    have hn : x.parser.st = .params → x.parser.pst ≠ .start → p'.n = x.parser.n :=
      fun h => absurd h hst
    have hidle : p'.st.awaitsValue = false := by rw [hst']; rfl
    refine ⟨storeSafe_silent inv hn, ?_⟩
    rw [putStep_silent hn]
    constructor
    · exact hcount hc
    · intro _
      constructor
      · exact fun _ => hc.trans (inv.paramsOnce hp)
      · exact fun h => absurd hpst h
      · intro h
        rw [show p'.pst = .start from hpst] at h
        cases h
      · exact fun h => absurd hpst h
    · intro h
      rw [Parser.expects_of_idle hidle] at h
      cases h
    · intro h
      rw [Parser.expects_of_idle hidle] at h
      cases h
    · intro ht _
      refine inv.typed ht fun herr => ?_
      simp [Parser.expects, herr, ParserSt.awaitsValue] at hp
    · exact inv.resolved
  | @id p' v hval hname hend hst' hidle hc =>
    refine ⟨storeSafe_member inv hst rfl (fun _ => hok.idOnce c rfl hval hname hend)
      (fun h => absurd h.symm Bool.false_ne_true), ?_⟩
    refine
      { buffer := bufferInv_member inv hst rfl hc
        params := fun h => absurd h hst'
        paramsOnce := fun h => ?_
        methodOnce := fun h => ?_
        typed := fun ht _ => ?_
        resolved := fun h => inv.resolved ((Bool.or_false _).symm.trans h) }
    · cases (Parser.expects_of_idle hidle).symm.trans h
    · cases (Parser.expects_of_idle hidle).symm.trans h
    · exact (Bool.or_false _).trans (inv.typed ht (by simp [hval]))
  | @method p' d i hm hst' hc =>
    have hidle : p'.st.awaitsValue = false := by rw [hst']; rfl
    refine ⟨storeSafe_member inv hst rfl (fun h => absurd h Bool.false_ne_true) fun _ => hunresolved hm, ?_⟩
    refine
      { buffer := bufferInv_member inv hst rfl hc
        params := fun h => ?_
        paramsOnce := fun h => ?_
        methodOnce := fun h => ?_
        typed := fun _ _ => Bool.or_true _
        resolved := fun _ => rfl }
    · cases hst'.symm.trans h
    · cases (Parser.expects_of_idle hidle).symm.trans h
    · cases (Parser.expects_of_idle hidle).symm.trans h
  | @badMethod p' hm hst' hc =>
    have hidle : p'.st.awaitsValue = false := by rw [hst']; rfl
    refine ⟨storeSafe_member inv hst rfl (fun h => absurd h Bool.false_ne_true) fun _ => hunresolved hm, ?_⟩
    refine
      { buffer := bufferInv_member inv hst rfl hc
        params := fun h => ?_
        paramsOnce := fun h => ?_
        methodOnce := fun h => ?_
        typed := fun _ hne => absurd hst' hne
        resolved := fun _ => rfl }
    · cases hst'.symm.trans h
    · cases (Parser.expects_of_idle hidle).symm.trans h
    · cases (Parser.expects_of_idle hidle).symm.trans h

/-- The step lemma: a character that meets the condition is stored safely and keeps the
invariant. -/
theorem put_step (inv : StorageInv x) (hok : StorageOk x (.put c))
    (h : putChar tbl x.parser x.result c = some eff) :
    StoreSafe x eff ∧ StorageInv (putStep x eff) := by
  by_cases hst : x.parser.st = .params
  · refine param_step inv hst hok (putcharParams_effect hst ?_)
    rw [putChar, hst] at h
    exact h
  · exact member_step inv hst hok (putChar_effect hst h)

end

theorem storage_invariant {tbl : List JsonRpcClassDef} {x : RpcState}
    (h : (storageSystem tbl).Reaches StorageOk x) : StorageInv x := by
  refine h.invariant (P := StorageInv) ?_ ?_
  · intro x ⟨p, r, hx⟩
    rw [hx]
    exact .beginMessage p r
  · intro x e x' inv hok hs
    cases e with
    | init =>
      obtain rfl := Option.some.inj hs
      exact .beginMessage _ _
    | put c =>
      obtain ⟨eff, he, rfl⟩ := Option.map_eq_some_iff.mp hs
      exact (put_step inv hok he).2

/-- In every run of messages that fit, name their method before its parameters and their id
once, every store of every character is safe. -/
theorem param_storage_safe (tbl : List JsonRpcClassDef) {x : RpcState} {c : UInt8} {eff : Effect}
    (h : (storageSystem tbl).Reaches StorageOk x) (hok : StorageOk x (.put c))
    (he : putChar tbl x.parser x.result c = some eff) : StoreSafe x eff :=
  (put_step (storage_invariant h) hok he).1

/-- One class `a:b` with a method `f` of a string and an integer. -/
def exampleTable : List JsonRpcClassDef := [⟨[0x61], [0x62], [⟨[0x66], [0x73, 0x64]⟩]⟩]

def exampleStart : RpcState :=
  beginMessage ⟨.start, .start, .unknown, 0, [], 0, 0, 0, 0, 0, 0⟩
    ⟨.unknown, 0, fun _ => 0, fun _ => 0, none⟩

theorem exampleStart_init : (storageSystem exampleTable).init exampleStart := ⟨_, _, rfl⟩

/-- `{"id":7,"method":"a:b:f","params":["` -/
def messageHead : List UInt8 :=
  [0x7b, 0x22, 0x69, 0x64, 0x22, 0x3a, 0x37, 0x2c, 0x22, 0x6d, 0x65, 0x74, 0x68, 0x6f, 0x64,
    0x22, 0x3a, 0x22, 0x61, 0x3a, 0x62, 0x3a, 0x66, 0x22, 0x2c, 0x22, 0x70, 0x61, 0x72, 0x61,
    0x6d, 0x73, 0x22, 0x3a, 0x5b, 0x22]

def storageOkb (x : RpcState) : RpcEvent → Bool
  | .init => true
  | .put c =>
      (x.parser.st != .params ||
        (decide (x.note.fill + roomNeeded x.parser x.result c ≤ paramBufSize) &&
          (!beginsValue x.parser c || x.result.type == .method))) &&
      (!(x.parser.st == .valUint && x.parser.nameId == .id && endsUint c) || !x.note.idStored)

theorem storageOk_of_b (x : RpcState) (e : RpcEvent) (h : storageOkb x e = true) :
    StorageOk x e := by
  cases e with
  | init => exact ⟨fun _ h => (nomatch h), fun _ h => (nomatch h), fun _ h => (nomatch h)⟩
  | put c =>
    simp only [storageOkb, Bool.and_eq_true, Bool.or_eq_true, bne_iff_ne, ne_eq,
      decide_eq_true_eq, Bool.not_eq_true', beq_iff_eq] at h
    obtain ⟨hparams, hid⟩ := h
    constructor
    · intro d hd hst
      obtain rfl := RpcEvent.put.inj hd
      exact (hparams.resolve_left fun hne => hne hst).1
    · intro d hd hst hb
      obtain rfl := RpcEvent.put.inj hd
      refine (hparams.resolve_left fun hne => hne hst).2.resolve_left fun hnb => ?_
      rw [hb] at hnb
      cases hnb
    · intro d hd hst hn he
      obtain rfl := RpcEvent.put.inj hd
      refine hid.resolve_left fun hnot => ?_
      simp [hst, hn, he] at hnot

/-- The end of a string of two characters, in a message that meets the condition. -/
theorem param_storage_safe_string : ∃ x eff, (storageSystem exampleTable).Reaches StorageOk x ∧
    StorageOk x (.put chQuote) ∧ eff.stores.length = 2 ∧ StoreSafe x eff := by
  have hrun : ((storageSystem exampleTable).runChecked storageOkb exampleStart
      ((messageHead ++ [0x68, 0x69]).map .put)).any (fun x => storageOkb x (.put chQuote) &&
        (putChar exampleTable x.parser x.result chQuote).any fun eff => eff.stores.length == 2) =
      true := by decide +kernel
  obtain ⟨x, hx, hp⟩ := System.exists_of_runChecked storageOk_of_b exampleStart_init hrun
  obtain ⟨hok, heff⟩ := (Bool.and_eq_true _ _).mp hp
  obtain ⟨eff, he, hlen⟩ := (Option.any_eq_true _ _).mp heff
  have hok' := storageOk_of_b _ _ hok
  exact ⟨x, eff, hx, hok', beq_iff_eq.mp hlen, param_storage_safe exampleTable hx hok' he⟩

def Store.before (s : Store) : Bool :=
  match s with
  | .param off _ => decide (off < 0)
  | _ => false

/-- A string of 250 characters leaves 4 bytes. The integer behind it fits, but its end is 0
in eight bits, and it is written to the four bytes before the buffer: over the id. -/
theorem int_written_over_id : ¬ ∀ tbl x c eff, (storageSystem tbl).Reaches System.anyStep x →
    putChar tbl x.parser x.result c = some eff → StoreSafe x eff := by
  intro hall
  have hrun : ((storageSystem exampleTable).run exampleStart
      ((messageHead ++ List.replicate 250 0x61 ++ [0x22, 0x2c, 0x35]).map .put)).any
      (fun x => x.note.idStored &&
        (putChar exampleTable x.parser x.result chRightBracket).any fun eff =>
          eff.stores.any Store.before) = true := by decide +kernel
  obtain ⟨x, hx, hp⟩ := System.exists_of_run exampleStart_init hrun
  obtain ⟨-, heff⟩ := (Bool.and_eq_true _ _).mp hp
  obtain ⟨eff, he, hstore⟩ := (Option.any_eq_true _ _).mp heff
  obtain ⟨s, hs, hbefore⟩ := List.any_eq_true.mp hstore
  have hsafe := hall _ _ _ _ hx he
  cases s with
  | param off data =>
    have hneg : off < 0 := of_decide_eq_true hbefore
    have := (hsafe.inBuf off data hs).1
    omega
  | index i n => cases hbefore
  | id n => cases hbefore
  | method d i => cases hbefore
  | badMethod => cases hbefore

end MiMic.Json
