import MiMic.Lib.Ownership
import MiMic.Lib.Registry
import MiMic.Lib.System
import MiMic.Rpc.Handlers

/-!
# Object handles

The objects of a session stand in a table of 16 slots, and the client names them by the number
of the slot.
-/
namespace MiMic.Rpc

open Verif
open MiMic.Json

/-- A handler's object; the serial number tells the objects of a session apart. -/
structure Obj where
  cls : RpcClass
  serial : Nat
deriving DecidableEq, Repr

/-- `NUM_OF_OBJECTS`. -/
abbrev numOfObjects : Nat := 16

/-- `_objects`, beside it what was made, what was deleted and which numbers were answered. -/
structure ObjectTable where
  objects : List (Option Obj)
  made : List Obj
  deleted : List Obj
  handed : List (Nat × Obj)

namespace ObjectTable

/-- `newObjectArray`. -/
def empty : ObjectTable := ⟨List.replicate numOfObjects none, [], [], []⟩

/-- `ModJsonRpc::addObject`; a full table gives `none` for -1. -/
def addObject (t : ObjectTable) (o : Obj) : ObjectTable × Option Nat :=
  match t.objects.findIdx? Option.isNone with
  | some i => ({ t with objects := t.objects.set i (some o), handed := (i, o) :: t.handed }, some i)
  | none => (t, none)

/-- The slot that an id names; none is named by an id outside the table. -/
def slot (id : Int32) : Option Nat :=
  if 0 ≤ id.toInt ∧ id.toInt < numOfObjects then some id.toInt.toNat else none

/-- The object under an id. -/
def live (t : ObjectTable) (id : Int32) : Option Obj := (slot id).bind fun i => (t.objects[i]?).join

/-- `ModJsonRpc::removeObject`. -/
def removeObject (t : ObjectTable) (id : Int32) : ObjectTable × Bool :=
  match slot id with
  | none => (t, false)
  | some i =>
      match t.objects[i]? with
      | some (some o) =>
          ({ t with objects := t.objects.set i none, deleted := o :: t.deleted }, true)
      | _ => (t, false)

/-- `ModJsonRpc::getObject` does not look at the id: `none` when it reads outside the table or
through a NULL pointer. -/
def getObject (t : ObjectTable) (id : Int32) : Option Obj := t.live id

/-- `deleteObjectArray`. -/
def deleteObjectArray (t : ObjectTable) : ObjectTable :=
  { t with objects := [], deleted := heldKeys Option.toList t.objects ++ t.deleted }

end ObjectTable

def invalidParams : Int32 := -32602

/-- What a handler has the answer made of. -/
inductive Reply
  | result (fmt : List UInt8) (args : List FormatArg)
  | error (code : Int32)

/-- What the device and the environment give a handler. -/
structure Device where
  word : UInt32
  /-- The buffer that `gets` has filled. -/
  string : List UInt8
  bytes : Nat → UInt8
  env : List UInt8 × List UInt8 × List UInt8 × List UInt8

/-- The value of the byte parameter `i`. -/
def byteParam (r : RpcResult) (i : Nat) : UInt8 := (r.getByte i).getD 0

/-- The buffer that is filled for a byte parameter. -/
def deviceBytes (dev : Device) (n : Nat) : List UInt8 := (List.range n).map dev.bytes

def ResultKind.reply (r : RpcResult) (dev : Device) : ResultKind → Reply
  | .lookup => .result [] []
  | .void => .result [] []
  | .int => .result (textBytes "%d") [.word dev.word]
  | .length i =>
      .result (textBytes "%d") [.word (((r.getByteArray i).map BufferRef.len).getD 0).toUInt32]
  | .string => .result (textBytes "\"%s\"") [.ptr dev.string]
  | .bytes i => .result (textBytes "\"%.*B\"")
      [.word (byteParam r i).toUInt32, .ptr (deviceBytes dev (byteParam r i).toNat)]
  | .intBytes i => .result (textBytes "%d,\"%.*B\"")
      [.word dev.word, .word (byteParam r i).toUInt32,
        .ptr (deviceBytes dev (byteParam r i).toNat)]

/-- What a handler leaves behind: the table, the object it acted on and its answer. -/
structure Outcome where
  table : ObjectTable
  touched : Option Obj
  reply : Reply

/-- `addNewObjectBatch` with a new object. -/
def addNewObjectBatch (t : ObjectTable) (cls : RpcClass) : Outcome :=
  let o : Obj := ⟨cls, t.made.length⟩
  match { t with made := o :: t.made }.addObject o with
  | (t, some i) => ⟨t, none, .result (textBytes "%d") [.word (UInt32.ofNat i)]⟩
  | (t, none) => ⟨{ t with deleted := o :: t.deleted }, none, .error invalidParams⟩

/-- The handler calls its object. -/
def ResultKind.acts : ResultKind → Bool
  | .lookup => false
  | _ => true

/-- A method with its parameters. The pointer is cast to the class of the handler, whatever it
is, so there is no behaviour to speak of when an object of another class is called. -/
def callObject (t : ObjectTable) (r : RpcResult) (dev : Device) (cls : RpcClass)
    (result : ResultKind) (o : Obj) : Option Outcome :=
  if result.acts then
    if o.cls = cls then some ⟨t, some o, result.reply r dev⟩ else none
  else some ⟨t, none, result.reply r dev⟩

/-- A handler at work; `none` when it reads outside the table or through a NULL pointer, or calls
an object of another class. -/
def Action.run (t : ObjectTable) (r : RpcResult) (dev : Device) : Action → Option Outcome
  | .new cls gs =>
      if paramsOk r gs then some (addNewObjectBatch t cls)
      else some ⟨t, none, .error invalidParams⟩
  | .method cls gs result =>
      match r.getInt32 0 with
      | none => some ⟨t, none, .error invalidParams⟩
      | some id =>
          (t.getObject id).bind fun o =>
            if paramsOk r gs then callObject t r dev cls result o
            else some ⟨t, none, .error invalidParams⟩
  | .disposeObject =>
      match r.getInt32 0 with
      | none => some ⟨t, none, .error invalidParams⟩
      | some id =>
          some ⟨(t.removeObject id).1, t.live id,
            .result (textBytes "%d") [.word (if (t.removeObject id).2 then 1 else 0)]⟩
  | .getInfo => some ⟨t, none, .result (textBytes "\"%s\",\"%s\",\"%s\",\"%s\",%d")
      [.ptr dev.env.1, .ptr dev.env.2.1, .ptr dev.env.2.2.1, .ptr dev.env.2.2.2, .word (0 - 1)]⟩

structure RpcSession where
  table : ObjectTable
  closed : Bool

inductive RpcEvent
  | request (act : Action) (r : RpcResult) (dev : Device)
  /-- The end of `dispatchRpc`. -/
  | close

def objectSystem : System RpcSession RpcEvent where
  init s := s = ⟨.empty, false⟩
  step s e :=
    if s.closed then none
    else
      match e with
      | .request act r dev => (act.run s.table r dev).map fun out => ⟨out.table, false⟩
      | .close => some ⟨s.table.deleteObjectArray, true⟩

/-- The object was made in this session, is not destroyed, and its constructor answered `i`. -/
structure ObjectTable.Names (t : ObjectTable) (i : Int) (o : Obj) : Prop where
  made : o ∈ t.made
  alive : o ∉ t.deleted
  answered : ∃ n : Nat, i = n ∧ (n, o) ∈ t.handed

/-- No object is destroyed twice, none is left at the end, and no two that live share an id. -/
structure RpcSession.Tidy (s : RpcSession) : Prop where
  once : s.table.deleted.Nodup
  made : ∀ o ∈ s.table.deleted, o ∈ s.table.made
  destroyed : s.closed = true → ∀ o ∈ s.table.made, o ∈ s.table.deleted
  named : ∀ o ∈ s.table.made, o ∉ s.table.deleted → ∃ i, s.table.Names i o
  distinct : ∀ i o o', s.table.Names i o → s.table.Names i o' → o = o'

/-- The object that a request asks for, where it may. -/
def Action.target (t : ObjectTable) (r : RpcResult) (act : Action) (o : Obj) : Prop :=
  ∃ id : Int32, r.getInt32 0 = some id ∧ t.Names id.toInt o ∧
    match act with
    | .method cls _ _ => o.cls = cls
    | .disposeObject => True
    | _ => False

/-- A refusal: an error, or the 0 of `disposeObject`. -/
def Reply.refuses : Reply → Prop
  | .error _ => True
  | .result fmt args => fmt = textBytes "%d" ∧ args = [.word 0]

/-- What is claimed of a request: only its target is acted on or destroyed, and without one it is
refused. -/
def Action.Behaves (t : ObjectTable) (r : RpcResult) (dev : Device) (act : Action) : Prop :=
  ∃ out, act.run t r dev = some out ∧ (∀ o, out.touched = some o → act.target t r o) ∧
    (∀ o ∈ out.table.deleted, o ∉ t.deleted → o ∈ t.made → act = .disposeObject ∧ act.target t r o) ∧
    (act = .disposeObject ∨ (∃ cls gs result, act = .method cls gs result) →
      (¬ ∃ o, act.target t r o) → out.reply.refuses ∧ out.table = t)

/-- A method is called with the id of an object of its class; a call that other parameters
refuse may name any object. -/
def Action.Ok (t : ObjectTable) (r : RpcResult) : Action → Prop
  | .method cls gs _ => ∀ id, r.getInt32 0 = some id →
      ∃ o, t.Names id.toInt o ∧ (paramsOk r gs = true → o.cls = cls)
  | _ => True

def RpcEvent.Ok (s : RpcSession) : RpcEvent → Prop
  | .request act r _ => act.Ok s.table r
  | .close => True

/-- Every object made is in one slot or destroyed, and the slots are those answered. -/
structure TableInv (t : ObjectTable) : Prop where
  length : t.objects.length = numOfObjects
  balanced : Balanced t.made (heldKeys Option.toList t.objects ++ t.deleted)
  serial : ∀ o ∈ t.made, o.serial < t.made.length
  answered : ∀ i o, t.objects[i]? = some (some o) → (i, o) ∈ t.handed
  handed : ∀ i o, (i, o) ∈ t.handed → o ∈ t.made ∧
    (o ∉ t.deleted → t.objects[i]? = some (some o))

namespace TableInv

theorem empty : TableInv .empty where
  length := rfl
  balanced := by
    change Balanced [] (heldKeys Option.toList (List.replicate numOfObjects none) ++ [])
    rw [heldKeys_replicate _ rfl]
    exact .nil
  serial := fun o h => nomatch h
  answered := by
    intro i o h
    have hmem : some o ∈ List.replicate numOfObjects (none : Option Obj) := List.mem_of_getElem? h
    exact nomatch List.eq_of_mem_replicate hmem
  handed := fun i o h => nomatch h

variable {t : ObjectTable}

theorem slot_eq {id : Int32} {i : Nat} (h : ObjectTable.slot id = some i) :
    id.toInt = i ∧ i < numOfObjects := by
  rw [ObjectTable.slot] at h
  split at h
  · next hid =>
    obtain rfl := Option.some.inj h
    omega
  · cases h

theorem live_eq {id : Int32} {o : Obj} : t.live id = some o ↔
    ∃ i, ObjectTable.slot id = some i ∧ t.objects[i]? = some (some o) := by
  rw [ObjectTable.live, Option.bind_eq_some_iff]
  simp only [Option.join_eq_some_iff]

theorem not_deleted (h : TableInv t) {i : Nat} {o : Obj} (ho : t.objects[i]? = some (some o)) :
    o ∈ t.made ∧ o ∉ t.deleted := by
  have hheld : o ∈ heldKeys Option.toList t.objects := mem_heldKeys ho (by simp)
  have hnodup := h.balanced.owners_nodup
  refine ⟨(h.balanced.mem_iff).mpr (List.mem_append_left _ hheld), fun hdel => ?_⟩
  exact (List.nodup_append.mp hnodup).2.2 o hheld o hdel rfl

/-- A live object is named by its slot. -/
theorem names_of_slot (h : TableInv t) {i : Nat} {o : Obj} (ho : t.objects[i]? = some (some o)) :
    t.Names i o :=
  ⟨(h.not_deleted ho).1, (h.not_deleted ho).2, i, rfl, h.answered i o ho⟩

theorem slot_of_names (h : TableInv t) {i : Int} {o : Obj} (hn : t.Names i o) :
    ∃ n : Nat, i = n ∧ n < numOfObjects ∧ t.objects[n]? = some (some o) := by
  obtain ⟨n, rfl, hmem⟩ := hn.answered
  have hslot := (h.handed n o hmem).2 hn.alive
  have hlt := (List.getElem?_eq_some_iff.mp hslot).1
  exact ⟨n, rfl, by rw [← h.length]; exact hlt, hslot⟩

/-- The lookup of the code finds what an id names. -/
theorem live_iff (h : TableInv t) {id : Int32} {o : Obj} :
    t.live id = some o ↔ t.Names id.toInt o := by
  constructor
  · intro hl
    obtain ⟨i, hs, ho⟩ := live_eq.mp hl
    rw [(slot_eq hs).1]
    exact h.names_of_slot ho
  · intro hn
    obtain ⟨n, hid, hlt, ho⟩ := h.slot_of_names hn
    have hs : ObjectTable.slot id = some n := by
      rw [ObjectTable.slot, if_pos (by omega), hid]
      rfl
    exact live_eq.mpr ⟨n, hs, ho⟩

theorem names_unique (h : TableInv t) {i : Int} {o o' : Obj} (hn : t.Names i o)
    (hn' : t.Names i o') : o = o' := by
  obtain ⟨n, rfl, -, ho⟩ := h.slot_of_names hn
  obtain ⟨m, hm, -, ho'⟩ := h.slot_of_names hn'
  obtain rfl : n = m := by omega
  exact Option.some.inj (Option.some.inj (ho.symm.trans ho'))

theorem exists_name (h : TableInv t) {o : Obj} (hmade : o ∈ t.made) (hlive : o ∉ t.deleted) :
    ∃ i, t.Names i o := by
  have hmem := h.balanced.mem_iff.mp hmade
  obtain ⟨i, a, hi, ha⟩ := exists_of_mem_heldKeys ((List.mem_append.mp hmem).resolve_right hlive)
  obtain rfl : a = some o := by simpa using ha
  exact ⟨i, h.names_of_slot hi⟩

/-- A new object in a free slot, or one that is deleted at once. -/
theorem addNewObjectBatch (h : TableInv t) (cls : RpcClass) :
    TableInv (addNewObjectBatch t cls).table := by
  have hfresh : (⟨cls, t.made.length⟩ : Obj) ∉ t.made := fun hmem => Nat.lt_irrefl _ (h.serial _ hmem)
  have hserial : ∀ o ∈ (⟨cls, t.made.length⟩ : Obj) :: t.made,
      o.serial < ((⟨cls, t.made.length⟩ : Obj) :: t.made).length := by
    intro o ho
    rw [List.length_cons]
    rcases List.mem_cons.mp ho with rfl | ho
    · exact Nat.lt_succ_self _
    · exact Nat.lt_succ_of_lt (h.serial o ho)
  have hhanded : ∀ i o, (i, o) ∈ t.handed → o ≠ ⟨cls, t.made.length⟩ := by
    rintro i o hmem rfl
    exact hfresh (h.handed i _ hmem).1
  rw [Rpc.addNewObjectBatch, ObjectTable.addObject]
  cases hfree : t.objects.findIdx? Option.isNone with
  | some i =>
    obtain ⟨hlt, hnone, -⟩ := List.findIdx?_eq_some_iff_getElem.mp hfree
    have hslot : t.objects[i]? = some none := by
      rw [List.getElem?_eq_getElem hlt, Option.isNone_iff_eq_none.mp hnone]
    refine ⟨?_, ?_, hserial, ?_, ?_⟩
    · simpa using h.length
    · exact h.balanced.alloc hfresh ((heldKeys_acquire hslot (by simp)).append_right _)
    · intro j o hj
      by_cases hij : i = j
      · subst hij
        rw [List.getElem?_set_self hlt] at hj
        obtain rfl := Option.some.inj (Option.some.inj hj)
        exact List.mem_cons_self
      · rw [List.getElem?_set_ne hij] at hj
        exact List.mem_cons_of_mem _ (h.answered j o hj)
    · intro j o hj
      rcases List.mem_cons.mp hj with hj | hj
      · obtain ⟨rfl, rfl⟩ := Prod.mk.inj hj
        exact ⟨List.mem_cons_self, fun _ => List.getElem?_set_self hlt⟩
      · obtain ⟨hmade, hlive⟩ := h.handed j o hj
        refine ⟨List.mem_cons_of_mem _ hmade, fun hdel => ?_⟩
        have hij : i ≠ j := by
          rintro rfl
          rw [hlive hdel] at hslot
          cases hslot
        rw [List.getElem?_set_ne hij]
        exact hlive hdel
  | none =>
    refine ⟨h.length, ?_, hserial, h.answered, ?_⟩
    · exact h.balanced.alloc hfresh List.perm_middle
    · intro j o hj
      obtain ⟨hmade, hlive⟩ := h.handed j o hj
      exact ⟨List.mem_cons_of_mem _ hmade, fun hdel => hlive fun hmem => hdel (List.mem_cons_of_mem _ hmem)⟩

theorem removeObject (h : TableInv t) (id : Int32) : TableInv (t.removeObject id).1 := by
  rw [ObjectTable.removeObject]
  split
  · exact h
  · next i hs =>
    split
    · next o ho =>
      refine ⟨?_, ?_, h.serial, ?_, ?_⟩
      · simpa using h.length
      · refine h.balanced.transfer ?_
        have hkeys : (Option.toList (some o)).Perm (o :: Option.toList none) := by simp
        have hrel := heldKeys_release ho hkeys
        exact (hrel.append_right t.deleted).trans List.perm_middle.symm
      · intro j o' hj
        by_cases hij : i = j
        · subst hij
          rw [List.getElem?_set_self (List.getElem?_eq_some_iff.mp ho).1] at hj
          cases hj
        · rw [List.getElem?_set_ne hij] at hj
          exact h.answered j o' hj
      · intro j o' hj
        obtain ⟨hmade, hlive⟩ := h.handed j o' hj
        refine ⟨hmade, fun hdel => ?_⟩
        have hslot := hlive fun hmem => hdel (List.mem_cons_of_mem _ hmem)
        have hij : i ≠ j := by
          rintro rfl
          rw [ho] at hslot
          obtain rfl := Option.some.inj (Option.some.inj hslot)
          exact hdel List.mem_cons_self
        rw [List.getElem?_set_ne hij]
        exact hslot
    · exact h

end TableInv

section

variable {t : ObjectTable} {r : RpcResult} {dev : Device}

/-- What is deleted by `removeObject` is the object under the id. -/
theorem removeObject_cases (t : ObjectTable) (id : Int32) :
    (t.live id = none ∧ t.removeObject id = (t, false)) ∨
      ∃ o, t.live id = some o ∧ (t.removeObject id).1.deleted = o :: t.deleted := by
  rw [ObjectTable.removeObject, ObjectTable.live]
  cases ObjectTable.slot id with
  | none => exact Or.inl ⟨rfl, rfl⟩
  | some i =>
    rw [Option.bind_some]
    cases ho : t.objects[i]? with
    | none => exact Or.inl ⟨rfl, by simp only [ho]⟩
    | some a =>
      cases a with
      | none => exact Or.inl ⟨rfl, by simp only [ho]⟩
      | some o => exact Or.inr ⟨o, rfl, by simp only [ho]⟩

theorem addNewObjectBatch_deleted {cls : RpcClass} {o : Obj}
    (ho : o ∈ (addNewObjectBatch t cls).table.deleted) : o ∈ t.deleted ∨ o = ⟨cls, t.made.length⟩ := by
  rw [addNewObjectBatch, ObjectTable.addObject] at ho
  cases hfree : t.objects.findIdx? Option.isNone with
  | some i =>
    simp only [hfree] at ho
    exact Or.inl ho
  | none =>
    simp only [hfree] at ho
    exact (List.mem_cons.mp ho).symm

/-- An answer that leaves the table alone and touches nothing. -/
theorem behaves_refused {act : Action}
    (h : act.run t r dev = some ⟨t, none, .error invalidParams⟩) : act.Behaves t r dev :=
  ⟨_, h, (fun _ h => nomatch h), (fun _ hdel hnot => absurd hdel hnot), fun _ _ => ⟨trivial, rfl⟩⟩

theorem behaves_dispose (h : TableInv t) : Action.Behaves t r dev .disposeObject := by
  cases hid : r.getInt32 0 with
  | none => exact behaves_refused (by simp only [Action.run, hid])
  | some id =>
    have hrun : Action.run t r dev .disposeObject = some ⟨(t.removeObject id).1, t.live id,
        .result (textBytes "%d") [.word (if (t.removeObject id).2 then 1 else 0)]⟩ := by
      simp only [Action.run, hid]
    have htarget : ∀ o, t.live id = some o → Action.target t r .disposeObject o :=
      fun o ho => ⟨id, hid, h.live_iff.mp ho, trivial⟩
    refine ⟨_, hrun, htarget, ?_, ?_⟩
    · intro o hdel hnot _
      rcases removeObject_cases t id with ⟨-, hs⟩ | ⟨o', ho', hs⟩
      · rw [hs] at hdel
        exact absurd hdel hnot
      · rw [hs] at hdel
        rcases List.mem_cons.mp hdel with rfl | hdel
        · exact ⟨rfl, htarget o ho'⟩
        · exact absurd hdel hnot
    · intro _ hno
      rcases removeObject_cases t id with ⟨-, hs⟩ | ⟨o', ho', -⟩
      · rw [hs]
        exact ⟨⟨rfl, rfl⟩, rfl⟩
      · exact absurd ⟨o', htarget o' ho'⟩ hno

theorem behaves_new (h : TableInv t) (cls : RpcClass) (gs : List Getter) :
    Action.Behaves t r dev (.new cls gs) := by
  by_cases hok : paramsOk r gs = true
  · have hrun : Action.run t r dev (.new cls gs) = some (addNewObjectBatch t cls) := if_pos hok
    refine ⟨_, hrun, ?_, ?_, ?_⟩
    · intro o ho
      have hnone : (addNewObjectBatch t cls).touched = none := by
        rw [addNewObjectBatch, ObjectTable.addObject]
        cases t.objects.findIdx? Option.isNone <;> rfl
      rw [hnone] at ho
      cases ho
    · intro o hdel hnot hmade
      rcases addNewObjectBatch_deleted hdel with hdel | rfl
      · exact absurd hdel hnot
      · exact absurd (h.serial _ hmade) (Nat.lt_irrefl _)
    · rintro (hd | ⟨_, _, _, hm⟩)
      · cases hd
      · cases hm
  · exact behaves_refused (if_neg hok)

theorem callObject_same {cls : RpcClass} {result : ResultKind} {o : Obj} (h : o.cls = cls) :
    callObject t r dev cls result o =
      some ⟨t, if result.acts then some o else none, result.reply r dev⟩ := by
  rw [callObject, if_pos h]
  split_ifs <;> rfl

/-- An object of another class is not called, but what looks it up does not refuse it. -/
theorem callObject_other {cls : RpcClass} {result : ResultKind} {o : Obj} {out : Outcome}
    (h : o.cls ≠ cls) (hc : callObject t r dev cls result o = some out) :
    result = .lookup ∧ out.reply = .result [] [] := by
  rw [callObject, if_neg h] at hc
  cases result with
  | lookup =>
    obtain rfl := Option.some.inj hc
    exact ⟨rfl, rfl⟩
  | _ => cases hc

theorem callObject_table {cls : RpcClass} {result : ResultKind} {o : Obj} {out : Outcome}
    (hc : callObject t r dev cls result o = some out) :
    out.table = t ∧ out.reply = result.reply r dev := by
  rw [callObject] at hc
  split_ifs at hc <;> obtain rfl := Option.some.inj hc <;> exact ⟨rfl, rfl⟩

theorem behaves_method_iff (h : TableInv t) (cls : RpcClass) (gs : List Getter)
    (result : ResultKind) : Action.Behaves t r dev (.method cls gs result) ↔
      Action.Ok t r (.method cls gs result) := by
  cases hid : r.getInt32 0 with
  | none =>
    refine ⟨fun _ id h => ?_, fun _ => behaves_refused (by simp only [Action.run, hid])⟩
    rw [hid] at h
    cases h
  | some id =>
    have hrun : Action.run t r dev (.method cls gs result) = (t.live id).bind fun o =>
        if paramsOk r gs then callObject t r dev cls result o
        else some ⟨t, none, .error invalidParams⟩ := by
      simp only [Action.run, hid, ObjectTable.getObject]
    constructor
    · rintro ⟨out, hout, -, -, hrefuse⟩ id' hid'
      obtain rfl : id = id' := Option.some.inj (hid.symm.trans hid')
      rw [hrun] at hout
      obtain ⟨o, ho, hout⟩ := Option.bind_eq_some_iff.mp hout
      refine ⟨o, h.live_iff.mp ho, fun hok => ?_⟩
      rw [if_pos hok] at hout
      by_contra hcls
      -- the id names nothing that the method may act on, and yet it is not refused
      have hno : ¬ ∃ o, Action.target t r (.method cls gs result) o := by
        rintro ⟨o', id', hid', hn, hcls'⟩
        obtain rfl : id = id' := Option.some.inj (hid.symm.trans hid')
        rw [h.names_unique hn (h.live_iff.mp ho)] at hcls'
        exact hcls hcls'
      have hreply := (hrefuse (Or.inr ⟨cls, gs, result, rfl⟩) hno).1
      rw [(callObject_other hcls hout).2] at hreply
      exact absurd hreply.2 (by decide)
    · intro hok
      obtain ⟨o, hn, hcls⟩ := hok id hid
      rw [h.live_iff.mpr hn, Option.bind_some] at hrun
      by_cases hp : paramsOk r gs = true
      · rw [if_pos hp, callObject_same (hcls hp)] at hrun
        have htarget : Action.target t r (.method cls gs result) o := ⟨id, hid, hn, hcls hp⟩
        refine ⟨_, hrun, ?_, fun _ hdel hnot => absurd hdel hnot, fun _ hno => absurd ⟨o, htarget⟩ hno⟩
        intro o' ho'
        obtain ⟨-, rfl⟩ : _ ∧ o = o' := by simpa using ho'
        exact htarget
      · rw [if_neg hp] at hrun
        exact behaves_refused hrun

theorem behaves_iff (h : TableInv t) (act : Action) : act.Behaves t r dev ↔ act.Ok t r := by
  cases act with
  | new cls gs => exact ⟨fun _ => trivial, fun _ => behaves_new h cls gs⟩
  | method cls gs result => exact behaves_method_iff h cls gs result
  | disposeObject => exact ⟨fun _ => trivial, fun _ => behaves_dispose h⟩
  | getInfo =>
    refine ⟨fun _ => trivial, fun _ => ⟨_, rfl, (fun _ h => nomatch h),
      (fun _ hdel hnot => absurd hdel hnot), ?_⟩⟩
    rintro (hd | ⟨_, _, _, hm⟩)
    · cases hd
    · cases hm

theorem tableInv_run {act : Action} {out : Outcome} (h : TableInv t)
    (hrun : act.run t r dev = some out) : TableInv out.table := by
  cases act with
  | new cls gs =>
    rw [Action.run] at hrun
    split at hrun <;> obtain rfl := Option.some.inj hrun
    · exact h.addNewObjectBatch cls
    · exact h
  | method cls gs result =>
    rw [Action.run] at hrun
    split at hrun
    · obtain rfl := Option.some.inj hrun
      exact h
    · obtain ⟨o, -, hout⟩ := Option.bind_eq_some_iff.mp hrun
      split at hout
      · rw [(callObject_table hout).1]
        exact h
      · obtain rfl := Option.some.inj hout
        exact h
  | disposeObject =>
    rw [Action.run] at hrun
    split at hrun <;> obtain rfl := Option.some.inj hrun
    · exact h
    · exact h.removeObject _
  | getInfo =>
    obtain rfl := Option.some.inj hrun
    exact h

theorem TableInv.tidy (h : TableInv t) : RpcSession.Tidy ⟨t, false⟩ where
  once := (List.nodup_append.mp h.balanced.owners_nodup).2.1
  made := fun _ ho => h.balanced.mem_iff.mpr (List.mem_append_right _ ho)
  destroyed := fun hc => nomatch hc
  named := fun _ hmade hlive => h.exists_name hmade hlive
  distinct := fun _ _ _ hn hn' => h.names_unique hn hn'

/-- At the end every object is destroyed, once. -/
theorem TableInv.tidy_close (h : TableInv t) : RpcSession.Tidy ⟨t.deleteObjectArray, true⟩ := by
  have hall : ∀ o ∈ t.made, o ∈ t.deleteObjectArray.deleted := fun o ho => h.balanced.mem_iff.mp ho
  refine ⟨h.balanced.owners_nodup, fun o ho => h.balanced.mem_iff.mpr ho, fun _ => hall, ?_, ?_⟩
  · exact fun o hmade hlive => absurd (hall o hmade) hlive
  · exact fun i o o' hn _ => absurd (hall o hn.made) hn.alive

end

/-- In every session whose calls of methods name objects of their class the handles are kept in
order, and a request does what it should exactly if it is such a call. -/
theorem object_handles {s : RpcSession} (hs : objectSystem.Reaches RpcEvent.Ok s) :
    s.Tidy ∧ (s.closed = false →
      ∀ act r dev, Action.Behaves s.table r dev act ↔ act.Ok s.table r) := by
  have hinv : s.Tidy ∧ (s.closed = false → TableInv s.table) := by
    refine System.Reaches.invariant
      (P := fun s => s.Tidy ∧ (s.closed = false → TableInv s.table)) ?_ ?_ hs
    · rintro s rfl
      exact ⟨TableInv.empty.tidy, fun _ => TableInv.empty⟩
    · rintro ⟨t, closed⟩ e s' ⟨-, hinv⟩ - hstep
      cases closed with
      | true => cases hstep
      | false =>
        have ht : TableInv t := hinv rfl
        cases e with
        | request act r dev =>
          obtain ⟨out, hrun, rfl⟩ := Option.map_eq_some_iff.mp hstep
          exact ⟨(tableInv_run ht hrun).tidy, fun _ => tableInv_run ht hrun⟩
        | close =>
          obtain rfl := Option.some.inj hstep
          exact ⟨ht.tidy_close, fun hc => nomatch hc⟩
  exact ⟨hinv.1, fun hc act r dev => behaves_iff (hinv.2 hc) act⟩

/-- A request with one parameter, the number 0. -/
def zeroRequest : RpcResult where
  type := .method
  funcNumber := 0
  area := fun _ => 0
  paramIndex := fun i => if i = 0 then 0 else 0xff
  classDef := some ⟨[], [], [⟨[], [0x64]⟩]⟩

def idleDevice : Device := ⟨0, [], fun _ => 0, [], [], [], []⟩

theorem object_handles_new :
    Action.Behaves (addNewObjectBatch .empty .digitalIn).table zeroRequest idleDevice
      (.method .digitalIn [] .int) := by
  have hs : objectSystem.Reaches RpcEvent.Ok ⟨(addNewObjectBatch .empty .digitalIn).table, false⟩ :=
    .step (.init rfl) (e := .request (.new .digitalIn []) zeroRequest idleDevice) trivial rfl
  refine ((object_handles hs).2 rfl _ _ _).mpr fun id hid => ?_
  obtain rfl : 0 = id := Option.some.inj hid
  exact ⟨⟨.digitalIn, 0⟩, ⟨by decide, by decide, 0, rfl, by decide⟩, fun _ => rfl⟩

/-- In a new session every id names an empty slot. -/
theorem not_object_handles : ¬ ∀ s, objectSystem.Reaches System.anyStep s → s.closed = false →
    ∀ act r dev, Action.Behaves s.table r dev act := by
  intro h
  obtain ⟨out, hrun, -⟩ := h ⟨.empty, false⟩ (.init rfl) rfl (.method .digitalIn [] .int)
    zeroRequest idleDevice
  cases hrun

end MiMic.Rpc
