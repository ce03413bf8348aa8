import Mathlib.Data.List.FinRange
import Mathlib.Tactic

/-!
# The table of request ids

`NyLPC_cIdPtrTable` gives an id to an object that waits for an answer. A slot without an object
is free; its id stays where it is, and the search for an id does not look at the object.
-/
namespace MiMic.Snic

/-- `NyLPC_TcIdPtrTable_NUMBER_OF_ITEM`. -/
abbrev numberOfItem : Nat := 10

instance neZeroNumberOfItem : NeZero numberOfItem := ⟨by decide⟩

abbrev Slot := Fin numberOfItem

/-- An object, by its address. -/
abbrev Obj := Nat

structure IdPtrTableItem where
  locked : Bool
  id : UInt8
  obj : Option Obj
deriving DecidableEq

structure IdPtrTable where
  counter : UInt8
  items : Slot → IdPtrTableItem

namespace IdPtrTable

/-- A static instance behind `NyLPC_cIdPtrTable_initialize`, which clears the objects only. -/
def initialized : IdPtrTable := ⟨0, fun _ => ⟨false, 0, none⟩⟩

def id2Item (t : IdPtrTable) (id : UInt8) : Option Slot :=
  (List.finRange numberOfItem).find? fun i => (t.items i).id == id

def obj2Item (t : IdPtrTable) (obj : Option Obj) : Option Slot :=
  (List.finRange numberOfItem).find? fun i => (t.items i).obj == obj

def set (t : IdPtrTable) (i : Slot) (item : IdPtrTableItem) : IdPtrTable :=
  { t with items := Function.update t.items i item }

/-- The id that the next call of `addItem` gives. -/
def nextId (t : IdPtrTable) : UInt8 := t.counter + 1

/-- The locked section of `NyLPC_cIdPtrTable_addItem` that finds a free slot. -/
def addItem (t : IdPtrTable) (obj : Obj) (i : Slot) : IdPtrTable :=
  { t.set i ⟨false, t.nextId, some obj⟩ with
    counter := UInt8.ofNat ((t.counter.toNat + 1) % 255) }

/-- The end of `NyLPC_cIdPtrTable_removeItem`, once the item is not locked. -/
def clearItem (t : IdPtrTable) (i : Slot) : IdPtrTable := t.set i { t.items i with obj := none }

/-- The locked section of `NyLPC_cIdPtrTable_getPtrByIdWithLock` that finds its item. -/
def lockItem (t : IdPtrTable) (i : Slot) : IdPtrTable := t.set i { t.items i with locked := true }

def unlockItem (t : IdPtrTable) (i : Slot) : IdPtrTable :=
  t.set i { t.items i with locked := false }

/-- `NyLPC_cIdPtTable_unLockPtr`. -/
def unLockPtr (t : IdPtrTable) (obj : Obj) : IdPtrTable :=
  match t.obj2Item (some obj) with
  | some i => t.unlockItem i
  | none => t

/-- An object is registered in the slot. -/
def Registered (t : IdPtrTable) (i : Slot) : Prop := (t.items i).obj ≠ none

instance (t : IdPtrTable) (i : Slot) : Decidable (t.Registered i) :=
  inferInstanceAs (Decidable (_ ≠ _))

/-- What is registered under an id. -/
def registeredUnder (t : IdPtrTable) (id : UInt8) : Option Obj :=
  ((List.finRange numberOfItem).find? fun i => (t.items i).id == id && (t.items i).obj.isSome).bind
    fun i => (t.items i).obj

variable {t : IdPtrTable} {i j : Slot}

@[simp] theorem set_counter (item : IdPtrTableItem) : (t.set i item).counter = t.counter := rfl

@[simp] theorem set_self (item : IdPtrTableItem) : (t.set i item).items i = item :=
  Function.update_self ..

theorem set_other {item : IdPtrTableItem} (h : j ≠ i) : (t.set i item).items j = t.items j :=
  Function.update_of_ne h ..

@[simp] theorem addItem_self (obj : Obj) : (t.addItem obj i).items i = ⟨false, t.nextId, some obj⟩ :=
  set_self ..

theorem addItem_other {obj : Obj} (h : j ≠ i) : (t.addItem obj i).items j = t.items j := set_other h

theorem id2Item_some {id : UInt8} (h : t.id2Item id = some i) : (t.items i).id = id := by
  simpa using List.find?_some h

theorem id2Item_none {id : UInt8} : t.id2Item id = none ↔ ∀ i, (t.items i).id ≠ id := by
  simp [id2Item, List.find?_eq_none]

theorem obj2Item_some {obj : Option Obj} (h : t.obj2Item obj = some i) : (t.items i).obj = obj := by
  simpa using List.find?_some h

theorem obj2Item_none {obj : Option Obj} : t.obj2Item obj = none ↔ ∀ i, (t.items i).obj ≠ obj := by
  simp [obj2Item, List.find?_eq_none]

theorem registeredUnder_none {id : UInt8} :
    t.registeredUnder id = none ↔ ∀ i, t.Registered i → (t.items i).id ≠ id := by
  rw [registeredUnder]
  cases h : (List.finRange numberOfItem).find? fun i => (t.items i).id == id && (t.items i).obj.isSome with
  | none =>
    rw [List.find?_eq_none] at h
    refine ⟨fun _ i hi heq => ?_, fun _ => rfl⟩
    have hno := h i (List.mem_finRange i)
    rw [heq, beq_self_eq_true, Bool.true_and, Option.not_isSome_iff_eq_none] at hno
    exact hi hno
  | some i =>
    have hi := List.find?_some h
    rw [Bool.and_eq_true, beq_iff_eq, Option.isSome_iff_ne_none] at hi
    rw [Option.bind_some]
    exact ⟨fun hnone => absurd hnone hi.2, fun hall => absurd hi.1 (hall i hi.2)⟩

/-- When ids are not shared, a registered item is what is found under its id. -/
theorem registeredUnder_of_registered (hids : ∀ i j, t.Registered i → t.Registered j →
    (t.items i).id = (t.items j).id → i = j) (hi : t.Registered i) :
    t.registeredUnder (t.items i).id = (t.items i).obj := by
  rw [registeredUnder]
  cases h : (List.finRange numberOfItem).find? fun j =>
      (t.items j).id == (t.items i).id && (t.items j).obj.isSome with
  | none =>
    rw [List.find?_eq_none] at h
    have hno := h i (List.mem_finRange i)
    rw [beq_self_eq_true, Bool.true_and, Option.not_isSome_iff_eq_none] at hno
    exact absurd hno hi
  | some j =>
    have hj := List.find?_some h
    rw [Bool.and_eq_true, beq_iff_eq, Option.isSome_iff_ne_none] at hj
    obtain rfl := hids j i hj.2 hi hj.1
    rfl

end IdPtrTable

end MiMic.Snic
