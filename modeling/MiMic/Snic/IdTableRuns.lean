import MiMic.Lib.System
import MiMic.Snic.IdPtrTable

/-!
# Tasks that share the table of request ids

Every function of the table is a locked section; `addItem` and `getPtrByIdWithLock` read their
answer from the item behind it. Books beside the runs say who has registered an item, who has
locked it, and whether each answer was the one that the registrations call for.
-/
namespace MiMic.Snic

open Verif

abbrev Task := Nat

/-- Where a task is between two accesses to the table. -/
inductive TablePc
  | idle
  | added (i : Slot)
  | waiting (i : Slot)
  | got (i : Slot)
  | crashed
deriving DecidableEq

structure TableWorld where
  table : IdPtrTable
  pc : Task → TablePc

inductive TableEvent
  | add (t : Task) (o : Obj)
  | addReturn (t : Task)
  | remove (t : Task) (o : Obj)
  | removeRetry (t : Task)
  | lookup (t : Task) (id : UInt8)
  | lookupReturn (t : Task)
  | unlock (t : Task) (o : Obj)

namespace TableWorld

def goto (w : TableWorld) (t : Task) (pc : TablePc) : TableWorld :=
  { w with pc := Function.update w.pc t pc }

def withTable (w : TableWorld) (table : IdPtrTable) : TableWorld := { w with table := table }

/-- One access to the table. `addItem` goes on when it finds a free slot; `removeItem` reads the
lock of an item that it has to find. -/
def step (w : TableWorld) : TableEvent → Option TableWorld
  | .add t o =>
      if w.pc t = .idle then
        (w.table.obj2Item none).map fun i => (w.withTable (w.table.addItem o i)).goto t (.added i)
      else none
  | .addReturn t =>
      match w.pc t with
      | .added _ => some (w.goto t .idle)
      | _ => none
  | .remove t o =>
      if w.pc t = .idle then
        match w.table.obj2Item (some o) with
        | none => some (w.goto t .crashed)
        | some i =>
            if (w.table.items i).locked then some (w.goto t (.waiting i))
            else some (w.withTable (w.table.clearItem i))
      else none
  | .removeRetry t =>
      match w.pc t with
      | .waiting i =>
          if (w.table.items i).locked then some w
          else some ((w.withTable (w.table.clearItem i)).goto t .idle)
      | _ => none
  | .lookup t id =>
      if w.pc t = .idle then
        match w.table.id2Item id with
        | none => some w
        | some i => some ((w.withTable (w.table.lockItem i)).goto t (.got i))
      else none
  | .lookupReturn t =>
      match w.pc t with
      | .got _ => some (w.goto t .idle)
      | _ => none
  | .unlock t o =>
      if w.pc t = .idle then some (w.withTable (w.table.unLockPtr o)) else none

end TableWorld

/-- The registrations and locks that the callers' calls amount to. -/
structure Books where
  owner : Slot → Option Task
  holder : Slot → Option Task
  assigned : Task → UInt8
  asked : Task → UInt8
  wanted : Task → Option Obj
  ok : Bool

/-- What a step answers is what the registrations call for: a fresh id that is not zero, the
object registered under the id, an unlocked table behind NULL, and the caller's own item to
remove. -/
def answers (w : TableWorld) (b : Books) : TableEvent → Bool
  | .add _ _ => decide (w.table.nextId ≠ 0) &&
      decide (∀ j, w.table.Registered j → (w.table.items j).id ≠ w.table.nextId)
  | .addReturn t =>
      match w.pc t with
      | .added i => decide ((w.table.items i).id = b.assigned t)
      | _ => true
  | .remove t o =>
      match w.table.obj2Item (some o) with
      | none => false
      | some i => (w.table.items i).locked || decide (b.owner i = some t)
  | .removeRetry t =>
      match w.pc t with
      | .waiting i => (w.table.items i).locked ||
          (decide (w.table.Registered i) && decide (b.owner i = some t))
      | _ => true
  | .lookup _ id =>
      match w.table.id2Item id with
      | none => decide (w.table.registeredUnder id = none)
      | some _ => true
  | .lookupReturn t =>
      match w.pc t with
      | .got i => decide ((w.table.items i).obj = b.wanted t) &&
          decide (w.table.registeredUnder (b.asked t) = b.wanted t) &&
          (decide (w.table.Registered i) || !(w.table.items i).locked)
      | _ => true
  | .unlock _ _ => true

def Books.note (b : Books) (w : TableWorld) (e : TableEvent) : Books :=
  let b' := { b with ok := b.ok && answers w b e }
  match e with
  | .add t _ =>
      match w.table.obj2Item none with
      | some i => { b' with
          owner := Function.update b.owner i (some t)
          assigned := Function.update b.assigned t w.table.nextId }
      | none => b'
  | .remove _ o =>
      match w.table.obj2Item (some o) with
      | some i =>
          if (w.table.items i).locked then b'
          else { b' with owner := Function.update b.owner i none }
      | none => b'
  | .removeRetry t =>
      match w.pc t with
      | .waiting i =>
          if (w.table.items i).locked then b'
          else { b' with owner := Function.update b.owner i none }
      | _ => b'
  | .lookup t id =>
      match w.table.id2Item id with
      | some i => { b' with
          holder := Function.update b.holder i (some t)
          asked := Function.update b.asked t id
          wanted := Function.update b.wanted t (w.table.registeredUnder id) }
      | none => b'
  | .unlock _ o =>
      match w.table.obj2Item (some o) with
      | some i => { b' with holder := Function.update b.holder i none }
      | none => b'
  | .addReturn _ => b'
  | .lookupReturn _ => b'

def tableSystem : System TableWorld TableEvent where
  init w := w.table = .initialized ∧ ∀ t, w.pc t = .idle
  step := TableWorld.step

def emptyBooks : Books := ⟨fun _ => none, fun _ => none, fun _ => 0, fun _ => 0, fun _ => none, true⟩

/-- The runs of the table with their books. -/
def bookedTable : System (TableWorld × Books) TableEvent :=
  tableSystem.observe emptyBooks fun b w e _ => b.note w e

/-- No object is registered twice and no id while it is in use, an id that is looked up is not
the one a free slot was left with, and no item is locked twice; a task removes and unlocks what
it has registered and locked. -/
def KeepsBooks (p : TableWorld × Books) : TableEvent → Prop
  | .add _ o => p.1.table.obj2Item (some o) = none ∧
      ∀ i, p.1.table.Registered i → (p.1.table.items i).id ≠ p.1.table.nextId
  | .remove t o => ∃ i, p.1.table.obj2Item (some o) = some i ∧ p.2.owner i = some t
  | .lookup _ id => ∀ i, p.1.table.id2Item id = some i →
      p.1.table.Registered i ∧ (p.1.table.items i).locked = false
  | .unlock t o => ∃ i, p.1.table.obj2Item (some o) = some i ∧ p.2.holder i = some t
  | .addReturn _ => True
  | .removeRetry _ => True
  | .lookupReturn _ => True

instance (p : TableWorld × Books) : (e : TableEvent) → Decidable (KeepsBooks p e)
  | .add _ _ => inferInstanceAs (Decidable (_ ∧ _))
  | .remove _ _ => inferInstanceAs (Decidable (∃ _, _))
  | .lookup _ _ => inferInstanceAs (Decidable (∀ _, _ → _))
  | .unlock _ _ => inferInstanceAs (Decidable (∃ _, _))
  | .addReturn _ => inferInstanceAs (Decidable True)
  | .removeRetry _ => inferInstanceAs (Decidable True)
  | .lookupReturn _ => inferInstanceAs (Decidable True)

/-- What a task relies on between two accesses. -/
def TaskOk (p : TableWorld × Books) (t : Task) : Prop :=
  match p.1.pc t with
  | .idle => True
  | .added i => p.2.owner i = some t ∧ p.1.table.Registered i ∧
      (p.1.table.items i).id = p.2.assigned t
  | .waiting i => p.2.owner i = some t ∧ p.1.table.Registered i
  | .got i => p.2.holder i = some t ∧ p.1.table.Registered i ∧ (p.1.table.items i).locked = true ∧
      (p.1.table.items i).obj = p.2.wanted t ∧ (p.1.table.items i).id = p.2.asked t
  | .crashed => False

structure TableInv (p : TableWorld × Books) : Prop where
  ok : p.2.ok = true
  counter : p.1.table.counter.toNat < 255
  ids : ∀ i j, p.1.table.Registered i → p.1.table.Registered j →
    (p.1.table.items i).id = (p.1.table.items j).id → i = j
  tasks : ∀ t, TaskOk p t

section

variable {p q : TableWorld × Books} {t : Task}

/-- What another task does leaves a task alone that keeps its item. -/
theorem TaskOk.frame (h : TaskOk p t) (hpc : q.1.pc t = p.1.pc t)
    (hnotes : q.2.assigned t = p.2.assigned t ∧ q.2.asked t = p.2.asked t ∧
      q.2.wanted t = p.2.wanted t)
    (howned : ∀ i, p.1.pc t = .added i ∨ p.1.pc t = .waiting i → q.2.owner i = p.2.owner i ∧
      (q.1.table.items i).obj = (p.1.table.items i).obj ∧
      (q.1.table.items i).id = (p.1.table.items i).id)
    (hgot : ∀ i, p.1.pc t = .got i → q.2.holder i = p.2.holder i ∧
      q.1.table.items i = p.1.table.items i) : TaskOk q t := by
  unfold TaskOk IdPtrTable.Registered at h ⊢
  rw [hpc, hnotes.1, hnotes.2.1, hnotes.2.2]
  cases hp : p.1.pc t with
  | idle => trivial
  | crashed =>
    rw [hp] at h
    exact h
  | added i =>
    rw [hp] at h
    obtain ⟨ho, hobj, hid⟩ := howned i (Or.inl hp)
    simp only [ho, hobj, hid]
    exact h
  | waiting i =>
    rw [hp] at h
    obtain ⟨ho, hobj, -⟩ := howned i (Or.inr hp)
    simp only [ho, hobj]
    exact h
  | got i =>
    rw [hp] at h
    obtain ⟨hh, hitem⟩ := hgot i hp
    simp only [hh, hitem]
    exact h

theorem taskOk_idle (h : p.1.pc t = .idle) : TaskOk p t := by
  unfold TaskOk
  rw [h]
  trivial

theorem TaskOk.added {i : Slot} (h : TaskOk p t) (hp : p.1.pc t = .added i) :
    p.2.owner i = some t ∧ p.1.table.Registered i ∧ (p.1.table.items i).id = p.2.assigned t := by
  unfold TaskOk at h
  rwa [hp] at h

theorem TaskOk.waiting {i : Slot} (h : TaskOk p t) (hp : p.1.pc t = .waiting i) :
    p.2.owner i = some t ∧ p.1.table.Registered i := by
  unfold TaskOk at h
  rwa [hp] at h

theorem TaskOk.got {i : Slot} (h : TaskOk p t) (hp : p.1.pc t = .got i) :
    p.2.holder i = some t ∧ p.1.table.Registered i ∧ (p.1.table.items i).locked = true ∧
      (p.1.table.items i).obj = p.2.wanted t ∧ (p.1.table.items i).id = p.2.asked t := by
  unfold TaskOk at h
  rwa [hp] at h

/-- The item of a task between two accesses is registered, and so is no free slot. -/
theorem TaskOk.registered {i : Slot} (h : TaskOk p t)
    (hp : p.1.pc t = .added i ∨ p.1.pc t = .waiting i ∨ p.1.pc t = .got i) :
    p.1.table.Registered i := by
  rcases hp with hp | hp | hp
  · exact (h.added hp).2.1
  · exact (h.waiting hp).2
  · exact (h.got hp).2.1

/-- A task that owns an item and is busy with another call does not clear it. -/
theorem TaskOk.owner {i : Slot} (h : TaskOk p t) (hp : p.1.pc t = .added i ∨ p.1.pc t = .waiting i) :
    p.2.owner i = some t := by
  rcases hp with hp | hp
  · exact (h.added hp).1
  · exact (h.waiting hp).1

end

@[simp] theorem goto_self (w : TableWorld) (t : Task) (pc : TablePc) : (w.goto t pc).pc t = pc :=
  Function.update_self ..

theorem goto_other {w : TableWorld} {t u : Task} (pc : TablePc) (h : u ≠ t) :
    (w.goto t pc).pc u = w.pc u := Function.update_of_ne h ..

section

variable {w : TableWorld} {b : Books}

/-- A registration in a free slot. -/
theorem inv_add (h : TableInv (w, b)) {t : Task} {o : Obj} {i : Slot}
    (hfree : w.table.obj2Item none = some i)
    (hid : ∀ j, w.table.Registered j → (w.table.items j).id ≠ w.table.nextId) :
    TableInv ((w.withTable (w.table.addItem o i)).goto t (.added i), b.note w (.add t o)) := by
  have hnone : (w.table.items i).obj = none := IdPtrTable.obj2Item_some hfree
  have hnote : b.note w (.add t o) = { b with
      ok := b.ok && answers w b (.add t o)
      owner := Function.update b.owner i (some t)
      assigned := Function.update b.assigned t w.table.nextId } := by
    simp only [Books.note, hfree]
  have hnext : w.table.nextId ≠ 0 := by
    intro h0
    have hval : (w.table.counter + 1).toNat = 0 := by rw [show w.table.counter + 1 = 0 from h0]; rfl
    have hc : w.table.counter.toNat < 255 := h.counter
    rw [UInt8.toNat_add, show (1 : UInt8).toNat = 1 from rfl, Nat.mod_eq_of_lt (by omega)] at hval
    omega
  have hans : answers w b (.add t o) = true := by
    simp only [answers, Bool.and_eq_true, decide_eq_true_eq]
    exact ⟨hnext, hid⟩
  have hreg : ∀ j, (w.table.addItem o i).Registered j → j ≠ i → w.table.Registered j := by
    intro j hj hne
    unfold IdPtrTable.Registered at hj ⊢
    rwa [IdPtrTable.addItem_other hne] at hj
  rw [hnote]
  constructor
  · show (b.ok && answers w b (.add t o)) = true
    rw [hans, h.ok]
    rfl
  · show (UInt8.ofNat ((w.table.counter.toNat + 1) % 255)).toNat < 255
    rw [UInt8.toNat_ofNat']
    omega
  · intro j k hj hk heq
    change (w.table.addItem o i).Registered j at hj
    change (w.table.addItem o i).Registered k at hk
    change ((w.table.addItem o i).items j).id = ((w.table.addItem o i).items k).id at heq
    by_cases hji : j = i
    · by_cases hki : k = i
      · rw [hji, hki]
      · rw [hji, IdPtrTable.addItem_self, IdPtrTable.addItem_other hki] at heq
        exact absurd heq.symm (hid k (hreg k hk hki))
    · by_cases hki : k = i
      · rw [hki, IdPtrTable.addItem_self, IdPtrTable.addItem_other hji] at heq
        exact absurd heq (hid j (hreg j hj hji))
      · rw [IdPtrTable.addItem_other hji, IdPtrTable.addItem_other hki] at heq
        exact h.ids j k (hreg j hj hji) (hreg k hk hki) heq
  · intro u
    by_cases hu : u = t
    · subst hu
      unfold TaskOk
      rw [goto_self]
      refine ⟨Function.update_self .., ?_, ?_⟩
      · show ((w.table.addItem o i).items i).obj ≠ none
        rw [IdPtrTable.addItem_self]
        simp
      · show ((w.table.addItem o i).items i).id = Function.update b.assigned u w.table.nextId u
        rw [IdPtrTable.addItem_self, Function.update_self]
    · have hold := h.tasks u
      have hne : ∀ j, w.pc u = .added j ∨ w.pc u = .waiting j ∨ w.pc u = .got j → j ≠ i := by
        intro j hj heq
        subst heq
        exact hold.registered hj hnone
      refine hold.frame (goto_other _ hu) ⟨Function.update_of_ne hu .., rfl, rfl⟩ ?_ ?_
      · intro j hj
        have hji := hne j (hj.imp_right Or.inl)
        refine ⟨Function.update_of_ne hji .., ?_⟩
        show ((w.table.addItem o i).items j).obj = _ ∧ ((w.table.addItem o i).items j).id = _
        rw [IdPtrTable.addItem_other hji]
        exact ⟨rfl, rfl⟩
      · intro j hj
        exact ⟨rfl, IdPtrTable.addItem_other (hne j (Or.inr (Or.inr hj)))⟩

/-- A task that goes on without an access to an item. -/
theorem inv_return (h : TableInv (w, b)) {t : Task} {b' : Books} (hok : b'.ok = true)
    (hsame : b'.owner = b.owner ∧ b'.holder = b.holder ∧ b'.assigned = b.assigned ∧
      b'.asked = b.asked ∧ b'.wanted = b.wanted) : TableInv (w.goto t .idle, b') := by
  obtain ⟨ho, hh, ha, hk, hw⟩ := hsame
  refine ⟨hok, h.counter, h.ids, ?_⟩
  intro u
  by_cases hu : u = t
  · subst hu
    exact taskOk_idle (goto_self ..)
  · refine (h.tasks u).frame (goto_other _ hu) ⟨congrFun ha u, congrFun hk u, congrFun hw u⟩ ?_ ?_
    · exact fun j _ => ⟨congrFun ho j, rfl, rfl⟩
    · exact fun j _ => ⟨congrFun hh j, rfl⟩

/-- The owner of an item clears it. -/
theorem inv_clear (h : TableInv (w, b)) {t : Task} {i : Slot} {b' : Books} (hok : b'.ok = true)
    (howner : b.owner i = some t) (hlock : (w.table.items i).locked = false)
    (hnotes : b' = { b with
      ok := b'.ok
      owner := Function.update b.owner i none }) :
    TableInv ((w.withTable (w.table.clearItem i)).goto t .idle, b') := by
  have hreg : ∀ j, (w.table.clearItem i).Registered j → j ≠ i ∧ w.table.Registered j := by
    intro j hj
    unfold IdPtrTable.Registered at hj ⊢
    by_cases hji : j = i
    · subst hji
      rw [IdPtrTable.clearItem, IdPtrTable.set_self] at hj
      exact absurd rfl hj
    · rw [IdPtrTable.clearItem, IdPtrTable.set_other hji] at hj
      exact ⟨hji, hj⟩
  refine ⟨hok, h.counter, ?_, ?_⟩
  · intro j k hj hk heq
    obtain ⟨hji, hj⟩ := hreg j hj
    obtain ⟨hki, hk⟩ := hreg k hk
    change ((w.table.clearItem i).items j).id = ((w.table.clearItem i).items k).id at heq
    rw [IdPtrTable.clearItem, IdPtrTable.set_other hji, IdPtrTable.set_other hki] at heq
    exact h.ids j k hj hk heq
  · intro u
    by_cases hu : u = t
    · subst hu
      exact taskOk_idle (goto_self ..)
    · have hold := h.tasks u
      rw [hnotes]
      refine hold.frame (goto_other _ hu) ⟨rfl, rfl, rfl⟩ ?_ ?_
      · intro j hj
        have hji : j ≠ i := by
          intro heq
          subst heq
          rw [hold.owner hj] at howner
          exact hu (Option.some.inj howner)
        refine ⟨Function.update_of_ne hji .., ?_⟩
        show ((w.table.clearItem i).items j).obj = _ ∧ ((w.table.clearItem i).items j).id = _
        rw [IdPtrTable.clearItem, IdPtrTable.set_other hji]
        exact ⟨rfl, rfl⟩
      · intro j hj
        have hji : j ≠ i := by
          intro heq
          subst heq
          rw [(hold.got hj).2.2.1] at hlock
          exact Bool.noConfusion hlock
        exact ⟨rfl, IdPtrTable.set_other hji⟩

/-- The owner of a locked item waits. -/
theorem inv_wait (h : TableInv (w, b)) {t : Task} {i : Slot} (hpc : w.pc t = .idle)
    (howner : b.owner i = some t) (hreg : w.table.Registered i) :
    TableInv (w.goto t (.waiting i), b) := by
  refine ⟨h.ok, h.counter, h.ids, ?_⟩
  intro u
  by_cases hu : u = t
  · subst hu
    unfold TaskOk
    rw [goto_self]
    exact ⟨howner, hreg⟩
  · exact (h.tasks u).frame (goto_other _ hu) ⟨rfl, rfl, rfl⟩ (fun j _ => ⟨rfl, rfl, rfl⟩)
      (fun j _ => ⟨rfl, rfl⟩)

/-- An item is locked for its reader. -/
theorem inv_lookup (h : TableInv (w, b)) {t : Task} {id : UInt8} {i : Slot}
    (hfind : w.table.id2Item id = some i) (hreg : w.table.Registered i)
    (hlock : (w.table.items i).locked = false) :
    TableInv ((w.withTable (w.table.lockItem i)).goto t (.got i), b.note w (.lookup t id)) := by
  have hid := IdPtrTable.id2Item_some hfind
  have hunder : w.table.registeredUnder id = (w.table.items i).obj := by
    rw [← hid]
    exact IdPtrTable.registeredUnder_of_registered h.ids hreg
  have hnote : b.note w (.lookup t id) = { b with
      ok := b.ok && answers w b (.lookup t id)
      holder := Function.update b.holder i (some t)
      asked := Function.update b.asked t id
      wanted := Function.update b.wanted t (w.table.registeredUnder id) } := by
    simp only [Books.note, hfind]
  have hitem : ∀ j, ((w.table.lockItem i).items j).obj = (w.table.items j).obj ∧
      ((w.table.lockItem i).items j).id = (w.table.items j).id := by
    intro j
    by_cases hji : j = i
    · rw [hji, IdPtrTable.lockItem, IdPtrTable.set_self]
      exact ⟨rfl, rfl⟩
    · rw [IdPtrTable.lockItem, IdPtrTable.set_other hji]
      exact ⟨rfl, rfl⟩
  have hregs : ∀ j, (w.table.lockItem i).Registered j → w.table.Registered j := by
    intro j hj
    unfold IdPtrTable.Registered at hj ⊢
    rwa [(hitem j).1] at hj
  rw [hnote]
  refine ⟨?_, h.counter, ?_, ?_⟩
  · show (b.ok && answers w b (.lookup t id)) = true
    rw [h.ok, answers, hfind]
    rfl
  · intro j k hj hk heq
    change ((w.table.lockItem i).items j).id = ((w.table.lockItem i).items k).id at heq
    rw [(hitem j).2, (hitem k).2] at heq
    exact h.ids j k (hregs j hj) (hregs k hk) heq
  · intro u
    by_cases hu : u = t
    · subst hu
      unfold TaskOk
      rw [goto_self]
      refine ⟨Function.update_self .., ?_, ?_, ?_, ?_⟩
      · show ((w.table.lockItem i).items i).obj ≠ none
        rw [(hitem i).1]
        exact hreg
      · show ((w.table.lockItem i).items i).locked = true
        rw [IdPtrTable.lockItem, IdPtrTable.set_self]
      · show ((w.table.lockItem i).items i).obj = Function.update b.wanted u _ u
        rw [(hitem i).1, Function.update_self, hunder]
      · show ((w.table.lockItem i).items i).id = Function.update b.asked u id u
        rw [(hitem i).2, Function.update_self, hid]
    · have hold := h.tasks u
      refine hold.frame (goto_other _ hu)
        ⟨rfl, Function.update_of_ne hu .., Function.update_of_ne hu ..⟩ ?_ ?_
      · exact fun j _ => ⟨rfl, hitem j⟩
      · intro j hj
        have hji : j ≠ i := by
          intro heq
          subst heq
          rw [(hold.got hj).2.2.1] at hlock
          exact Bool.noConfusion hlock
        exact ⟨Function.update_of_ne hji .., IdPtrTable.set_other hji⟩

/-- The holder of an item unlocks it. -/
theorem inv_unlock (h : TableInv (w, b)) {t : Task} {o : Obj} {i : Slot} (hpc : w.pc t = .idle)
    (hfind : w.table.obj2Item (some o) = some i) (hholder : b.holder i = some t) :
    TableInv (w.withTable (w.table.unLockPtr o), b.note w (.unlock t o)) := by
  have hnote : b.note w (.unlock t o) = { b with
      ok := b.ok && answers w b (.unlock t o)
      holder := Function.update b.holder i none } := by
    simp only [Books.note, hfind]
  have htable : w.table.unLockPtr o = w.table.unlockItem i := by
    rw [IdPtrTable.unLockPtr, hfind]
  have hitem : ∀ j, ((w.table.unlockItem i).items j).obj = (w.table.items j).obj ∧
      ((w.table.unlockItem i).items j).id = (w.table.items j).id := by
    intro j
    by_cases hji : j = i
    · rw [hji, IdPtrTable.unlockItem, IdPtrTable.set_self]
      exact ⟨rfl, rfl⟩
    · rw [IdPtrTable.unlockItem, IdPtrTable.set_other hji]
      exact ⟨rfl, rfl⟩
  have hregs : ∀ j, (w.table.unlockItem i).Registered j → w.table.Registered j := by
    intro j hj
    unfold IdPtrTable.Registered at hj ⊢
    rwa [(hitem j).1] at hj
  rw [hnote, htable]
  refine ⟨?_, h.counter, ?_, ?_⟩
  · show (b.ok && answers w b (.unlock t o)) = true
    rw [h.ok]
    rfl
  · intro j k hj hk heq
    change ((w.table.unlockItem i).items j).id = ((w.table.unlockItem i).items k).id at heq
    rw [(hitem j).2, (hitem k).2] at heq
    exact h.ids j k (hregs j hj) (hregs k hk) heq
  · intro u
    have hold := h.tasks u
    refine hold.frame rfl ⟨rfl, rfl, rfl⟩ ?_ ?_
    · exact fun j _ => ⟨rfl, hitem j⟩
    · intro j hj
      have hji : j ≠ i := by
        intro heq
        subst heq
        have hholds := (hold.got hj).1
        rw [hholder] at hholds
        obtain rfl := Option.some.inj hholds
        rw [hpc] at hj
        cases hj
      exact ⟨Function.update_of_ne hji .., IdPtrTable.set_other hji⟩

theorem note_true {e : TableEvent} (hans : answers w b e = true) :
    { b with ok := b.ok && answers w b e } = b := by
  rw [hans, Bool.and_true]

theorem inv_remove (h : TableInv (w, b)) {t : Task} {o : Obj} {i : Slot} {w' : TableWorld}
    (hpc : w.pc t = .idle) (hfind : w.table.obj2Item (some o) = some i)
    (howner : b.owner i = some t) (hs : w.step (.remove t o) = some w') :
    TableInv (w', b.note w (.remove t o)) := by
  have hans : answers w b (.remove t o) = true := by
    simp [answers, hfind, howner]
  have hreg : w.table.Registered i := by
    unfold IdPtrTable.Registered
    rw [IdPtrTable.obj2Item_some hfind]
    simp
  simp only [TableWorld.step, hpc, if_true, hfind] at hs
  cases hlock : (w.table.items i).locked with
  | true =>
    rw [hlock, if_pos rfl] at hs
    obtain rfl := Option.some.inj hs
    have hnote : b.note w (.remove t o) = b := by
      simp only [Books.note, hfind, hlock, if_true]
      exact note_true hans
    rw [hnote]
    exact inv_wait h hpc howner hreg
  | false =>
    rw [hlock, if_neg Bool.false_ne_true] at hs
    obtain rfl := Option.some.inj hs
    have hidle : w.withTable (w.table.clearItem i) =
        (w.withTable (w.table.clearItem i)).goto t .idle := by
      simp only [TableWorld.goto, TableWorld.withTable]
      rw [← hpc, Function.update_eq_self]
    rw [hidle]
    refine inv_clear h ?_ howner hlock ?_
    · have hb : b.ok = true := h.ok
      simp [Books.note, hfind, hlock, hb, hans]
    · simp [Books.note, hfind, hlock]

theorem inv_removeRetry (h : TableInv (w, b)) {t : Task} {w' : TableWorld}
    (hs : w.step (.removeRetry t) = some w') : TableInv (w', b.note w (.removeRetry t)) := by
  simp only [TableWorld.step] at hs
  split at hs
  · next i hpc =>
    obtain ⟨howner, hreg⟩ := (h.tasks t).waiting hpc
    have hans : answers w b (.removeRetry t) = true := by
      have hr : w.table.Registered i := hreg
      have ho : b.owner i = some t := howner
      simp [answers, hpc, hr, ho]
    cases hlock : (w.table.items i).locked with
    | true =>
      rw [hlock, if_pos rfl] at hs
      obtain rfl := Option.some.inj hs
      have hnote : b.note w (.removeRetry t) = b := by
        simp only [Books.note, hpc, hlock, if_true]
        exact note_true hans
      rw [hnote]
      exact h
    | false =>
      rw [hlock, if_neg Bool.false_ne_true] at hs
      obtain rfl := Option.some.inj hs
      refine inv_clear h ?_ howner hlock ?_
      · have hb : b.ok = true := h.ok
        simp [Books.note, hpc, hlock, hb, hans]
      · simp [Books.note, hpc, hlock]
  · cases hs

theorem inv_step {w' : TableWorld} {e : TableEvent} (h : TableInv (w, b))
    (hok : KeepsBooks (w, b) e) (hs : w.step e = some w') : TableInv (w', b.note w e) := by
  cases e with
  | add t o =>
    simp only [TableWorld.step] at hs
    split at hs
    · obtain ⟨i, hfree, rfl⟩ := Option.map_eq_some_iff.mp hs
      exact inv_add h hfree hok.2
    · cases hs
  | addReturn t =>
    simp only [TableWorld.step] at hs
    split at hs
    · next i hpc =>
      obtain rfl := Option.some.inj hs
      have hid : (w.table.items i).id = b.assigned t := ((h.tasks t).added hpc).2.2
      refine inv_return h ?_ ⟨rfl, rfl, rfl, rfl, rfl⟩
      have hb : b.ok = true := h.ok
      simp [Books.note, answers, hpc, hid, hb]
    · cases hs
  | remove t o =>
    obtain ⟨i, hfind, howner⟩ := hok
    have hpc : w.pc t = .idle := by
      by_contra hne
      simp [TableWorld.step, hne] at hs
    exact inv_remove h hpc hfind howner hs
  | removeRetry t => exact inv_removeRetry h hs
  | lookup t id =>
    simp only [TableWorld.step] at hs
    split at hs
    · cases hfind : w.table.id2Item id with
      | none =>
        rw [hfind] at hs
        obtain rfl := Option.some.inj hs
        have hunder : w.table.registeredUnder id = none := by
          rw [IdPtrTable.registeredUnder_none]
          exact fun i _ => IdPtrTable.id2Item_none.mp hfind i
        have hans : answers w b (.lookup t id) = true := by simp [answers, hfind, hunder]
        have hnote : b.note w (.lookup t id) = b := by
          simp only [Books.note, hfind]
          exact note_true hans
        rw [hnote]
        exact h
      | some i =>
        rw [hfind] at hs
        obtain rfl := Option.some.inj hs
        obtain ⟨hreg, hlock⟩ := hok i hfind
        exact inv_lookup h hfind hreg hlock
    · cases hs
  | lookupReturn t =>
    simp only [TableWorld.step] at hs
    split at hs
    · next i hpc =>
      obtain rfl := Option.some.inj hs
      obtain ⟨-, hreg, -, hobj, hid⟩ := (h.tasks t).got hpc
      have hunder := IdPtrTable.registeredUnder_of_registered h.ids hreg
      simp only at hreg hobj hid hunder
      rw [hid, hobj] at hunder
      refine inv_return h ?_ ⟨rfl, rfl, rfl, rfl, rfl⟩
      have hb : b.ok = true := h.ok
      simp [Books.note, answers, hpc, hobj, hunder, hreg, hb]
    · cases hs
  | unlock t o =>
    obtain ⟨i, hfind, hholder⟩ := hok
    simp only [TableWorld.step] at hs
    split at hs
    · next hpc =>
      obtain rfl := Option.some.inj hs
      exact inv_unlock h hpc hfind hholder
    · cases hs

end

theorem inv_init {p : TableWorld × Books} (h : bookedTable.init p) : TableInv p := by
  obtain ⟨⟨htable, hpc⟩, hbooks⟩ := h
  have hreg : ∀ i, ¬ p.1.table.Registered i := by
    intro i hi
    rw [htable] at hi
    exact hi rfl
  refine ⟨by rw [hbooks]; rfl, by rw [htable]; decide, ?_, fun t => taskOk_idle (hpc t)⟩
  exact fun i j hi _ _ => absurd hi (hreg i)

theorem tableInv_reaches {p : TableWorld × Books} (h : bookedTable.Reaches KeepsBooks p) :
    TableInv p := by
  refine h.invariant (fun _ => inv_init) ?_
  intro p e q hinv hok hs
  obtain ⟨hs', hbooks⟩ := System.observe_step.mp
    (show bookedTable.step (p.1, p.2) e = some (q.1, q.2) from hs)
  have hq := inv_step hinv hok hs'
  rw [← hbooks] at hq
  exact hq

/-- In every run that keeps the books, every answer of the table is what the registrations call
for, no two registered items share an id, and no missing item is read. -/
theorem idTable_runs {p : TableWorld × Books} (h : bookedTable.Reaches KeepsBooks p) :
    p.2.ok = true ∧
    (∀ i j, p.1.table.Registered i → p.1.table.Registered j →
      (p.1.table.items i).id = (p.1.table.items j).id → i = j) ∧
    ∀ t, p.1.pc t ≠ .crashed := by
  have hinv := tableInv_reaches h
  refine ⟨hinv.ok, hinv.ids, ?_⟩
  intro t hc
  have ht := hinv.tasks t
  unfold TaskOk at ht
  rw [hc] at ht
  exact ht

/-- The table before its first use. -/
def bootedTable : TableWorld × Books := (⟨.initialized, fun _ => .idle⟩, emptyBooks)

theorem bootedTable_init : bookedTable.init bootedTable := ⟨⟨rfl, fun _ => rfl⟩, rfl⟩

/-- A task registers an object and takes it back, which waits for the receiver's lock. -/
theorem idTable_runs_locked :
    ∃ p, bookedTable.Reaches KeepsBooks p ∧ p.2.wanted 2 = some 7 ∧ p.2.ok = true := by
  have hrun := System.exists_of_runChecked (S := bookedTable)
    (show ∀ (p : TableWorld × Books) e, decide (KeepsBooks p e) = true → KeepsBooks p e from
      fun p e h => of_decide_eq_true h) bootedTable_init
    (show (bookedTable.runChecked (fun p e => decide (KeepsBooks p e)) bootedTable
      [.add 1 7, .addReturn 1, .lookup 2 1, .lookupReturn 2, .remove 1 7, .unlock 2 7,
        .removeRetry 1]).any (fun p => decide (p.2.wanted 2 = some 7)) = true by decide +kernel)
  obtain ⟨p, hp, hw⟩ := hrun
  exact ⟨p, hp, of_decide_eq_true hw, (idTable_runs hp).1⟩

/-- A late answer finds the id of a free slot, and locks it to return NULL. Two tasks that
register the same object remove each other's items, and at last one that is not there. -/
theorem not_idTable_runs :
    (∃ p, bookedTable.Reaches System.anyStep p ∧ decide (p.2.ok = false) = true) ∧
    ∃ p, bookedTable.Reaches System.anyStep p ∧ decide (p.1.pc 4 = .crashed) = true := by
  constructor
  · exact System.exists_of_run bootedTable_init (show (bookedTable.run bootedTable
      [.add 1 7, .addReturn 1, .remove 1 7, .lookup 2 1, .lookupReturn 2]).any
        (fun p => decide (p.2.ok = false)) = true by decide +kernel)
  · exact System.exists_of_run bootedTable_init (show (bookedTable.run bootedTable
      [.add 1 7, .addReturn 1, .add 2 7, .addReturn 2, .lookup 3 1, .lookupReturn 3, .remove 1 7,
        .unlock 3 7, .remove 2 7, .add 4 9, .addReturn 4, .removeRetry 1, .remove 4 9]).any
        (fun p => decide (p.1.pc 4 = .crashed)) = true by decide +kernel)

end MiMic.Snic
