import Mathlib.Tactic
import MiMic.Lib.System

/-!
# The socket tables of the Wi-Fi interface

`NyLPC_cSnicNetIf` keeps its listeners and sockets in four static tables. A slot is marked when an
object is created in it, and found again by the socket number of the module that stands in it.
-/
namespace MiMic.Snic

open Verif

/-- The four tables. -/
inductive SocketTable
  | tcpListener | tcpSocket | udpSocket | udpSocketNb
deriving DecidableEq

/-- A slot: `FLAGS_USED`, and of the object `_socket` and `FLAGS_SOCKET_ENABLE`, which only a TCP
socket has. -/
structure SocketSlot where
  used : Bool
  socket : UInt8
  enable : Bool
deriving DecidableEq

abbrev SocketTables := SocketTable → List SocketSlot

/-- Static storage; the header with the sizes is not in the repository. -/
def SocketTables.zero (size : SocketTable → Nat) : SocketTables :=
  fun k => List.replicate (size k) ⟨false, 0, false⟩

/-- The search for a slot: those that `skips` passes over are left alone, the others are
initialised up to the first that succeeds. -/
def searchSlot (skips : SocketSlot → Bool) (init : Nat → SocketSlot → Bool × SocketSlot) :
    Nat → List SocketSlot → Option Nat × List SocketSlot
  | _, [] => (none, [])
  | i, s :: t =>
      if skips s then
        ((searchSlot skips init (i + 1) t).1, s :: (searchSlot skips init (i + 1) t).2)
      else if (init i s).1 then (some i, { (init i s).2 with used := true } :: t)
      else ((searchSlot skips init (i + 1) t).1, (init i s).2 :: (searchSlot skips init (i + 1) t).2)

/-- What the module answers to the two commands of an initialisation: the number that stands in
the answer to the first, and whether each succeeds. -/
structure ModuleAnswers where
  socket : UInt8
  created : Bool
  started : Bool

def ModuleAnswers.succeeds (a : ModuleAnswers) : Bool := a.created && a.started

/-- `NyLPC_cSnicTcpSocket_initialize`. -/
def tcpSocketInitialize (_ : Nat) (s : SocketSlot) : Bool × SocketSlot :=
  (true, { s with enable := false })

/-- `NyLPC_cSnicTcpListener_initialize`: the number is stored by the first command. -/
def tcpListenerInitialize (answers : Nat → ModuleAnswers) (i : Nat) (s : SocketSlot) :
    Bool × SocketSlot :=
  ((answers i).succeeds, { s with socket := (answers i).socket })

/-- `NyLPC_SnicUdpSocket_initialize`: the number is stored behind a failure only. -/
def udpSocketInitialize (answers : Nat → ModuleAnswers) (i : Nat) (s : SocketSlot) :
    Bool × SocketSlot :=
  if (answers i).succeeds then (true, s) else (false, { s with socket := (answers i).socket })

/-- `createTcpSocetEx`, for a type of TCP sockets. -/
def createTcpSocetEx (t : List SocketSlot) : Option Nat × List SocketSlot :=
  searchSlot SocketSlot.used tcpSocketInitialize 0 t

/-- `createTcpListener`. -/
def createTcpListener (answers : Nat → ModuleAnswers) (t : List SocketSlot) :
    Option Nat × List SocketSlot :=
  searchSlot SocketSlot.used (tcpListenerInitialize answers) 0 t

/-- What the index that `createUdpSocetEx` never sets makes of the first test. -/
structure StackIndex where
  i : Nat
  beyond : Bool

/-- `udpsocket[i].flags&FLAGS_USED`, also behind the table. -/
def StackIndex.seesUsed (x : StackIndex) (t : List SocketSlot) : Bool :=
  (t[x.i]?).elim x.beyond SocketSlot.used

/-- `createUdpSocetEx`, the same for both types of UDP sockets. No slot is passed over. -/
def createUdpSocetEx (x : StackIndex) (answers : Nat → ModuleAnswers) (t : List SocketSlot) :
    Option Nat × List SocketSlot :=
  if x.seesUsed t then (none, t)
  else searchSlot (fun _ => false) (udpSocketInitialize answers) 0 t

/-- The `remove` functions of the four tables. -/
def removeSlot (t : List SocketSlot) (i : Nat) : List SocketSlot :=
  t.modify i fun s => { s with used := true }

/-- The `isSocketEqual` functions. -/
def isSocketEqual (k : SocketTable) (n : UInt8) (s : SocketSlot) : Bool :=
  match k with
  | .tcpSocket => s.socket = n && s.enable
  | _ => s.socket = n

/-- `NyLPC_cSnicTcpSocket_bindServerSocket`. -/
def bindServerSocket (t : List SocketSlot) (i : Nat) (n : UInt8) : List SocketSlot :=
  t.modify i fun s => { s with socket := n, enable := true }

/-- `close` of a TCP socket. -/
def closeSlot (t : List SocketSlot) (i : Nat) : List SocketSlot :=
  t.modify i fun s => { s with enable := false }

/-- What the three lookups search, in order. -/
inductive SocketLookup
  | getTcpListenerBySocket | getTcpSocketBySocket | getUdpSocketBySocket
deriving DecidableEq

def SocketLookup.tables : SocketLookup → List SocketTable
  | getTcpListenerBySocket => [.tcpListener]
  | getTcpSocketBySocket => [.tcpSocket]
  | getUdpSocketBySocket => [.udpSocket, .udpSocketNb]

def SocketTables.find (w : SocketTables) (n : UInt8) : List SocketTable → Option (SocketTable × Nat)
  | [] => none
  | k :: ks =>
      match (w k).findIdx? (isSocketEqual k n) with
      | some i => some (k, i)
      | none => w.find n ks

inductive SocketEvent
  | createTcpSocket
  | createTcpListener (answers : Nat → ModuleAnswers)
  | createUdpSocket (nb : Bool) (x : StackIndex) (answers : Nat → ModuleAnswers)
  | finalize (k : SocketTable) (i : Nat)
  | bind (i : Nat) (n : UInt8)
  | close (i : Nat)
  | lookup (l : SocketLookup) (n : UInt8)

def udpTable (nb : Bool) : SocketTable := if nb then .udpSocketNb else .udpSocket

def SocketTables.apply (w : SocketTables) : SocketEvent → SocketTables
  | .createTcpSocket => Function.update w .tcpSocket (createTcpSocetEx (w .tcpSocket)).2
  | .createTcpListener answers =>
      Function.update w .tcpListener (Snic.createTcpListener answers (w .tcpListener)).2
  | .createUdpSocket nb x answers =>
      Function.update w (udpTable nb) (createUdpSocetEx x answers (w (udpTable nb))).2
  | .finalize k i => Function.update w k (removeSlot (w k) i)
  | .bind i n => Function.update w .tcpSocket (bindServerSocket (w .tcpSocket) i n)
  | .close i => Function.update w .tcpSocket (closeSlot (w .tcpSocket) i)
  | .lookup _ _ => w

/-- The objects that are live, each with its socket of the module, if it has one, and whether every
answer so far was right. -/
structure LiveSockets where
  live : SocketTable → Nat → Option (Option UInt8)
  ok : Bool

namespace LiveSockets

def set (b : LiveSockets) (k : SocketTable) (i : Nat) (o : Option (Option UInt8)) : LiveSockets :=
  { b with live := Function.update b.live k (Function.update (b.live k) i o) }

def check (b : LiveSockets) (good : Bool) : LiveSockets := { b with ok := b.ok && good }

/-- A creation gives a slot without a live object. Where it has not even tried a slot it has failed
for lack of space: then every slot has one. -/
def created (b : LiveSockets) (k : SocketTable) (size : Nat) (r : Option Nat) (tried : Bool)
    (number : Nat → Option UInt8) : LiveSockets :=
  match r with
  | some i => (b.check (b.live k i).isNone).set k i (some (number i))
  | none => b.check (tried || decide (∀ i < size, b.live k i ≠ none))

/-- A lookup gives the live object with this number, or there is none. -/
def Finds (b : LiveSockets) (w : SocketTables) (n : UInt8) (ks : List SocketTable) :
    Option (SocketTable × Nat) → Prop
  | some (k, i) => b.live k i = some (some n)
  | none => ∀ k ∈ ks, ∀ i < (w k).length, b.live k i ≠ some (some n)

instance (b : LiveSockets) (w : SocketTables) (n : UInt8) (ks : List SocketTable) :
    (r : Option (SocketTable × Nat)) → Decidable (b.Finds w n ks r)
  | some (k, i) => inferInstanceAs (Decidable (b.live k i = some (some n)))
  | none => inferInstanceAs (Decidable (∀ k ∈ ks, ∀ i < (w k).length, b.live k i ≠ some (some n)))

def note (b : LiveSockets) (w : SocketTables) : SocketEvent → LiveSockets
  | .createTcpSocket =>
      b.created .tcpSocket (w .tcpSocket).length (createTcpSocetEx (w .tcpSocket)).1 false
        fun _ => none
  | .createTcpListener answers =>
      b.created .tcpListener (w .tcpListener).length
        (Snic.createTcpListener answers (w .tcpListener)).1
        ((w .tcpListener).any fun s => !s.used) fun i => some (answers i).socket
  | .createUdpSocket nb x answers =>
      b.created (udpTable nb) (w (udpTable nb)).length
        (createUdpSocetEx x answers (w (udpTable nb))).1
        (!x.seesUsed (w (udpTable nb))) fun i => some (answers i).socket
  | .finalize k i =>
      (b.check (((removeSlot (w k) i)[i]?).all fun s => !s.used)).set k i none
  | .bind i n => b.set .tcpSocket i (some (some n))
  | .close i => b.set .tcpSocket i (some none)
  | .lookup l n => b.check (decide (b.Finds w n l.tables (w.find n l.tables)))

/-- What callers keep to: a live object is finalized and closed, and a socket is bound once. -/
def Legal (b : LiveSockets) : SocketEvent → Prop
  | .finalize k i => b.live k i ≠ none
  | .bind i _ => b.live .tcpSocket i = some none
  | .close i => b.live .tcpSocket i ≠ none
  | _ => True

instance (b : LiveSockets) (e : SocketEvent) : Decidable (b.Legal e) := by
  unfold Legal
  split <;> infer_instance

end LiveSockets

def socketTables (size : SocketTable → Nat) : System (SocketTables × LiveSockets) SocketEvent where
  init p := p = (.zero size, ⟨fun _ _ => none, true⟩)
  step p e := if p.2.Legal e then some (p.1.apply e, p.2.note p.1 e) else none

/-- A step that the tables are good for. Nothing is finalized. The unset index of a creation of a
UDP socket sees a slot in use only where all are; otherwise the slots in use come behind one whose
initialisation succeeds, and the first such has the number already that the module gives. Of the
slots that carry a number which is looked up, the first is in use. -/
def KeepsTables (p : SocketTables × LiveSockets) : SocketEvent → Prop
  | .finalize _ _ => False
  | .createUdpSocket nb x answers =>
      let t := p.1 (udpTable nb)
      if x.seesUsed t then ∀ s ∈ t, s.used = true
      else ∀ i : Fin t.length, (∀ j < i.val, (answers j).succeeds = false) →
        t[i].used = false ∧ ((answers i).succeeds = true → (answers i).socket = t[i].socket)
  | .lookup l n =>
      match p.1.find n l.tables with
      | some (k, i) => ∃ s ∈ (p.1 k)[i]?, s.used = true
      | none => True
  | _ => True

/-- What a search makes of one slot. -/
inductive Searched (init : Nat → SocketSlot → Bool × SocketSlot) (r : Option Nat) (i : Nat)
    (s : SocketSlot) : SocketSlot → Prop
  | kept : r ≠ some i → Searched init r i s s
  | failed : r ≠ some i → s.used = false → (init i s).1 = false → Searched init r i s (init i s).2
  | taken : r = some i → s.used = false → (init i s).1 = true →
      Searched init r i s { (init i s).2 with used := true }

variable {skips : SocketSlot → Bool} {init : Nat → SocketSlot → Bool × SocketSlot}

theorem length_searchSlot (i : Nat) (t : List SocketSlot) :
    (searchSlot skips init i t).2.length = t.length := by
  induction t generalizing i with
  | nil => rfl
  | cons s t ih =>
    rw [searchSlot]
    split
    · rw [List.length_cons, ih, List.length_cons]
    · split
      · rw [List.length_cons, List.length_cons]
      · rw [List.length_cons, ih, List.length_cons]

/-- The slot that a search gives lies in the part that it searched. -/
theorem searchSlot_range {i m : Nat} {t : List SocketSlot} (h : (searchSlot skips init i t).1 = some m) :
    i ≤ m ∧ m < i + t.length := by
  induction t generalizing i with
  | nil => cases h
  | cons s t ih =>
    rw [searchSlot] at h
    rw [List.length_cons]
    split at h
    · have := ih h
      omega
    · split at h
      · obtain rfl := Option.some.inj h
        omega
      · have := ih h
        omega

/-- Slots in use are passed over, or come behind an initialisation that succeeds. -/
def KeepsUsed (skips : SocketSlot → Bool) (init : Nat → SocketSlot → Bool × SocketSlot) (i : Nat)
    (t : List SocketSlot) : Prop :=
  ∀ j s, t[j]? = some s → s.used = true → skips s = true ∨
    ∃ m s', m < j ∧ t[m]? = some s' ∧ skips s' = false ∧ (init (i + m) s').1 = true

theorem searched {i : Nat} {t : List SocketSlot} (hkeeps : KeepsUsed skips init i t) {j : Nat}
    {s' : SocketSlot} (h : (searchSlot skips init i t).2[j]? = some s') :
    ∃ s, t[j]? = some s ∧ Searched init (searchSlot skips init i t).1 (i + j) s s' := by
  induction t generalizing i j with
  | nil => cases h
  | cons s t ih =>
    have hrest : (skips s = true ∨ (init i s).1 = false) → KeepsUsed skips init (i + 1) t := by
      intro hpassed j x hx hused
      rcases hkeeps (j + 1) x hx hused with hskip | ⟨m, s', hm, hs', hno, hok⟩
      · exact Or.inl hskip
      · cases m with
        | zero =>
          obtain rfl := Option.some.inj hs'
          rcases hpassed with hp | hp
          · rw [hno] at hp
            cases hp
          · rw [Nat.add_zero, hp] at hok
            cases hok
        | succ m =>
          refine Or.inr ⟨m, s', Nat.lt_of_succ_lt_succ hm, hs', hno, ?_⟩
          rwa [Nat.add_assoc, Nat.add_comm 1 m]
    have hunused : skips s = false → s.used = false := by
      intro hno
      by_contra hused
      rcases hkeeps 0 s rfl (Bool.eq_true_of_not_eq_false hused) with hskip | ⟨m, -, hm, -⟩
      · rw [hno] at hskip
        cases hskip
      · exact absurd hm (Nat.not_lt_zero m)
    have hnot : (searchSlot skips init (i + 1) t).1 ≠ some (i + 0) := by
      intro hm
      have := (searchSlot_range hm).1
      omega
    have hnext : ∀ {x}, (skips s = true ∨ (init i s).1 = false) →
        (searchSlot skips init (i + 1) t).2[x]? = some s' →
          ∃ y, t[x]? = some y ∧
            Searched init (searchSlot skips init (i + 1) t).1 (i + (x + 1)) y s' := by
      intro x hpassed hx
      obtain ⟨y, hy, hs⟩ := ih (hrest hpassed) hx
      refine ⟨y, hy, ?_⟩
      rwa [Nat.add_comm x 1, ← Nat.add_assoc]
    rw [searchSlot] at h ⊢
    split at h
    · next hskip =>
      rw [if_pos hskip]
      cases j with
      | zero =>
        obtain rfl := Option.some.inj h
        exact ⟨s, rfl, .kept hnot⟩
      | succ j => exact hnext (Or.inl hskip) h
    · next hskip =>
      have hno : skips s = false := Bool.eq_false_iff.mpr hskip
      rw [if_neg hskip]
      split at h
      · next hok =>
        rw [if_pos hok]
        cases j with
        | zero =>
          obtain rfl := Option.some.inj h
          exact ⟨s, rfl, .taken rfl (hunused hno) hok⟩
        | succ j => exact ⟨s', h, .kept fun hi => by have := Option.some.inj hi; omega⟩
      · next hok =>
        have hfail : (init i s).1 = false := Bool.eq_false_iff.mpr hok
        rw [if_neg hok]
        cases j with
        | zero =>
          obtain rfl := Option.some.inj h
          exact ⟨s, rfl, .failed hnot (hunused hno) hfail⟩
        | succ j => exact hnext (Or.inr hfail) h

/-- The slots before the one that a search gives were passed over, or it failed at them. -/
theorem searchSlot_before {i j : Nat} {t : List SocketSlot} {s : SocketSlot}
    (h : ∀ m, (searchSlot skips init i t).1 = some m → i + j < m) (hs : t[j]? = some s) :
    skips s = true ∨ (init (i + j) s).1 = false := by
  induction t generalizing i j with
  | nil => cases hs
  | cons x t ih =>
    rw [searchSlot] at h
    have hnext : ∀ {j}, (∀ m, (searchSlot skips init (i + 1) t).1 = some m → i + (j + 1) < m) →
        t[j]? = some s → skips s = true ∨ (init (i + (j + 1)) s).1 = false := by
      intro j hbefore hj
      rw [Nat.add_comm j 1, ← Nat.add_assoc] at hbefore ⊢
      exact ih hbefore hj
    split at h
    · next hskip =>
      cases j with
      | zero =>
        obtain rfl := Option.some.inj hs
        exact Or.inl hskip
      | succ j => exact hnext h hs
    · split at h
      · have := h i rfl
        omega
      · next hok =>
        cases j with
        | zero =>
          obtain rfl := Option.some.inj hs
          exact Or.inr (Bool.eq_false_iff.mpr hok)
        | succ j => exact hnext h hs

/-- The slot that a search gives was initialised. -/
theorem searchSlot_some {i m : Nat} {t : List SocketSlot} (h : (searchSlot skips init i t).1 = some m)
    (hkeeps : KeepsUsed skips init i t) :
    ∃ s, t[m - i]? = some s ∧ s.used = false ∧ (init m s).1 = true := by
  have hrange := searchSlot_range h
  have hin : m - i < (searchSlot skips init i t).2.length := by
    rw [length_searchSlot]
    omega
  obtain ⟨s, hs, hsearched⟩ := searched hkeeps (List.getElem?_eq_getElem hin)
  rw [h, show i + (m - i) = m by omega] at hsearched
  refine ⟨s, hs, ?_⟩
  generalize (searchSlot skips init i t).2[m - i] = s' at hsearched
  cases hsearched with
  | kept hne => exact absurd rfl hne
  | failed hne => exact absurd rfl hne
  | taken _ hused hok => exact ⟨hused, hok⟩

/-- A slot is in use while its object is live, and found under the number of its object. A slot
that is not in use may be found only in a table without `FLAGS_SOCKET_ENABLE`. -/
structure SlotOk (k : SocketTable) (o : Option (Option UInt8)) (s : SocketSlot) : Prop where
  used : s.used = true ↔ o ≠ none
  number : o ≠ none ∨ k = .tcpSocket → ∀ n, isSocketEqual k n s = true ↔ o = some (some n)

structure TablesInv (p : SocketTables × LiveSockets) : Prop where
  ok : p.2.ok = true
  slots : ∀ k i s, (p.1 k)[i]? = some s → SlotOk k (p.2.live k i) s
  range : ∀ k i, p.2.live k i ≠ none → i < (p.1 k).length

variable {w : SocketTables} {b : LiveSockets} {k : SocketTable}

theorem TablesInv.slot (h : TablesInv (w, b)) {i : Nat} {o : Option UInt8}
    (ho : b.live k i = some o) : ∃ s, (w k)[i]? = some s ∧ SlotOk k (some o) s := by
  have hlt : i < (w k).length := h.range k i (by rw [ho]; exact nofun)
  refine ⟨(w k)[i], List.getElem?_eq_getElem hlt, ?_⟩
  rw [← ho]
  exact h.slots k i _ (List.getElem?_eq_getElem hlt)

theorem live_set_self (i : Nat) (o : Option (Option UInt8)) : (b.set k i o).live k i = o := by
  simp [LiveSockets.set]

theorem live_set_of_ne {k' : SocketTable} {i j : Nat} (o : Option (Option UInt8))
    (h : k' ≠ k ∨ j ≠ i) : (b.set k i o).live k' j = b.live k' j := by
  by_cases hk : k' = k
  · subst hk
    simp [LiveSockets.set, Function.update_of_ne (h.resolve_left (fun hne => hne rfl))]
  · simp [LiveSockets.set, Function.update_of_ne hk]

/-- One table and its objects change. -/
theorem TablesInv.update {t : List SocketSlot} {b' : LiveSockets} (h : TablesInv (w, b))
    (hok : b'.ok = true) (hrest : ∀ k' j, k' ≠ k → b'.live k' j = b.live k' j)
    (hslots : ∀ j s, t[j]? = some s → SlotOk k (b'.live k j) s)
    (hrange : ∀ j, b'.live k j ≠ none → j < t.length) : TablesInv (Function.update w k t, b') := by
  refine ⟨hok, fun k' j s (hs : (Function.update w k t k')[j]? = some s) => ?_,
    fun k' j (hj : b'.live k' j ≠ none) => ?_⟩
  · show SlotOk k' (b'.live k' j) s
    by_cases hk : k' = k
    · subst hk
      rw [Function.update_self] at hs
      exact hslots j s hs
    · rw [Function.update_of_ne hk] at hs
      rw [hrest k' j hk]
      exact h.slots k' j s hs
  · show j < (Function.update w k t k').length
    by_cases hk : k' = k
    · subst hk
      rw [Function.update_self]
      exact hrange j hj
    · rw [Function.update_of_ne hk]
      rw [hrest k' j hk] at hj
      exact h.range k' j hj

/-- One slot and its object change. -/
theorem TablesInv.set {t : List SocketSlot} {i : Nat} {o : Option (Option UInt8)} {b' : LiveSockets}
    (h : TablesInv (w, b)) (hb : b'.live = (b.set k i o).live) (hok : b'.ok = true)
    (hlen : t.length = (w k).length) (hi : i < t.length)
    (hother : ∀ j s, j ≠ i → t[j]? = some s → SlotOk k (b.live k j) s)
    (hself : ∀ s, t[i]? = some s → SlotOk k o s) : TablesInv (Function.update w k t, b') := by
  refine h.update hok (fun k' j hk => ?_) (fun j s hs => ?_) fun j hj => ?_
  · rw [hb, live_set_of_ne o (Or.inl hk)]
  · rw [hb]
    by_cases hji : j = i
    · subst hji
      rw [live_set_self]
      exact hself s hs
    · rw [live_set_of_ne o (Or.inr hji)]
      exact hother j s hji hs
  · by_cases hji : j = i
    · rwa [hji]
    · rw [hb, live_set_of_ne o (Or.inr hji)] at hj
      rw [hlen]
      exact h.range k j hj

/-- A creation, from what an initialisation makes of a slot without an object. -/
theorem tables_created {number : Nat → Option UInt8} {tried : Bool} (h : TablesInv (w, b))
    (hkeeps : KeepsUsed skips init 0 (w k))
    (hfailed : ∀ i s, (w k)[i]? = some s → SlotOk k none s → (init i s).1 = false →
      SlotOk k none (init i s).2)
    (htaken : ∀ i s, (w k)[i]? = some s → SlotOk k none s → (init i s).1 = true →
      (searchSlot skips init 0 (w k)).1 = some i →
        SlotOk k (some (number i)) { (init i s).2 with used := true })
    (hnone : (searchSlot skips init 0 (w k)).1 = none → tried = true ∨ ∀ s ∈ w k, s.used = true) :
    TablesInv (Function.update w k (searchSlot skips init 0 (w k)).2,
      b.created k (w k).length (searchSlot skips init 0 (w k)).1 tried number) := by
  have hlen : (searchSlot skips init 0 (w k)).2.length = (w k).length := length_searchSlot 0 (w k)
  have hunused : ∀ {j : Nat} {s : SocketSlot}, (w k)[j]? = some s → s.used = false → b.live k j = none := by
    intro j s hs hused
    by_contra hlive
    rw [(h.slots k j s hs).used.mpr hlive] at hused
    cases hused
  have hempty : ∀ {j : Nat} {s : SocketSlot}, (w k)[j]? = some s → s.used = false → SlotOk k none s := by
    intro j s hs hused
    rw [← hunused hs hused]
    exact h.slots k j s hs
  -- what a slot is that was not taken
  have hother : ∀ (j : Nat) (s' : SocketSlot), (searchSlot skips init 0 (w k)).1 ≠ some j →
      (searchSlot skips init 0 (w k)).2[j]? = some s' → SlotOk k (b.live k j) s' := by
    intro j s' hne hs'
    obtain ⟨s, hs, hsearched⟩ := searched hkeeps hs'
    rw [Nat.zero_add] at hsearched
    cases hsearched with
    | kept _ => exact h.slots k j _ hs
    | failed _ hused hfail =>
      rw [hunused hs hused]
      exact hfailed j s hs (hempty hs hused) hfail
    | taken hr => exact absurd hr hne
  cases hr : (searchSlot skips init 0 (w k)).1 with
  | none =>
    rw [hr] at hother
    refine h.update ?_ (fun _ _ _ => rfl) (fun j s => hother j s (by simp)) fun j hj => ?_
    · show (b.ok && (tried || decide (∀ i < (w k).length, b.live k i ≠ none))) = true
      have hall : tried = true ∨ ∀ i < (w k).length, b.live k i ≠ none := by
        refine (hnone hr).imp id fun hused i hi => ?_
        exact (h.slots k i _ (List.getElem?_eq_getElem hi)).used.mp (hused _ (List.getElem_mem hi))
      have hok : b.ok = true := h.ok
      rw [hok, Bool.true_and, Bool.or_eq_true, decide_eq_true_eq]
      exact hall
    · rw [hlen]
      exact h.range k j hj
  | some i =>
    obtain ⟨s, hs, hused, hok⟩ := searchSlot_some hr hkeeps
    rw [Nat.sub_zero] at hs
    have hi : i < (w k).length := (List.getElem?_eq_some_iff.mp hs).1
    refine h.set rfl ?_ hlen (by rw [hlen]; exact hi) (fun j s' hj => ?_) fun s' hs' => ?_
    · show (b.ok && (b.live k i).isNone) = true
      have hbok : b.ok = true := h.ok
      rw [hbok, hunused hs hused]
      rfl
    · refine hother j s' ?_
      rw [hr]
      exact fun heq => hj (Option.some.inj heq).symm
    · obtain ⟨x, hx, hsearched⟩ := searched hkeeps hs'
      rw [Nat.zero_add, hr] at hsearched
      cases hsearched with
      | kept hne => exact absurd rfl hne
      | failed hne => exact absurd rfl hne
      | taken _ hused' hok' => exact htaken i x hx (hempty hx hused') hok' hr

theorem keepsUsed_used (init : Nat → SocketSlot → Bool × SocketSlot) (i : Nat) (t : List SocketSlot) :
    KeepsUsed SocketSlot.used init i t := fun _ _ _ hused => Or.inl hused

/-- A number in a slot without an object does no harm where only objects are looked up. -/
theorem SlotOk.store {s : SocketSlot} (h : SlotOk k none s) (hk : k ≠ .tcpSocket) (n : UInt8) :
    SlotOk k none { s with socket := n } :=
  ⟨h.used, fun ho => absurd (ho.resolve_left fun hne => hne rfl) hk⟩

theorem SlotOk.open {s : SocketSlot} (hk : k ≠ .tcpSocket) :
    SlotOk k (some (some s.socket)) { s with used := true } := by
  refine ⟨iff_of_true rfl nofun, fun _ n => ?_⟩
  cases k with
  | tcpSocket => exact absurd rfl hk
  | tcpListener => simp [isSocketEqual]
  | udpSocket => simp [isSocketEqual]
  | udpSocketNb => simp [isSocketEqual]

theorem tables_createTcpSocket (h : TablesInv (w, b)) :
    TablesInv (w.apply .createTcpSocket, b.note w .createTcpSocket) := by
  refine @tables_created _ tcpSocketInitialize w b _ _ _ h (keepsUsed_used _ _ _) (fun _ _ _ _ hf => nomatch hf)
    (fun _ s _ _ _ _ => ?_) fun hr => Or.inr fun s hs => ?_
  · refine ⟨iff_of_true rfl nofun, fun _ n => ?_⟩
    simp [isSocketEqual, tcpSocketInitialize]
  · obtain ⟨i, hi⟩ := List.mem_iff_getElem?.mp hs
    have hbefore : s.used = true ∨ (tcpSocketInitialize (0 + i) s).1 = false :=
      searchSlot_before (fun m hm => by rw [hr] at hm; cases hm) hi
    exact hbefore.resolve_right fun hf => Bool.noConfusion hf

theorem tables_createTcpListener (h : TablesInv (w, b)) (answers : Nat → ModuleAnswers) :
    TablesInv (w.apply (.createTcpListener answers), b.note w (.createTcpListener answers)) := by
  refine @tables_created _ (tcpListenerInitialize answers) w b _ _ _ h (keepsUsed_used _ _ _)
    (fun _ _ _ hs _ => hs.store nofun _) (fun i s _ _ _ _ => ?_) fun _ => ?_
  · exact SlotOk.open (s := { s with socket := (answers i).socket }) nofun
  · by_cases hany : (w .tcpListener).any (fun s => !s.used) = true
    · exact Or.inl hany
    · refine Or.inr fun s hs => ?_
      by_contra hused
      exact hany (List.any_eq_true.mpr ⟨s, hs, by simp [Bool.eq_false_iff.mpr hused]⟩)

theorem udpTable_ne (nb : Bool) : udpTable nb ≠ .tcpSocket := by cases nb <;> nofun

theorem tables_createUdpSocket (h : TablesInv (w, b)) {nb : Bool} {x : StackIndex}
    {answers : Nat → ModuleAnswers} (hok : KeepsTables (w, b) (.createUdpSocket nb x answers)) :
    TablesInv (w.apply (.createUdpSocket nb x answers), b.note w (.createUdpSocket nb x answers)) := by
  unfold KeepsTables at hok
  dsimp only at hok
  by_cases hsees : x.seesUsed (w (udpTable nb)) = true
  · rw [if_pos hsees] at hok
    have hcreate : createUdpSocetEx x answers (w (udpTable nb)) = (none, w (udpTable nb)) := if_pos hsees
    have hlive : ∀ i < (w (udpTable nb)).length, b.live (udpTable nb) i ≠ none := fun i hi =>
      (h.slots _ i _ (List.getElem?_eq_getElem hi)).used.mp (hok _ (List.getElem_mem hi))
    show TablesInv (Function.update w (udpTable nb) (createUdpSocetEx x answers (w (udpTable nb))).2,
      b.created (udpTable nb) (w (udpTable nb)).length (createUdpSocetEx x answers (w (udpTable nb))).1
        (!x.seesUsed (w (udpTable nb))) fun i => some (answers i).socket)
    rw [hcreate, hsees]
    refine h.update ?_ (fun _ _ _ => rfl) (fun j s hs => h.slots _ j s hs) fun j hj => h.range _ j hj
    show (b.ok && (!true || decide (∀ i < (w (udpTable nb)).length, b.live (udpTable nb) i ≠ none))) = true
    have hbok : b.ok = true := h.ok
    rw [hbok, decide_eq_true hlive]
    rfl
  · rw [if_neg hsees] at hok
    have hcreate : createUdpSocetEx x answers (w (udpTable nb)) =
        searchSlot (fun _ => false) (udpSocketInitialize answers) 0 (w (udpTable nb)) := if_neg hsees
    have hinit : ∀ i s, (udpSocketInitialize answers i s).1 = (answers i).succeeds := by
      intro i s
      unfold udpSocketInitialize
      split
      · next hs => exact hs.symm
      · next hs => exact (Bool.eq_false_iff.mpr hs).symm
    show TablesInv (Function.update w (udpTable nb) (createUdpSocetEx x answers (w (udpTable nb))).2,
      b.created (udpTable nb) (w (udpTable nb)).length (createUdpSocetEx x answers (w (udpTable nb))).1
        (!x.seesUsed (w (udpTable nb))) fun i => some (answers i).socket)
    rw [hcreate]
    refine tables_created h (fun j s hs hused => ?_) (fun i s _ hs hfail => ?_)
      (fun i s hs hslot hsucc hr => ?_) fun _ => Or.inl (by simp [hsees])
    · obtain ⟨hj, rfl⟩ := List.getElem?_eq_some_iff.mp hs
      refine Or.inr ?_
      by_contra hno
      have hfirst : ∀ m < j, (answers m).succeeds = false := by
        intro m hm
        by_contra hsucc
        refine hno ⟨m, (w (udpTable nb))[m], hm, List.getElem?_eq_getElem (hm.trans hj), rfl, ?_⟩
        rw [hinit, Nat.zero_add]
        exact Bool.eq_true_of_not_eq_false hsucc
      have hunused := (hok ⟨j, hj⟩ hfirst).1
      exact Bool.false_ne_true (hunused.symm.trans hused)
    · rw [hinit] at hfail
      rw [udpSocketInitialize, if_neg (Bool.eq_false_iff.mp hfail)]
      exact hs.store (udpTable_ne nb) _
    · obtain ⟨hi, rfl⟩ := List.getElem?_eq_some_iff.mp hs
      rw [hinit] at hsucc
      have hfirst : ∀ m < i, (answers m).succeeds = false := by
        intro m hm
        have hin : (w (udpTable nb))[m]? = some (w (udpTable nb))[m] :=
          List.getElem?_eq_getElem (hm.trans hi)
        have hbefore := @searchSlot_before (fun _ => false) (udpSocketInitialize answers) 0 m _ _
          (fun n hn => by
            rw [hr] at hn
            rw [Nat.zero_add]
            exact Option.some.inj hn ▸ hm) hin
        rw [hinit, Nat.zero_add] at hbefore
        exact hbefore.resolve_left Bool.false_ne_true
      have hnumber : (answers i).socket = (w (udpTable nb))[i].socket := (hok ⟨i, hi⟩ hfirst).2 hsucc
      rw [udpSocketInitialize, if_pos hsucc, hnumber]
      exact SlotOk.open (udpTable_ne nb)

/-- A step on one TCP socket that is live. -/
theorem tables_modify (h : TablesInv (w, b)) {i : Nat} {o o' : Option UInt8} {f : SocketSlot → SocketSlot}
    (hlive : b.live .tcpSocket i = some o)
    (hf : ∀ s, SlotOk .tcpSocket (some o) s → SlotOk .tcpSocket (some o') (f s)) :
    TablesInv (Function.update w .tcpSocket ((w .tcpSocket).modify i f),
      b.set .tcpSocket i (some o')) := by
  obtain ⟨s, hs, hslot⟩ := h.slot hlive
  have hi := (List.getElem?_eq_some_iff.mp hs).1
  refine h.set rfl h.ok (List.length_modify ..) (by rwa [List.length_modify]) (fun j x hj hx => ?_)
    fun x hx => ?_
  · rw [List.getElem?_modify_ne _ _ (Ne.symm hj)] at hx
    exact h.slots _ j x hx
  · rw [List.getElem?_modify_eq, hs] at hx
    obtain rfl := Option.some.inj hx
    exact hf s hslot

theorem find_some {ks : List SocketTable} {n : UInt8} {i : Nat} (h : w.find n ks = some (k, i)) :
    ∃ s, (w k)[i]? = some s ∧ isSocketEqual k n s = true := by
  induction ks with
  | nil => cases h
  | cons k' ks ih =>
    rw [SocketTables.find] at h
    split at h
    · next j hj =>
      obtain ⟨rfl, rfl⟩ := Prod.mk.inj (Option.some.inj h)
      obtain ⟨hlt, hp, -⟩ := List.findIdx?_eq_some_iff_getElem.mp hj
      exact ⟨_, List.getElem?_eq_getElem hlt, hp⟩
    · exact ih h

theorem find_none {ks : List SocketTable} {n : UInt8} (h : w.find n ks = none) (hk : k ∈ ks)
    {s : SocketSlot} (hs : s ∈ w k) : isSocketEqual k n s = false := by
  induction ks with
  | nil => cases hk
  | cons k' ks ih =>
    rw [SocketTables.find] at h
    split at h
    · cases h
    · next hnone =>
      rcases List.mem_cons.mp hk with rfl | hk
      · exact List.findIdx?_eq_none_iff.mp hnone s hs
      · exact ih h hk

theorem tables_lookup (h : TablesInv (w, b)) {l : SocketLookup} {n : UInt8}
    (hok : KeepsTables (w, b) (.lookup l n)) :
    TablesInv (w.apply (.lookup l n), b.note w (.lookup l n)) := by
  have hfinds : b.Finds w n l.tables (w.find n l.tables) := by
    cases hfind : w.find n l.tables with
    | none =>
      intro k hk i hi hlive
      obtain ⟨s, hs, hslot⟩ := h.slot hlive
      have hno := find_none hfind hk (List.mem_of_getElem? hs)
      rw [(hslot.number (Or.inl nofun) n).mpr rfl] at hno
      cases hno
    | some r =>
      obtain ⟨k, i⟩ := r
      obtain ⟨s, hs, hequal⟩ := find_some hfind
      have hslot := h.slots k i s hs
      unfold KeepsTables at hok
      dsimp only at hok
      rw [hfind] at hok
      obtain ⟨s', hs', hused⟩ := hok
      obtain rfl : s = s' := Option.some.inj (hs.symm.trans hs')
      exact (hslot.number (Or.inl (hslot.used.mp hused)) n).mp hequal
  refine ⟨?_, h.slots, h.range⟩
  show (b.ok && decide (b.Finds w n l.tables (w.find n l.tables))) = true
  have hbok : b.ok = true := h.ok
  rw [hbok, decide_eq_true hfinds]
  rfl

theorem tables_step (h : TablesInv (w, b)) {e : SocketEvent} (hok : KeepsTables (w, b) e)
    (hlegal : b.Legal e) : TablesInv (w.apply e, b.note w e) := by
  cases e with
  | createTcpSocket => exact tables_createTcpSocket h
  | createTcpListener answers => exact tables_createTcpListener h answers
  | createUdpSocket nb x answers => exact tables_createUdpSocket h hok
  | finalize k i => exact hok.elim
  | bind i n =>
    refine tables_modify h hlegal fun s hs => ⟨iff_of_true (hs.used.mpr nofun) nofun, fun _ m => ?_⟩
    simp [isSocketEqual]
  | close i =>
    obtain ⟨o, ho⟩ := Option.ne_none_iff_exists'.mp hlegal
    refine tables_modify h ho fun s hs => ⟨iff_of_true (hs.used.mpr nofun) nofun, fun _ m => ?_⟩
    simp [isSocketEqual]
  | lookup l n => exact tables_lookup h hok

/-- In every run whose steps all find the tables good for them, every creation, finalization and
lookup is right. -/
theorem socket_tables {size : SocketTable → Nat} {p : SocketTables × LiveSockets}
    (h : (socketTables size).Reaches KeepsTables p) : p.2.ok = true := by
  refine (h.invariant (P := TablesInv) ?_ ?_).ok
  · rintro p rfl
    refine ⟨rfl, fun k i s hs => ?_, fun k i hne => absurd rfl hne⟩
    obtain rfl : s = ⟨false, 0, false⟩ := List.eq_of_mem_replicate (List.mem_of_getElem? hs)
    refine ⟨iff_of_false nofun fun hne => hne rfl, fun hk n => ?_⟩
    obtain rfl := hk.resolve_left fun hne => hne rfl
    simp [isSocketEqual]
  · rintro p e q hinv hok hstep
    simp only [socketTables] at hstep
    split at hstep
    · next hlegal =>
      obtain rfl := Option.some.inj hstep
      exact tables_step hinv hok hlegal
    · cases hstep

/-- Two slots in each table. -/
def twoSlots : SocketTable → Nat := fun _ => 2

def bootedTables : SocketTables × LiveSockets := (.zero twoSlots, ⟨fun _ _ => none, true⟩)

/-- The module gives `n` to the first object that it is asked for, and nothing to the others. -/
def givesFirst (n : UInt8) : Nat → ModuleAnswers := fun i => ⟨n, i = 0, true⟩

instance (p : SocketTables × LiveSockets) (e : SocketEvent) : Decidable (KeepsTables p e) := by
  unfold KeepsTables
  split
  · infer_instance
  · infer_instance
  · split
    · infer_instance
    · infer_instance
  · infer_instance

/-- A listener, two sockets for its clients, and a UDP socket that gets the number 0. -/
theorem socket_tables_client :
    ∃ p, (socketTables twoSlots).Reaches KeepsTables p ∧ p.2.live .tcpSocket 1 = some (some 6) ∧
      p.2.ok = true := by
  have hrun := System.exists_of_runChecked (S := socketTables twoSlots)
    (show ∀ p e, decide (KeepsTables p e) = true → KeepsTables p e from
      fun p e h => of_decide_eq_true h) (show (socketTables twoSlots).init bootedTables from rfl)
    (show ((socketTables twoSlots).runChecked (fun p e => decide (KeepsTables p e)) bootedTables
      [.createTcpListener (givesFirst 4), .createTcpSocket, .bind 0 5, .createTcpSocket, .bind 1 6,
        .createUdpSocket false ⟨0, true⟩ (givesFirst 0), .lookup .getTcpSocketBySocket 6,
        .lookup .getTcpListenerBySocket 4, .lookup .getUdpSocketBySocket 0, .createTcpSocket]).any
        (fun p => decide (p.2.live .tcpSocket 1 = some (some 6))) = true by decide +kernel)
  obtain ⟨p, hp, hlive⟩ := hrun
  exact ⟨p, hp, of_decide_eq_true hlive, socket_tables hp⟩

/-- A socket that is finalized leaves its slot marked. A second UDP socket is given the slot of the
first. Before anything was created a listener is found under the number 0. -/
theorem not_socket_tables :
    (∃ p, (socketTables twoSlots).Reaches System.anyStep p ∧ decide (p.2.ok = false) = true) ∧
    (((socketTables twoSlots).run bootedTables [.createUdpSocket false ⟨1, true⟩ (givesFirst 2),
      .createUdpSocket false ⟨1, true⟩ (givesFirst 3)]).any fun p => p.2.ok = false) = true ∧
    (((socketTables twoSlots).run bootedTables [.lookup .getTcpListenerBySocket 0]).any
      fun p => p.2.ok = false) = true := by
  refine ⟨?_, by decide +kernel, by decide +kernel⟩
  exact System.exists_of_run (show (socketTables twoSlots).init bootedTables from rfl)
    (show ((socketTables twoSlots).run bootedTables [.createTcpSocket, .finalize .tcpSocket 0]).any
      (fun p => decide (p.2.ok = false)) = true by decide +kernel)

end MiMic.Snic
