import MiMic.Lib.DescriptorRing

/-!
# The buffer manager and the transmit side of a driver

A transmit block has a reference count for its users and a lock for the hardware; it may
be handed out when it has neither. A driver refers to a block in a descriptor, and the
hardware takes the descriptors in order at any moment.
-/
namespace MiMic.Driver

open Verif

inductive BlockClass
  | max | b512 | b256 | b128 | b64
deriving DecidableEq, Repr

/-- A member of one of the arrays of `NyLPC_TcEthernetMM_TxMemoryBlock`. -/
structure BlockId where
  cls : BlockClass
  idx : Nat
deriving DecidableEq, Repr

structure TxBufferHeader where
  ref : Int
  isLock : Bool

abbrev EthernetMM := BlockId → TxBufferHeader

/-- `NyLPC_TcEthernetMM_NUM_OF_MAX_BUF` and so on. -/
def BlockClass.numOf : BlockClass → Nat
  | .max => 3
  | .b512 => 3
  | .b256 => 4
  | .b128 => 16
  | .b64 => 4

def hintCtrlPacket : UInt16 := 0

namespace EthernetMM

/-- `NyLPC_cEthernetMM_initialize`. -/
def initialized : EthernetMM := fun _ => ⟨0, false⟩

/-- Neither referred to nor being sent. -/
def isFree (mm : EthernetMM) (b : BlockId) : Bool := !(decide (0 < (mm b).ref) || (mm b).isLock)

def blocksOf (cls : BlockClass) : List BlockId := (List.range cls.numOf).map (BlockId.mk cls)

/-- The blocks that serve a hint, in the order of the labels `ALLOC_MAX` .. `ALLOC_128`: a size
that finds no block of its own array goes on in the next smaller one. -/
def candidates (hint : UInt16) : List BlockId :=
  if hint = hintCtrlPacket then blocksOf .b64
  else if hint ≤ 128 then blocksOf .b128
  else if hint ≤ 256 then blocksOf .b256 ++ blocksOf .b128
  else if hint ≤ 512 then blocksOf .b512 ++ blocksOf .b256 ++ blocksOf .b128
  else blocksOf .max ++ blocksOf .b512 ++ blocksOf .b256 ++ blocksOf .b128

def update (mm : EthernetMM) (b : BlockId) (h : TxBufferHeader) : EthernetMM :=
  fun b' => if b' = b then h else mm b'

/-- `NyLPC_cEthernetMM_alloc`. -/
def alloc (mm : EthernetMM) (hint : UInt16) : EthernetMM × Option BlockId :=
  match (candidates hint).find? mm.isFree with
  | some b => (mm.update b { mm b with ref := (mm b).ref + 1 }, some b)
  | none => (mm, none)

/-- `NyLPC_cEthernetMM_release`. -/
def release (mm : EthernetMM) (b : BlockId) : EthernetMM :=
  mm.update b { mm b with ref := (mm b).ref - 1 }

/-- `is_lock=FALSE` for the block that a descriptor names. -/
def unlock (mm : EthernetMM) (p : Option BlockId) : EthernetMM :=
  match p with
  | some b => mm.update b { mm b with isLock := false }
  | none => mm

/-- `is_lock=TRUE`. -/
def lock (mm : EthernetMM) (b : BlockId) : EthernetMM := mm.update b { mm b with isLock := true }

def locks (mm : EthernetMM) : BlockId → Bool := fun b => (mm b).isLock

@[simp] theorem locks_release (mm : EthernetMM) (b : BlockId) : (mm.release b).locks = mm.locks := by
  funext b'
  simp only [locks, release, update]
  split
  · next h => rw [h]
  · rfl

@[simp] theorem locks_alloc (mm : EthernetMM) (hint : UInt16) : (mm.alloc hint).1.locks = mm.locks := by
  unfold alloc
  split
  · funext b'
    simp only [locks, update]
    split
    · next h => rw [h]
    · rfl
  · rfl

theorem locks_unlock (mm : EthernetMM) (packet : Nat → Option BlockId) (k : Nat) :
    (mm.unlock (packet k)).locks = DescriptorRing.unlockSlot mm.locks packet k := by
  funext b'
  unfold DescriptorRing.unlockSlot
  cases hp : packet k with
  | none => exact (if_neg (fun h => nomatch h)).symm
  | some b =>
    simp only [locks, unlock, update]
    by_cases hb : b' = b
    · rw [if_pos hb, if_pos (congrArg some hb.symm)]
    · rw [if_neg hb, if_neg fun h => hb (Option.some.inj h).symm]

theorem locks_lock (mm : EthernetMM) (b : BlockId) :
    (mm.lock b).locks = DescriptorRing.lockBlock mm.locks b := by
  funext b'
  simp only [locks, lock, update, DescriptorRing.lockBlock]
  split <;> rfl

/-- No block is found exactly when none of those that serve the hint is free, and one that is
found is free. -/
theorem alloc_spec (mm : EthernetMM) (hint : UInt16) :
    ((mm.alloc hint).2 = none ↔ ∀ b ∈ candidates hint, mm.isFree b = false) ∧
      ∀ b, (mm.alloc hint).2 = some b → b ∈ candidates hint ∧ mm.isFree b = true := by
  unfold alloc
  cases hf : (candidates hint).find? mm.isFree with
  | none =>
    refine ⟨iff_of_true rfl ?_, fun b hb => nomatch hb⟩
    intro b hb
    exact Bool.eq_false_iff.mpr (List.find?_eq_none.mp hf b hb)
  | some b =>
    have hmem := List.mem_of_find?_eq_some hf
    have hfree := List.find?_some hf
    constructor
    · refine iff_of_false (fun h => nomatch h) ?_
      intro hall
      rw [hall b hmem] at hfree
      cases hfree
    · intro b' hb'
      obtain rfl := Option.some.inj hb'
      exact ⟨hmem, hfree⟩

theorem isFree_locks {mm : EthernetMM} {b : BlockId} (h : mm.isFree b = true) : mm.locks b = false := by
  unfold isFree at h
  simp only [Bool.not_eq_true', Bool.or_eq_false_iff] at h
  exact h.2

end EthernetMM

/-- The calls, one pass of the driver through the call it is in, and the hardware taking the
oldest queued frame. -/
inductive TxAct
  | alloc (hint : UInt16)
  | release (b : BlockId)
  | send (b : BlockId) (size : UInt16)
  | driver
  | hardware
deriving DecidableEq, Repr

/-- A pointer that a driver returns: an offset from a block, or from address zero. -/
structure TxPtr where
  base : Option BlockId
  offset : Nat

def TxPtr.isNull (p : TxPtr) : Prop := p.base = none ∧ p.offset = 0

/-- `ETH_FRAG_SIZE`. -/
def ethFragSize : UInt16 := 1536

/-- The limit on the size of a frame in `sendTxEthFrame`. -/
def limitSize (size : UInt16) : UInt16 := if ethFragSize < size then ethFragSize else size

theorem limitSize_of_le {size : UInt16} (h : size ≤ ethFragSize) : limitSize size = size :=
  if_neg (UInt16.not_lt.mpr h)

/-- What went over the wire: the block the hardware read, address zero for `none`, and how many
bytes. -/
abbrev Wire := List (Option BlockId × Nat)

/-- The frames that calls have entered so far, and how many of them were on the wire when the
present call began. -/
structure TxNote where
  log : List (BlockId × Nat)
  start : Nat

/-- The blocks that were in flight when the present call began. -/
def TxNote.flight (n : TxNote) : List BlockId := (n.log.drop n.start).map Prod.fst

/-- The wire carries the entered frames in order, each once. A frame that has not been taken
keeps its descriptor, and its block is locked. -/
structure TxOk (N : Nat) (packet : Nat → Option BlockId) (size : Nat → Nat) (mm : EthernetMM)
    (wire : Wire) (log : List (BlockId × Nat)) : Prop where
  wire_eq : wire = (log.take wire.length).map fun e => (some e.1, e.2)
  pending : ∀ n e, wire.length ≤ n → log[n]? = some e →
    packet (n % N) = some e.1 ∧ size (n % N) = e.2 ∧ (mm e.1).isLock = true

/-- What a completed call of `sendTxEthFrame` has done: a block that was not in flight is entered,
and the blocks of the frames that were taken before the call are unlocked. -/
structure SendOk (b : BlockId) (size : UInt16) (n : TxNote) (mm' : EthernetMM) (n' : TxNote) :
    Prop where
  entered : n'.log = n.log ∨ n'.log = n.log ++ [(b, size.toNat)]
  accepted : b ∉ n.flight → n'.log = n.log ++ [(b, size.toNat)]
  unlocked : ∀ b', (mm' b').isLock = true → b' ∈ n.flight ∨ b' = b

/-- An allocation fails exactly when no block that serves the hint is free, and never hands out
a block that is in flight. -/
structure AllocOk (hint : UInt16) (mm : EthernetMM) (pending : List (BlockId × Nat)) (p : TxPtr) :
    Prop where
  null_iff : p.isNull ↔ ∀ b ∈ EthernetMM.candidates hint, mm.isFree b = false
  fresh : ∀ b, p.base = some b → b ∈ EthernetMM.candidates hint ∧ mm.isFree b = true ∧
    b ∉ pending.map Prod.fst

theorem txOk_of_ring {N : Nat} {packet : Nat → Option BlockId} {size : Nat → Nat} {mm : EthernetMM}
    {wire : Wire} {log : List (BlockId × Nat)}
    (hr : DescriptorRing.Ok N packet size mm.locks log wire.length)
    (hw : wire = (log.take wire.length).map fun e => (some e.1, e.2)) :
    TxOk N packet size mm wire log where
  wire_eq := hw
  pending := by
    intro n e hn he
    obtain ⟨hp, hs⟩ := hr.pending n e hn he
    refine ⟨hp, hs, hr.pending_locked (e := e) ?_⟩
    rw [List.mem_iff_getElem?]
    refine ⟨n - wire.length, ?_⟩
    rw [List.getElem?_drop, show wire.length + (n - wire.length) = n from by omega]
    exact he

/-- Taking the oldest frame lengthens the wire by it. -/
theorem wire_take {wire : Wire} {log : List (BlockId × Nat)}
    (hw : wire = (log.take wire.length).map fun e => (some e.1, e.2)) (hlt : wire.length < log.length) :
    wire ++ [(some log[wire.length].1, log[wire.length].2)] =
      (log.take (wire.length + 1)).map fun e => (some e.1, e.2) := by
  rw [List.take_succ_eq_append_getElem hlt, List.map_append, ← hw]
  rfl

theorem allocOk_of_ring {N : Nat} {packet : Nat → Option BlockId} {size : Nat → Nat}
    {mm : EthernetMM} {log : List (BlockId × Nat)} {c : Nat}
    (hr : DescriptorRing.Ok N packet size mm.locks log c) {hint : UInt16} {p : TxPtr}
    (hbase : p.base = (mm.alloc hint).2)
    (hnull : p.isNull ↔ ∀ b ∈ EthernetMM.candidates hint, mm.isFree b = false) :
    AllocOk hint mm (log.drop c) p where
  null_iff := hnull
  fresh := by
    intro b hb
    rw [hbase] at hb
    obtain ⟨hmem, hfree⟩ := (mm.alloc_spec hint).2 b hb
    refine ⟨hmem, hfree, ?_⟩
    intro hin
    obtain ⟨e, he, rfl⟩ := List.mem_map.mp hin
    have ht := hr.pending_locked he
    rw [EthernetMM.isFree_locks hfree] at ht
    cases ht

end MiMic.Driver
