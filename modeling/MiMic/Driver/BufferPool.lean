import MiMic.Driver.EthernetMM
import MiMic.Lib.System

/-!
# The pool of transmit blocks

The manager hands out pointers and finds the header of a block behind the pointer it gets back.
The blocks of the five arrays lie one after the other in one structure, so a pointer names one
block. Over a run in which every release passes the assertion of the source, the reference
count of a block says whether somebody holds it.
-/
namespace MiMic.Driver

open Verif

/-- `NyLPC_TTxBufferHeader_ALIGNMENT` and `NyLPC_TcEthernetMM_BUF_PADDING`. -/
structure MemLayout where
  alignment : Nat
  padding : Nat
  two_le : 2 ≤ alignment

def MemLayout.default : MemLayout := ⟨4, 0, by decide⟩

def MemLayout.k64f : MemLayout := ⟨16, 16, by decide⟩

/-- What `alloc` writes to `o_size` at the label of each array. -/
def BlockClass.oSize : BlockClass → UInt16
  | .max => 1514
  | .b512 => 512
  | .b256 => 256
  | .b128 => 128
  | .b64 => 64

def BlockId.Valid (b : BlockId) : Prop := b.idx < b.cls.numOf

instance (b : BlockId) : Decidable b.Valid := inferInstanceAs (Decidable (_ < _))

/-- The members of the five arrays. -/
def allBlocks : List BlockId :=
  EthernetMM.blocksOf .max ++ EthernetMM.blocksOf .b512 ++ EthernetMM.blocksOf .b256 ++
    EthernetMM.blocksOf .b128 ++ EthernetMM.blocksOf .b64

namespace MemLayout

variable (L : MemLayout)

/-- `sizeof(struct NyLPC_TTxBufferHeader)`. -/
def headerSize : Nat := 1 + 1 + (L.alignment - 2)

/-- The size of the array `b` of a block. -/
def bufSize : BlockClass → Nat
  | .max => 1514
  | .b512 => 512 + L.padding
  | .b256 => 256 + L.padding
  | .b128 => 128 + L.padding
  | .b64 => 64 + L.padding

/-- The array `_padding`, which the largest blocks alone have. -/
def tailSize : BlockClass → Nat
  | .max => 22 + L.padding
  | _ => 0

def stride (cls : BlockClass) : Nat := L.headerSize + L.bufSize cls + L.tailSize cls

def arraySize (cls : BlockClass) : Nat := cls.numOf * L.stride cls

/-- The offset of an array in `NyLPC_TcEthernetMM_TxMemoryBlock`. -/
def base : BlockClass → Nat
  | .max => 0
  | .b512 => L.arraySize .max
  | .b256 => L.arraySize .max + L.arraySize .b512
  | .b128 => L.arraySize .max + L.arraySize .b512 + L.arraySize .b256
  | .b64 => L.arraySize .max + L.arraySize .b512 + L.arraySize .b256 + L.arraySize .b128

def headerAddr (b : BlockId) : Nat := L.base b.cls + b.idx * L.stride b.cls

/-- The pointer that `alloc` returns for a block. -/
def bufAddr (b : BlockId) : Nat := L.headerAddr b + L.headerSize

/-- The block whose header `NyLPC_TTxBufferHeader_getBufferHeaderAddr` finds. -/
def blockAt (p : Nat) : Option BlockId :=
  allBlocks.find? fun b => L.headerAddr b == p - L.headerSize

end MemLayout

namespace EthernetMM

/-- `NyLPC_cEthernetMM_alloc` with the pointer and the size it returns. -/
def allocTx (L : MemLayout) (mm : EthernetMM) (hint : UInt16) : EthernetMM × Option (Nat × UInt16) :=
  let r := mm.alloc hint
  (r.1, r.2.map fun b => (L.bufAddr b, b.cls.oSize))

/-- `NyLPC_cEthernetMM_release` of a pointer into the structure. -/
def releaseTx (L : MemLayout) (mm : EthernetMM) (p : Nat) : Option EthernetMM :=
  (L.blockAt p).map mm.release

end EthernetMM

section Layout

variable {L : MemLayout} {b b' : BlockId}

theorem mem_blocksOf {cls : BlockClass} : b ∈ EthernetMM.blocksOf cls ↔ b.Valid ∧ b.cls = cls := by
  unfold EthernetMM.blocksOf BlockId.Valid
  rw [List.mem_map]
  constructor
  · rintro ⟨i, hi, rfl⟩
    exact ⟨List.mem_range.mp hi, rfl⟩
  · rintro ⟨hv, rfl⟩
    exact ⟨b.idx, List.mem_range.mpr hv, rfl⟩

theorem mem_allBlocks : b ∈ allBlocks ↔ b.Valid := by
  unfold allBlocks
  simp only [List.mem_append, mem_blocksOf]
  cases hc : b.cls <;> simp

/-- The place of an array in the structure. -/
def BlockClass.order : BlockClass → Nat
  | .max => 0
  | .b512 => 1
  | .b256 => 2
  | .b128 => 3
  | .b64 => 4

theorem order_inj {c c' : BlockClass} (h : c.order = c'.order) : c = c' := by
  cases c <;> cases c' <;> first | rfl | cases h

/-- An array ends before every later one begins. -/
theorem base_le {c c' : BlockClass} (h : c.order < c'.order) :
    L.base c + L.arraySize c ≤ L.base c' := by
  cases c <;> cases c' <;> simp only [BlockClass.order] at h <;> simp only [MemLayout.base] <;>
    omega

/-- The extent of a block, header and all, ends before that of a later one begins. -/
theorem headerAddr_le (hb : b.Valid)
    (h : b.cls.order < b'.cls.order ∨ b.cls = b'.cls ∧ b.idx < b'.idx) :
    L.headerAddr b + L.stride b.cls ≤ L.headerAddr b' := by
  unfold MemLayout.headerAddr
  have hnext : b.idx * L.stride b.cls + L.stride b.cls = (b.idx + 1) * L.stride b.cls := by
    rw [Nat.succ_mul]
  rcases h with hlt | ⟨hcls, hidx⟩
  · have hend : (b.idx + 1) * L.stride b.cls ≤ b.cls.numOf * L.stride b.cls :=
      Nat.mul_le_mul_right _ hb
    have hbase := base_le (L := L) hlt
    unfold MemLayout.arraySize at hbase
    omega
  · have hend : (b.idx + 1) * L.stride b.cls ≤ b'.idx * L.stride b.cls :=
      Nat.mul_le_mul_right _ hidx
    rw [← hcls]
    omega

/-- Two blocks share no byte. -/
theorem blocks_disjoint (hb : b.Valid) (hb' : b'.Valid) (hne : b ≠ b') :
    L.headerAddr b + L.stride b.cls ≤ L.headerAddr b' ∨
      L.headerAddr b' + L.stride b'.cls ≤ L.headerAddr b := by
  rcases Nat.lt_trichotomy b.cls.order b'.cls.order with hlt | heq | hgt
  · exact Or.inl (headerAddr_le hb (Or.inl hlt))
  · have hcls := order_inj heq
    rcases Nat.lt_trichotomy b.idx b'.idx with hidx | hidx | hidx
    · exact Or.inl (headerAddr_le hb (Or.inr ⟨hcls, hidx⟩))
    · cases b
      cases b'
      cases hcls
      cases hidx
      exact absurd rfl hne
    · exact Or.inr (headerAddr_le hb' (Or.inr ⟨hcls.symm, hidx⟩))
  · exact Or.inr (headerAddr_le hb' (Or.inl hgt))

theorem stride_pos (L : MemLayout) (cls : BlockClass) : 0 < L.stride cls := by
  unfold MemLayout.stride MemLayout.headerSize
  omega

/-- The header behind the pointer of a block is the header of that block. -/
theorem blockAt_bufAddr (hb : b.Valid) : L.blockAt (L.bufAddr b) = some b := by
  unfold MemLayout.blockAt MemLayout.bufAddr
  rw [Nat.add_sub_cancel]
  cases hf : allBlocks.find? fun b' => L.headerAddr b' == L.headerAddr b with
  | none =>
    have hnot := List.find?_eq_none.mp hf b (mem_allBlocks.mpr hb)
    exact absurd (beq_self_eq_true _) hnot
  | some b' =>
    have hv := mem_allBlocks.mp (List.mem_of_find?_eq_some hf)
    have hfound := List.find?_some hf
    have he : L.headerAddr b' = L.headerAddr b := beq_iff_eq.mp hfound
    by_contra hne
    have hpos := stride_pos L b.cls
    have hpos' := stride_pos L b'.cls
    rcases blocks_disjoint (L := L) hb hv (fun h => hne (h ▸ rfl)) with hle | hle <;> omega

theorem bufAddr_inj (hb : b.Valid) (hb' : b'.Valid) (h : L.bufAddr b = L.bufAddr b') : b = b' := by
  have hat := blockAt_bufAddr (L := L) hb
  rw [h, blockAt_bufAddr hb'] at hat
  exact (Option.some.inj hat).symm

/-- The reported bytes are those of the array `b`, but for the padding of the configuration. -/
theorem oSize_bufSize (cls : BlockClass) :
    L.bufSize cls = cls.oSize.toNat + if cls = .max then 0 else L.padding := by
  cases cls <;> rfl

end Layout

/-- The control packets have their own array. A packet of any other size is served from an array
that is not larger than the first one that would hold it. -/
def Eligible (hint : UInt16) (cls : BlockClass) : Prop :=
  if hint = hintCtrlPacket then cls = .b64
  else cls ≠ .b64 ∧ ∀ c : BlockClass, c ≠ .b64 → hint ≤ c.oSize → cls.oSize ≤ c.oSize

theorem eligible_iff {hint : UInt16} {cls : BlockClass} (h0 : hint ≠ hintCtrlPacket) :
    Eligible hint cls ↔ cls ≠ .b64 ∧ (hint ≤ 128 → cls.oSize ≤ 128) ∧
      (hint ≤ 256 → cls.oSize ≤ 256) ∧ (hint ≤ 512 → cls.oSize ≤ 512) := by
  rw [Eligible, if_neg h0]
  refine and_congr_right fun _ => ⟨fun h => ⟨h .b128 (by decide), h .b256 (by decide),
    h .b512 (by decide)⟩, ?_⟩
  rintro ⟨h128, h256, h512⟩ c hc
  cases c with
  | max => exact fun _ => by cases cls <;> decide
  | b512 => exact h512
  | b256 => exact h256
  | b128 => exact h128
  | b64 => exact absurd rfl hc

/-- The arrays that `alloc` searches are the eligible ones. -/
theorem mem_candidates {hint : UInt16} {b : BlockId} :
    b ∈ EthernetMM.candidates hint ↔ b.Valid ∧ Eligible hint b.cls := by
  unfold EthernetMM.candidates
  by_cases h0 : hint = hintCtrlPacket
  · rw [if_pos h0, mem_blocksOf, Eligible, if_pos h0]
  · rw [if_neg h0, eligible_iff h0]
    by_cases h128 : hint ≤ 128
    · have h256 : hint ≤ 256 := UInt16.le_trans h128 (by decide)
      have h512 : hint ≤ 512 := UInt16.le_trans h128 (by decide)
      simp only [h128, h256, h512, if_true, true_imp_iff, mem_blocksOf]
      cases b.cls <;> simp [BlockClass.oSize]
    · by_cases h256 : hint ≤ 256
      · have h512 : hint ≤ 512 := UInt16.le_trans h256 (by decide)
        simp only [h128, h256, h512, if_true, if_false, true_imp_iff, false_imp_iff,
          List.mem_append, mem_blocksOf]
        cases b.cls <;> simp [BlockClass.oSize]
      · by_cases h512 : hint ≤ 512
        · simp only [h128, h256, h512, if_true, if_false, true_imp_iff, false_imp_iff,
            List.mem_append, mem_blocksOf]
          cases b.cls <;> simp [BlockClass.oSize]
        · simp only [h128, h256, h512, if_false, false_imp_iff, List.mem_append, mem_blocksOf]
          cases b.cls <;> simp

inductive PoolOp
  | alloc (hint : UInt16)
  | release (p : Nat)
  | lock (b : BlockId)
  | unlock (b : BlockId)
deriving DecidableEq, Repr

variable (L : MemLayout)

def poolSystem : System EthernetMM PoolOp where
  init mm := mm = EthernetMM.initialized
  step mm op := match op with
    | .alloc hint => some (mm.allocTx L hint).1
    | .release p => mm.releaseTx L p
    | .lock b => some (mm.lock b)
    | .unlock b => some (mm.unlock (some b))

/-- The blocks that were handed out and not released since. -/
def noteHeld (held : List BlockId) (mm : EthernetMM) (op : PoolOp) (_ : EthernetMM) :
    List BlockId :=
  match op with
  | .alloc hint => match (mm.alloc hint).2 with
    | some b => b :: held
    | none => held
  | .release p => match L.blockAt p with
    | some b => held.erase b
    | none => held
  | _ => held

def heldSystem : System (EthernetMM × List BlockId) PoolOp := (poolSystem L).observe [] (noteHeld L)

/-- `NyLPC_Assert(h->ref>0)`. -/
def Asserted (p : EthernetMM × List BlockId) (op : PoolOp) : Prop :=
  ∀ q b, op = .release q → L.blockAt q = some b → 0 < (p.1 b).ref

/-- The reference count of a block is one while somebody holds it and zero otherwise. -/
structure PoolOk (mm : EthernetMM) (held : List BlockId) : Prop where
  nodup : held.Nodup
  valid : ∀ b ∈ held, b.Valid
  ref_eq : ∀ b, (mm b).ref = if b ∈ held then 1 else 0

/-- What holds of an allocated block: it belongs to an eligible array, nobody held it, the
transmitter did not lock it, and the reported size is that of its array. -/
structure Handed (mm : EthernetMM) (held : List BlockId) (hint : UInt16) (b : BlockId) (p : Nat)
    (size : UInt16) : Prop where
  pointer : p = L.bufAddr b
  eligible : b.Valid ∧ Eligible hint b.cls
  fresh : b ∉ held
  unlocked : (mm b).isLock = false
  capacity : L.bufSize b.cls = size.toNat + if b.cls = .max then 0 else L.padding
  apart : ∀ b', b'.Valid → b' ≠ b →
    p + size.toNat ≤ L.headerAddr b' ∨ L.headerAddr b' + L.stride b'.cls ≤ p

/-- What a state of the pool promises for the next call. -/
structure TxPool (mm : EthernetMM) (held : List BlockId) : Prop where
  handed : ∀ hint p size, (mm.allocTx L hint).2 = some (p, size) →
    ∃ b, Handed L mm held hint b p size ∧ ((mm.allocTx L hint).1 b).ref = 1 ∧
      ∀ b', b' ≠ b → (mm.allocTx L hint).1 b' = mm b'
  refused : ∀ hint, (mm.allocTx L hint).2 = none ↔
    ∀ b, b.Valid → Eligible hint b.cls → b ∈ held ∨ (mm b).isLock = true
  released : ∀ b ∈ held, ∃ mm', mm.releaseTx L (L.bufAddr b) = some mm' ∧
    mm'.isFree b = !(mm b).isLock ∧ ∀ b', b' ≠ b → mm' b' = mm b'
  free_iff : ∀ b, mm.isFree b = true ↔ b ∉ held ∧ (mm b).isLock = false
  ref_range : ∀ b, 0 ≤ (mm b).ref ∧ (mm b).ref ≤ 1

variable {L}

section Invariant

variable {mm : EthernetMM} {held : List BlockId}

theorem PoolOk.isFree_iff (h : PoolOk mm held) (b : BlockId) :
    mm.isFree b = true ↔ b ∉ held ∧ (mm b).isLock = false := by
  have href := h.ref_eq b
  unfold EthernetMM.isFree
  simp only [Bool.not_eq_true', Bool.or_eq_false_iff, decide_eq_false_iff_not]
  refine and_congr_left fun _ => ?_
  rw [href]
  by_cases hb : b ∈ held
  · rw [if_pos hb]
    exact iff_of_false (fun hn => hn (by decide)) (fun hn => hn hb)
  · rw [if_neg hb]
    exact iff_of_true (by decide) hb

theorem PoolOk.update (h : PoolOk mm held) {held' : List BlockId} {b : BlockId}
    {hd : TxBufferHeader} (hn : held'.Nodup) (hv : ∀ b' ∈ held', b'.Valid)
    (hb : hd.ref = if b ∈ held' then 1 else 0) (hother : ∀ b', b' ≠ b → (b' ∈ held' ↔ b' ∈ held)) :
    PoolOk (mm.update b hd) held' where
  nodup := hn
  valid := hv
  ref_eq := by
    intro b'
    unfold EthernetMM.update
    by_cases he : b' = b
    · rw [if_pos he, he, hb]
    · rw [if_neg he, h.ref_eq b']
      simp only [hother b' he]

theorem alloc_some {hint : UInt16} {b : BlockId} (ha : (mm.alloc hint).2 = some b) :
    (mm.alloc hint).1 = mm.update b { mm b with ref := (mm b).ref + 1 } := by
  unfold EthernetMM.alloc at ha ⊢
  split at ha
  · obtain rfl := Option.some.inj ha
    rfl
  · cases ha

theorem PoolOk.alloc (h : PoolOk mm held) (hint : UInt16) {b : BlockId}
    (ha : (mm.alloc hint).2 = some b) : PoolOk (mm.alloc hint).1 (b :: held) := by
  obtain ⟨hmem, hfree⟩ := (mm.alloc_spec hint).2 b ha
  have hnot := ((h.isFree_iff b).mp hfree).1
  have href : (mm b).ref = 0 := by rw [h.ref_eq b, if_neg hnot]
  rw [alloc_some ha]
  refine h.update (List.nodup_cons.mpr ⟨hnot, h.nodup⟩) ?_ ?_ ?_
  · intro b' hb'
    rcases List.mem_cons.mp hb' with rfl | hb'
    · exact (mem_candidates.mp hmem).1
    · exact h.valid b' hb'
  · rw [if_pos List.mem_cons_self]
    exact congrArg (· + 1) href
  · intro b' hne
    rw [List.mem_cons, or_iff_right hne]

theorem PoolOk.release (h : PoolOk mm held) {b : BlockId} (hb : b ∈ held) :
    PoolOk (mm.release b) (held.erase b) := by
  have href : (mm b).ref = 1 := by rw [h.ref_eq b, if_pos hb]
  refine h.update (h.nodup.erase b) (fun b' hb' => h.valid b' (List.mem_of_mem_erase hb')) ?_ ?_
  · rw [if_neg fun hm => (h.nodup.mem_erase_iff.mp hm).1 rfl]
    exact (congrArg (· - 1) href).trans rfl
  · intro b' hne
    rw [h.nodup.mem_erase_iff, and_iff_right hne]

theorem PoolOk.setLock (h : PoolOk mm held) (b : BlockId) (l : Bool) :
    PoolOk (mm.update b { mm b with isLock := l }) held :=
  h.update h.nodup h.valid (h.ref_eq b) fun _ _ => Iff.rfl

theorem update_other (mm : EthernetMM) (hd : TxBufferHeader) {b b' : BlockId} (h : b' ≠ b) :
    mm.update b hd b' = mm b' := if_neg h

theorem update_self (mm : EthernetMM) (b : BlockId) (hd : TxBufferHeader) :
    mm.update b hd b = hd := if_pos rfl

theorem poolOk_step {op : PoolOp} {mm' : EthernetMM} (h : PoolOk mm held)
    (hok : Asserted L (mm, held) op) (hs : (poolSystem L).step mm op = some mm') :
    PoolOk mm' (noteHeld L held mm op mm') := by
  cases op with
  | alloc hint =>
    obtain rfl := Option.some.inj hs
    cases ha : (mm.alloc hint).2 with
    | some b =>
      simp only [noteHeld, ha]
      exact h.alloc hint ha
    | none =>
      have hsame : (mm.alloc hint).1 = mm := by
        unfold EthernetMM.alloc at ha ⊢
        split at ha
        · cases ha
        · rfl
      simp only [noteHeld, ha, EthernetMM.allocTx, hsame]
      exact h
  | release p =>
    obtain ⟨b, hat, rfl⟩ := Option.map_eq_some_iff.mp hs
    have hpos := hok p b rfl hat
    have hb : b ∈ held := by
      by_contra hnot
      have href : (mm b).ref = 0 := by rw [h.ref_eq b, if_neg hnot]
      rw [href] at hpos
      exact absurd hpos (by decide)
    simp only [noteHeld, hat]
    exact h.release hb
  | lock b =>
    obtain rfl := Option.some.inj hs
    exact h.setLock b true
  | unlock b =>
    obtain rfl := Option.some.inj hs
    exact h.setLock b false

theorem reaches_poolOk {p : EthernetMM × List BlockId}
    (h : (heldSystem L).Reaches (Asserted L) p) : PoolOk p.1 p.2 := by
  apply System.Reaches.invariant (P := fun p => PoolOk p.1 p.2) (h := h)
  · rintro ⟨mm, held⟩ ⟨hi, rfl⟩
    obtain rfl : mm = EthernetMM.initialized := hi
    exact ⟨List.nodup_nil, fun _ hb => absurd hb List.not_mem_nil, fun _ => rfl⟩
  · rintro ⟨mm, held⟩ op ⟨mm', held'⟩ hp hok hs
    obtain ⟨hs', rfl⟩ := System.observe_step.mp hs
    exact poolOk_step hp hok hs'

/-- In every run whose releases pass the assertion, `alloc` hands out a block that nobody holds
and the transmitter has not locked, with its size, and refuses only when no eligible block is
left; `release` frees the block of its pointer and no other. -/
theorem tx_pool (h : (heldSystem L).Reaches (Asserted L) (mm, held)) : TxPool L mm held := by
  have hok : PoolOk mm held := reaches_poolOk h
  refine ⟨?_, ?_, ?_, hok.isFree_iff, ?_⟩
  · intro hint p size ha
    obtain ⟨b, hb, hps⟩ := Option.map_eq_some_iff.mp ha
    obtain ⟨rfl, rfl⟩ := Prod.mk.inj hps
    obtain ⟨hmem, hfree⟩ := (mm.alloc_spec hint).2 b hb
    obtain ⟨hvalid, helig⟩ := mem_candidates.mp hmem
    obtain ⟨hnot, hlock⟩ := (hok.isFree_iff b).mp hfree
    have hafter : (mm.allocTx L hint).1 = mm.update b { mm b with ref := (mm b).ref + 1 } :=
      alloc_some hb
    refine ⟨b, ⟨rfl, ⟨hvalid, helig⟩, hnot, hlock, oSize_bufSize b.cls, ?_⟩, ?_, ?_⟩
    · intro b' hv' hne
      have hsize := oSize_bufSize (L := L) b.cls
      have hstride : L.headerSize + b.cls.oSize.toNat ≤ L.stride b.cls := by
        unfold MemLayout.stride
        omega
      unfold MemLayout.bufAddr
      rcases blocks_disjoint (L := L) hvalid hv' hne.symm with hle | hle
      · left
        omega
      · right
        omega
    · rw [hafter, update_self]
      show (mm b).ref + 1 = 1
      rw [hok.ref_eq b, if_neg hnot]
      rfl
    · intro b' hne
      rw [hafter, update_other _ _ hne]
  · intro hint
    have hnone : (mm.allocTx L hint).2 = none ↔ (mm.alloc hint).2 = none := Option.map_eq_none_iff
    rw [hnone, (mm.alloc_spec hint).1]
    have hbusy (b : BlockId) : mm.isFree b = false ↔ b ∈ held ∨ (mm b).isLock = true := by
      rw [← Bool.not_eq_true, hok.isFree_iff b, not_and_or, not_not, Bool.not_eq_false]
    constructor
    · exact fun hall b hv he => (hbusy b).mp (hall b (mem_candidates.mpr ⟨hv, he⟩))
    · intro hall b hmem
      obtain ⟨hv, he⟩ := mem_candidates.mp hmem
      exact (hbusy b).mpr (hall b hv he)
  · intro b hb
    refine ⟨mm.release b, ?_, ?_, fun b' hne => update_other _ _ hne⟩
    · rw [EthernetMM.releaseTx, blockAt_bufAddr (hok.valid b hb)]
      rfl
    · have hnext := hok.release hb
      have hlock : ((mm.release b) b).isLock = (mm b).isLock := by
        rw [EthernetMM.release, update_self]
      have hgone : b ∉ held.erase b := fun hm => (hok.nodup.mem_erase_iff.mp hm).1 rfl
      rw [Bool.eq_iff_iff, hnext.isFree_iff b, and_iff_right hgone, hlock, Bool.not_eq_true']
  · intro b
    rw [hok.ref_eq b]
    split <;> decide

end Invariant

/-- `Asserted`, computed. -/
def asserted (L : MemLayout) (p : EthernetMM × List BlockId) (op : PoolOp) : Bool :=
  match op with
  | .release q => (L.blockAt q).all fun b => decide (0 < (p.1 b).ref)
  | _ => true

theorem asserted_sound {p : EthernetMM × List BlockId} {op : PoolOp} (h : asserted L p op = true) :
    Asserted L p op := by
  rintro q b rfl hat
  simp only [asserted, hat, Option.all_some, decide_eq_true_eq] at h
  exact h

/-- A control packet and a data packet of 200 bytes, the first of which is released. -/
theorem tx_pool_released : ∃ mm, (heldSystem .default).Reaches (Asserted .default)
    (mm, [⟨.b256, 0⟩]) ∧ TxPool .default mm [⟨.b256, 0⟩] := by
  have hinit : (heldSystem .default).init (EthernetMM.initialized, []) := ⟨rfl, rfl⟩
  have hrun : ((heldSystem .default).runChecked (asserted .default) (EthernetMM.initialized, [])
      [.alloc 0, .alloc 200, .lock ⟨.b64, 0⟩,
        .release (MemLayout.default.bufAddr ⟨.b64, 0⟩)]).any
      (fun p => p.2 == [⟨.b256, 0⟩]) = true := by decide +kernel
  obtain ⟨⟨mm, held⟩, hr, hp⟩ :=
    System.exists_of_runChecked (fun _ _ => asserted_sound) hinit hrun
  obtain rfl : held = [⟨.b256, 0⟩] := beq_iff_eq.mp hp
  exact ⟨mm, hr, tx_pool hr⟩

/-- Released twice, a block counts below zero, and `alloc` hands it out to two callers. -/
theorem released_twice : ¬ ∀ (L : MemLayout) (p : EthernetMM × List BlockId),
    (heldSystem L).Reaches System.anyStep p → TxPool L p.1 p.2 := by
  intro h
  let b : BlockId := ⟨.b64, 0⟩
  let q : Nat := MemLayout.default.bufAddr b
  have hinit : (heldSystem .default).init (EthernetMM.initialized, []) := ⟨rfl, rfl⟩
  have hrun : ((heldSystem .default).run (EthernetMM.initialized, [])
      [.alloc 0, .release q, .release q, .alloc 0]).any
      (fun p => p.2 == [b] && (p.1.allocTx .default 0).2 == some (q, 64)) = true := by
    decide +kernel
  obtain ⟨⟨mm, held⟩, hr, hp⟩ := System.exists_of_run hinit hrun
  obtain ⟨hheld, halloc⟩ := Bool.and_eq_true_iff.mp hp
  obtain ⟨b', hb', -, -⟩ := (h _ _ hr).handed 0 q 64 (beq_iff_eq.mp halloc)
  obtain rfl : b = b' := bufAddr_inj (by decide) hb'.eligible.1 hb'.pointer
  exact hb'.fresh ((beq_iff_eq.mp hheld : held = [b]) ▸ List.mem_cons_self)

end MiMic.Driver
