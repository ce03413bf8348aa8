import MiMic.Driver.EthernetMM
import MiMic.Lib.System

/-!
# The transmit ring of the LPC17xx

The descriptors from `TxConsumeIndex` to `TxProduceIndex` are the hardware's. The clean-up
runs from behind the next entry to `TxConsumeIndex`, and then takes one descriptor more.
-/
namespace MiMic.Driver

open Verif

/-- `NUM_TX_FRAG`. -/
abbrev numTxFrag : Nat := 16

/-- Where the driver is in `sendTxEthFrame`: waiting for a descriptor, in the loop that clears
descriptors, or behind that loop. -/
inductive Lpc17xxPc
  | idle
  | wait (b : BlockId) (size : UInt16)
  | clean (b : BlockId) (size : UInt16) (i : Nat)
  | last (b : BlockId) (size : UInt16) (i : Nat)
deriving DecidableEq

structure Lpc17xx where
  mm : EthernetMM
  packet : Nat → Option BlockId
  /-- The size field of `TX_DESC_CTRL`, one less than the number of bytes. -/
  ctrl : Nat → Nat
  txProduceIndex : Nat
  txConsumeIndex : Nat
  pc : Lpc17xxPc
  wire : Wire

namespace Lpc17xx

def allocTxBuf (s : Lpc17xx) (hint : UInt16) : TxPtr := ⟨(s.mm.alloc hint).2, 0⟩

def frameSize (s : Lpc17xx) (k : Nat) : Nat := s.ctrl k + 1

/-- The clean-up of one descriptor. -/
def clear (s : Lpc17xx) (i : Nat) (pc : Lpc17xxPc) : Lpc17xx :=
  { s with
    mm := s.mm.unlock (s.packet i)
    packet := DescriptorRing.clearSlot s.packet i
    pc := pc }

/-- The end of `sendTxEthFrame`, behind `waitForTxEthFrameEmpty`. -/
def enter (s : Lpc17xx) (b : BlockId) (size : UInt16) : Lpc17xx :=
  if (s.mm b).isLock then { s with pc := .idle }
  else
    { s with
      mm := s.mm.lock b
      packet := DescriptorRing.setSlot s.packet s.txProduceIndex (some b)
      ctrl := DescriptorRing.setSlot s.ctrl s.txProduceIndex ((limitSize size).toNat - 1)
      txProduceIndex := (s.txProduceIndex + 1) % numTxFrag
      pc := .idle }

/-- One pass of a loop of the driver, which reads `TxConsumeIndex` anew, or the rest of the
call. -/
def driverStep (s : Lpc17xx) : Option Lpc17xx :=
  match s.pc with
  | .idle => none
  | .wait b size =>
      if (s.txProduceIndex + 1) % numTxFrag = s.txConsumeIndex then some s
      else some { s with pc := .clean b size ((s.txProduceIndex + 1) % numTxFrag) }
  | .clean b size i =>
      if i = s.txConsumeIndex then some { s with pc := .last b size i }
      else some (s.clear i (.clean b size ((i + 1) % numTxFrag)))
  | .last b size i => some ((s.clear i (.last b size i)).enter b size)

def step (s : Lpc17xx) : TxAct → Option Lpc17xx
  | .alloc hint => if s.pc = .idle then some { s with mm := (s.mm.alloc hint).1 } else none
  | .release b => if s.pc = .idle then some { s with mm := s.mm.release b } else none
  | .send b size =>
      if s.pc = .idle then
        if size = 0 then some s else some { s with pc := .wait b size }
      else none
  | .driver => s.driverStep
  | .hardware =>
      if s.txConsumeIndex = s.txProduceIndex then none
      else some { s with
        wire := s.wire ++ [(s.packet s.txConsumeIndex, s.frameSize s.txConsumeIndex)]
        txConsumeIndex := (s.txConsumeIndex + 1) % numTxFrag }

/-- The ring after the descriptors have been set up. -/
structure Initial (s : Lpc17xx) : Prop where
  mm_eq : s.mm.locks = fun _ => false
  packet_eq : s.packet = fun _ => none
  produce_eq : s.txProduceIndex = 0
  consume_eq : s.txConsumeIndex = 0
  pc_eq : s.pc = .idle
  wire_eq : s.wire = []

/-- A call that begins notes what is in flight; a pass that moves `TxProduceIndex` has entered a
frame. -/
def note (n : TxNote) (s : Lpc17xx) (e : TxAct) (s' : Lpc17xx) : TxNote :=
  match e, s.pc with
  | .send _ _, _ => { n with start := s.wire.length }
  | .driver, .last b size _ =>
      if s'.txProduceIndex = s.txProduceIndex then n
      else { n with log := n.log ++ [(b, size.toNat)] }
  | _, _ => n

def system : System (Lpc17xx × TxNote) TxAct :=
  System.observe { init := Initial, step := step } ⟨[], 0⟩ note

/-- A descriptor between `TxConsumeIndex` and `TxProduceIndex`. -/
def waiting (s : Lpc17xx) (k : Nat) : Prop :=
  (k + numTxFrag - s.txConsumeIndex) % numTxFrag <
    (s.txProduceIndex + numTxFrag - s.txConsumeIndex) % numTxFrag

instance (s : Lpc17xx) (k : Nat) : Decidable (s.waiting k) := inferInstanceAs (Decidable (_ < _))

/-- What the driver relies on: a frame is no longer than a descriptor can say, and the descriptor
it clears behind the loop is no longer waiting for the hardware. -/
def Meets (s : Lpc17xx) (e : TxAct) : Prop :=
  match e, s.pc with
  | .send _ size, _ => size ≤ ethFragSize
  | .driver, .last _ _ i => ¬ s.waiting i
  | _, _ => True

/-- What a step has to do. -/
def StepOk (s : Lpc17xx) (n : TxNote) (e : TxAct) (s' : Lpc17xx) (n' : TxNote) : Prop :=
  match e, s.pc with
  | .alloc hint, _ => AllocOk hint s.mm (n.log.drop s.wire.length) (s.allocTxBuf hint)
  | .driver, .last b size _ => SendOk b size n s'.mm n'
  | _, _ => n'.log = n.log

section

variable {s : Lpc17xx} {b : BlockId} {size : UInt16}

theorem note_wait (h : s.pc = .wait b size) (n : TxNote) (s' : Lpc17xx) :
    note n s .driver s' = n := by
  unfold note
  rw [h]

theorem note_clean {i : Nat} (h : s.pc = .clean b size i) (n : TxNote) (s' : Lpc17xx) :
    note n s .driver s' = n := by
  unfold note
  rw [h]

theorem note_kept {i : Nat} (h : s.pc = .last b size i) (n : TxNote) {s' : Lpc17xx}
    (hp : s'.txProduceIndex = s.txProduceIndex) : note n s .driver s' = n := by
  unfold note
  rw [h]
  exact if_pos hp

theorem note_entered {i : Nat} (h : s.pc = .last b size i) (n : TxNote) {s' : Lpc17xx}
    (hp : s'.txProduceIndex ≠ s.txProduceIndex) :
    note n s .driver s' = { n with log := n.log ++ [(b, size.toNat)] } := by
  unfold note
  rw [h]
  exact if_neg hp

theorem stepOk_wait (h : s.pc = .wait b size) (n n' : TxNote) (s' : Lpc17xx) :
    StepOk s n .driver s' n' ↔ n'.log = n.log := by
  unfold StepOk
  rw [h]

theorem stepOk_clean {i : Nat} (h : s.pc = .clean b size i) (n n' : TxNote) (s' : Lpc17xx) :
    StepOk s n .driver s' n' ↔ n'.log = n.log := by
  unfold StepOk
  rw [h]

theorem stepOk_last {i : Nat} (h : s.pc = .last b size i) (n n' : TxNote) (s' : Lpc17xx) :
    StepOk s n .driver s' n' ↔ SendOk b size n s'.mm n' := by
  unfold StepOk
  rw [h]

theorem meets_last {i : Nat} (h : s.pc = .last b size i) : s.Meets .driver ↔ ¬ s.waiting i := by
  unfold Meets
  rw [h]

end

/-- Where the driver is, against the entries in flight. In the loop everything behind the next
entry and before the descriptor is empty; behind the loop only the entries from number `t` on
are left, of which the hardware may meanwhile have taken some. -/
def PcOk (s : Lpc17xx) (n : TxNote) : Prop :=
  match s.pc with
  | .idle => True
  | .wait _ size => size ≠ 0 ∧ size ≤ ethFragSize ∧ n.start ≤ s.wire.length
  | .clean _ size i =>
      size ≠ 0 ∧ size ≤ ethFragSize ∧ n.start ≤ s.wire.length ∧
        ∃ j, i = j % 16 ∧ n.log.length < j ∧ j ≤ s.wire.length + 16 ∧
          n.log.length ≤ s.wire.length + 14 ∧
          ∀ m, n.log.length < m → m < j → s.packet (m % 16) = none
  | .last _ size i =>
      size ≠ 0 ∧ size ≤ ethFragSize ∧
        ∃ t, i = t % 16 ∧ n.start ≤ t ∧ t ≤ s.wire.length ∧ n.log.length ≤ t + 14 ∧
          (∀ m, n.log.length ≤ m → m < t + 16 → s.packet (m % 16) = none) ∧
          ∀ m e, t ≤ m → n.log[m]? = some e → s.packet (m % 16) = some e.1

structure Inv (s : Lpc17xx) (n : TxNote) : Prop where
  ring : DescriptorRing.Ok numTxFrag s.packet s.frameSize s.mm.locks n.log s.wire.length
  wire_eq : s.wire = (n.log.take s.wire.length).map fun e => (some e.1, e.2)
  length_le : n.log.length ≤ s.wire.length + 15
  produce_eq : s.txProduceIndex = n.log.length % 16
  consume_eq : s.txConsumeIndex = s.wire.length % 16
  next_empty : s.packet (n.log.length % 16) = none
  pc_ok : s.PcOk n

theorem inv_initial {s : Lpc17xx} (h : s.Initial) : s.Inv ⟨[], 0⟩ where
  ring := by
    rw [h.packet_eq, h.mm_eq, h.wire_eq]
    exact DescriptorRing.Ok.empty numTxFrag s.frameSize
  wire_eq := by rw [h.wire_eq]; rfl
  length_le := Nat.zero_le _
  produce_eq := h.produce_eq
  consume_eq := by rw [h.consume_eq, h.wire_eq]; rfl
  next_empty := by rw [h.packet_eq]
  pc_ok := by rw [PcOk, h.pc_eq]; trivial

section

variable {s : Lpc17xx} {n : TxNote}

theorem pcOk_clean (h : s.Inv n) {b : BlockId} {size : UInt16} {i : Nat}
    (hpc : s.pc = .clean b size i) :
    size ≠ 0 ∧ size ≤ ethFragSize ∧ n.start ≤ s.wire.length ∧
      ∃ j, i = j % 16 ∧ n.log.length < j ∧ j ≤ s.wire.length + 16 ∧
        n.log.length ≤ s.wire.length + 14 ∧
        ∀ m, n.log.length < m → m < j → s.packet (m % 16) = none := by
  have hp := h.pc_ok
  rwa [PcOk, hpc] at hp

theorem pcOk_last (h : s.Inv n) {b : BlockId} {size : UInt16} {i : Nat}
    (hpc : s.pc = .last b size i) :
    size ≠ 0 ∧ size ≤ ethFragSize ∧
      ∃ t, i = t % 16 ∧ n.start ≤ t ∧ t ≤ s.wire.length ∧ n.log.length ≤ t + 14 ∧
        (∀ m, n.log.length ≤ m → m < t + 16 → s.packet (m % 16) = none) ∧
        ∀ m e, t ≤ m → n.log[m]? = some e → s.packet (m % 16) = some e.1 := by
  have hp := h.pc_ok
  rwa [PcOk, hpc] at hp

theorem wire_le (h : s.Inv n) : s.wire.length ≤ n.log.length := h.ring.c_le

/-- A descriptor that is pending stands between the two indices. -/
theorem waiting_of_pending (h : s.Inv n) {k : Nat}
    (hp : DescriptorRing.Pending numTxFrag n.log s.wire.length k) : s.waiting k := by
  obtain ⟨m, hm, hm', hk⟩ := hp
  change m % 16 = k at hk
  have hle := h.length_le
  rw [waiting, h.produce_eq, h.consume_eq]
  show (k + 16 - s.wire.length % 16) % 16 < (n.log.length % 16 + 16 - s.wire.length % 16) % 16
  omega

theorem inv_hardware (h : s.Inv n) {s' : Lpc17xx} (hs : s.step .hardware = some s') : s'.Inv n := by
  simp only [step] at hs
  split at hs
  · cases hs
  · next hne =>
    obtain rfl := Option.some.inj hs
    have hlt : s.wire.length < n.log.length := by
      rcases Nat.lt_or_eq_of_le (wire_le h) with hlt | heq
      · exact hlt
      · rw [h.produce_eq, h.consume_eq, heq] at hne
        exact absurd rfl hne
    obtain ⟨hbuf, hsize⟩ := h.ring.oldest hlt
    have hb : s.packet (s.wire.length % 16) = some n.log[s.wire.length].1 := hbuf
    have hf : s.frameSize (s.wire.length % 16) = n.log[s.wire.length].2 := hsize
    have hle := h.length_le
    have hlen : (s.wire ++ [(s.packet s.txConsumeIndex, s.frameSize s.txConsumeIndex)]).length =
        s.wire.length + 1 := by
      rw [List.length_append, List.length_singleton]
    constructor
    · rw [hlen]
      exact h.ring.consume hlt
    · rw [hlen, ← wire_take h.wire_eq hlt, h.consume_eq, hb, hf]
    · rw [hlen]
      omega
    · exact h.produce_eq
    · rw [hlen, h.consume_eq]
      show (s.wire.length % 16 + 1) % 16 = (s.wire.length + 1) % 16
      omega
    · exact h.next_empty
    · have hpc := h.pc_ok
      unfold PcOk at hpc ⊢
      rw [hlen]
      dsimp only
      cases hc : s.pc with
      | idle => trivial
      | wait b size =>
        rw [hc] at hpc
        exact ⟨hpc.1, hpc.2.1, Nat.le_succ_of_le hpc.2.2⟩
      | clean b size i =>
        rw [hc] at hpc
        obtain ⟨h0, h1, h2, j, hi, hj, hj', h3, h4⟩ := hpc
        exact ⟨h0, h1, Nat.le_succ_of_le h2, j, hi, hj, by omega, by omega, h4⟩
      | last b size i =>
        rw [hc] at hpc
        obtain ⟨h0, h1, t, hi, h2, h3, h4⟩ := hpc
        exact ⟨h0, h1, t, hi, h2, Nat.le_succ_of_le h3, h4⟩

/-- In the loop, a descriptor that is not `TxConsumeIndex` is cleared. -/
theorem inv_clear (h : s.Inv n) {b : BlockId} {size : UInt16} {i : Nat}
    (hpc : s.pc = .clean b size i) (hi : i ≠ s.txConsumeIndex) :
    (s.clear i (.clean b size ((i + 1) % numTxFrag))).Inv n := by
  obtain ⟨h0, h1, h2, j, hij, hj, hj', h3, hnone⟩ := pcOk_clean h hpc
  have hne : j ≠ s.wire.length + 16 := by
    rintro rfl
    apply hi
    rw [hij, h.consume_eq]
    omega
  have hk : i < 16 := by omega
  have hnp : ¬ DescriptorRing.Pending numTxFrag n.log s.wire.length i := by
    rintro ⟨m, hm, hm', heq⟩
    change m % 16 = i at heq
    omega
  constructor
  · show DescriptorRing.Ok numTxFrag (DescriptorRing.clearSlot s.packet i) s.frameSize
      (s.mm.unlock (s.packet i)).locks n.log s.wire.length
    rw [EthernetMM.locks_unlock]
    exact h.ring.clear hk hnp
  · exact h.wire_eq
  · exact h.length_le
  · exact h.produce_eq
  · exact h.consume_eq
  · exact DescriptorRing.clearSlot_none h.next_empty
  · refine ⟨h0, h1, h2, j + 1, ?_, by omega, ?_, h3, ?_⟩
    · show (i + 1) % 16 = (j + 1) % 16
      omega
    · show j + 1 ≤ s.wire.length + 16
      omega
    · intro m hm hm'
      rcases Nat.lt_or_eq_of_le (Nat.le_of_lt_succ hm') with hlt | rfl
      · exact DescriptorRing.clearSlot_none (hnone m hm hlt)
      · show DescriptorRing.clearSlot s.packet i (m % 16) = none
        rw [DescriptorRing.clearSlot, if_pos hij.symm]

/-- Where the loop ends, every descriptor that the hardware has given back is empty. -/
theorem inv_loopEnd (h : s.Inv n) {b : BlockId} {size : UInt16} {i : Nat}
    (hpc : s.pc = .clean b size i) (hi : i = s.txConsumeIndex) :
    Inv { s with pc := .last b size i } n := by
  obtain ⟨h0, h1, h2, j, hij, hj, hj', h3, hnone⟩ := pcOk_clean h hpc
  have hle := wire_le h
  have heq : j = s.wire.length + 16 := by
    have hmod : i % 16 = s.wire.length % 16 := by
      rw [hi, h.consume_eq]
      omega
    omega
  refine ⟨h.ring, h.wire_eq, h.length_le, h.produce_eq, h.consume_eq, h.next_empty, ?_⟩
  refine ⟨h0, h1, s.wire.length, hi.trans h.consume_eq, h2, le_rfl, h3, ?_, ?_⟩
  · intro m hm hm'
    rcases Nat.lt_or_eq_of_le hm with hlt | rfl
    · exact hnone m hlt (by omega)
    · exact h.next_empty
  · intro m e hm he
    exact (h.ring.pending m e hm he).1

/-- Behind the loop only blocks in flight are locked: what was taken before the call began has
been cleared. -/
theorem locked_in_flight (h : s.Inv n) {b : BlockId} {size : UInt16} {i : Nat}
    (hpc : s.pc = .last b size i) {b' : BlockId} (hb' : s.mm.locks b' = true) : b' ∈ n.flight := by
  obtain ⟨-, -, t, -, hstart, -, hlen, hnone, hentry⟩ := pcOk_last h hpc
  obtain ⟨k, hk, hbk⟩ := (h.ring.locked b').mp hb'
  change k < 16 at hk
  -- the slot as an entry number within the lap that ends before the next entry
  obtain ⟨m, hm, hm', hmk⟩ : ∃ m, n.log.length ≤ m ∧ m < n.log.length + 16 ∧ m % 16 = k :=
    ⟨n.log.length + (k + 16 - n.log.length % 16) % 16, by omega, by omega, by omega⟩
  have htm : t + 16 ≤ m := by
    by_contra hlt
    have hn := hnone m hm (Nat.lt_of_not_le hlt)
    rw [hmk, hbk] at hn
    cases hn
  have hget : n.log[m - 16]? = some n.log[m - 16] := List.getElem?_eq_getElem (by omega)
  have hslot := hentry (m - 16) _ (by omega) hget
  rw [show (m - 16) % 16 = k by omega, hbk] at hslot
  rw [Option.some.inj hslot]
  apply List.mem_map_of_mem
  rw [List.mem_iff_getElem?]
  refine ⟨m - 16 - n.start, ?_⟩
  rw [List.getElem?_drop, ← hget]
  congr 1
  omega

/-- The descriptor behind the loop may be cleared once the hardware has taken it. -/
theorem ring_last (h : s.Inv n) {b : BlockId} {size : UInt16} {i : Nat}
    (hpc : s.pc = .last b size i) (hw : ¬ s.waiting i) :
    DescriptorRing.Ok numTxFrag (DescriptorRing.clearSlot s.packet i) s.frameSize
      (s.mm.unlock (s.packet i)).locks n.log s.wire.length := by
  obtain ⟨-, -, t, hit, -⟩ := pcOk_last h hpc
  rw [EthernetMM.locks_unlock]
  apply h.ring.clear
  · show i < 16
    omega
  · exact fun hp => hw (waiting_of_pending h hp)

/-- The rest of a call that finds its block in flight. -/
theorem enter_locked (h : s.Inv n) {b : BlockId} {size : UInt16} {i : Nat}
    (hpc : s.pc = .last b size i) (hw : ¬ s.waiting i) :
    (s.clear i .idle).Inv n :=
  ⟨ring_last h hpc hw, h.wire_eq, h.length_le, h.produce_eq, h.consume_eq,
    DescriptorRing.clearSlot_none h.next_empty, trivial⟩

/-- The rest of a call that enters its frame. -/
theorem enter_free (h : s.Inv n) {b : BlockId} {size : UInt16} {i : Nat}
    (hpc : s.pc = .last b size i) (hw : ¬ s.waiting i)
    (hlock : (s.mm.unlock (s.packet i)).locks b = false) :
    Inv { s with
      mm := (s.mm.unlock (s.packet i)).lock b
      packet := DescriptorRing.setSlot (DescriptorRing.clearSlot s.packet i) s.txProduceIndex (some b)
      ctrl := DescriptorRing.setSlot s.ctrl s.txProduceIndex ((limitSize size).toNat - 1)
      txProduceIndex := (s.txProduceIndex + 1) % numTxFrag
      pc := .idle } { n with log := n.log ++ [(b, size.toNat)] } := by
  obtain ⟨h0, h1, t, -, -, ht, hlen, hnone, -⟩ := pcOk_last h hpc
  have hpos : 0 < size.toNat := Nat.pos_of_ne_zero fun hz => h0 (UInt16.toNat_inj.mp hz)
  have hle := h.length_le
  have hfull : n.log.length < s.wire.length + numTxFrag := by
    show n.log.length < s.wire.length + 16
    omega
  have hring := (ring_last h hpc hw).enqueue hfull
    (DescriptorRing.clearSlot_none h.next_empty) hlock size.toNat
  have hsz : DescriptorRing.setSlot s.frameSize (n.log.length % 16) size.toNat =
      fun k => DescriptorRing.setSlot s.ctrl (n.log.length % 16) (size.toNat - 1) k + 1 := by
    funext k
    simp only [DescriptorRing.setSlot, frameSize]
    split
    · omega
    · rfl
  have hlog : (n.log ++ [(b, size.toNat)]).length = n.log.length + 1 := by
    rw [List.length_append, List.length_singleton]
  constructor
  · show DescriptorRing.Ok numTxFrag
      (DescriptorRing.setSlot (DescriptorRing.clearSlot s.packet i) s.txProduceIndex (some b))
      (fun k => DescriptorRing.setSlot s.ctrl s.txProduceIndex ((limitSize size).toNat - 1) k + 1)
      ((s.mm.unlock (s.packet i)).lock b).locks (n.log ++ [(b, size.toNat)]) s.wire.length
    rw [h.produce_eq, limitSize_of_le h1, ← hsz, EthernetMM.locks_lock]
    exact hring
  · show s.wire = ((n.log ++ [(b, size.toNat)]).take s.wire.length).map fun e => (some e.1, e.2)
    rw [List.take_append_of_le_length h.ring.c_le]
    exact h.wire_eq
  · rw [hlog]
    show n.log.length + 1 ≤ s.wire.length + 15
    omega
  · rw [hlog]
    show (s.txProduceIndex + 1) % 16 = (n.log.length + 1) % 16
    rw [h.produce_eq]
    omega
  · exact h.consume_eq
  · rw [hlog]
    show DescriptorRing.setSlot (DescriptorRing.clearSlot s.packet i) s.txProduceIndex (some b)
      ((n.log.length + 1) % 16) = none
    rw [h.produce_eq, DescriptorRing.setSlot, if_neg (by omega)]
    exact DescriptorRing.clearSlot_none (hnone (n.log.length + 1) (by omega) (by omega))
  · trivial

theorem enter_cases (h : s.Inv n) {b : BlockId} {size : UInt16} {i : Nat}
    (hpc : s.pc = .last b size i) (hw : ¬ s.waiting i) {s' : Lpc17xx}
    (hs' : (s.clear i (.last b size i)).enter b size = s') :
    s'.Inv (note n s .driver s') ∧ SendOk b size n s'.mm (note n s .driver s') := by
  have hflight : ∀ b', (s.mm.unlock (s.packet i)).locks b' = true → b' ∈ n.flight := by
    intro b' hb'
    rw [EthernetMM.locks_unlock, DescriptorRing.unlockSlot] at hb'
    split at hb'
    · cases hb'
    · exact locked_in_flight h hpc hb'
  unfold enter at hs'
  split at hs'
  · next hlock =>
    have hp : s'.txProduceIndex = s.txProduceIndex := by rw [← hs']; rfl
    rw [note_kept hpc n hp, ← hs']
    refine ⟨enter_locked h hpc hw, Or.inl rfl, ?_, ?_⟩
    · exact fun hno => absurd (hflight b hlock) hno
    · exact fun b' hb' => Or.inl (hflight b' hb')
  · next hlock =>
    have hne : s'.txProduceIndex ≠ s.txProduceIndex := by
      rw [← hs']
      show (s.txProduceIndex + 1) % 16 ≠ s.txProduceIndex
      rw [h.produce_eq]
      omega
    rw [note_entered hpc n hne, ← hs']
    refine ⟨enter_free h hpc hw (Bool.eq_false_iff.mpr hlock), Or.inr rfl, fun _ => rfl, ?_⟩
    intro b' hb'
    change (((s.mm.unlock (s.packet i)).lock b) b').isLock = true at hb'
    simp only [EthernetMM.lock, EthernetMM.update] at hb'
    split at hb'
    · next heq => exact Or.inr heq
    · exact Or.inl (hflight b' hb')

/-- Every step keeps the invariant and does what it has to. -/
theorem step_ok (h : s.Inv n) {e : TxAct} {s' : Lpc17xx} (hm : s.Meets e)
    (hs : s.step e = some s') : s'.Inv (note n s e s') ∧ StepOk s n e s' (note n s e s') := by
  have hcalls : ∀ mm : EthernetMM, mm.locks = s.mm.locks → Inv { s with mm := mm } n := by
    intro mm hl
    refine ⟨?_, h.wire_eq, h.length_le, h.produce_eq, h.consume_eq, h.next_empty, h.pc_ok⟩
    show DescriptorRing.Ok numTxFrag s.packet s.frameSize mm.locks n.log s.wire.length
    rw [hl]
    exact h.ring
  cases e with
  | alloc hint =>
    simp only [step] at hs
    split at hs
    · obtain rfl := Option.some.inj hs
      refine ⟨hcalls _ (by simp), ?_⟩
      apply allocOk_of_ring h.ring rfl
      rw [← (s.mm.alloc_spec hint).1]
      exact and_iff_left rfl
    · cases hs
  | release b =>
    simp only [step] at hs
    split at hs
    · obtain rfl := Option.some.inj hs
      exact ⟨hcalls _ (by simp), rfl⟩
    · cases hs
  | send b size =>
    simp only [step] at hs
    split at hs
    · next hpc =>
      split at hs
      · obtain rfl := Option.some.inj hs
        refine ⟨⟨h.ring, h.wire_eq, h.length_le, h.produce_eq, h.consume_eq, h.next_empty, ?_⟩, rfl⟩
        rw [PcOk, hpc]
        trivial
      · next hsize =>
        obtain rfl := Option.some.inj hs
        exact ⟨⟨h.ring, h.wire_eq, h.length_le, h.produce_eq, h.consume_eq, h.next_empty,
          hsize, hm, le_rfl⟩, rfl⟩
    · cases hs
  | driver =>
    simp only [step, driverStep] at hs
    split at hs
    · cases hs
    · next b size hpc =>
      rw [note_wait hpc]
      refine ⟨?_, (stepOk_wait hpc n n s').mpr rfl⟩
      split at hs
      · obtain rfl := Option.some.inj hs
        exact h
      · next hne =>
        obtain rfl := Option.some.inj hs
        have hpcok := h.pc_ok
        rw [PcOk, hpc] at hpcok
        have hle := h.length_le
        have hc := wire_le h
        rw [h.produce_eq, h.consume_eq] at hne
        change ¬ (n.log.length % 16 + 1) % 16 = s.wire.length % 16 at hne
        refine ⟨h.ring, h.wire_eq, h.length_le, h.produce_eq, h.consume_eq, h.next_empty, ?_⟩
        refine ⟨hpcok.1, hpcok.2.1, hpcok.2.2, n.log.length + 1, ?_, Nat.lt_succ_self _, ?_, ?_, ?_⟩
        · rw [h.produce_eq]
          show (n.log.length % 16 + 1) % 16 = (n.log.length + 1) % 16
          omega
        · show n.log.length + 1 ≤ s.wire.length + 16
          omega
        · show n.log.length ≤ s.wire.length + 14
          omega
        · intro m hm1 hm2
          omega
    · next b size i hpc =>
      rw [note_clean hpc]
      refine ⟨?_, (stepOk_clean hpc n n s').mpr rfl⟩
      split at hs
      · next hi =>
        obtain rfl := Option.some.inj hs
        exact inv_loopEnd h hpc hi
      · next hi =>
        obtain rfl := Option.some.inj hs
        exact inv_clear h hpc hi
    · next b size i hpc =>
      rw [stepOk_last hpc]
      exact enter_cases h hpc ((meets_last hpc).mp hm) (Option.some.inj hs)
  | hardware =>
    exact ⟨inv_hardware h hs, rfl⟩

end

theorem inv_reaches {p : Lpc17xx × TxNote} (hr : system.Reaches (fun p e => p.1.Meets e) p) :
    p.1.Inv p.2 := by
  apply System.Reaches.invariant (P := fun p => p.1.Inv p.2) _ _ hr
  · intro p hp
    obtain ⟨hi, hn⟩ := hp
    rw [hn]
    exact inv_initial hi
  · intro p e p' hinv hok hs
    obtain ⟨hs', hn⟩ := System.observe_step.mp hs
    rw [hn]
    exact (step_ok hinv hok hs').1

/-- Frames that have not been taken keep the hardware going. -/
theorem hardware_enabled {s : Lpc17xx} {n : TxNote} (h : s.Inv n)
    (hlt : s.wire.length < n.log.length) : ∃ s', s.step .hardware = some s' := by
  have hle := h.length_le
  have hne : ¬ s.txConsumeIndex = s.txProduceIndex := by
    rw [h.consume_eq, h.produce_eq]
    omega
  exact ⟨_, if_neg hne⟩

end Lpc17xx

end MiMic.Driver
