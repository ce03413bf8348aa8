import MiMic.Driver.EthernetMM
import MiMic.Lib.System

/-!
# The transmit ring of the K64F

A descriptor is the hardware's while its ready bit is set. A frame starts two bytes behind
the address in its descriptor, and the length counts them; the hardware drops them.
-/
namespace MiMic.Driver

open Verif

/-- `NUM_OF_TX_RING`. -/
abbrev numOfTxRing : Nat := 4

/-- Where the driver is in `sendTxEthFrame`: waiting for the descriptor, or in the loop that
releases descriptors. -/
inductive K64fPc
  | idle
  | wait (b : BlockId) (size : UInt16)
  | clean (b : BlockId) (size : UInt16) (i : Nat)
deriving DecidableEq

structure K64f where
  mm : EthernetMM
  buffer : Nat → Option BlockId
  length : Nat → Nat
  ready : Nat → Bool
  txIdx : Nat
  /-- The descriptor that the hardware takes next. -/
  hwIdx : Nat
  pc : K64fPc
  wire : Wire

namespace K64f

def indexOf (s : K64f) (i : Nat) : Nat := (s.txIdx + i) % numOfTxRing

/-- `allocTxBuf`: two is added to whatever the buffer manager returns. -/
def allocTxBuf (s : K64f) (hint : UInt16) : TxPtr := ⟨(s.mm.alloc hint).2, 2⟩

/-- The bytes of the frame in a descriptor. -/
def frameSize (s : K64f) (k : Nat) : Nat := s.length k - 2

/-- The end of `sendTxEthFrame`, behind `waitForTxEthFrameEmpty`. -/
def enter (s : K64f) (b : BlockId) (size : UInt16) : K64f :=
  if (s.mm b).isLock then { s with pc := .idle }
  else
    { s with
      mm := s.mm.lock b
      buffer := DescriptorRing.setSlot s.buffer s.txIdx (some b)
      length := DescriptorRing.setSlot s.length s.txIdx ((limitSize size).toNat + 2)
      ready := DescriptorRing.setSlot s.ready s.txIdx true
      txIdx := (s.txIdx + 1) % numOfTxRing
      pc := .idle }

/-- One pass of a loop of the driver. -/
def driverStep (s : K64f) : Option K64f :=
  match s.pc with
  | .idle => none
  | .wait b size =>
      if s.ready s.txIdx then some s else some { s with pc := .clean b size 0 }
  | .clean b size i =>
      if i < numOfTxRing ∧ s.ready (s.indexOf i) = false then
        some { s with
          mm := s.mm.unlock (s.buffer (s.indexOf i))
          buffer := DescriptorRing.clearSlot s.buffer (s.indexOf i)
          pc := .clean b size (i + 1) }
      else some (s.enter b size)

def step (s : K64f) : TxAct → Option K64f
  | .alloc hint => if s.pc = .idle then some { s with mm := (s.mm.alloc hint).1 } else none
  | .release b => if s.pc = .idle then some { s with mm := s.mm.release b } else none
  | .send b size =>
      if s.pc = .idle then
        if size = 0 then some s else some { s with pc := .wait b size }
      else none
  | .driver => s.driverStep
  | .hardware =>
      if s.ready s.hwIdx then
        some { s with
          wire := s.wire ++ [(s.buffer s.hwIdx, s.frameSize s.hwIdx)]
          ready := DescriptorRing.setSlot s.ready s.hwIdx false
          hwIdx := (s.hwIdx + 1) % numOfTxRing }
      else none

/-- The ring as `start` leaves it. -/
structure Initial (s : K64f) : Prop where
  mm_eq : s.mm.locks = fun _ => false
  buffer_eq : s.buffer = fun _ => none
  ready_eq : s.ready = fun _ => false
  txIdx_eq : s.txIdx = 0
  hwIdx_eq : s.hwIdx = 0
  pc_eq : s.pc = .idle
  wire_eq : s.wire = []

/-- A call that begins notes what is in flight; a pass that moves `tx_idx` has entered a frame. -/
def note (n : TxNote) (s : K64f) (e : TxAct) (s' : K64f) : TxNote :=
  match e, s.pc with
  | .send _ _, _ => { n with start := s.wire.length }
  | .driver, .clean b size _ =>
      if s'.txIdx = s.txIdx then n else { n with log := n.log ++ [(b, size.toNat)] }
  | _, _ => n

def system : System (K64f × TxNote) TxAct :=
  System.observe { init := Initial, step := step } ⟨[], 0⟩ note

/-- What the driver relies on: a frame is no longer than a descriptor can say, and an allocation
finds a block. -/
def Meets (s : K64f) : TxAct → Prop
  | .send _ size => size ≤ ethFragSize
  | .alloc hint => ∃ b ∈ EthernetMM.candidates hint, s.mm.isFree b = true
  | _ => True

/-- What a step has to do. -/
def StepOk (s : K64f) (n : TxNote) (e : TxAct) (s' : K64f) (n' : TxNote) : Prop :=
  match e, s.pc with
  | .alloc hint, _ => AllocOk hint s.mm (n.log.drop s.wire.length) (s.allocTxBuf hint)
  | .driver, .clean b size _ =>
      if s'.pc = .idle then SendOk b size n s'.mm n' else n'.log = n.log
  | _, _ => n'.log = n.log

section

variable {s : K64f} {b : BlockId} {size : UInt16}

theorem note_wait (h : s.pc = .wait b size) (n : TxNote) (s' : K64f) : note n s .driver s' = n := by
  unfold note
  rw [h]

theorem note_clean {i : Nat} (h : s.pc = .clean b size i) (n : TxNote) (s' : K64f) :
    note n s .driver s' =
      if s'.txIdx = s.txIdx then n else { n with log := n.log ++ [(b, size.toNat)] } := by
  unfold note
  rw [h]

theorem stepOk_wait (h : s.pc = .wait b size) (n n' : TxNote) (s' : K64f) :
    StepOk s n .driver s' n' ↔ n'.log = n.log := by
  unfold StepOk
  rw [h]

theorem stepOk_clean {i : Nat} (h : s.pc = .clean b size i) (n n' : TxNote) (s' : K64f) :
    StepOk s n .driver s' n' ↔
      if s'.pc = .idle then SendOk b size n s'.mm n' else n'.log = n.log := by
  unfold StepOk
  rw [h]

end

/-- Where the driver is, against the entries in flight. -/
def PcOk (s : K64f) (n : TxNote) : Prop :=
  match s.pc with
  | .idle => True
  | .wait _ size => size ≤ ethFragSize ∧ n.start ≤ s.wire.length
  | .clean _ size i =>
      size ≤ ethFragSize ∧ n.start ≤ s.wire.length ∧ n.log.length < s.wire.length + 4 ∧ i ≤ 4 ∧
        ∀ j, j < i → s.buffer (s.indexOf j) = none

structure Inv (s : K64f) (n : TxNote) : Prop where
  ring : DescriptorRing.Ok numOfTxRing s.buffer s.frameSize s.mm.locks n.log s.wire.length
  wire_eq : s.wire = (n.log.take s.wire.length).map fun e => (some e.1, e.2)
  txIdx_eq : s.txIdx = n.log.length % 4
  hwIdx_eq : s.hwIdx = s.wire.length % 4
  ready_iff : ∀ k, k < 4 →
    (s.ready k = true ↔ DescriptorRing.Pending numOfTxRing n.log s.wire.length k)
  pc_ok : s.PcOk n

theorem indexOf_eq {s : K64f} {n : TxNote} (h : s.txIdx = n.log.length % 4) (i : Nat) :
    s.indexOf i = (n.log.length + i) % 4 := by
  rw [indexOf, h]
  show (n.log.length % 4 + i) % 4 = (n.log.length + i) % 4
  omega

theorem inv_initial {s : K64f} (h : s.Initial) : s.Inv ⟨[], 0⟩ where
  ring := by
    rw [h.buffer_eq, h.mm_eq, h.wire_eq]
    exact DescriptorRing.Ok.empty numOfTxRing s.frameSize
  wire_eq := by rw [h.wire_eq]; rfl
  txIdx_eq := h.txIdx_eq
  hwIdx_eq := by rw [h.hwIdx_eq, h.wire_eq]; rfl
  ready_iff := by
    intro k _
    rw [h.ready_eq]
    refine iff_of_false Bool.false_ne_true ?_
    rintro ⟨n, -, hn, -⟩
    exact absurd hn (Nat.not_lt_zero n)
  pc_ok := by rw [PcOk, h.pc_eq]; trivial

section

variable {s : K64f} {n : TxNote}

/-- The next entry's slot is pending only in a full ring. -/
theorem not_pending_next (hlt : n.log.length < s.wire.length + 4) :
    ¬ DescriptorRing.Pending numOfTxRing n.log s.wire.length (n.log.length % 4) := by
  intro hp
  obtain ⟨m, hm, hm', heq⟩ := hp
  have h := DescriptorRing.mod_inj (N := 4) (a := s.wire.length) hm (by omega)
    (show s.wire.length ≤ n.log.length by omega) hlt heq
  omega

theorem inv_hardware (h : s.Inv n) {s' : K64f} (hs : s.step .hardware = some s') : s'.Inv n := by
  simp only [step] at hs
  split at hs
  · next hready =>
    obtain rfl := Option.some.inj hs
    have hidx : s.hwIdx < 4 := by
      rw [h.hwIdx_eq]
      exact Nat.mod_lt _ (by decide)
    have hlt : s.wire.length < n.log.length := by
      obtain ⟨m, hm, hm', -⟩ := (h.ready_iff _ hidx).mp hready
      omega
    obtain ⟨hbuf, hsize⟩ := h.ring.oldest hlt
    have hlen : (s.wire ++ [(s.buffer s.hwIdx, s.frameSize s.hwIdx)]).length = s.wire.length + 1 := by
      rw [List.length_append, List.length_singleton]
    have hle := h.ring.le_c
    constructor
    · rw [hlen]
      exact h.ring.consume hlt
    · rw [hlen, ← wire_take h.wire_eq hlt, h.hwIdx_eq]
      have hb : s.buffer (s.wire.length % 4) = some n.log[s.wire.length].1 := hbuf
      have hf : s.frameSize (s.wire.length % 4) = n.log[s.wire.length].2 := hsize
      rw [hb, hf]
    · exact h.txIdx_eq
    · rw [hlen, h.hwIdx_eq]
      show (s.wire.length % 4 + 1) % 4 = (s.wire.length + 1) % 4
      omega
    · intro k hk
      rw [hlen, h.hwIdx_eq]
      show DescriptorRing.setSlot s.ready (s.wire.length % 4) false k = true ↔ _
      rw [DescriptorRing.setSlot]
      split
      · next heq =>
        subst heq
        refine iff_of_false Bool.false_ne_true ?_
        rintro ⟨m, hm, hm', hmod⟩
        have he := DescriptorRing.mod_inj (N := 4) (a := s.wire.length) (by omega)
          (by change n.log.length ≤ s.wire.length + 4 at hle; omega) le_rfl (by omega) hmod
        omega
      · next hne =>
        rw [h.ready_iff k hk]
        constructor
        · rintro ⟨m, hm, hm', hmod⟩
          refine ⟨m, ?_, hm', hmod⟩
          rcases Nat.lt_or_eq_of_le hm with hlt' | rfl
          · exact hlt'
          · exact absurd hmod.symm hne
        · rintro ⟨m, hm, hm', hmod⟩
          exact ⟨m, by omega, hm', hmod⟩
    · have hpc := h.pc_ok
      unfold PcOk at hpc ⊢
      rw [hlen]
      show match s.pc with
        | .idle => True
        | .wait _ size => size ≤ ethFragSize ∧ n.start ≤ s.wire.length + 1
        | .clean _ size i =>
            size ≤ ethFragSize ∧ n.start ≤ s.wire.length + 1 ∧
              n.log.length < s.wire.length + 1 + 4 ∧ i ≤ 4 ∧
                ∀ j, j < i → s.buffer (s.indexOf j) = none
      cases hc : s.pc with
      | idle => trivial
      | wait b size =>
        rw [hc] at hpc
        exact ⟨hpc.1, Nat.le_succ_of_le hpc.2⟩
      | clean b size i =>
        rw [hc] at hpc
        obtain ⟨h1, h2, h3, h4⟩ := hpc
        exact ⟨h1, Nat.le_succ_of_le h2, by omega, h4⟩
  · cases hs

/-- The block of a descriptor that is not ready is released. -/
theorem inv_release (h : s.Inv n) {b : BlockId} {size : UInt16} {i : Nat}
    (hpc : s.pc = .clean b size i) (hi : i < 4) (hready : s.ready (s.indexOf i) = false) :
    Inv { s with
      mm := s.mm.unlock (s.buffer (s.indexOf i))
      buffer := DescriptorRing.clearSlot s.buffer (s.indexOf i)
      pc := .clean b size (i + 1) } n := by
  have hk : s.indexOf i < 4 := Nat.mod_lt _ (by decide)
  have hnp : ¬ DescriptorRing.Pending numOfTxRing n.log s.wire.length (s.indexOf i) := by
    rw [← h.ready_iff _ hk, hready]
    exact Bool.false_ne_true
  have hpcok := h.pc_ok
  rw [PcOk, hpc] at hpcok
  obtain ⟨h1, h2, h3, h4, h5⟩ := hpcok
  constructor
  · show DescriptorRing.Ok numOfTxRing (DescriptorRing.clearSlot s.buffer (s.indexOf i)) s.frameSize
      (s.mm.unlock (s.buffer (s.indexOf i))).locks n.log s.wire.length
    rw [EthernetMM.locks_unlock]
    exact h.ring.clear hk hnp
  · exact h.wire_eq
  · exact h.txIdx_eq
  · exact h.hwIdx_eq
  · exact h.ready_iff
  · refine ⟨h1, h2, h3, hi, ?_⟩
    intro j hj
    show DescriptorRing.clearSlot s.buffer (s.indexOf i) (s.indexOf j) = none
    rw [DescriptorRing.clearSlot]
    split
    · rfl
    · next hne =>
      apply h5
      rcases Nat.lt_or_eq_of_le (Nat.le_of_lt_succ hj) with hlt | rfl
      · exact hlt
      · exact absurd rfl hne

/-- Behind the loop only blocks in flight are locked: what was taken before the call began has
been released. -/
theorem locked_in_flight (h : s.Inv n) {b : BlockId} {size : UInt16} {i : Nat}
    (hpc : s.pc = .clean b size i) (hend : ¬ (i < numOfTxRing ∧ s.ready (s.indexOf i) = false))
    {b' : BlockId} (hb' : s.mm.locks b' = true) : b' ∈ n.flight := by
  have hpcok := h.pc_ok
  rw [PcOk, hpc] at hpcok
  obtain ⟨-, hstart, hlt, hi, hnone⟩ := hpcok
  obtain ⟨k, hk, hbk⟩ := (h.ring.locked b').mp hb'
  change k < 4 at hk
  -- the slot as an offset from the next one
  obtain ⟨j, hj, hjk⟩ : ∃ j, j < 4 ∧ (n.log.length + j) % 4 = k :=
    ⟨(k + 4 - n.log.length % 4) % 4, Nat.mod_lt _ (by decide), by omega⟩
  have hij : i ≤ j := by
    by_contra hji
    have hn := hnone j (Nat.lt_of_not_le hji)
    rw [indexOf_eq h.txIdx_eq, hjk, hbk] at hn
    cases hn
  have hready : s.ready (s.indexOf i) = true := by
    by_contra hr
    exact hend ⟨show i < 4 by omega, Bool.eq_false_iff.mpr hr⟩
  obtain ⟨m, hm, hm', hmod⟩ := (h.ready_iff _ (Nat.mod_lt _ (by decide))).mp hready
  have hmod' : m % 4 = (n.log.length + i) % 4 := hmod.trans (indexOf_eq h.txIdx_eq i)
  have hm4 : m + 4 = n.log.length + i := by
    apply DescriptorRing.mod_inj (N := 4) (a := n.log.length)
    all_goals omega
  have hget : n.log[n.log.length + j - 4]? = some n.log[n.log.length + j - 4] :=
    List.getElem?_eq_getElem (by omega)
  obtain ⟨hbuf, -⟩ := h.ring.pending _ _ (by omega) hget
  have hslot : (n.log.length + j - 4) % 4 = k := by omega
  change s.buffer ((n.log.length + j - 4) % 4) = _ at hbuf
  rw [hslot, hbk] at hbuf
  rw [Option.some.inj hbuf]
  apply List.mem_map_of_mem
  rw [List.mem_iff_getElem?]
  refine ⟨n.log.length + j - 4 - n.start, ?_⟩
  rw [List.getElem?_drop, ← hget]
  congr 1
  omega

/-- The slot of the next entry is empty behind the loop. -/
theorem next_empty (h : s.Inv n) {b : BlockId} {size : UInt16} {i : Nat}
    (hpc : s.pc = .clean b size i) (hend : ¬ (i < numOfTxRing ∧ s.ready (s.indexOf i) = false)) :
    s.buffer (n.log.length % 4) = none := by
  have hpcok := h.pc_ok
  rw [PcOk, hpc] at hpcok
  obtain ⟨-, -, hlt, -, hnone⟩ := hpcok
  have hpos : 0 < i := by
    by_contra hi
    obtain rfl : i = 0 := Nat.eq_zero_of_not_pos hi
    have hready : s.ready (s.indexOf 0) = true := by
      by_contra hr
      exact hend ⟨Nat.zero_lt_succ 3, Bool.eq_false_iff.mpr hr⟩
    rw [indexOf_eq h.txIdx_eq, Nat.add_zero] at hready
    exact not_pending_next hlt ((h.ready_iff _ (Nat.mod_lt _ (by decide))).mp hready)
  have h0 := hnone 0 hpos
  rwa [indexOf_eq h.txIdx_eq, Nat.add_zero] at h0

/-- The entered frame, and what its block being locked already means. -/
theorem enter_cases (h : s.Inv n) {b : BlockId} {size : UInt16} {i : Nat}
    (hpc : s.pc = .clean b size i) (hend : ¬ (i < numOfTxRing ∧ s.ready (s.indexOf i) = false)) :
    Inv (s.enter b size) (note n s .driver (s.enter b size)) ∧
      SendOk b size n (s.enter b size).mm (note n s .driver (s.enter b size)) := by
  have hpcok := h.pc_ok
  rw [PcOk, hpc] at hpcok
  obtain ⟨hsize, hstart, hlt, -, -⟩ := hpcok
  have hflight : ∀ {b'}, (s.mm b').isLock = true → b' ∈ n.flight :=
    fun hb' => locked_in_flight h hpc hend hb'
  by_cases hlock : (s.mm b).isLock = true
  · have he : s.enter b size = { s with pc := .idle } := if_pos hlock
    have hn : note n s .driver { s with pc := .idle } = n :=
      (note_clean hpc n _).trans (if_pos rfl)
    rw [he, hn]
    constructor
    · exact ⟨h.ring, h.wire_eq, h.txIdx_eq, h.hwIdx_eq, h.ready_iff, trivial⟩
    · exact ⟨Or.inl rfl, fun hno => absurd (hflight hlock) hno, fun b' hb' => Or.inl (hflight hb')⟩
  · have he : s.enter b size = { s with
        mm := s.mm.lock b
        buffer := DescriptorRing.setSlot s.buffer s.txIdx (some b)
        length := DescriptorRing.setSlot s.length s.txIdx ((limitSize size).toNat + 2)
        ready := DescriptorRing.setSlot s.ready s.txIdx true
        txIdx := (s.txIdx + 1) % numOfTxRing
        pc := .idle } := if_neg hlock
    have hmin := limitSize_of_le hsize
    have hne : ¬ (s.txIdx + 1) % numOfTxRing = s.txIdx := by
      rw [h.txIdx_eq]
      show ¬ (n.log.length % 4 + 1) % 4 = n.log.length % 4
      omega
    have hn : note n s .driver (s.enter b size) = { n with log := n.log ++ [(b, size.toNat)] } := by
      rw [he, note_clean hpc]
      exact if_neg hne
    have hring := h.ring.enqueue hlt (next_empty h hpc hend) (b := b)
      (Bool.eq_false_iff.mpr hlock) size.toNat
    have hsz : DescriptorRing.setSlot s.frameSize (n.log.length % 4) size.toNat =
        fun k => DescriptorRing.setSlot s.length (n.log.length % 4) (size.toNat + 2) k - 2 := by
      funext k
      simp only [DescriptorRing.setSlot, frameSize]
      split <;> rfl
    have hlen : (n.log ++ [(b, size.toNat)]).length = n.log.length + 1 := by
      rw [List.length_append, List.length_singleton]
    rw [hn, he]
    constructor
    · constructor
      · show DescriptorRing.Ok numOfTxRing (DescriptorRing.setSlot s.buffer s.txIdx (some b))
          (fun k => DescriptorRing.setSlot s.length s.txIdx ((limitSize size).toNat + 2) k - 2)
          (s.mm.lock b).locks (n.log ++ [(b, size.toNat)]) s.wire.length
        rw [h.txIdx_eq, hmin, ← hsz, EthernetMM.locks_lock]
        exact hring
      · show s.wire = ((n.log ++ [(b, size.toNat)]).take s.wire.length).map fun e => (some e.1, e.2)
        rw [List.take_append_of_le_length h.ring.c_le]
        exact h.wire_eq
      · show (s.txIdx + 1) % 4 = (n.log ++ [(b, size.toNat)]).length % 4
        rw [hlen, h.txIdx_eq]
        omega
      · exact h.hwIdx_eq
      · intro k hk
        show DescriptorRing.setSlot s.ready s.txIdx true k = true ↔
          DescriptorRing.Pending numOfTxRing (n.log ++ [(b, size.toNat)]) s.wire.length k
        have hpend : DescriptorRing.Pending numOfTxRing (n.log ++ [(b, size.toNat)]) s.wire.length k ↔
            k = n.log.length % 4 ∨ DescriptorRing.Pending numOfTxRing n.log s.wire.length k := by
          constructor
          · rintro ⟨m, hm, hm', hmod⟩
            rw [hlen] at hm'
            rcases Nat.lt_or_eq_of_le (Nat.le_of_lt_succ hm') with hlt' | rfl
            · exact Or.inr ⟨m, hm, hlt', hmod⟩
            · exact Or.inl hmod.symm
          · rintro (rfl | ⟨m, hm, hm', hmod⟩)
            · exact ⟨n.log.length, h.ring.c_le, by rw [hlen]; omega, rfl⟩
            · exact ⟨m, hm, by rw [hlen]; omega, hmod⟩
        rw [hpend, ← h.ready_iff k hk, h.txIdx_eq, DescriptorRing.setSlot]
        split
        · next heq => exact iff_of_true rfl (Or.inl heq)
        · next hne' =>
          constructor
          · exact Or.inr
          · rintro (heq | hr)
            · exact absurd heq hne'
            · exact hr
      · trivial
    · refine ⟨Or.inr rfl, fun _ => rfl, ?_⟩
      intro b' hb'
      simp only [EthernetMM.lock, EthernetMM.update] at hb'
      split at hb'
      · next heq => exact Or.inr heq
      · exact Or.inl (hflight hb')

/-- Every step keeps the invariant and does what it has to. -/
theorem step_ok (h : s.Inv n) {e : TxAct} {s' : K64f} (hm : s.Meets e) (hs : s.step e = some s') :
    s'.Inv (note n s e s') ∧ StepOk s n e s' (note n s e s') := by
  have hcalls : ∀ mm : EthernetMM, mm.locks = s.mm.locks → Inv { s with mm := mm } n := by
    intro mm hl
    refine ⟨?_, h.wire_eq, h.txIdx_eq, h.hwIdx_eq, h.ready_iff, h.pc_ok⟩
    show DescriptorRing.Ok numOfTxRing s.buffer s.frameSize mm.locks n.log s.wire.length
    rw [hl]
    exact h.ring
  cases e with
  | alloc hint =>
    simp only [step] at hs
    split at hs
    · obtain rfl := Option.some.inj hs
      refine ⟨hcalls _ (by simp), ?_⟩
      apply allocOk_of_ring h.ring rfl
      refine iff_of_false (fun hnull => nomatch hnull.2) ?_
      obtain ⟨b, hb, hfree⟩ := hm
      intro hall
      rw [hall b hb] at hfree
      cases hfree
    · cases hs
  | release b =>
    simp only [step] at hs
    split at hs
    · obtain rfl := Option.some.inj hs
      exact ⟨hcalls _ (by simp), rfl⟩
    · cases hs
  | send b size =>
    simp only [step] at hs
    split at hs
    · next hpc =>
      split at hs
      · obtain rfl := Option.some.inj hs
        refine ⟨⟨h.ring, h.wire_eq, h.txIdx_eq, h.hwIdx_eq, h.ready_iff, ?_⟩, rfl⟩
        rw [PcOk, hpc]
        trivial
      · obtain rfl := Option.some.inj hs
        exact ⟨⟨h.ring, h.wire_eq, h.txIdx_eq, h.hwIdx_eq, h.ready_iff, hm, le_rfl⟩, rfl⟩
    · cases hs
  | driver =>
    have hpcok := h.pc_ok
    simp only [step, driverStep] at hs
    split at hs
    · cases hs
    · next b size hpc =>
      rw [PcOk, hpc] at hpcok
      rw [note_wait hpc]
      refine ⟨?_, (stepOk_wait hpc n n s').mpr rfl⟩
      split at hs
      · obtain rfl := Option.some.inj hs
        exact h
      · next hready =>
        obtain rfl := Option.some.inj hs
        refine ⟨h.ring, h.wire_eq, h.txIdx_eq, h.hwIdx_eq, h.ready_iff, ?_⟩
        refine ⟨hpcok.1, hpcok.2, ?_, Nat.zero_le 4, fun j hj => absurd hj (Nat.not_lt_zero j)⟩
        -- a full ring would have the descriptor ready
        show n.log.length < s.wire.length + 4
        by_contra hfull
        have hle : n.log.length ≤ s.wire.length + 4 := h.ring.le_c
        apply hready
        rw [h.txIdx_eq, h.ready_iff _ (Nat.mod_lt _ (by decide))]
        refine ⟨s.wire.length, le_rfl, by omega, ?_⟩
        show s.wire.length % 4 = n.log.length % 4
        omega
    · next b size i hpc =>
      split at hs
      · next hi =>
        obtain rfl := Option.some.inj hs
        have hn : note n s .driver { s with
            mm := s.mm.unlock (s.buffer (s.indexOf i))
            buffer := DescriptorRing.clearSlot s.buffer (s.indexOf i)
            pc := .clean b size (i + 1) } = n :=
          (note_clean hpc n _).trans (if_pos rfl)
        rw [hn]
        refine ⟨inv_release h hpc hi.1 hi.2, ?_⟩
        rw [stepOk_clean hpc, if_neg (fun hf => nomatch hf)]
      · next hi =>
        obtain rfl := Option.some.inj hs
        obtain ⟨hinv, hsend⟩ := enter_cases h hpc hi
        have hidle : (s.enter b size).pc = .idle := by
          unfold enter
          split <;> rfl
        refine ⟨hinv, ?_⟩
        rw [stepOk_clean hpc, if_pos hidle]
        exact hsend
  | hardware =>
    exact ⟨inv_hardware h hs, rfl⟩

end

theorem inv_reaches {p : K64f × TxNote} (hr : system.Reaches (fun p e => p.1.Meets e) p) :
    p.1.Inv p.2 := by
  apply System.Reaches.invariant (P := fun p => p.1.Inv p.2) _ _ hr
  · intro p hp
    obtain ⟨hi, hn⟩ := hp
    rw [hn]
    exact inv_initial hi
  · intro p e p' hinv hok hs
    obtain ⟨hs', hn⟩ := System.observe_step.mp hs
    rw [hn]
    exact (step_ok hinv hok hs').1

/-- Frames that have not been taken keep the hardware going. -/
theorem hardware_enabled {s : K64f} {n : TxNote} (h : s.Inv n) (hlt : s.wire.length < n.log.length) :
    ∃ s', s.step .hardware = some s' := by
  have hready : s.ready s.hwIdx = true := by
    rw [h.hwIdx_eq, h.ready_iff _ (Nat.mod_lt _ (by decide))]
    exact ⟨s.wire.length, le_rfl, hlt, rfl⟩
  exact ⟨_, if_pos hready⟩

end K64f

end MiMic.Driver
