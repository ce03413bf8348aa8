import MiMic.Driver.K64f
import MiMic.Driver.Lpc17xx

/-!
# Runs of the two transmit rings

Between a call, the driver's loops and the hardware every order of steps is a run.
-/
namespace MiMic.Driver

open Verif

instance (s : K64f) (e : TxAct) : Decidable (s.Meets e) :=
  match e with
  | .alloc hint =>
      inferInstanceAs (Decidable (∃ b ∈ EthernetMM.candidates hint, s.mm.isFree b = true))
  | .send _ size => inferInstanceAs (Decidable (size ≤ ethFragSize))
  | .release _ => isTrue trivial
  | .driver => isTrue trivial
  | .hardware => isTrue trivial

instance (s : Lpc17xx) (e : TxAct) : Decidable (s.Meets e) :=
  match e with
  | .send _ size => inferInstanceAs (Decidable (size ≤ ethFragSize))
  | .alloc _ => isTrue trivial
  | .release _ => isTrue trivial
  | .hardware => isTrue trivial
  | .driver =>
      match h : s.pc with
      | .last _ _ _ => decidable_of_iff' _ (Lpc17xx.meets_last h)
      | .idle => isTrue (by unfold Lpc17xx.Meets; rw [h]; trivial)
      | .wait _ _ => isTrue (by unfold Lpc17xx.Meets; rw [h]; trivial)
      | .clean _ _ _ => isTrue (by unfold Lpc17xx.Meets; rw [h]; trivial)

/-- What holds of the LPC17xx between two steps, and of the next step. -/
structure Lpc17xx.RingOk (p : Lpc17xx × TxNote) : Prop where
  tx : TxOk numTxFrag p.1.packet p.1.frameSize p.1.mm p.1.wire p.2.log
  hardware : p.1.wire.length < p.2.log.length → ∃ s', p.1.step .hardware = some s'
  next : ∀ e p', p.1.Meets e → Lpc17xx.system.step p e = some p' → p.1.StepOk p.2 e p'.1 p'.2

/-- The same of the K64F. -/
structure K64f.RingOk (p : K64f × TxNote) : Prop where
  tx : TxOk numOfTxRing p.1.buffer p.1.frameSize p.1.mm p.1.wire p.2.log
  hardware : p.1.wire.length < p.2.log.length → ∃ s', p.1.step .hardware = some s'
  next : ∀ e p', p.1.Meets e → K64f.system.step p e = some p' → p.1.StepOk p.2 e p'.1 p'.2

theorem Lpc17xx.ringOk_of_inv {p : Lpc17xx × TxNote} (h : p.1.Inv p.2) : Lpc17xx.RingOk p where
  tx := txOk_of_ring h.ring h.wire_eq
  hardware := Lpc17xx.hardware_enabled h
  next := by
    intro e p' hm hs
    obtain ⟨hs', hn⟩ := System.observe_step.mp hs
    rw [hn]
    exact (Lpc17xx.step_ok h hm hs').2

theorem K64f.ringOk_of_inv {p : K64f × TxNote} (h : p.1.Inv p.2) : K64f.RingOk p where
  tx := txOk_of_ring h.ring h.wire_eq
  hardware := K64f.hardware_enabled h
  next := by
    intro e p' hm hs
    obtain ⟨hs', hn⟩ := System.observe_step.mp hs
    rw [hn]
    exact (K64f.step_ok h hm hs').2

/-- In every run whose steps meet what the drivers rely on, each frame goes over the wire once
and in order, and its block is locked until then. -/
theorem txRings_run (p : Lpc17xx × TxNote) (q : K64f × TxNote) :
    (Lpc17xx.system.Reaches (fun p e => p.1.Meets e) p → Lpc17xx.RingOk p) ∧
      (K64f.system.Reaches (fun p e => p.1.Meets e) q → K64f.RingOk q) := by
  constructor
  · intro hr
    exact Lpc17xx.ringOk_of_inv (Lpc17xx.inv_reaches hr)
  · intro hr
    exact K64f.ringOk_of_inv (K64f.inv_reaches hr)

/-- The LPC17xx after its descriptors have been set up. -/
def Lpc17xx.started : Lpc17xx where
  mm := EthernetMM.initialized
  packet := fun _ => none
  ctrl := fun _ => 0
  txProduceIndex := 0
  txConsumeIndex := 0
  pc := .idle
  wire := []

def K64f.started : K64f where
  mm := EthernetMM.initialized
  buffer := fun _ => none
  length := fun _ => 0
  ready := fun _ => false
  txIdx := 0
  hwIdx := 0
  pc := .idle
  wire := []

theorem Lpc17xx.init_started : Lpc17xx.system.init (Lpc17xx.started, ⟨[], 0⟩) :=
  ⟨⟨rfl, rfl, rfl, rfl, rfl, rfl⟩, rfl⟩

theorem K64f.init_started : K64f.system.init (K64f.started, ⟨[], 0⟩) :=
  ⟨⟨rfl, rfl, rfl, rfl, rfl, rfl, rfl⟩, rfl⟩

/-- Allocate a block and send it; the call takes `k` passes. -/
def allocAndSend (b : BlockId) (k : Nat) : List TxAct :=
  [.alloc 100, .send b 60] ++ List.replicate k .driver

/-- The first frame has been taken when the second is entered. -/
theorem txRings_run_two :
    (∃ p : Lpc17xx × TxNote, p.1.wire = [(some ⟨.b128, 0⟩, 60)] ∧
      p.1.packet 1 = some ⟨.b128, 1⟩ ∧ (p.1.mm ⟨.b128, 1⟩).isLock = true) ∧
    (∃ p : K64f × TxNote, p.1.wire = [(some ⟨.b128, 0⟩, 60)] ∧
      p.1.buffer 1 = some ⟨.b128, 1⟩ ∧ (p.1.mm ⟨.b128, 1⟩).isLock = true) := by
  constructor
  · have hruns : (Lpc17xx.system.runChecked (fun p e => decide (p.1.Meets e))
        (Lpc17xx.started, ⟨[], 0⟩)
        (allocAndSend ⟨.b128, 0⟩ 18 ++ [.hardware] ++ allocAndSend ⟨.b128, 1⟩ 18)).any (fun p =>
          p.1.wire.length == 1 &&
            p.2.log == [(⟨.b128, 0⟩, 60), (⟨.b128, 1⟩, 60)]) = true := by
      decide +kernel
    obtain ⟨p, hr, hp⟩ := System.exists_of_runChecked
      (show ∀ (p : Lpc17xx × TxNote) e, decide (p.1.Meets e) = true → p.1.Meets e from
        fun _ _ => of_decide_eq_true) Lpc17xx.init_started hruns
    simp only [Bool.and_eq_true, beq_iff_eq] at hp
    obtain ⟨hwire, hlog⟩ := hp
    obtain ⟨hw, hpend⟩ := ((txRings_run p (K64f.started, ⟨[], 0⟩)).1 hr).tx
    rw [hlog, hwire] at hw hpend
    obtain ⟨hpacket, -, hlock⟩ := hpend 1 _ le_rfl rfl
    exact ⟨p, hw, hpacket, hlock⟩
  · have hruns : (K64f.system.runChecked (fun p e => decide (p.1.Meets e))
        (K64f.started, ⟨[], 0⟩)
        (allocAndSend ⟨.b128, 0⟩ 6 ++ [.hardware] ++ allocAndSend ⟨.b128, 1⟩ 6)).any (fun p =>
          p.1.wire.length == 1 &&
            p.2.log == [(⟨.b128, 0⟩, 60), (⟨.b128, 1⟩, 60)]) = true := by
      decide +kernel
    obtain ⟨p, hr, hp⟩ := System.exists_of_runChecked
      (show ∀ (p : K64f × TxNote) e, decide (p.1.Meets e) = true → p.1.Meets e from
        fun _ _ => of_decide_eq_true) K64f.init_started hruns
    simp only [Bool.and_eq_true, beq_iff_eq] at hp
    obtain ⟨hwire, hlog⟩ := hp
    obtain ⟨hw, hpend⟩ := ((txRings_run (Lpc17xx.started, ⟨[], 0⟩) p).2 hr).tx
    rw [hlog, hwire] at hw hpend
    obtain ⟨hpacket, -, hlock⟩ := hpend 1 _ le_rfl rfl
    exact ⟨p, hw, hpacket, hlock⟩

/-- The clean-up before the second frame takes the first one's descriptor, which the hardware has
not taken yet; and an allocation that finds no block is two bytes behind address zero. -/
theorem not_txRings_run :
    (∃ p, Lpc17xx.system.Reaches System.anyStep p ∧
      ¬ TxOk numTxFrag p.1.packet p.1.frameSize p.1.mm p.1.wire p.2.log) ∧
    (∃ p hint, K64f.system.Reaches System.anyStep p ∧ p.1.pc = .idle ∧
      ¬ AllocOk hint p.1.mm (p.2.log.drop p.1.wire.length) (p.1.allocTxBuf hint)) := by
  constructor
  · have hruns : (Lpc17xx.system.run (Lpc17xx.started, ⟨[], 0⟩)
        (allocAndSend ⟨.b128, 0⟩ 18 ++ allocAndSend ⟨.b128, 1⟩ 17 ++ [.hardware])).any (fun p =>
          p.1.wire == [(none, 60)] && p.2.log == [(⟨.b128, 0⟩, 60), (⟨.b128, 1⟩, 60)]) = true := by
      decide +kernel
    obtain ⟨p, hr, hp⟩ := System.exists_of_run Lpc17xx.init_started hruns
    simp only [Bool.and_eq_true, beq_iff_eq] at hp
    refine ⟨p, hr, ?_⟩
    intro hok
    have hw := hok.wire_eq
    rw [hp.1, hp.2] at hw
    exact absurd hw (by decide)
  · have hruns : (K64f.system.run (K64f.started, ⟨[], 0⟩) (List.replicate 4 (.alloc 0))).any
        (fun p => decide (p.1.pc = .idle) &&
          (EthernetMM.candidates 0).all (fun b => !p.1.mm.isFree b)) = true := by
      decide +kernel
    obtain ⟨p, hr, hp⟩ := System.exists_of_run K64f.init_started hruns
    simp only [Bool.and_eq_true, decide_eq_true_eq, List.all_eq_true, Bool.not_eq_true'] at hp
    refine ⟨p, 0, hr, hp.1, ?_⟩
    intro hok
    exact absurd (show 2 = 0 from (hok.null_iff.mpr hp.2).2) (by decide)

end MiMic.Driver
