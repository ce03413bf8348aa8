import MiMic.Core.Text
import MiMic.NetIf.IpTypes

/-!
# The walk over the TCP options

`tcpOptWalk` against the walk over the options as they are laid out: NOP and the end of the list
are single bytes, every other option is its kind, its whole length and its data. The loop of the
source has no step for NOP, goes one byte on for a length of one, and reads a length byte that may
lie behind the options.
-/
namespace MiMic

/-- The walk over an area of `limit` bytes: a NOP is passed, the end of the list, or a length that
is below two or leads out of the area, ends it. Each step moves on, so `limit + 1` of them reach its
end. -/
def rfcOptWalk (optBuf : Memory) (limit : Nat) (id : UInt8) : Nat → Nat → Option Nat
  | 0, _ => none
  | fuel + 1, c =>
      if c < limit then
        if optBuf c = tcpOptNoop then rfcOptWalk optBuf limit id fuel (c + 1)
        else if optBuf c = tcpOptEnd then none
        else if (optBuf (c + 1)).toNat < 2 ∨ limit < c + (optBuf (c + 1)).toNat then none
        else if optBuf c = id then some c
        else rfcOptWalk optBuf limit id fuel (c + (optBuf (c + 1)).toNat)
      else none

/-- The bytes that `tcpOptWalk` looks at. -/
def tcpOptReads (optBuf : Memory) (limit : Nat) (id : UInt8) : Nat → Nat → List Nat
  | 0, _ => []
  | fuel + 1, c =>
      if c < limit then
        if optBuf c = id then [c]
        else if optBuf c = tcpOptNoop then c :: tcpOptReads optBuf limit id fuel c
        else if optBuf c = tcpOptEnd then [c]
        else if optBuf (c + 1) = 0 then [c, c + 1]
        else c :: (c + 1) :: tcpOptReads optBuf limit id fuel (c + (optBuf (c + 1)).toNat)
      else []

/-- What the walk meets up to its end has no NOP, no length of one and no kind without a length
byte, and the option it looks for is complete. -/
def plainOptions (optBuf : Memory) (limit : Nat) (id : UInt8) : Nat → Nat → Bool
  | 0, _ => true
  | fuel + 1, c =>
      if c < limit then
        if optBuf c = tcpOptNoop then false
        else if optBuf c = tcpOptEnd then decide (id ≠ tcpOptEnd)
        else if optBuf c = id then
          decide (2 ≤ (optBuf (c + 1)).toNat ∧ c + (optBuf (c + 1)).toNat ≤ limit)
        else decide (c + 1 < limit) && (decide (optBuf (c + 1) = 0) ||
          (decide (2 ≤ (optBuf (c + 1)).toNat) &&
            plainOptions optBuf limit id fuel (c + (optBuf (c + 1)).toNat)))
      else true

section

variable {optBuf : Memory} {limit : Nat} {id : UInt8}

theorem tcpOptWalk_end {fuel c : Nat} (h : limit ≤ c) :
    tcpOptWalk optBuf limit id (fuel + 1) c = some none := by
  rw [tcpOptWalk, if_neg (Nat.not_lt.mpr h)]

/-- At a NOP the loop stays where it is. -/
theorem tcpOptWalk_noop {c : Nat} (hc : c < limit) (hnoop : optBuf c = tcpOptNoop)
    (hid : id ≠ tcpOptNoop) (fuel : Nat) : tcpOptWalk optBuf limit id fuel c = none := by
  induction fuel with
  | zero => rfl
  | succ fuel ih =>
    rw [tcpOptWalk, if_pos hc, if_neg (fun h => hid (h.symm.trans hnoop)), if_pos hnoop, ih]

/-- NOP is never what that walk finds. -/
theorem rfcOptWalk_noop (fuel : Nat) : ∀ c, rfcOptWalk optBuf limit tcpOptNoop fuel c = none := by
  induction fuel with
  | zero => intro c; rfl
  | succ fuel ih =>
    intro c
    rw [rfcOptWalk]
    split
    · split
      · exact ih _
      · split
        · rfl
        · split
          · rfl
          · exact ih _
    · rfl

/-- A NOP is never met as the source's walk should meet it. -/
theorem not_agrees_noop {fuel c d : Nat} (hc : c < limit) (hnoop : optBuf c = tcpOptNoop) :
    tcpOptWalk optBuf limit id (fuel + 1) c ≠ some (rfcOptWalk optBuf limit id fuel d) := by
  by_cases hid : id = tcpOptNoop
  · rw [tcpOptWalk, if_pos hc, if_pos (hnoop.trans hid.symm), hid, rfcOptWalk_noop]
    simp
  · rw [tcpOptWalk_noop hc hnoop hid]
    simp

theorem toNat_pos_of_ne_zero {b : UInt8} (h : b ≠ 0) : 0 < b.toNat := by
  have hne : b.toNat ≠ 0 := fun heq => h (UInt8.toNat_inj.mp heq)
  omega

/-- More iterations than bytes do not help a walk that has not ended. -/
theorem tcpOptWalk_diverges {fuel : Nat} : ∀ {c : Nat}, limit - c < fuel →
    tcpOptWalk optBuf limit id fuel c = none → ∀ n, tcpOptWalk optBuf limit id n c = none := by
  induction fuel with
  | zero => intro c h; exact absurd h (Nat.not_lt_zero _)
  | succ fuel ih =>
    intro c hfuel h n
    cases n with
    | zero => rfl
    | succ n =>
      rw [tcpOptWalk] at h
      by_cases hc : c < limit
      · rw [if_pos hc] at h
        by_cases hid : optBuf c = id
        · rw [if_pos hid] at h
          cases h
        · rw [if_neg hid] at h
          by_cases hnoop : optBuf c = tcpOptNoop
          · exact tcpOptWalk_noop hc hnoop (fun heq => hid (hnoop.trans heq.symm)) _
          · rw [if_neg hnoop] at h
            by_cases hend : optBuf c = tcpOptEnd
            · rw [if_pos hend] at h
              cases h
            · rw [if_neg hend] at h
              by_cases hlen : optBuf (c + 1) = 0
              · rw [if_pos hlen] at h
                cases h
              · have hpos := toNat_pos_of_ne_zero hlen
                rw [if_neg hlen] at h
                rw [tcpOptWalk, if_pos hc, if_neg hid, if_neg hnoop, if_neg hend, if_neg hlen]
                exact ih (by omega) h n
      · rw [if_neg hc] at h
        cases h

/-- From any byte on, the walk of the source is that one and stays inside the area exactly when
what it meets is plain. -/
theorem tcpOptWalk_iff {fuel : Nat} : ∀ {c : Nat}, limit - c < fuel →
    ((tcpOptWalk optBuf limit id fuel c = some (rfcOptWalk optBuf limit id fuel c) ∧
        ∀ i ∈ tcpOptReads optBuf limit id fuel c, i < limit) ↔
      plainOptions optBuf limit id fuel c = true) := by
  induction fuel with
  | zero => intro c h; exact absurd h (Nat.not_lt_zero _)
  | succ fuel ih =>
    intro c hfuel
    by_cases hc : c < limit
    case neg => simp [tcpOptWalk, rfcOptWalk, tcpOptReads, plainOptions, hc]
    by_cases hnoop : optBuf c = tcpOptNoop
    · have hno : tcpOptWalk optBuf limit id (fuel + 1) c ≠
          some (rfcOptWalk optBuf limit id fuel (c + 1)) := not_agrees_noop hc hnoop
      rw [plainOptions, if_pos hc, if_pos hnoop, rfcOptWalk, if_pos hc, if_pos hnoop]
      exact ⟨fun h => absurd h.1 hno, (fun h => nomatch h)⟩
    by_cases hend : optBuf c = tcpOptEnd
    · rw [plainOptions, if_pos hc, if_neg hnoop, if_pos hend, rfcOptWalk, if_pos hc, if_neg hnoop,
        if_pos hend, tcpOptWalk, if_pos hc, tcpOptReads, if_pos hc, decide_eq_true_eq]
      by_cases hid : id = tcpOptEnd
      · rw [if_pos (hend.trans hid.symm)]
        simp [hid]
      · rw [if_neg (fun h => hid (h.symm.trans hend)), if_neg hnoop, if_pos hend,
          if_neg (fun h => hid (h.symm.trans hend)), if_neg hnoop, if_pos hend]
        simp [hid, hc]
    rw [plainOptions, if_pos hc, if_neg hnoop, if_neg hend, rfcOptWalk, if_pos hc, if_neg hnoop,
      if_neg hend, tcpOptWalk, if_pos hc, tcpOptReads, if_pos hc]
    by_cases hid : optBuf c = id
    · rw [if_pos hid, if_pos hid, if_pos hid, if_pos hid, decide_eq_true_eq]
      by_cases hlen : (optBuf (c + 1)).toNat < 2 ∨ limit < c + (optBuf (c + 1)).toNat
      · rw [if_pos hlen]
        simp only [Option.some.injEq, reduceCtorEq, false_and, false_iff]
        omega
      · rw [if_neg hlen]
        simp only [List.mem_singleton, forall_eq, true_and, hc, true_iff]
        omega
    rw [if_neg hid, if_neg hid, if_neg hid, if_neg hid, if_neg hnoop, if_neg hend, if_neg hnoop,
      if_neg hend]
    by_cases hzero : optBuf (c + 1) = 0
    · rw [if_pos hzero, if_pos hzero, if_pos (Or.inl (by rw [hzero]; decide))]
      simp [hzero, hc]
    rw [if_neg hzero, if_neg hzero]
    have hpos := toNat_pos_of_ne_zero hzero
    by_cases hone : (optBuf (c + 1)).toNat = 1
    · -- the length byte is taken for the next kind, which is NOP
      rw [if_pos (Or.inl (by omega)), hone]
      by_cases hin : c + 1 < limit
      · have hnext : optBuf (c + 1) = tcpOptNoop := UInt8.toNat_inj.mp hone
        cases fuel with
        | zero => omega
        | succ fuel =>
          have hno : tcpOptWalk optBuf limit id (fuel + 1) (c + 1) ≠ some none := by
            by_cases hk : id = tcpOptNoop
            · rw [tcpOptWalk, if_pos hin, if_pos (hnext.trans hk.symm)]
              simp
            · rw [tcpOptWalk_noop hin hnext hk]
              simp
          simp [hno, hzero]
      · simp [hin]
    by_cases hfit : limit < c + (optBuf (c + 1)).toNat
    · cases fuel with
      | zero => omega
      | succ fuel =>
        rw [if_pos (Or.inr hfit), tcpOptWalk_end hfit.le, tcpOptReads, plainOptions,
          if_neg (by omega), if_neg (by omega)]
        simp [hc, hzero]
        omega
    · have hrec := @ih (c + (optBuf (c + 1)).toNat) (by omega)
      rw [if_neg (by omega)]
      have hin : c + 1 < limit := by omega
      have htwo : 2 ≤ (optBuf (c + 1)).toNat := by omega
      simp only [List.mem_cons, forall_eq_or_imp, hc, hin, true_and, decide_true, Bool.true_and,
        hzero, decide_false, Bool.false_or, htwo]
      exact hrec

end

/-- The bytes behind the fixed header that the data offset leaves for options. -/
def tcpOptArea (tcph : Memory) : Nat := ((tcph 12 >>> (4 : UInt8)).toNat - 5) * 4

/-- The byte `i` of the options. -/
def tcpOptBuf (tcph : Memory) : Memory := fun i => tcph (20 + i)

def rfcOption (tcph : Memory) (id : UInt8) : Option Nat :=
  rfcOptWalk (tcpOptBuf tcph) (tcpOptArea tcph) id (tcpOptArea tcph + 1) 0

/-- The bytes of the options that `getTcpOptFragmentPtr` looks at. -/
def getTcpOptReads (tcph : Memory) (id : UInt8) : List Nat :=
  if tcph 12 &&& 0xf0 > 0x50 then
    tcpOptReads (tcpOptBuf tcph) (tcpOptArea tcph) id (tcpOptArea tcph + 1) 0
  else []

def PlainOptions (tcph : Memory) (id : UInt8) : Bool :=
  plainOptions (tcpOptBuf tcph) (tcpOptArea tcph) id (tcpOptArea tcph + 1) 0

theorem tcpOptArea_pos_iff (tcph : Memory) : tcph 12 &&& 0xf0 > 0x50 ↔ 0 < tcpOptArea tcph := by
  have hall : ∀ b : UInt8, b &&& 0xf0 > 0x50 ↔ 0 < ((b >>> (4 : UInt8)).toNat - 5) * 4 :=
    forall_char (by decide +kernel)
  exact hall (tcph 12)

theorem getTcpOptFragmentPtr_eq (tcph : Memory) (id : UInt8) :
    getTcpOptFragmentPtr tcph id =
      tcpOptWalk (tcpOptBuf tcph) (tcpOptArea tcph) id (tcpOptArea tcph + 1) 0 := by
  rw [getTcpOptFragmentPtr]
  split
  · rfl
  · next h =>
    rw [tcpOptArea_pos_iff] at h
    rw [tcpOptWalk_end (Nat.not_lt.mp h)]

theorem getTcpOptReads_eq (tcph : Memory) (id : UInt8) :
    getTcpOptReads tcph id =
      tcpOptReads (tcpOptBuf tcph) (tcpOptArea tcph) id (tcpOptArea tcph + 1) 0 := by
  rw [getTcpOptReads]
  split
  · rfl
  · next h =>
    rw [tcpOptArea_pos_iff] at h
    rw [tcpOptReads, if_neg h]

/-- `none` is a loop without an end. -/
theorem getTcpOptFragmentPtr_eq_none {tcph : Memory} {id : UInt8}
    (h : getTcpOptFragmentPtr tcph id = none) (fuel : Nat) :
    tcpOptWalk (tcpOptBuf tcph) (tcpOptArea tcph) id fuel 0 = none := by
  rw [getTcpOptFragmentPtr_eq] at h
  exact tcpOptWalk_diverges (by omega) h fuel

/-- The walk ends with the right answer and reads inside the options exactly when the options that
it meets are plain. -/
theorem tcpOptions_iff (tcph : Memory) (id : UInt8) :
    ((∃ fuel, tcpOptWalk (tcpOptBuf tcph) (tcpOptArea tcph) id fuel 0 ≠ none) ∧
      getTcpOptFragmentPtr tcph id = some (rfcOption tcph id) ∧
      ∀ i ∈ getTcpOptReads tcph id, i < tcpOptArea tcph) ↔
    PlainOptions tcph id = true := by
  have hwalk := @tcpOptWalk_iff (tcpOptBuf tcph) (tcpOptArea tcph) id (tcpOptArea tcph + 1) 0
    (by omega)
  rw [getTcpOptFragmentPtr_eq, getTcpOptReads_eq, PlainOptions, ← hwalk, rfcOption]
  constructor
  · exact fun h => h.2
  · intro h
    refine ⟨⟨tcpOptArea tcph + 1, ?_⟩, h⟩
    rw [h.1]
    simp

/-- A header with these options behind it. -/
def headerWith (opts : List UInt8) : Memory := fun i =>
  if i = 12 then UInt8.ofNat (16 * (5 + opts.length / 4)) else opts.getD (i - 20) 0

/-- NOP in front of MSS holds the loop for ever. -/
theorem not_tcpOptions_nop :
    rfcOption (headerWith [1, 1, 1, 1, 2, 4, 5, 180]) tcpOptMss = some 4 ∧
    ∀ fuel, tcpOptWalk (tcpOptBuf (headerWith [1, 1, 1, 1, 2, 4, 5, 180])) 8 tcpOptMss fuel 0 =
      none :=
  ⟨by decide, tcpOptWalk_noop (by decide) (by decide) (by decide)⟩

/-- The options of a common SYN: MSS comes first and is found. -/
example : getTcpOptFragmentPtr (headerWith [2, 4, 5, 180, 1, 3, 3, 7]) tcpOptMss = some (some 0) := by
  decide

end MiMic
