import MiMic.Tcp.Socket

/-!
# The ring of unacknowledged packets

The loops of the source walk the ring from `rp` to `wp`. Each loop is followed by
the fact that says what it computes about the queue `txbuf.items`; no later proof
unfolds a loop.
-/
namespace MiMic.Tcp

open Verif

abbrev TxQ := Ring TxQItem numberOfTxq

def isPacketAckedLoop (q : TxQ) (sq : UInt32) : Nat → Nat → Bool
  | 0, _ => true
  | fuel + 1, rp =>
      if rp = q.wp then true
      else if (q.slot rp).ackno = sq then false
      else isPacketAckedLoop q sq fuel ((rp + 1) % numberOfTxq)

def isPacketAcked (q : TxQ) (sq : UInt32) : Bool := isPacketAckedLoop q sq numberOfTxq q.rp

def getNumOfSendingLoop (q : TxQ) (sq : UInt32) : Nat → Nat → Nat → Nat
  | 0, _, n => n
  | fuel + 1, rp, n =>
      if rp = q.wp then n
      else if (q.slot rp).ackno = sq then n
      else getNumOfSendingLoop q sq fuel ((rp + 1) % numberOfTxq) (n + 1)

def getNumOfSending (q : TxQ) (sq : UInt32) : Nat := getNumOfSendingLoop q sq numberOfTxq q.rp 0

theorem isPacketAckedLoop_eq (q : TxQ) (sq : UInt32) (fuel : Nat) :
    ∀ rp, isPacketAckedLoop q sq fuel rp = !(q.walk fuel rp).any (·.ackno == sq) := by
  induction fuel with
  | zero => intro rp; rfl
  | succ fuel ih =>
    intro rp
    rw [isPacketAckedLoop, Ring.walk]
    by_cases hw : rp = q.wp
    · rw [if_pos hw, if_pos hw]
      rfl
    · rw [if_neg hw, if_neg hw, List.any_cons]
      by_cases hs : (q.slot rp).ackno = sq
      · rw [if_pos hs, beq_iff_eq.mpr hs]
        rfl
      · rw [if_neg hs, ih, beq_eq_false_iff_ne.mpr hs, Bool.false_or]

theorem isPacketAcked_eq (q : TxQ) (sq : UInt32) :
    isPacketAcked q sq = !q.items.any (·.ackno == sq) :=
  isPacketAckedLoop_eq q sq numberOfTxq q.rp

theorem getNumOfSendingLoop_eq (q : TxQ) (sq : UInt32) (fuel : Nat) :
    ∀ rp n, getNumOfSendingLoop q sq fuel rp n =
      n + (q.walk fuel rp).findIdx (·.ackno == sq) := by
  induction fuel with
  | zero => intro rp n; rfl
  | succ fuel ih =>
    intro rp n
    rw [getNumOfSendingLoop, Ring.walk]
    by_cases hw : rp = q.wp
    · rw [if_pos hw, if_pos hw]
      rfl
    · rw [if_neg hw, if_neg hw, List.findIdx_cons]
      by_cases hs : (q.slot rp).ackno = sq
      · rw [if_pos hs, beq_iff_eq.mpr hs]
        rfl
      · rw [if_neg hs, ih, beq_eq_false_iff_ne.mpr hs]
        simp only [cond_false]
        omega

/-- The index of the packet that `sq` acknowledges, the length of the queue without one. -/
theorem getNumOfSending_eq (q : TxQ) (sq : UInt32) :
    getNumOfSending q sq = q.items.findIdx (·.ackno == sq) := by
  rw [getNumOfSending, getNumOfSendingLoop_eq, Nat.zero_add]
  rfl

/-- The count is zero on an empty queue, and when the oldest packet is acknowledged. -/
theorem getNumOfSending_eq_zero (q : TxQ) (sq : UInt32) :
    getNumOfSending q sq = 0 ↔
      q.items = [] ∨ ∃ it rest, q.items = it :: rest ∧ it.ackno = sq := by
  rw [getNumOfSending_eq]
  cases q.items with
  | nil => simp
  | cons it rest =>
    rw [List.findIdx_cons]
    by_cases hs : it.ackno = sq
    · simp [hs]
    · simp [beq_eq_false_iff_ne.mpr hs, hs]

def resetTxQLoop (q : TxQ) : Nat → Nat → List BufId → List BufId
  | 0, _, dlist => dlist
  | fuel + 1, rp, dlist =>
      if rp = q.wp then dlist
      else resetTxQLoop q fuel ((rp + 1) % numberOfTxq) (dlist ++ [(q.slot rp).packet])

/-- The ring after the lock section, and the buffers released behind it. -/
def resetTxQ (q : TxQ) : TxQ × List BufId := (q.reset, resetTxQLoop q numberOfTxq q.rp [])

theorem resetTxQLoop_eq (q : TxQ) (fuel : Nat) :
    ∀ rp dlist, resetTxQLoop q fuel rp dlist = dlist ++ (q.walk fuel rp).map (·.packet) := by
  induction fuel with
  | zero => intro rp dlist; simp [resetTxQLoop, Ring.walk]
  | succ fuel ih =>
    intro rp dlist
    rw [resetTxQLoop, Ring.walk]
    by_cases hw : rp = q.wp
    · simp [hw]
    · rw [if_neg hw, if_neg hw, ih, List.map_cons, List.append_assoc]
      rfl

theorem resetTxQ_eq (q : TxQ) : resetTxQ q = (q.reset, q.items.map (·.packet)) := by
  rw [resetTxQ, resetTxQLoop_eq, List.nil_append]
  rfl

def updateTxAckLoop (q : TxQ) (ackno : UInt32) : Nat → Nat → TxMemory → TxMemory
  | 0, _, mem => mem
  | fuel + 1, rp, mem =>
      if rp = q.wp then mem
      else
        let b := (q.slot rp).packet
        updateTxAckLoop q ackno fuel ((rp + 1) % numberOfTxq)
          (Function.update mem b (updateAckNo (mem b) ackno))

def updateTxAck (q : TxQ) (mem : TxMemory) (ackno : UInt32) : TxMemory :=
  updateTxAckLoop q ackno numberOfTxq q.rp mem

theorem updateAckNo_updateAckNo (p : TxPacket) (ackno : UInt32) :
    updateAckNo (updateAckNo p ackno) ackno = updateAckNo p ackno := rfl

theorem updateTxAckLoop_apply (q : TxQ) (ackno : UInt32) (fuel : Nat) :
    ∀ rp mem b, updateTxAckLoop q ackno fuel rp mem b =
      if b ∈ (q.walk fuel rp).map (·.packet) then updateAckNo (mem b) ackno else mem b := by
  induction fuel with
  | zero => intro rp mem b; simp [updateTxAckLoop, Ring.walk]
  | succ fuel ih =>
    intro rp mem b
    rw [updateTxAckLoop, Ring.walk]
    by_cases hw : rp = q.wp
    · simp [hw]
    · rw [if_neg hw, if_neg hw, ih]
      simp only [List.map_cons, List.mem_cons]
      by_cases hb : b = (q.slot rp).packet
      · subst hb
        rw [Function.update_self, updateAckNo_updateAckNo, ite_self, if_pos (Or.inl rfl)]
      · rw [Function.update_of_ne hb]
        simp only [hb, false_or]

/-- The queued packets carry the new number, every other buffer is left alone. -/
theorem updateTxAck_apply (q : TxQ) (mem : TxMemory) (ackno : UInt32) (b : BufId) :
    updateTxAck q mem ackno b =
      if b ∈ q.items.map (·.packet) then updateAckNo (mem b) ackno else mem b :=
  updateTxAckLoop_apply q ackno numberOfTxq q.rp mem b

/-- `NyLPC_cStopwatch_elapseInMsec` of a stopwatch set to `tick`. -/
def elapseInMsec (now tick : UInt32) : UInt32 := now - tick

/-- The loop over the further packets: the least and the greatest elapsed time. -/
def rttRange (q : TxQ) (now : UInt32) (s : Nat) : Nat → Nat → UInt32 → UInt32 → UInt32 × UInt32
  | 0, _, lo, hi => (lo, hi)
  | fuel + 1, i, lo, hi =>
      let w := elapseInMsec now (q.slot ((s + i) % numberOfTxq)).tickOfSent
      rttRange q now s fuel (i + 1) (if lo > w then w else lo) (if hi < w then w else hi)

/-- The new `current_rto32` once the `n` packets from slot `s` on are acknowledged. -/
def estimateRTO (q : TxQ) (skRto now : UInt32) (s n : Nat) : UInt32 :=
  let first := elapseInMsec now (q.slot s).tickOfSent
  let newRto :=
    if n = 1 then
      if skRto < first then skRto * 10 / 8
      else if skRto / 4 < first then (skRto + first * 3 * 7) / 8
      else (skRto + first * 3 * 3) / 4
    else
      let (lo, hi) := rttRange q now s (n - 1) 1 first first
      if skRto < lo ∧ skRto < hi then hi * 10 / 8
      else if skRto / 4 < lo then (skRto + lo * 3 * 7) / 8
      else (skRto + lo * 3 * 3) / 4
  if newRto < uipTcpRtoMinimum then uipTcpRtoMinimum else newRto

/-- What the search leaves behind: the slot after the match, the number of packets
up to it and their buffers. -/
def updateTxQLoop (q : TxQ) (sq : UInt32) : Nat → Nat → List BufId → Option (Nat × List BufId)
  | 0, _, _ => none
  | fuel + 1, rp, dlist =>
      if rp = q.wp then none
      else if (q.slot rp).ackno = sq then
        some ((rp + 1) % numberOfTxq, dlist ++ [(q.slot rp).packet])
      else updateTxQLoop q sq fuel ((rp + 1) % numberOfTxq) (dlist ++ [(q.slot rp).packet])

def updateTxQByIndex (q : TxQ) (currentRto32 now sq : UInt32) : TxQ × UInt32 × List BufId :=
  match updateTxQLoop q sq numberOfTxq q.rp [] with
  | some (rp, dlist) =>
      ({ q with rp := rp }, estimateRTO q currentRto32 now q.rp dlist.length, dlist)
  | none => (q, currentRto32, [])

theorem updateTxQLoop_none {q : TxQ} {sq : UInt32} (fuel : Nat) :
    ∀ rp dlist, (q.walk fuel rp).any (·.ackno == sq) = false →
      updateTxQLoop q sq fuel rp dlist = none := by
  induction fuel with
  | zero => intro rp dlist _; rfl
  | succ fuel ih =>
    intro rp dlist h
    rw [updateTxQLoop]
    by_cases hw : rp = q.wp
    · rw [if_pos hw]
    · rw [Ring.walk, if_neg hw, List.any_cons, Bool.or_eq_false_iff] at h
      rw [if_neg hw, if_neg (beq_eq_false_iff_ne.mp h.1), ih _ _ h.2]

theorem updateTxQLoop_some {q : TxQ} {sq : UInt32} (fuel : Nat) :
    ∀ rp dlist, rp < numberOfTxq → (q.walk fuel rp).any (·.ackno == sq) = true →
      let k := (q.walk fuel rp).findIdx (·.ackno == sq) + 1
      updateTxQLoop q sq fuel rp dlist =
        some ((rp + k) % numberOfTxq, dlist ++ ((q.walk fuel rp).take k).map (·.packet)) := by
  induction fuel with
  | zero => intro rp dlist _ h; simp [Ring.walk] at h
  | succ fuel ih =>
    intro rp dlist hrp h
    rw [updateTxQLoop]
    by_cases hw : rp = q.wp
    · rw [Ring.walk, if_pos hw] at h
      simp at h
    · rw [Ring.walk, if_neg hw] at h ⊢
      rw [if_neg hw]
      by_cases hs : (q.slot rp).ackno = sq
      · simp [hs, List.findIdx_cons]
      · have h' : (q.walk fuel ((rp + 1) % numberOfTxq)).any (·.ackno == sq) = true := by
          simpa [List.any_cons, hs] using h
        have hrp' : (rp + 1) % numberOfTxq < numberOfTxq := Ring.next_lt hrp
        simp only [if_neg hs, ih _ _ hrp' h', List.findIdx_cons, beq_eq_false_iff_ne.mpr hs,
          cond_false, List.take_succ_cons, List.map_cons, List.append_assoc, List.cons_append,
          List.nil_append, Nat.mod_add_mod]
        congr 3
        omega

/-- An acknowledgement that names no queued packet changes nothing. -/
theorem updateTxQByIndex_of_no_match {q : TxQ} {sq : UInt32} (rto now : UInt32)
    (h : q.items.any (·.ackno == sq) = false) : updateTxQByIndex q rto now sq = (q, rto, []) := by
  rw [updateTxQByIndex, updateTxQLoop_none numberOfTxq q.rp [] h]

/-- A match drops the matching packet and everything older. -/
theorem updateTxQByIndex_of_match {q : TxQ} {sq : UInt32} (rto now : UInt32) (hr : q.InRange)
    (h : q.items.any (·.ackno == sq) = true) :
    let k := q.items.findIdx (·.ackno == sq) + 1
    (updateTxQByIndex q rto now sq).1 = q.advance k ∧
      (updateTxQByIndex q rto now sq).2.2 = (q.items.take k).map (·.packet) := by
  have hl := updateTxQLoop_some numberOfTxq q.rp [] hr.rp_lt h
  rw [updateTxQByIndex, hl]
  exact ⟨rfl, List.nil_append _⟩

/-- What is left of the queue, and what is released: a suffix and the prefix before it. -/
theorem updateTxQByIndex_split {q : TxQ} (rto now sq : UInt32) (hr : q.InRange) :
    ∃ k ≤ q.items.length,
      (updateTxQByIndex q rto now sq).1.InRange ∧
      (updateTxQByIndex q rto now sq).1.items = q.items.drop k ∧
      (updateTxQByIndex q rto now sq).2.2 = (q.items.take k).map (·.packet) ∧
      (k = 0 ∨ ∃ it, q.items[k - 1]? = some it ∧ it.ackno = sq) := by
  cases h : q.items.any (·.ackno == sq) with
  | false =>
    rw [updateTxQByIndex_of_no_match rto now h]
    exact ⟨0, Nat.zero_le _, hr, rfl, rfl, Or.inl rfl⟩
  | true =>
    obtain ⟨hq, hd⟩ := updateTxQByIndex_of_match rto now hr h
    have hlt : q.items.findIdx (·.ackno == sq) < q.items.length := by
      rw [List.findIdx_lt_length]
      simpa using h
    refine ⟨_, hlt, ?_, ?_, hd, Or.inr ⟨q.items[q.items.findIdx (·.ackno == sq)], ?_, ?_⟩⟩
    · rw [hq]
      exact hr.advance _
    · rw [hq]
      exact Ring.items_advance hr hlt
    · exact List.getElem?_eq_getElem hlt
    · exact beq_iff_eq.mp (List.findIdx_getElem (w := hlt))

/-- `getNumOfSending` counts what the removal up to `sq` leaves, all packets when none waits
for `sq`. -/
def CountAgrees (q : TxQ) (rto now sq : UInt32) : Prop :=
  getNumOfSending q sq =
    if q.items.any (·.ackno == sq) then (updateTxQByIndex q rto now sq).1.items.length
    else q.items.length

theorem findIdx_middle {front back : List TxQItem} {it : TxQItem} {sq : UInt32} (hit : it.ackno = sq)
    (hfront : ∀ x ∈ front, x.ackno ≠ sq) :
    (front ++ it :: back).findIdx (·.ackno == sq) = front.length := by
  have hnone : ¬ front.findIdx (·.ackno == sq) < front.length := by
    rw [List.findIdx_lt_length]
    intro ⟨x, hx, hm⟩
    exact hfront x hx (beq_iff_eq.mp hm)
  rw [List.findIdx_append, if_neg hnone, List.findIdx_cons, beq_iff_eq.mpr hit, cond_true,
    Nat.zero_add]

/-- The count is the number of packets in front of the one that `sq` acknowledges, and not of
those behind it. -/
theorem countAgrees_iff {q : TxQ} (hr : q.InRange) (rto now sq : UInt32) :
    CountAgrees q rto now sq ↔
      (∀ it ∈ q.items, it.ackno ≠ sq) ∨ ∃ front it back, q.items = front ++ it :: back ∧
        (∀ x ∈ front, x.ackno ≠ sq) ∧ it.ackno = sq ∧ front.length = back.length := by
  cases h : q.items.any (·.ackno == sq) with
  | false =>
    have hnone : ∀ it ∈ q.items, it.ackno ≠ sq := by
      intro it hit heq
      have hany : q.items.any (·.ackno == sq) = true :=
        List.any_eq_true.mpr ⟨it, hit, beq_iff_eq.mpr heq⟩
      rw [hany] at h
      exact Bool.noConfusion h
    have hidx : q.items.findIdx (·.ackno == sq) = q.items.length := by
      apply List.findIdx_eq_length_of_false
      intro it hit
      exact beq_eq_false_iff_ne.mpr (hnone it hit)
    rw [CountAgrees, getNumOfSending_eq, h, hidx]
    exact ⟨fun _ => Or.inl hnone, fun _ => rfl⟩
  | true =>
    obtain ⟨hq, -⟩ := updateTxQByIndex_of_match rto now hr h
    have hlt : q.items.findIdx (·.ackno == sq) < q.items.length := by
      rw [List.findIdx_lt_length]
      simpa using h
    have hleft : (updateTxQByIndex q rto now sq).1.items.length =
        q.items.length - (q.items.findIdx (·.ackno == sq) + 1) := by
      rw [hq, Ring.items_advance hr hlt, List.length_drop]
    rw [CountAgrees, getNumOfSending_eq, h, if_pos rfl, hleft]
    constructor
    · intro heq
      refine Or.inr ⟨q.items.take (q.items.findIdx (·.ackno == sq)),
        q.items[q.items.findIdx (·.ackno == sq)], q.items.drop (q.items.findIdx (·.ackno == sq) + 1),
        ?_, ?_, beq_iff_eq.mp (List.findIdx_getElem (w := hlt)), ?_⟩
      · rw [List.getElem_cons_drop, List.take_append_drop]
      · intro x hx
        obtain ⟨i, hi, rfl⟩ := List.mem_take_iff_getElem.mp hx
        have hno := List.not_of_lt_findIdx (show i < q.items.findIdx (·.ackno == sq) by omega)
        exact beq_eq_false_iff_ne.mp hno
      · rw [List.length_take, List.length_drop, ← heq]
        omega
    · intro hmid
      rcases hmid with hnone | ⟨front, it, back, hitems, hfront, hit, hlen⟩
      · obtain ⟨it, hmem, heq⟩ := List.any_eq_true.mp h
        exact absurd (beq_iff_eq.mp heq) (hnone it hmem)
      · rw [hitems, findIdx_middle hit hfront, List.length_append, List.length_cons]
        omega

/-- Packets of 100 bytes each, from the number 0 on. -/
def inFlight (n : Nat) : TxQ := ⟨0, n, fun i => ⟨0, 0, i, UInt32.ofNat (100 * (i + 1))⟩⟩

/-- The packet in the middle of three. -/
theorem countAgrees_three : CountAgrees (inFlight 3) 0 0 200 :=
  (countAgrees_iff ⟨by decide, by decide⟩ 0 0 200).mpr
    (Or.inr ⟨[(inFlight 3).slot 0], (inFlight 3).slot 1, [(inFlight 3).slot 2], by decide +kernel,
      by decide +kernel, by decide +kernel, rfl⟩)

/-- The older of two packets is acknowledged: one packet is left and none is counted. -/
theorem not_countAgrees_two :
    (inFlight 2).items.map (·.ackno) = [100, 200] ∧ getNumOfSending (inFlight 2) 100 = 0 ∧
      (updateTxQByIndex (inFlight 2) 0 0 100).1.items.length = 1 ∧
      ¬ CountAgrees (inFlight 2) 0 0 100 := by
  refine ⟨by decide +kernel, by decide +kernel, by decide +kernel, ?_⟩
  intro h
  exact absurd (show getNumOfSending (inFlight 2) 100 = 1 from h) (by decide +kernel)

end MiMic.Tcp
