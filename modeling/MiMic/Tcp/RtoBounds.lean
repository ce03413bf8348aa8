import MiMic.Tcp.Teardown

/-!
# The bounds of the retransmission timeout

`estimateRTO` raises its result to the least timeout and has no line for the greatest.
The formulas are stated over the natural numbers beside the words that compute them, and
the samples they bring above the greatest timeout, or make wrap, are those that `RttFits`
leaves out.
-/
namespace MiMic.Tcp

open Verif

/-- The elapsed times of the acknowledged packets, the oldest first. -/
def roundTrips (now : UInt32) (acked : List TxQItem) : List Nat :=
  acked.map fun it => (elapseInMsec now it.tickOfSent).toNat

/-- The three formulas of `estimateRTO` and its lower limit; `base` is what the first of them
raises by a quarter. -/
def smoothed (sk base lo hi : Nat) : Nat :=
  max 100 <|
    if sk < lo ∧ sk < hi then base * 10 / 8
    else if sk / 4 < lo then (sk + lo * 3 * 7) / 8
    else (sk + lo * 3 * 3) / 4

/-- A single packet raises the old timeout, a batch the slowest of its packets. -/
def estimate (sk : Nat) : List Nat → Nat
  | [] => sk
  | [t] => smoothed sk sk t t
  | t :: ts => smoothed sk (ts.foldl max t) (ts.foldl min t) (ts.foldl max t)

/-- The samples that leave the estimate at 64 s or less. All of them slower than the timeout: the
timeout, for a batch its slowest packet, is at most 51200 ms. The fastest of them not slower than
the timeout and not below a quarter of it: it keeps the mean below the limit. -/
def RttFits (sk : Nat) (rtts : List Nat) : Prop :=
  ((∀ t ∈ rtts, sk < t) → if rtts.length = 1 then sk ≤ 51200 else ∀ t ∈ rtts, t ≤ 51200) ∧
    ((∃ t ∈ rtts, t ≤ sk) → (∀ t ∈ rtts, sk / 4 < t) → ∃ t ∈ rtts, sk + 21 * t < 512008)

instance (sk : Nat) (rtts : List Nat) : Decidable (RttFits sk rtts) :=
  inferInstanceAs (Decidable (_ ∧ _))

/-- The packets that a segment acknowledges. -/
def ackedItems (sock : TcpSocket) (seg : TcpSegment) : List TxQItem :=
  if hasFlag seg.flags tcpRst = false ∧ hasFlag seg.flags tcpAck = true ∧
      sock.txbuf.items.any (·.ackno == seg.ackno32) = true then
    sock.txbuf.items.take (sock.txbuf.items.findIdx (·.ackno == seg.ackno32) + 1)
  else []

/-- `lo` and `hi` are the least and the greatest of the samples. -/
structure Spans (rtts : List Nat) (lo hi : Nat) : Prop where
  lo_mem : lo ∈ rtts
  hi_mem : hi ∈ rtts
  bounds : ∀ t ∈ rtts, lo ≤ t ∧ t ≤ hi

theorem spans_single (t : Nat) : Spans [t] t t where
  lo_mem := List.mem_singleton.mpr rfl
  hi_mem := List.mem_singleton.mpr rfl
  bounds := by
    intro u hu
    rw [List.mem_singleton.mp hu]
    exact ⟨le_rfl, le_rfl⟩

theorem Spans.snoc {rtts : List Nat} {lo hi : Nat} (h : Spans rtts lo hi) (w : Nat) :
    Spans (rtts ++ [w]) (min lo w) (max hi w) where
  lo_mem := by
    rcases min_choice lo w with he | he
    · rw [he]
      exact List.mem_append_left _ h.lo_mem
    · rw [he]
      exact List.mem_append_right _ (List.mem_singleton.mpr rfl)
  hi_mem := by
    rcases max_choice hi w with he | he
    · rw [he]
      exact List.mem_append_left _ h.hi_mem
    · rw [he]
      exact List.mem_append_right _ (List.mem_singleton.mpr rfl)
  bounds := by
    intro t ht
    rcases List.mem_append.mp ht with ht | ht
    · obtain ⟨hlo, hhi⟩ := h.bounds t ht
      exact ⟨min_le_of_left_le hlo, le_max_of_le_left hhi⟩
    · rw [List.mem_singleton.mp ht]
      exact ⟨min_le_right _ _, le_max_right _ _⟩

theorem spans_fold (t : Nat) (ts : List Nat) :
    Spans (t :: ts) (ts.foldl min t) (ts.foldl max t) := by
  induction ts using List.reverseRecOn with
  | nil => exact spans_single t
  | append_singleton ts w ih =>
    rw [List.foldl_append, List.foldl_append]
    exact ih.snoc w

/-- The condition on the samples is one on the least and the greatest of them. -/
theorem rttFits_iff {rtts : List Nat} {sk lo hi : Nat} (h : Spans rtts lo hi) :
    RttFits sk rtts ↔
      (sk < lo → (if rtts.length = 1 then sk else hi) ≤ 51200) ∧
        (lo ≤ sk → sk / 4 < lo → sk + 21 * lo < 512008) := by
  have hall (n : Nat) : (∀ t ∈ rtts, n < t) ↔ n < lo :=
    ⟨fun hn => hn lo h.lo_mem, fun hn t ht => hn.trans_le (h.bounds t ht).1⟩
  have hex : (∃ t ∈ rtts, t ≤ sk) ↔ lo ≤ sk :=
    ⟨fun ⟨t, ht, hle⟩ => (h.bounds t ht).1.trans hle, fun hle => ⟨lo, h.lo_mem, hle⟩⟩
  have hmax : (∀ t ∈ rtts, t ≤ 51200) ↔ hi ≤ 51200 :=
    ⟨fun hn => hn hi h.hi_mem, fun hn t ht => (h.bounds t ht).2.trans hn⟩
  have hmean : (∃ t ∈ rtts, sk + 21 * t < 512008) ↔ sk + 21 * lo < 512008 := by
    constructor
    · rintro ⟨t, ht, hlt⟩
      have hle := (h.bounds t ht).1
      omega
    · exact fun hlt => ⟨lo, h.lo_mem, hlt⟩
  unfold RttFits
  rw [hall, hall, hex, hmax, hmean]
  split <;> exact Iff.rfl

/-- The loop over the further packets keeps the least and the greatest of the elapsed times. -/
theorem rttRange_spec (q : TxQ) (now : UInt32) (s fuel : Nat) :
    ∀ i lo hi,
      (rttRange q now s fuel i lo hi).1.toNat =
          ((List.range' i fuel).map fun k =>
            (elapseInMsec now (q.slot ((s + k) % numberOfTxq)).tickOfSent).toNat).foldl min lo.toNat ∧
        (rttRange q now s fuel i lo hi).2.toNat =
          ((List.range' i fuel).map fun k =>
            (elapseInMsec now (q.slot ((s + k) % numberOfTxq)).tickOfSent).toNat).foldl max hi.toNat := by
  induction fuel with
  | zero => exact fun i lo hi => ⟨rfl, rfl⟩
  | succ fuel ih =>
    intro i lo hi
    rw [rttRange, List.range'_succ, List.map_cons, List.foldl_cons, List.foldl_cons]
    generalize elapseInMsec now (q.slot ((s + i) % numberOfTxq)).tickOfSent = w
    obtain ⟨hlo, hhi⟩ := ih (i + 1) (if lo > w then w else lo) (if hi < w then w else hi)
    have hmin : (if lo > w then w else lo).toNat = min lo.toNat w.toNat := by
      split
      · next hw => exact (min_eq_right (UInt32.lt_iff_toNat_lt.mp hw).le).symm
      · next hw => exact (min_eq_left (Nat.not_lt.mp (mt UInt32.lt_iff_toNat_lt.mpr hw))).symm
    have hmax : (if hi < w then w else hi).toNat = max hi.toNat w.toNat := by
      split
      · next hw => exact (max_eq_right (UInt32.lt_iff_toNat_lt.mp hw).le).symm
      · next hw => exact (max_eq_left (Nat.not_lt.mp (mt UInt32.lt_iff_toNat_lt.mpr hw))).symm
    exact ⟨hlo.trans (by rw [hmin]), hhi.trans (by rw [hmax])⟩

/-- `estimateRTO` behind its loop, for one packet and for a batch alike. -/
def smoothedWord (sk base lo hi : UInt32) : UInt32 :=
  let newRto :=
    if sk < lo ∧ sk < hi then base * 10 / 8
    else if sk / 4 < lo then (sk + lo * 3 * 7) / 8
    else (sk + lo * 3 * 3) / 4
  if newRto < uipTcpRtoMinimum then uipTcpRtoMinimum else newRto

theorem estimateRTO_eq (q : TxQ) (sk now : UInt32) (s m : Nat) :
    let r := rttRange q now s m 1 (elapseInMsec now (q.slot s).tickOfSent)
      (elapseInMsec now (q.slot s).tickOfSent)
    estimateRTO q sk now s (m + 1) = smoothedWord sk (if m = 0 then sk else r.2) r.1 r.2 := by
  cases m with
  | zero =>
    by_cases hs : sk < elapseInMsec now (q.slot s).tickOfSent <;>
      by_cases hm : sk / 4 < elapseInMsec now (q.slot s).tickOfSent <;>
        simp [estimateRTO, rttRange, smoothedWord, hs, hm]
  | succ m => simp [estimateRTO, smoothedWord]

theorem toNat_clamp (n : UInt32) :
    (if n < uipTcpRtoMinimum then uipTcpRtoMinimum else n).toNat = max 100 n.toNat := by
  split
  · next h => exact (max_eq_left (UInt32.lt_iff_toNat_lt.mp h).le).symm
  · next h => exact (max_eq_right (Nat.not_lt.mp (mt UInt32.lt_iff_toNat_lt.mpr h))).symm

/-- A quotient that was computed modulo `2 ^ 32` is the quotient, and within the limit, exactly
when the quotient is. -/
theorem clamped_iff (x : Nat) {d : Nat} (hd : 0 < d) (hmax : 64001 * d ≤ 2 ^ 32) :
    (max 100 (x % 2 ^ 32 / d) = max 100 (x / d) ∧ max 100 (x % 2 ^ 32 / d) ≤ 64000) ↔
      x / d ≤ 64000 := by
  constructor
  · rintro ⟨heq, hle⟩
    rw [heq] at hle
    exact (le_max_right _ _).trans hle
  · intro hle
    have hlt : x < 64001 * d := (Nat.div_lt_iff_lt_mul hd).mp (Nat.lt_succ_of_le hle)
    rw [Nat.mod_eq_of_lt (hlt.trans_le hmax)]
    exact ⟨rfl, max_le (by norm_num) hle⟩

/-- The words compute the formula, and stay below the limit, exactly on the samples that fit. -/
theorem smoothedWord_iff {sk base lo hi : UInt32} (hsk : sk.toNat ≤ 64000)
    (hle : lo.toNat ≤ hi.toNat) :
    ((smoothedWord sk base lo hi).toNat = smoothed sk.toNat base.toNat lo.toNat hi.toNat ∧
        (smoothedWord sk base lo hi).toNat ≤ 64000) ↔
      (sk.toNat < lo.toNat → base.toNat ≤ 51200) ∧
        (lo.toNat ≤ sk.toNat → sk.toNat / 4 < lo.toNat → sk.toNat + 21 * lo.toNat < 512008) := by
  unfold smoothedWord smoothed
  simp only [toNat_clamp]
  simp only [UInt32.lt_iff_toNat_lt, UInt32.toNat_div, UInt32.reduceToNat]
  by_cases hslow : sk.toNat < lo.toNat
  · have hcond : sk.toNat < lo.toNat ∧ sk.toNat < hi.toNat := ⟨hslow, hslow.trans_le hle⟩
    rw [if_pos hcond, if_pos hcond, UInt32.toNat_div, UInt32.toNat_mul]
    simp only [UInt32.reduceToNat]
    rw [clamped_iff _ (by norm_num) (by norm_num)]
    omega
  · have hcond : ¬ (sk.toNat < lo.toNat ∧ sk.toNat < hi.toNat) := fun h => hslow h.1
    rw [if_neg hcond, if_neg hcond]
    by_cases hmid : sk.toNat / 4 < lo.toNat
    · rw [if_pos hmid, if_pos hmid, UInt32.toNat_div, UInt32.toNat_add, UInt32.toNat_mul,
        UInt32.toNat_mul]
      simp only [UInt32.reduceToNat, Nat.mod_mul_mod, Nat.add_mod_mod]
      rw [clamped_iff _ (by norm_num) (by norm_num)]
      omega
    · rw [if_neg hmid, if_neg hmid, UInt32.toNat_div, UInt32.toNat_add, UInt32.toNat_mul,
        UInt32.toNat_mul]
      simp only [UInt32.reduceToNat, Nat.mod_mul_mod, Nat.add_mod_mod]
      rw [clamped_iff _ (by norm_num) (by norm_num)]
      omega

theorem roundTrips_take {q : TxQ} (h : q.InRange) (now : UInt32) {m : Nat}
    (hm : m + 1 ≤ q.items.length) :
    roundTrips now (q.items.take (m + 1)) =
      (elapseInMsec now (q.slot q.rp).tickOfSent).toNat ::
        (List.range' 1 m).map fun k =>
          (elapseInMsec now (q.slot ((q.rp + k) % numberOfTxq)).tickOfSent).toNat := by
  rw [Ring.length_items h] at hm
  rw [← Ring.window_eq_take h hm, roundTrips, Ring.window, List.map_map, List.range_eq_range',
    List.range'_succ, List.map_cons]
  simp only [Function.comp_apply, Nat.add_zero, Nat.mod_eq_of_lt h.rp_lt, Nat.zero_add]
  rfl

/-- The estimate agrees with the formula and keeps the upper bound exactly when the samples
fit. -/
theorem estimateRTO_iff {q : TxQ} (h : q.InRange) {sk : UInt32} (hsk : sk.toNat ≤ 64000)
    (now : UInt32) {n : Nat} (hn : 0 < n) (hle : n ≤ q.items.length) :
    ((estimateRTO q sk now q.rp n).toNat = estimate sk.toNat (roundTrips now (q.items.take n)) ∧
        (estimateRTO q sk now q.rp n).toNat ≤ 64000) ↔
      RttFits sk.toNat (roundTrips now (q.items.take n)) := by
  obtain ⟨m, rfl⟩ : ∃ m, n = m + 1 := ⟨n - 1, by omega⟩
  obtain ⟨hlo, hhi⟩ := rttRange_spec q now q.rp m 1 (elapseInMsec now (q.slot q.rp).tickOfSent)
    (elapseInMsec now (q.slot q.rp).tickOfSent)
  rw [estimateRTO_eq, roundTrips_take h now hle]
  generalize rttRange q now q.rp m 1 (elapseInMsec now (q.slot q.rp).tickOfSent)
    (elapseInMsec now (q.slot q.rp).tickOfSent) = r at hlo hhi ⊢
  generalize (elapseInMsec now (q.slot q.rp).tickOfSent).toNat = t at hlo hhi ⊢
  have hlen : (List.map (fun k =>
      (elapseInMsec now (q.slot ((q.rp + k) % numberOfTxq)).tickOfSent).toNat)
      (List.range' 1 m)).length = m := by rw [List.length_map, List.length_range']
  generalize (List.map (fun k =>
      (elapseInMsec now (q.slot ((q.rp + k) % numberOfTxq)).tickOfSent).toNat)
      (List.range' 1 m)) = ts at hlo hhi hlen ⊢
  have hspan := spans_fold t ts
  rw [← hlo, ← hhi] at hspan
  have hrange := (hspan.bounds _ hspan.lo_mem).2
  have hest : estimate sk.toNat (t :: ts) =
      smoothed sk.toNat (if m = 0 then sk else r.2).toNat r.1.toNat r.2.toNat := by
    rw [hlo, hhi]
    cases ts with
    | nil =>
      have hm : m = 0 := hlen.symm
      rw [if_pos hm]
      rfl
    | cons u us =>
      have hm : m ≠ 0 := by
        rw [List.length_cons] at hlen
        omega
      rw [if_neg hm, hhi]
      rfl
  rw [hest, smoothedWord_iff hsk hrange, rttFits_iff hspan, List.length_cons,
    hlen]
  by_cases hm : m = 0
  · simp [hm]
  · simp [hm]

/-- What a segment does to the timeout. -/
theorem parseRx_rto {sock : TcpSocket} {mem : TxMemory} {now : UInt32} {seg : TcpSegment}
    {r : RxResult} (hq : sock.txbuf.InRange) (h : parseRx sock mem now seg = some r) :
    r.sock.uipConnr.currentRto32 =
      if ackedItems sock seg = [] then sock.uipConnr.currentRto32
      else estimateRTO sock.txbuf sock.uipConnr.currentRto32 now sock.txbuf.rp
        (ackedItems sock seg).length := by
  unfold ackedItems
  rcases parseRx_cases h with ⟨hf, rfl⟩ | ⟨hf, mms, -, rfl⟩
  · simp only [hf, Bool.true_eq_false, false_and, if_false, if_true]
  · have hconn := congrArg UipConn.currentRto32 (rxSwitch_conn sock seg mms)
    simp only [rxProcess, rxDequeue, rxSwitch_txbuf, hconn, hf, true_and]
    by_cases hack : hasFlag seg.flags tcpAck = true
    · cases hany : sock.txbuf.items.any (·.ackno == seg.ackno32) with
      | false =>
        simp only [hack, Bool.false_eq_true, and_false, if_true, if_false]
        rw [updateTxQByIndex_of_no_match _ _ hany]
      | true =>
        have hl := updateTxQLoop_some numberOfTxq sock.txbuf.rp [] hq.rp_lt hany
        have hlt : sock.txbuf.items.findIdx (·.ackno == seg.ackno32) < sock.txbuf.items.length := by
          rw [List.findIdx_lt_length]
          simpa using hany
        have hne : sock.txbuf.items.take
            (sock.txbuf.items.findIdx (·.ackno == seg.ackno32) + 1) ≠ [] := by
          rw [← List.length_pos_iff, List.length_take]
          omega
        simp only [hack, and_self, if_true, if_neg hne]
        rw [updateTxQByIndex, hl]
        simp only [List.nil_append, List.length_map]
        rfl
    · simp only [hack, Bool.false_eq_true, false_and, if_false, if_true]

/-- The acknowledged packets are the front of the ring. -/
theorem ackedItems_take (sock : TcpSocket) (seg : TcpSegment) :
    ackedItems sock seg = sock.txbuf.items.take (ackedItems sock seg).length ∧
      (ackedItems sock seg).length ≤ sock.txbuf.items.length := by
  unfold ackedItems
  split
  · rw [List.length_take]
    refine ⟨?_, min_le_right _ _⟩
    rw [← List.take_eq_take_min]
  · exact ⟨rfl, Nat.zero_le _⟩

/-- The socket has been connected or has accepted a peer at some time. -/
def noteOpened (opened : Bool) (_ : World) (_ : Act × Env) (w' : World) : Bool :=
  opened || w'.sock.tcpstateflags != .closed

def openedSystem : System (World × Bool) (Act × Env) := system.observe false noteOpened

/-- The condition on a step: a received segment acknowledges packets whose elapsed times fit. -/
def RttFitsStep (p : World × Bool) (e : Act × Env) : Prop :=
  ∀ seg, e.1 = .rx seg →
    RttFits p.1.sock.uipConnr.currentRto32.toNat (roundTrips e.2.now (ackedItems p.1.sock seg))

def RtoInRange (rto : UInt32) : Prop :=
  uipTcpRtoMinimum.toNat ≤ rto.toNat ∧ rto.toNat ≤ uipIpRtoMaxRto.toNat

theorem rtoInRange_initial : RtoInRange uipTcpRtoInitial := ⟨by decide, by decide⟩

theorem rtoInRange_connectionInitial : RtoInRange uipTcpRtoConnectionInitial :=
  ⟨by decide, by decide⟩

/-- The timeout of a socket that was ever opened lies between the two constants, and so does what
`periodic` doubles. -/
structure RtoOk (opened : Bool) (sock : TcpSocket) : Prop where
  state : sock.tcpstateflags ≠ .closed → opened = true
  used : sock.txbuf.items ≠ [] → opened = true
  current : opened = true → RtoInRange sock.uipConnr.currentRto32
  queued : ∀ it ∈ sock.txbuf.items, it.rto32.toNat ≤ uipIpRtoMaxRto.toNat

/-- A step that opens nothing and keeps the timeout. -/
theorem RtoOk.keep {opened : Bool} {sock sock' : TcpSocket} (h : RtoOk opened sock)
    (hst : sock'.tcpstateflags ≠ .closed → sock.tcpstateflags ≠ .closed)
    (hcur : opened = true → RtoInRange sock'.uipConnr.currentRto32)
    (hne : sock'.txbuf.items ≠ [] → opened = true)
    (hq : ∀ it ∈ sock'.txbuf.items, it.rto32.toNat ≤ uipIpRtoMaxRto.toNat) :
    RtoOk (opened || sock'.tcpstateflags != .closed) sock' := by
  have hflag : (opened || sock'.tcpstateflags != .closed) = opened := by
    by_cases hc : sock'.tcpstateflags = .closed
    · rw [hc]
      exact Bool.or_false _
    · rw [h.state (hst hc)]
      rfl
  rw [hflag]
  exact ⟨fun hc => h.state (hst hc), hne, hcur, hq⟩

/-- A step that leaves the ring and the timeout alone. -/
theorem RtoOk.same {opened : Bool} {sock sock' : TcpSocket} (h : RtoOk opened sock)
    (hst : sock'.tcpstateflags ≠ .closed → sock.tcpstateflags ≠ .closed)
    (hcur : sock'.uipConnr.currentRto32 = sock.uipConnr.currentRto32)
    (hq : sock'.txbuf = sock.txbuf) :
    RtoOk (opened || sock'.tcpstateflags != .closed) sock' := by
  refine h.keep hst ?_ ?_ ?_
  · rw [hcur]
    exact h.current
  · rw [hq]
    exact h.used
  · rw [hq]
    exact h.queued

/-- A step that empties the ring. -/
theorem RtoOk.reset {opened : Bool} {sock sock' : TcpSocket} (h : RtoOk opened sock)
    (hst : sock'.tcpstateflags ≠ .closed → sock.tcpstateflags ≠ .closed)
    (hcur : sock'.uipConnr.currentRto32 = sock.uipConnr.currentRto32)
    (hnil : sock'.txbuf.items = []) :
    RtoOk (opened || sock'.tcpstateflags != .closed) sock' := by
  refine h.keep hst ?_ (fun hne => absurd hnil hne) ?_
  · rw [hcur]
    exact h.current
  · rw [hnil]
    exact fun it hit => nomatch hit

/-- `connect` and `listenSyn` start the timeout afresh. -/
theorem rtoOk_open {opened : Bool} {sock : TcpSocket} (hst : sock.tcpstateflags ≠ .closed)
    (hcur : RtoInRange sock.uipConnr.currentRto32) (hnil : sock.txbuf.items = []) :
    RtoOk (opened || sock.tcpstateflags != .closed) sock := by
  have hflag : (opened || sock.tcpstateflags != .closed) = true := by
    rw [bne_iff_ne.mpr hst, Bool.or_true]
  rw [hflag]
  refine ⟨fun _ => rfl, fun _ => rfl, fun _ => hcur, ?_⟩
  rw [hnil]
  exact fun it hit => nomatch hit

/-- A packet is queued with the timeout of the moment. -/
theorem RtoOk.push {opened : Bool} {sock sock' : TcpSocket} {it : TxQItem} (h : RtoOk opened sock)
    (ho : sock.txbuf.InRange) (hq : getTxQ sock = .free)
    (hst : sock'.tcpstateflags = sock.tcpstateflags)
    (hcur : sock'.uipConnr.currentRto32 = sock.uipConnr.currentRto32)
    (hpush : sock'.txbuf = sock.txbuf.push it) (hit : it.rto32 = sock.uipConnr.currentRto32) :
    RtoOk (opened || sock'.tcpstateflags != .closed) sock' := by
  have hopen : opened = true := by
    refine h.state fun hc => ?_
    rw [getTxQ, if_pos hc] at hq
    cases hq
  refine h.keep (fun hc => hst ▸ hc) ?_ (fun _ => hopen) ?_
  · rw [hcur]
    exact h.current
  · rw [hpush, items_push_of_free ho hq]
    intro jt hjt
    rcases List.mem_append.mp hjt with hjt | hjt
    · exact h.queued jt hjt
    · rw [List.mem_singleton.mp hjt, hit]
      exact (h.current hopen).2

theorem estimateRTO_ge (q : TxQ) (sk now : UInt32) (s : Nat) {n : Nat} (hn : 0 < n) :
    uipTcpRtoMinimum.toNat ≤ (estimateRTO q sk now s n).toNat := by
  obtain ⟨m, rfl⟩ : ∃ m, n = m + 1 := ⟨n - 1, by omega⟩
  rw [estimateRTO_eq, smoothedWord, toNat_clamp]
  exact le_max_left _ _

/-- A segment that acknowledges something finds an opened socket, and the new timeout follows the
formula and keeps the limit exactly when the elapsed times fit. -/
theorem RtoOk.acked {opened : Bool} {sock : TcpSocket} {mem : TxMemory} {now : UInt32}
    {seg : TcpSegment} {r : RxResult} (h : RtoOk opened sock) (ho : sock.txbuf.InRange)
    (hr : parseRx sock mem now seg = some r) (hack : ackedItems sock seg ≠ []) :
    opened = true ∧ uipTcpRtoMinimum.toNat ≤ r.sock.uipConnr.currentRto32.toNat ∧
      ((r.sock.uipConnr.currentRto32.toNat =
            estimate sock.uipConnr.currentRto32.toNat (roundTrips now (ackedItems sock seg)) ∧
          r.sock.uipConnr.currentRto32.toNat ≤ uipIpRtoMaxRto.toNat) ↔
        RttFits sock.uipConnr.currentRto32.toNat (roundTrips now (ackedItems sock seg))) := by
  obtain ⟨htake, hle⟩ := ackedItems_take sock seg
  have hpos : 0 < (ackedItems sock seg).length := List.length_pos_iff.mpr hack
  have hopen : opened = true := by
    refine h.used fun hnil => ?_
    rw [hnil] at hle
    exact absurd hpos (Nat.not_lt.mpr hle)
  rw [parseRx_rto ho hr, if_neg hack]
  refine ⟨hopen, estimateRTO_ge _ _ _ _ hpos, ?_⟩
  have hiff := estimateRTO_iff ho (h.current hopen).2 now hpos hle
  rwa [← htake] at hiff

theorem RtoOk.rx {opened : Bool} {sock : TcpSocket} {mem : TxMemory} {now : UInt32}
    {seg : TcpSegment} {r : RxResult} (h : RtoOk opened sock) (ho : sock.txbuf.InRange)
    (hr : parseRx sock mem now seg = some r)
    (hfit : RttFits sock.uipConnr.currentRto32.toNat (roundTrips now (ackedItems sock seg))) :
    RtoOk (opened || r.sock.tcpstateflags != .closed) r.sock := by
  obtain ⟨k, -, -, hitems, -⟩ := parseRx_ring ho hr
  refine h.keep (fun hc hclosed => hc (parseRx_closed hr hclosed)) ?_ ?_ ?_
  · intro hopen
    by_cases hack : ackedItems sock seg = []
    · rw [parseRx_rto ho hr, if_pos hack]
      exact h.current hopen
    · obtain ⟨-, hge, hiff⟩ := h.acked ho hr hack
      exact ⟨hge, (hiff.mpr hfit).2⟩
  · intro hne
    refine h.used fun hnil => hne ?_
    rw [hitems, hnil, List.drop_nil]
  · intro it hit
    rw [hitems] at hit
    exact h.queued it (List.mem_of_mem_drop hit)

theorem periodic_resend_limit {sock : TcpSocket} {now : UInt32} {bufs : List BufId}
    (hc : sock.tcpstateflags ≠ .closed) (hne : sock.txbuf.rp ≠ sock.txbuf.wp)
    (hp : (periodic sock now).2 = .resend bufs) :
    ¬ ((restamp sock.txbuf now).slot (restamp sock.txbuf now).rp).rto32 > uipIpRtoMaxRto := by
  intro hgt
  simp only [periodic, if_neg hc, if_neg hne, if_pos hgt] at hp
  split at hp
  · cases hp
  · split at hp <;> cases hp

/-- A doubled timeout that stays queued is below the limit. -/
theorem RtoOk.resend {opened : Bool} {sock sock' : TcpSocket} {now : UInt32} {bufs : List BufId}
    (h : RtoOk opened sock) (ho : sock.txbuf.InRange) (hc : sock.tcpstateflags ≠ .closed)
    (hne : sock.txbuf.rp ≠ sock.txbuf.wp)
    (hs : sock' = { sock with txbuf := restamp sock.txbuf now })
    (hp : periodic sock now = (sock', .resend bufs)) :
    RtoOk (opened || sock'.tcpstateflags != .closed) sock' := by
  have hopen := h.state hc
  obtain ⟨it, rest, hq, hr⟩ := restamp_items ho hne now
  have hhead : (restamp sock.txbuf now).items.head? =
      some ((restamp sock.txbuf now).slot (restamp sock.txbuf now).rp) := by
    have hne' : (restamp sock.txbuf now).rp ≠ (restamp sock.txbuf now).wp := by
      intro he
      rw [(Ring.items_eq_nil (restamp_inRange ho now)).mpr he] at hr
      cases hr
    rw [Ring.items_step (restamp_inRange ho now) hne', List.head?_cons]
  have hlimit : (it.rto32 * 2).toNat ≤ uipIpRtoMaxRto.toNat := by
    rw [hr, List.head?_cons] at hhead
    have hslot : it.rto32 * 2 =
        ((restamp sock.txbuf now).slot (restamp sock.txbuf now).rp).rto32 :=
      congrArg TxQItem.rto32 (Option.some.inj hhead)
    have hnot : ¬ it.rto32 * 2 > uipIpRtoMaxRto := by
      rw [hslot]
      exact periodic_resend_limit hc hne (congrArg Prod.snd hp)
    exact Nat.not_lt.mp (mt UInt32.lt_iff_toNat_lt.mpr hnot)
  apply h.keep
  · rw [hs]
    exact fun hc => hc
  · rw [hs]
    exact h.current
  · exact fun _ => hopen
  · intro jt hjt
    have hjt' : jt ∈ (restamp sock.txbuf now).items := by
      rw [hs] at hjt
      exact hjt
    rw [hr] at hjt'
    rcases List.mem_cons.mp hjt' with rfl | hjt'
    · exact hlimit
    · obtain ⟨kt, hkt, rfl⟩ := List.mem_map.mp hjt'
      exact h.queued kt (hq ▸ List.mem_cons_of_mem _ hkt)

theorem rtoOk_step {w w' : World} {a : Act} {env : Env} {opened : Bool} (ho : Owned w)
    (h : RtoOk opened w.sock) (hfit : RttFitsStep (w, opened) (a, env))
    (ht : Transition w env a w') :
    RtoOk (opened || w'.sock.tcpstateflags != .closed) w'.sock := by
  have hsame {sock' : TcpSocket}
      (hst : sock'.tcpstateflags ≠ .closed → w.sock.tcpstateflags ≠ .closed)
      (hcur : sock'.uipConnr.currentRto32 = w.sock.uipConnr.currentRto32)
      (hq : sock'.txbuf = w.sock.txbuf) :
      RtoOk (opened || sock'.tcpstateflags != .closed) sock' := h.same hst hcur hq
  cases ht with
  | @rx seg r hops hr => exact h.rx ho.inRange hr (hfit seg rfl)
  | @rxReply seg r hops hr => exact h.rx ho.inRange hr (hfit seg rfl)
  | periodicFree hops hc =>
    refine h.reset id rfl ?_
    rw [resetTxQ_eq]
    exact Ring.items_reset ho.inRange
  | periodicResend hops hc hne hp => exact h.resend ho.inRange hc hne rfl hp
  | periodicAbort hops hc hne hp hd =>
    refine h.reset (fun hc => absurd rfl hc) rfl ?_
    rw [resetTxQ_eq]
    exact Ring.items_reset (restamp_inRange ho.inRange _)
  | stop hops hc =>
    refine h.reset (fun hc => absurd rfl hc) rfl ?_
    rw [resetTxQ_eq]
    exact Ring.items_reset ho.inRange
  | ipOp hops hr =>
    obtain ⟨pool, mem, n, rfl⟩ := runOp_changes hr
    exact hsame id rfl rfl
  | appOp hops hr =>
    obtain ⟨pool, mem, n, rfl⟩ := runOp_changes hr
    exact hsame id rfl rfl
  | create hat => exact h.reset (fun hc => absurd rfl hc) rfl (Ring.items_reset ho.inRange)
  | connect hat hc =>
    obtain ⟨-, hst, htx, -⟩ := connectOpen_spec hc
    refine rtoOk_open (by rw [hst]; decide) ?_ (htx ▸ (resetTxQIfUsed_spec ho.inRange).2.1)
    simp only [connectOpen] at hc
    split at hc
    · cases hc
    · split at hc
      · cases hc
      · obtain ⟨rfl, -⟩ := Prod.mk.inj (Option.some.inj hc)
        exact rtoInRange_connectionInitial
  | listenSyn hat hc =>
    obtain ⟨-, hst, htx, -⟩ := listenSyn_spec hc
    refine rtoOk_open (by rw [hst]; decide) ?_ (htx ▸ (resetTxQIfUsed_spec ho.inRange).2.1)
    simp only [listenSyn] at hc
    split at hc
    · obtain ⟨rfl, -⟩ := Prod.mk.inj (Option.some.inj hc)
      exact rtoInRange_initial
    · cases hc
  | close hat hs =>
    refine hsame (fun _ hcl => ?_) rfl rfl
    rw [hcl] at hs
    cases hs
  | finalize hat => exact h.reset id rfl (resetTxQIfUsed_spec ho.inRange).2.1
  | swrQueue hat hq hs => exact h.push ho.inRange hq rfl rfl rfl rfl
  | psendQueue hat hq => exact h.push ho.inRange hq rfl rfl rfl rfl
  | closeDone hat hs => exact hsame (fun hc => absurd rfl hc) rfl rfl
  | forceClose hat hc => exact hsame (fun hc => absurd rfl hc) rfl rfl
  | _ => exact hsame id rfl rfl

/-- The timeout lies between its constants, the doubling of `periodic` does not wrap, and the next
estimate follows its formula without wrapping and keeps the limit exactly when its samples fit. -/
structure RtoBounds (w : World) (opened : Bool) : Prop where
  current : opened = true → RtoInRange w.sock.uipConnr.currentRto32
  doubling : ∀ it ∈ w.sock.txbuf.items, (it.rto32 * 2).toNat = 2 * it.rto32.toNat
  smoothing : ∀ seg env w', step w (.rx seg, env) = some w' → ackedItems w.sock seg ≠ [] →
    ((w'.sock.uipConnr.currentRto32.toNat =
          estimate w.sock.uipConnr.currentRto32.toNat
            (roundTrips env.now (ackedItems w.sock seg)) ∧
        w'.sock.uipConnr.currentRto32.toNat ≤ uipIpRtoMaxRto.toNat) ↔
      RttFitsStep (w, opened) (.rx seg, env))

theorem reaches_rtoOk {p : World × Bool} (h : openedSystem.Reaches RttFitsStep p) :
    RtoOk p.2 p.1.sock := by
  refine System.Reaches.invariant_of (Q := fun p => Owned p.1) (P := fun p => RtoOk p.2 p.1.sock)
    (fun p hp => reaches_owned hp.forget) ?_ ?_ h
  · rintro ⟨w, opened⟩ ⟨hw, rfl⟩
    have ho := owned_init hw
    have hnil : w.sock.txbuf.items = [] :=
      (Ring.items_eq_nil ho.inRange).mpr (hw.rp_eq.trans hw.wp_eq.symm)
    refine ⟨fun hc => absurd hw.closed hc, fun hne => absurd hnil hne, Bool.noConfusion, ?_⟩
    rw [hnil]
    exact fun it hit => nomatch hit
  · rintro ⟨w, opened⟩ ⟨a, env⟩ ⟨w', opened'⟩ ho hok hfit hs
    obtain ⟨hs', rfl⟩ := System.observe_step.mp hs
    exact rtoOk_step ho hok hfit (step_transition hs')

/-- While every acknowledgement brings samples that fit, the timeout of a socket that was ever
opened stays between its constants and nothing wraps. -/
theorem rto_bounds {w : World} {opened : Bool}
    (h : openedSystem.Reaches RttFitsStep (w, opened)) : RtoBounds w opened := by
  have hok := reaches_rtoOk h
  have ho : Owned w := reaches_owned h.forget
  refine ⟨hok.current, ?_, ?_⟩
  · intro it hit
    have hle : it.rto32.toNat ≤ 64000 := hok.queued it hit
    rw [UInt32.toNat_mul, show (2 : UInt32).toNat = 2 from rfl]
    omega
  · intro seg env w' hs hack
    have hstep : ∃ r, parseRx w.sock w.mem env.now seg = some r ∧ w'.sock = r.sock := by
      cases step_transition hs with
      | rx hops hr => exact ⟨_, hr, rfl⟩
      | rxReply hops hr => exact ⟨_, hr, rfl⟩
      | callNothing hof => cases hof
      | goto hof => cases hof
    obtain ⟨r, hr, hsock⟩ := hstep
    obtain ⟨-, -, hiff⟩ := hok.acked ho.inRange hr hack
    rw [hsock, hiff]
    constructor
    · rintro hfit seg' he
      obtain rfl := Act.rx.inj he
      exact hfit
    · exact fun hfit => hfit seg rfl

/-- A `psend` of ten bytes, up to the transmission. -/
def sendTen (env : Env) : List (Act × Env) :=
  [(.allocSendBuf, env), (.app, env), (.app, env), (.app, env),
    (.psend env.buf (List.replicate 10 0), env), (.app, env), (.app, env), (.app, env)]

/-- One acknowledgement for the two packets, at the time `now`. -/
def twoPackets (now : UInt32) : List (Act × Env) :=
  connected ++ sendTen quietEnv ++ sendTen { quietEnv with buf := 2 } ++
    [(.rx ⟨htonl 501, htonl 3960, tcpAck, htons 100, some none, [], length_nil_lt⟩,
      { quietEnv with now := now })]

/-- Two packets that are acknowledged together after a minute leave a timeout of 75 s. -/
theorem not_rto_bounds : ¬ ∀ w opened, openedSystem.Reaches System.anyStep (w, opened) →
    RtoBounds w opened := by
  intro h
  have hinit : openedSystem.init (World.zeroed, false) := ⟨World.zeroed_initial, rfl⟩
  have hrun : (openedSystem.run (World.zeroed, false) (twoPackets 60000)).any
      (fun p => p.2 && p.1.sock.uipConnr.currentRto32 == 75000) = true := by decide +kernel
  obtain ⟨⟨w, opened⟩, hw, hp⟩ := System.exists_of_run hinit hrun
  simp only [Bool.and_eq_true, beq_iff_eq] at hp
  have hle := ((h w opened hw).current hp.1).2
  rw [hp.2] at hle
  exact absurd hle (by decide)

/-- `RttFitsStep`, computed. -/
def rttFits (p : World × Bool) (e : Act × Env) : Bool :=
  match e.1 with
  | .rx seg => decide (RttFits p.1.sock.uipConnr.currentRto32.toNat
      (roundTrips e.2.now (ackedItems p.1.sock seg)))
  | _ => true

theorem rttFits_sound {p : World × Bool} {e : Act × Env} (h : rttFits p e = true) :
    RttFitsStep p e := by
  intro seg he
  rw [rttFits, he] at h
  exact of_decide_eq_true h

/-- Acknowledged after 400 ms, the same two packets raise the timeout to 500 ms. -/
theorem rto_bounds_twoPackets : ∃ w, openedSystem.Reaches RttFitsStep (w, true) ∧
    w.sock.uipConnr.currentRto32 = 500 ∧ RtoBounds w true := by
  have hinit : openedSystem.init (World.zeroed, false) := ⟨World.zeroed_initial, rfl⟩
  have hrun : (openedSystem.runChecked rttFits (World.zeroed, false) (twoPackets 400)).any
      (fun p => p.2 && p.1.sock.uipConnr.currentRto32 == 500) = true := by decide +kernel
  obtain ⟨⟨w, opened⟩, hw, hp⟩ :=
    System.exists_of_runChecked (fun _ _ => rttFits_sound) hinit hrun
  simp only [Bool.and_eq_true, beq_iff_eq] at hp
  obtain ⟨rfl, hrto⟩ := hp
  exact ⟨w, hw, hrto, rto_bounds hw⟩

end MiMic.Tcp
