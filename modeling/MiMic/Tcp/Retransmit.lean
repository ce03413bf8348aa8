import MiMic.Tcp.Ownership

/-!
# Retransmission of the oldest packet

The history beside the system lists the queued packets that `periodic` has sent
again. It says which of the two outcomes an expired timeout may have: a packet is
retransmitted, and only one that was retransmitted before may end the connection.
-/
namespace MiMic.Tcp

open Verif

/-- The packets that the step sends again. -/
def resent (w : World) (e : Act × Env) : List BufId :=
  match e.1 with
  | .periodic => transmits w e
  | _ => []

/-- A packet is noted while it stays queued; a packet queued by the step is new. -/
def noteResent (h : List BufId) (w : World) (e : Act × Env) (w' : World) : List BufId :=
  (resent w e ++ h).filter fun b => w.queued.contains b && w'.queued.contains b

def resendSystem : System (World × List BufId) (Act × Env) := system.observe [] noteResent

/-- The period sends every packet of the ring again and doubles the oldest timeout. -/
structure Resends (w : World) (env : Env) (w' : World) (oldest : TxQItem) : Prop where
  sent : transmits w (.periodic, env) = w.queued
  queued : w'.queued = w.queued
  stays : w'.sock.tcpstateflags = w.sock.tcpstateflags
  doubled : ∃ it rest, w'.sock.txbuf.items = it :: rest ∧ it.rto32.toNat = 2 * oldest.rto32.toNat

/-- The period gives up a packet that was sent again before: the socket is closed, the
ring goes back to the pool and a reset follows. -/
structure Aborts (w : World) (h : List BufId) (w' : World) (oldest : TxQItem) : Prop where
  noted : oldest.packet ∈ h
  closed : w'.sock.tcpstateflags = .closed
  empty : w'.sock.txbuf.items = []
  ops : w'.ipOps = releases w.queued ++ [.rstAlloc]

/-- The window is open, and the doubled timeout is allowed or belongs to a packet that
was sent again before. -/
def RetransmitReady (w : World) (h : List BufId) (oldest : TxQItem) : Prop :=
  w.sock.uipConnr.peerWin ≠ 0 ∧
    (oldest.rto32.toNat ≤ 32000 ∨ oldest.packet ∈ h ∧ oldest.rto32 * 2 > uipIpRtoMaxRto)

/-- What `periodic` computes once the oldest packet has expired. -/
theorem periodic_expired {sock : TcpSocket} {now : UInt32} {oldest : TxQItem}
    {rest : List TxQItem} (hq : sock.txbuf.InRange) (hc : sock.tcpstateflags ≠ .closed)
    (hi : sock.txbuf.items = oldest :: rest)
    (he : elapseInMsec now oldest.tickOfSent > oldest.rto32) :
    periodic sock now =
      if sock.uipConnr.peerWin = 0 then (sock, .idle)
      else if oldest.rto32 * 2 > uipIpRtoMaxRto then
        ({ sock with
            tcpstateflags := .closed
            txbuf := (restamp sock.txbuf now).reset },
          .abort (sock.txbuf.items.map (·.packet)))
      else ({ sock with txbuf := restamp sock.txbuf now },
        .resend (sock.txbuf.items.map (·.packet))) := by
  have hne : sock.txbuf.rp ≠ sock.txbuf.wp := by
    intro h
    rw [(Ring.items_eq_nil hq).mpr h] at hi
    cases hi
  have hslot : sock.txbuf.slot sock.txbuf.rp = oldest := by
    have h := Ring.items_step hq hne
    rw [hi] at h
    exact (List.cons.inj h).1.symm
  have hr := restamp_inRange hq now
  obtain ⟨it, tail, hit, hres⟩ := restamp_items hq hne now
  obtain ⟨rfl, rfl⟩ := List.cons.inj (hi.symm.trans hit)
  have hne' : (restamp sock.txbuf now).rp ≠ (restamp sock.txbuf now).wp := by
    intro h
    rw [(Ring.items_eq_nil hr).mpr h] at hres
    cases hres
  have hslot' : ((restamp sock.txbuf now).slot (restamp sock.txbuf now).rp).rto32 =
      oldest.rto32 * 2 := by
    have h := Ring.items_step hr hne'
    rw [hres] at h
    rw [← (List.cons.inj h).1]
  simp only [periodic, if_neg hc, if_neg hne, hslot, if_pos he, hslot', resetTxQ_eq,
    restamp_packets hq hne]

theorem toNat_double {n : UInt32} (h : n.toNat ≤ 32000) : (n * 2).toNat = 2 * n.toNat := by
  rw [UInt32.toNat_mul, show (2 : UInt32).toNat = 2 from rfl]
  omega

theorem step_periodic {w w' : World} {env : Env} (h : step w (.periodic, env) = some w') :
    periodicStep w env = w' := by
  simp only [step] at h
  split at h
  · exact Option.some.inj h
  · cases h

/-- A closed window: the period does nothing at all. -/
theorem idle_of_closed_window {w w' : World} {h : List BufId} {env : Env} {oldest : TxQItem}
    {rest : List TxQItem} (ho : Owned w) (hs : step w (.periodic, env) = some w')
    (hc : w.sock.tcpstateflags ≠ .closed) (hi : w.sock.txbuf.items = oldest :: rest)
    (he : elapseInMsec env.now oldest.tickOfSent > oldest.rto32)
    (hwin : w.sock.uipConnr.peerWin = 0) : ¬ (Resends w env w' oldest ∨ Aborts w h w' oldest) := by
  have hp := periodic_expired ho.inRange hc hi he
  rw [if_pos hwin] at hp
  have hw' := step_periodic hs
  rw [periodicStep, hp] at hw'
  have hsame : w = w' := hw'
  rintro (hres | hab)
  · have hsent := hres.sent
    rw [transmits, hp, World.queued, hi] at hsent
    cases hsent
  · exact absurd (hsame ▸ hab.closed) hc

/-- The doubled timeout is over the limit: the connection ends. -/
theorem aborts_of_limit {w w' : World} {h : List BufId} {env : Env} {oldest : TxQItem}
    {rest : List TxQItem} (ho : Owned w) (hs : step w (.periodic, env) = some w')
    (hc : w.sock.tcpstateflags ≠ .closed) (hi : w.sock.txbuf.items = oldest :: rest)
    (he : elapseInMsec env.now oldest.tickOfSent > oldest.rto32)
    (hwin : w.sock.uipConnr.peerWin ≠ 0) (hmax : oldest.rto32 * 2 > uipIpRtoMaxRto) :
    Resends w env w' oldest ∨ Aborts w h w' oldest ↔ oldest.packet ∈ h := by
  have hp := periodic_expired ho.inRange hc hi he
  rw [if_neg hwin, if_pos hmax] at hp
  have hw' := step_periodic hs
  rw [periodicStep, hp] at hw'
  subst hw'
  constructor
  · rintro (hres | hab)
    · exact absurd hres.stays (Ne.symm hc)
    · exact hab.noted
  · intro hnoted
    exact Or.inr ⟨hnoted, rfl, Ring.items_reset (restamp_inRange ho.inRange _), rfl⟩

/-- Below the limit every packet is sent again; the timeout is doubled unless it wraps. -/
theorem resends_of_limit {w w' : World} {h : List BufId} {env : Env} {oldest : TxQItem}
    {rest : List TxQItem} (ho : Owned w) (hs : step w (.periodic, env) = some w')
    (hc : w.sock.tcpstateflags ≠ .closed) (hi : w.sock.txbuf.items = oldest :: rest)
    (he : elapseInMsec env.now oldest.tickOfSent > oldest.rto32)
    (hwin : w.sock.uipConnr.peerWin ≠ 0) (hmax : ¬ oldest.rto32 * 2 > uipIpRtoMaxRto) :
    Resends w env w' oldest ∨ Aborts w h w' oldest ↔ oldest.rto32.toNat ≤ 32000 := by
  have hp := periodic_expired ho.inRange hc hi he
  rw [if_neg hwin, if_neg hmax] at hp
  have hw' := step_periodic hs
  rw [periodicStep, hp] at hw'
  subst hw'
  have hne : w.sock.txbuf.rp ≠ w.sock.txbuf.wp := by
    intro h
    rw [(Ring.items_eq_nil ho.inRange).mpr h] at hi
    cases hi
  obtain ⟨it, tail, hit, hres⟩ := restamp_items ho.inRange hne env.now
  obtain ⟨rfl, rfl⟩ := List.cons.inj (hi.symm.trans hit)
  constructor
  · rintro (hre | hab)
    · obtain ⟨it', tail', hit', hd⟩ := hre.doubled
      obtain ⟨rfl, -⟩ := List.cons.inj (hres.symm.trans hit')
      have hle : (oldest.rto32 * 2).toNat ≤ 64000 := by
        rw [gt_iff_lt, UInt32.not_lt, UInt32.le_iff_toNat_le] at hmax
        exact hmax
      have hd' : (oldest.rto32 * 2).toNat = 2 * oldest.rto32.toNat := hd
      omega
    · exact absurd hab.closed hc
  · intro hle
    refine Or.inl ⟨?_, restamp_packets ho.inRange hne _, rfl, _, _, hres, toNat_double hle⟩
    rw [transmits, hp, World.queued]

/-- An expired timeout is acted upon exactly when the peer's window is open and the
oldest packet is below the limit or was retransmitted before. -/
theorem no_silent_loss {w w' : World} {h : List BufId} {env : Env} {oldest : TxQItem}
    {rest : List TxQItem} (hr : resendSystem.Reaches System.anyStep (w, h))
    (hs : step w (.periodic, env) = some w') (hc : w.sock.tcpstateflags ≠ .closed)
    (hi : w.sock.txbuf.items = oldest :: rest)
    (he : elapseInMsec env.now oldest.tickOfSent > oldest.rto32) :
    Resends w env w' oldest ∨ Aborts w h w' oldest ↔ RetransmitReady w h oldest := by
  have ho : Owned w := reaches_owned hr.forget
  unfold RetransmitReady
  by_cases hwin : w.sock.uipConnr.peerWin = 0
  · have hidle := idle_of_closed_window (h := h) ho hs hc hi he hwin
    exact ⟨fun hact => absurd hact hidle, fun hready => absurd hwin hready.1⟩
  · by_cases hmax : oldest.rto32 * 2 > uipIpRtoMaxRto
    · rw [aborts_of_limit ho hs hc hi he hwin hmax]
      constructor
      · exact fun hnoted => ⟨hwin, Or.inr ⟨hnoted, hmax⟩⟩
      · rintro ⟨-, hle | ⟨hnoted, -⟩⟩
        · have hd := toNat_double hle
          rw [gt_iff_lt, UInt32.lt_iff_toNat_lt, hd] at hmax
          have hlimit : uipIpRtoMaxRto.toNat = 64000 := rfl
          omega
        · exact hnoted
    · rw [resends_of_limit ho hs hc hi he hwin hmax]
      constructor
      · exact fun hle => ⟨hwin, Or.inl hle⟩
      · rintro ⟨-, hle | ⟨-, hbig⟩⟩
        · exact hle
        · exact absurd hbig hmax

/-- The opening of `acceptQueued`, its SYN|ACK on the wire. -/
def synAckSent : List (Act × Env) := acceptQueued quietEnv ++ [(.app, quietEnv)]

/-- A socket that listens queues its SYN|ACK against a window it presets to zero. -/
theorem synAck_never_resent : ¬ ∀ w w' h env oldest rest,
    resendSystem.Reaches System.anyStep (w, h) → step w (.periodic, env) = some w' →
    w.sock.tcpstateflags ≠ .closed → w.sock.txbuf.items = oldest :: rest →
    elapseInMsec env.now oldest.tickOfSent > oldest.rto32 →
    Resends w env w' oldest ∨ Aborts w h w' oldest := by
  intro h
  let env : Env := { quietEnv with now := 3001 }
  have hinit : resendSystem.init (World.zeroed, []) := ⟨World.zeroed_initial, rfl⟩
  have hrun : (resendSystem.run (World.zeroed, []) synAckSent).any
      (fun p => p.1.sock.tcpstateflags == .synRcvd && p.1.sock.uipConnr.peerWin == 0
        && p.1.sock.txbuf.items == [⟨0, 3000, 1, htonl 3940⟩]
        && p.1.ipOps == []) = true := by decide +kernel
  obtain ⟨⟨w, l⟩, hw, hp⟩ := System.exists_of_run hinit hrun
  simp only [Bool.and_eq_true, beq_iff_eq] at hp
  obtain ⟨⟨⟨hst, hwin⟩, hi⟩, hops⟩ := hp
  have hc : w.sock.tcpstateflags ≠ .closed := by rw [hst]; decide
  have hs : step w (.periodic, env) = some (periodicStep w env) := by
    simp only [step, hops, List.isEmpty_nil, if_true]
    rfl
  have he : elapseInMsec env.now 0 > 3000 := by decide
  exact idle_of_closed_window (reaches_owned hw.forget) hs hc hi he hwin
    (h w _ l env _ _ hw hs hc hi he)

/-- A connecting socket starts with a window of one: its SYN is sent again. -/
theorem no_silent_loss_connect : ∃ w w' h env oldest,
    resendSystem.Reaches System.anyStep (w, h) ∧
      (Resends w env w' oldest ∨ Aborts w h w' oldest ↔ RetransmitReady w h oldest) := by
  let env : Env := { quietEnv with now := 201 }
  have hinit : resendSystem.init (World.zeroed, []) := ⟨World.zeroed_initial, rfl⟩
  have hrun : (resendSystem.run (World.zeroed, []) [(.connect ⟨1⟩ 80 49153, quietEnv),
      (.app, quietEnv), (.app, quietEnv), (.app, quietEnv)]).any
      (fun p => p.1.sock.tcpstateflags == .synSent && p.1.sock.uipConnr.peerWin == 1
        && p.1.sock.txbuf.items == [⟨0, 200, 1, htonl 3940⟩]
        && p.1.ipOps == []) = true := by decide +kernel
  obtain ⟨⟨w, l⟩, hw, hp⟩ := System.exists_of_run hinit hrun
  simp only [Bool.and_eq_true, beq_iff_eq] at hp
  obtain ⟨⟨⟨hst, -⟩, hi⟩, hops⟩ := hp
  have hc : w.sock.tcpstateflags ≠ .closed := by rw [hst]; decide
  have hs : step w (.periodic, env) = some (periodicStep w env) := by
    simp only [step, hops, List.isEmpty_nil, if_true]
    rfl
  have he : elapseInMsec env.now 0 > 200 := by decide
  exact ⟨w, _, l, env, _, hw, no_silent_loss hw hs hc hi he⟩

end MiMic.Tcp
