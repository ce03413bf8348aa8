import MiMic.NetIf.DhcpClient

/-!
# Runs of the DHCP client

A request succeeds with the offer and the acknowledgement of its own transaction, whatever
packets arrive and whenever they do.
-/
namespace MiMic.NetIf

open Verif

/-- What is known where a request stands. A status that an earlier attempt has left counts for
nothing before the first send. -/
def PhaseOk (p : DhcpTask × DhcpHeard) : Prop :=
  match p.1.phase with
  | .idle => True
  | .discover => True
  | .sendDiscover | .waitOffer =>
      p.1.client.status = .waitOffer ∨
        (p.1.client.status = .waitOfferOk ∧ p.2.offer = some p.1.client.txid)
  | .request => p.1.client.status = .waitOfferOk ∧ p.2.offer = some p.1.client.txid
  | .sendRequest | .waitAck =>
      p.2.offer = some p.1.client.txid ∧ (p.1.client.status = .waitAck ∨
        (p.1.client.status = .waitAckOk ∧ p.2.ack = some p.1.client.txid))
  | .done ret => ret = true → p.1.client.status = .waitAckOk ∧
      p.2.offer = some p.1.client.txid ∧ p.2.ack = some p.1.client.txid

section

variable {t t' : DhcpTask} {b : DhcpHeard}

theorem phaseOk_begin {cfg : EthConfig} (hs : t.step (.begin cfg) = some t') :
    PhaseOk (t', b.note t (.begin cfg) t') := by
  have hphase : t'.phase = .discover := by
    simp only [DhcpTask.step] at hs
    split at hs
    · exact Option.some.inj hs ▸ rfl
    · exact Option.some.inj hs ▸ rfl
    · cases hs
  simp only [PhaseOk, hphase]

theorem phaseOk_alloc (h : PhaseOk (t, b)) {ok : Bool} (hs : t.step (.alloc ok) = some t') :
    PhaseOk (t', b) := by
  simp only [DhcpTask.step] at hs
  split at hs
  · next hphase =>
    cases ok with
    | true =>
      obtain rfl := Option.some.inj hs
      exact Or.inl rfl
    | false =>
      obtain rfl := Option.some.inj hs
      exact fun h => nomatch h
  · next hphase =>
    simp only [PhaseOk, hphase] at h
    cases ok with
    | true =>
      obtain rfl := Option.some.inj hs
      exact ⟨h.2, Or.inl rfl⟩
    | false =>
      obtain rfl := Option.some.inj hs
      exact fun h => nomatch h
  · cases hs

theorem phaseOk_send (h : PhaseOk (t, b)) {ok : Bool} (hs : t.step (.send ok) = some t') :
    PhaseOk (t', b) := by
  simp only [DhcpTask.step] at hs
  split at hs
  · next hphase =>
    simp only [PhaseOk, hphase] at h
    obtain rfl := Option.some.inj hs
    cases ok with
    | true => exact h
    | false => exact fun h => nomatch h
  · next hphase =>
    simp only [PhaseOk, hphase] at h
    obtain rfl := Option.some.inj hs
    cases ok with
    | true => exact h
    | false => exact fun h => nomatch h
  · cases hs

theorem phaseOk_poll (h : PhaseOk (t, b)) {expired : Bool} (hs : t.step (.poll expired) = some t') :
    PhaseOk (t', b) := by
  simp only [DhcpTask.step] at hs
  split at hs
  · next hphase =>
    obtain rfl := Option.some.inj hs
    have hold := h
    simp only [PhaseOk, hphase] at hold
    unfold DhcpTask.pollStep
    split
    · split
      · exact fun h => nomatch h
      · exact h
    · next hne =>
      obtain hw | hoffer := hold
      · exact absurd hw hne
      · rw [if_pos hoffer.1]
        exact hoffer
  · next hphase =>
    obtain rfl := Option.some.inj hs
    have hold := h
    simp only [PhaseOk, hphase] at hold
    unfold DhcpTask.pollStep
    split
    · split
      · exact fun h => nomatch h
      · exact h
    · next hne =>
      obtain ⟨hoffer, hw | hack⟩ := hold
      · exact absurd hw hne
      · rw [if_pos hack.1]
        exact fun _ => ⟨hack.1, hoffer, hack.2⟩
  · cases hs

/-- A packet moves the status on, and is noted where it does. -/
theorem phaseOk_receive (h : PhaseOk (t, b)) {k : DhcpPacket} (hs : t.step (.receive k) = some t') :
    PhaseOk (t', b.note t (.receive k) t') := by
  simp only [DhcpTask.step] at hs
  split at hs
  · cases hs
  · obtain rfl := Option.some.inj hs
    obtain ⟨htxid, hsame | ⟨hold, hnew, -⟩ | ⟨hold, hnew, -⟩⟩ := t.client.onPacket_status k
    · have hnote : b.note t (.receive k) { t with
          client := (t.client.onPacket k).1, hung := !(t.client.onPacket k).2 } = b := by
        simp only [DhcpHeard.note, hsame, if_true]
      rw [hnote]
      simp only [PhaseOk, hsame, htxid] at h ⊢
      exact h
    · have hnote : b.note t (.receive k) { t with
          client := (t.client.onPacket k).1, hung := !(t.client.onPacket k).2 } =
            { b with offer := some t.client.txid } := by
        simp only [DhcpHeard.note, hold, hnew, reduceCtorEq, if_true, if_false]
      rw [hnote]
      cases hphase : t.phase with
      | idle => exact trivial
      | discover => exact trivial
      | sendDiscover =>
        simp only [PhaseOk, htxid]
        exact Or.inr ⟨hnew, trivial⟩
      | waitOffer =>
        simp only [PhaseOk, htxid]
        exact Or.inr ⟨hnew, trivial⟩
      | request =>
        simp only [PhaseOk, hphase, hold] at h
        cases h.1
      | sendRequest =>
        simp only [PhaseOk, hphase, hold, reduceCtorEq, false_and, or_self, and_false] at h
      | waitAck =>
        simp only [PhaseOk, hphase, hold, reduceCtorEq, false_and, or_self, and_false] at h
      | done ret =>
        simp only [PhaseOk, hphase, hold] at h ⊢
        intro hret
        cases (h hret).1
    · have hnote : b.note t (.receive k) { t with
          client := (t.client.onPacket k).1, hung := !(t.client.onPacket k).2 } =
            { b with ack := some t.client.txid } := by
        simp only [DhcpHeard.note, hold, hnew, reduceCtorEq, if_false]
      rw [hnote]
      cases hphase : t.phase with
      | idle => exact trivial
      | discover => exact trivial
      | sendDiscover =>
        simp only [PhaseOk, hphase, hold, reduceCtorEq, false_and, or_self] at h
      | waitOffer =>
        simp only [PhaseOk, hphase, hold, reduceCtorEq, false_and, or_self] at h
      | request =>
        simp only [PhaseOk, hphase, hold] at h
        cases h.1
      | sendRequest =>
        simp only [PhaseOk, hphase, htxid] at h ⊢
        exact ⟨h.1, Or.inr ⟨hnew, trivial⟩⟩
      | waitAck =>
        simp only [PhaseOk, hphase, htxid] at h ⊢
        exact ⟨h.1, Or.inr ⟨hnew, trivial⟩⟩
      | done ret =>
        simp only [PhaseOk, hphase, hold] at h ⊢
        intro hret
        cases (h hret).1

end

theorem phaseOk_reaches {p : DhcpTask × DhcpHeard} (h : heardDhcp.Reaches System.anyStep p) :
    PhaseOk p := by
  refine h.invariant ?_ ?_
  · intro p hp
    have hphase : p.1.phase = .idle := hp.1.1
    simp only [PhaseOk, hphase]
  · intro p e q hinv _ hs
    obtain ⟨hs', hheard⟩ := System.observe_step.mp
      (show heardDhcp.step (p.1, p.2) e = some (q.1, q.2) from hs)
    have hq : PhaseOk (q.1, p.2.note p.1 e q.1) := by
      cases e with
      | begin cfg => exact phaseOk_begin hs'
      | alloc ok => exact phaseOk_alloc hinv hs'
      | send ok => exact phaseOk_send hinv hs'
      | poll expired => exact phaseOk_poll hinv hs'
      | receive k => exact phaseOk_receive hinv hs'
    rw [← hheard] at hq
    exact hq

/-- What a packet may do: nothing, or it is an accepted offer, or an accepted acknowledgement,
which while a request waits for it is that of the transaction whose offer it has accepted. An
offer that names no server is not accepted. -/
def PacketOk (p : DhcpTask × DhcpHeard) (k : DhcpPacket) : Prop :=
  (p.1.client.onPacket k).1 = p.1.client ∨
    OfferAccepted p.1.client k (p.1.client.onPacket k).1 ∨
    (AckAccepted p.1.client k (p.1.client.onPacket k).1 ∧
      (p.1.phase = .sendRequest ∨ p.1.phase = .waitAck → p.2.offer = some p.1.client.txid)) ∨
    Serverless p.1.client k (p.1.client.onPacket k).1

/-- In every state that any packets and any calls lead to, a request that has succeeded accepted
the offer and the acknowledgement of its transaction, a packet moves the status on only where it
is accepted, and a packet that the handler returns from changes nothing else. -/
theorem request_acknowledged {p : DhcpTask × DhcpHeard} (h : heardDhcp.Reaches System.anyStep p) :
    (p.1.phase = .done true →
      p.2.offer = some p.1.client.txid ∧ p.2.ack = some p.1.client.txid) ∧
    (∀ k : DhcpPacket, (p.1.client.onPacket k).1.status ≠ p.1.client.status →
      OfferAccepted p.1.client k (p.1.client.onPacket k).1 ∨
        AckAccepted p.1.client k (p.1.client.onPacket k).1) ∧
    ∀ k : DhcpPacket, (p.1.client.onPacket k).2 = true → PacketOk p k := by
  have hinv := phaseOk_reaches h
  refine ⟨?_, fun k hmoved => DhcpClient.onPacket_moved hmoved, ?_⟩
  · intro hdone
    simp only [PhaseOk, hdone] at hinv
    exact (hinv trivial).2
  · intro k hret
    rcases DhcpClient.onPacket_cases hret with hsame | hoffer | hack | hserver
    · exact Or.inl hsame
    · exact Or.inr (Or.inl hoffer)
    · refine Or.inr (Or.inr (Or.inl ⟨hack, fun hphase => ?_⟩))
      obtain hphase | hphase := hphase
      · simp only [PhaseOk, hphase] at hinv
        exact hinv.1
      · simp only [PhaseOk, hphase] at hinv
        exact hinv.1
    · exact Or.inr (Or.inr (Or.inr hserver))

/-- A reply of transaction 1 to the address 192.168.0.20: its message type and the options
behind it. -/
def dhcpReply (messageType : UInt8) (options : List UInt8) : DhcpPacket where
  buf i :=
    if i = 0 then bootReply
    else if i = 7 then 1
    else if 16 ≤ i ∧ i < 20 then [0xc0, 0xa8, 0x00, 0x14].getD (i - 16) 0
    else if 240 ≤ i then ([53, 1, messageType] ++ options).getD (i - 240) 0
    else 0
  size := 300

/-- Server 1 and server 2, as their options name them. -/
def serverOne : List UInt8 := [54, 4, 1, 0, 0, 0]
def serverTwo : List UInt8 := [54, 4, 2, 0, 0, 0]

def bootedDhcp : DhcpTask × DhcpHeard :=
  (⟨⟨⟨⟨⟨0⟩, 0⟩, ⟨Vector.replicate 6 0⟩, ⟨0⟩, ⟨0⟩⟩, 1, .other, ⟨0⟩⟩, .idle, false⟩, ⟨none, none⟩)

theorem bootedDhcp_init : heardDhcp.init bootedDhcp := ⟨⟨rfl, rfl⟩, rfl⟩

def discovered : List DhcpEvent := [.begin bootedDhcp.1.client.result, .alloc true, .send true]

/-- Behind the offer of server 1. -/
def requested : List DhcpEvent :=
  discovered ++ [.receive (dhcpReply messageTypeOffer serverOne), .poll false, .alloc true, .send true]

theorem request_acknowledged_success :
    ∃ p, heardDhcp.Reaches System.anyStep p ∧ p.1.phase = .done true ∧
      p.2.offer = some p.1.client.txid ∧ p.2.ack = some p.1.client.txid := by
  have hrun := System.exists_of_run bootedDhcp_init (show (heardDhcp.run bootedDhcp (requested ++
    [.receive (dhcpReply messageTypeAck serverOne), .poll false])).any
      (fun p => decide (p.1.phase = .done true)) = true by decide +kernel)
  obtain ⟨p, hp, hdone⟩ := hrun
  have hphase := of_decide_eq_true hdone
  exact ⟨p, hp, hphase, (request_acknowledged hp).1 hphase⟩

/-- An offer without a server is rejected with its address stored, an accepted offer stores it
with no acknowledgement behind it, and an acknowledgement of another server than the chosen one
is a success. -/
theorem not_request_acknowledged :
    (∃ p, heardDhcp.Reaches System.anyStep p ∧
      decide (p.1.client.status = .waitOffer ∧ p.1.client.result.ipAddr = ⟨0x1400a8c0⟩) = true) ∧
    (∃ p, heardDhcp.Reaches System.anyStep p ∧
      decide (p.1.client.result.ipAddr = ⟨0x1400a8c0⟩ ∧ p.2.ack = none) = true) ∧
    ∃ p, heardDhcp.Reaches System.anyStep p ∧
      decide (p.1.client.offerserver = ⟨1⟩ ∧ p.1.phase = .waitAck ∧
        (p.1.client.onPacket (dhcpReply messageTypeAck serverTwo)).1.status = .waitAckOk) = true := by
  refine ⟨?_, ?_, ?_⟩
  · exact System.exists_of_run bootedDhcp_init (show (heardDhcp.run bootedDhcp (discovered ++
      [.receive (dhcpReply messageTypeOffer [])])).any (fun p => decide
        (p.1.client.status = .waitOffer ∧ p.1.client.result.ipAddr = ⟨0x1400a8c0⟩)) = true
          by decide +kernel)
  · exact System.exists_of_run bootedDhcp_init (show (heardDhcp.run bootedDhcp requested).any
      (fun p => decide (p.1.client.result.ipAddr = ⟨0x1400a8c0⟩ ∧ p.2.ack = none)) = true
        by decide +kernel)
  · exact System.exists_of_run bootedDhcp_init (show (heardDhcp.run bootedDhcp requested).any
      (fun p => decide (p.1.client.offerserver = ⟨1⟩ ∧ p.1.phase = .waitAck ∧
        (p.1.client.onPacket (dhcpReply messageTypeAck serverTwo)).1.status = .waitAckOk)) = true
          by decide +kernel)

end MiMic.NetIf
