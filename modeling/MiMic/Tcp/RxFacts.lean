import MiMic.Tcp.LockSections

/-!
# What a received segment changes

One fact for each part of the state that `parseRx` touches: the fields it never
writes, the ring, the queued packets, the connection state.
-/
namespace MiMic.Tcp

open Verif

/-- A processed segment is a reset, or went through the whole of `parseRx`. -/
theorem parseRx_cases {sock : TcpSocket} {mem : TxMemory} {now : UInt32} {seg : TcpSegment}
    {r : RxResult} (h : parseRx sock mem now seg = some r) :
    (hasFlag seg.flags tcpRst = true ∧ r = ⟨{ sock with tcpstateflags := .closed }, mem, [], false⟩) ∨
      (hasFlag seg.flags tcpRst = false ∧
        ∃ mms, seg.mmsOpt = some mms ∧ r = rxProcess sock mem now seg mms) := by
  unfold parseRx at h
  by_cases hr : hasFlag seg.flags tcpRst = true
  · rw [if_pos hr] at h
    exact Or.inl ⟨hr, (Option.some.inj h).symm⟩
  · rw [if_neg hr] at h
    obtain ⟨mms, hm, rfl⟩ := Option.map_eq_some_iff.mp h
    exact Or.inr ⟨by simpa using hr, mms, hm, rfl⟩

/-- The state switch writes the state, `rcv_nxt32` and the receive buffer alone. -/
theorem rxEstablished_frame (sock : TcpSocket) (seg : TcpSegment) (isNew : Bool) :
    (rxEstablished sock seg isNew).txbuf = sock.txbuf ∧
      (rxEstablished sock seg isNew).uipConnr =
        { sock.uipConnr with rcvNxt32 := (rxEstablished sock seg isNew).uipConnr.rcvNxt32 } := by
  unfold rxEstablished
  split
  · split <;> split <;> exact ⟨rfl, rfl⟩
  · split <;> exact ⟨rfl, rfl⟩

theorem rxState_frame (sock : TcpSocket) (seg : TcpSegment) (isNew : Bool) (n : Nat) :
    (rxState sock seg isNew n).txbuf = sock.txbuf ∧
      (rxState sock seg isNew n).uipConnr =
        { sock.uipConnr with rcvNxt32 := (rxState sock seg isNew n).uipConnr.rcvNxt32 } := by
  unfold rxState
  split
  · split
    · split
      · exact rxEstablished_frame { sock with tcpstateflags := .established } seg isNew
      · exact ⟨rfl, rfl⟩
    · exact ⟨rfl, rfl⟩
  · exact rxEstablished_frame sock seg isNew
  · exact ⟨rfl, rfl⟩
  · split <;> exact ⟨rfl, rfl⟩
  · unfold rxFinWait1
    split
    · split <;> exact ⟨rfl, rfl⟩
    · split <;> exact ⟨rfl, rfl⟩
  · split <;> exact ⟨rfl, rfl⟩
  · split <;> exact ⟨rfl, rfl⟩
  · exact ⟨rfl, rfl⟩
  · exact ⟨rfl, rfl⟩
  · split <;> exact ⟨rfl, rfl⟩

theorem rxSwitch_txbuf (sock : TcpSocket) (seg : TcpSegment) (mms : Option UInt16) :
    (rxSwitch sock seg mms).txbuf = sock.txbuf :=
  (rxState_frame (withMms sock mms) seg _ _).1

theorem rxSwitch_conn (sock : TcpSocket) (seg : TcpSegment) (mms : Option UInt16) :
    (rxSwitch sock seg mms).uipConnr = { sock.uipConnr with
      peerMss := mms.getD sock.uipConnr.peerMss
      rcvNxt32 := (rxSwitch sock seg mms).uipConnr.rcvNxt32 } :=
  (rxState_frame (withMms sock mms) seg _ _).2

/-- What the ring keeps is a suffix, what is released is the prefix before it. -/
theorem parseRx_ring {sock : TcpSocket} {mem : TxMemory} {now : UInt32} {seg : TcpSegment}
    {r : RxResult} (hq : sock.txbuf.InRange) (h : parseRx sock mem now seg = some r) :
    ∃ k ≤ sock.txbuf.items.length,
      r.sock.txbuf.InRange ∧
      r.sock.txbuf.items = sock.txbuf.items.drop k ∧
      r.dlist = (sock.txbuf.items.take k).map (·.packet) ∧
      (k = 0 ∨ hasFlag seg.flags tcpAck = true ∧
        ∃ it, sock.txbuf.items[k - 1]? = some it ∧ it.ackno = seg.ackno32) := by
  rcases parseRx_cases h with ⟨_, rfl⟩ | ⟨_, mms, _, rfl⟩
  · exact ⟨0, Nat.zero_le _, hq, rfl, rfl, Or.inl rfl⟩
  · simp only [rxProcess, rxDequeue, rxSwitch_txbuf]
    by_cases hack : hasFlag seg.flags tcpAck = true
    · simp only [if_pos hack]
      obtain ⟨k, hk, hr, hi, hd, hm⟩ := updateTxQByIndex_split
        (rxSwitch sock seg mms).uipConnr.currentRto32 now seg.ackno32 hq
      exact ⟨k, hk, hr, hi, hd, hm.imp_right fun hit => ⟨hack, hit⟩⟩
    · simp only [if_neg hack]
      exact ⟨0, Nat.zero_le _, hq, rfl, rfl, Or.inl rfl⟩

/-- Addresses, ports and the send counter are no business of the receive path. -/
theorem parseRx_conn {sock : TcpSocket} {mem : TxMemory} {now : UInt32} {seg : TcpSegment}
    {r : RxResult} (h : parseRx sock mem now seg = some r) :
    r.sock.uipConnr.sndNxt32 = sock.uipConnr.sndNxt32 ∧
      r.sock.uipConnr.lport = sock.uipConnr.lport ∧ r.sock.uipConnr.rport = sock.uipConnr.rport ∧
      r.sock.uipConnr.ripaddr = sock.uipConnr.ripaddr := by
  rcases parseRx_cases h with ⟨_, rfl⟩ | ⟨_, mms, _, rfl⟩
  · exact ⟨rfl, rfl, rfl, rfl⟩
  · have hconn := rxSwitch_conn sock seg mms
    have hsnd := congrArg UipConn.sndNxt32 hconn
    have hlport := congrArg UipConn.lport hconn
    have hrport := congrArg UipConn.rport hconn
    have hrip := congrArg UipConn.ripaddr hconn
    exact ⟨hsnd, hlport, hrport, hrip⟩

/-- The packets that stay queued are rewritten when the segment was in order. -/
theorem parseRx_mem {sock : TcpSocket} {mem : TxMemory} {now : UInt32} {seg : TcpSegment}
    {r : RxResult} (h : parseRx sock mem now seg = some r) (b : BufId) :
    r.mem b = mem b ∧ (hasFlag seg.flags tcpRst = true ∨ isNewPacket sock seg = false ∨
        b ∉ r.sock.txbuf.items.map (·.packet)) ∨
      r.mem b = updateAckNo (mem b) (htonl r.sock.uipConnr.rcvNxt32) ∧
        b ∈ r.sock.txbuf.items.map (·.packet) := by
  rcases parseRx_cases h with ⟨hr, rfl⟩ | ⟨_, mms, _, rfl⟩
  · exact Or.inl ⟨rfl, Or.inl hr⟩
  · simp only [rxProcess]
    cases hn : isNewPacket sock seg with
    | false => exact Or.inl ⟨rfl, Or.inr (Or.inl rfl)⟩
    | true =>
      simp only [if_true, updateTxAck_apply]
      by_cases hb : b ∈ (rxDequeue (rxSwitch sock seg mms) now seg).1.items.map (·.packet)
      · rw [if_pos hb]
        exact Or.inr ⟨rfl, hb⟩
      · rw [if_neg hb]
        exact Or.inl ⟨rfl, Or.inr (Or.inr hb)⟩

/-- An acknowledgement of the oldest packet takes that packet off the ring. -/
theorem parseRx_head {sock : TcpSocket} {mem : TxMemory} {now : UInt32} {seg : TcpSegment}
    {r : RxResult} {it : TxQItem} {rest : List TxQItem} (hq : sock.txbuf.InRange)
    (h : parseRx sock mem now seg = some r) (hrst : hasFlag seg.flags tcpRst = false)
    (hack : hasFlag seg.flags tcpAck = true) (hi : sock.txbuf.items = it :: rest)
    (hm : it.ackno = seg.ackno32) : r.sock.txbuf.items = rest := by
  rcases parseRx_cases h with ⟨hf, -⟩ | ⟨-, mms, -, rfl⟩
  · rw [hrst] at hf
    cases hf
  · have hany : sock.txbuf.items.any (·.ackno == seg.ackno32) = true := by simp [hi, hm]
    have hidx : sock.txbuf.items.findIdx (·.ackno == seg.ackno32) = 0 := by
      rw [hi, List.findIdx_cons, beq_iff_eq.mpr hm]
      rfl
    obtain ⟨hadv, -⟩ := updateTxQByIndex_of_match
      (rxSwitch sock seg mms).uipConnr.currentRto32 now hq hany
    simp only [rxProcess, rxDequeue, rxSwitch_txbuf, if_pos hack]
    rw [hadv, hidx, Ring.items_advance hq (by rw [hi]; exact Nat.succ_le_succ (Nat.zero_le _)), hi]
    rfl

/-- A segment out of order is counted in no state but `SYN_SENT`. -/
theorem parseRx_rcv {sock : TcpSocket} {mem : TxMemory} {now : UInt32} {seg : TcpSegment}
    {r : RxResult} (h : parseRx sock mem now seg = some r)
    (hnew : hasFlag seg.flags tcpRst = true ∨ isNewPacket sock seg = false) :
    r.sock.uipConnr.rcvNxt32 = sock.uipConnr.rcvNxt32 ∨
      hasFlag seg.flags tcpRst = false ∧ sock.tcpstateflags = .synSent ∧
        getNumOfSending sock.txbuf seg.ackno32 = 0 ∧
        r.sock.uipConnr.rcvNxt32 = ntohl seg.seqno32 + 1 := by
  rcases parseRx_cases h with ⟨-, rfl⟩ | ⟨hrst, mms, -, rfl⟩
  · exact Or.inl rfl
  · have hold : isNewPacket sock seg = false := by
      rcases hnew with hf | hn
      · rw [hrst] at hf
        cases hf
      · exact hn
    have hto : (rxProcess sock mem now seg mms).sock.uipConnr.rcvNxt32 =
        (rxState (withMms sock mms) seg (isNewPacket sock seg)
          (getNumOfSending sock.txbuf seg.ackno32)).uipConnr.rcvNxt32 := rfl
    have hkeep : (withMms sock mms).tcpstateflags = sock.tcpstateflags := rfl
    have hrcv : (withMms sock mms).uipConnr.rcvNxt32 = sock.uipConnr.rcvNxt32 := rfl
    rw [hto, hold]
    by_cases hn : getNumOfSending sock.txbuf seg.ackno32 = 0
    · cases hs : sock.tcpstateflags with
      | synSent =>
        simp only [rxState, hkeep, hs, if_pos hn]
        exact Or.inr ⟨hrst, trivial, hn, trivial⟩
      | _ => simp [rxState, hkeep, hs, hn, rxEstablished, rxFinWait1, hrcv]
    · cases hs : sock.tcpstateflags <;>
        simp [rxState, hkeep, hs, hn, rxEstablished, rxFinWait1, hrcv]

end MiMic.Tcp
