import MiMic.Lib.System
import MiMic.Tcp.Transition
import MiMic.Tcp.RxFacts
import MiMic.Tcp.TxSequence

/-!
# The received byte stream

The peer's segments are cut from one stream, each at its position. The history
beside the system counts what was put into the receive buffer, what was counted
but thrown away, and what the application took out of the buffer.
-/
namespace MiMic.Tcp

open Verif

/-- The part of a socket that the receive path reads the stream into. -/
structure RxView where
  state : TcpState
  rxbuf : FifoBuffer
  rcvNxt32 : UInt32

def TcpSocket.rxView (sock : TcpSocket) : RxView :=
  ⟨sock.tcpstateflags, sock.rxbuf, sock.uipConnr.rcvNxt32⟩

def TcpSegment.hasFin (seg : TcpSegment) : Bool := hasFlag seg.flags tcpFin

/-- The state changes that count nothing. -/
inductive QuietChange : TcpState → TcpState → Prop
  | same {s} : QuietChange s s
  | closed {s} : QuietChange s .closed
  | established : QuietChange .synRcvd .established
  | finAcked : QuietChange .finWait1 .finWait2
  | timeWait : QuietChange .closing .timeWait

/-- The outcomes of the state switch; `n` is the number of packets in flight. In `opened`
the data `d` that goes into the buffer is all of it, or nothing when it does not fit. -/
inductive RxEffect (v : RxView) (seg : TcpSegment) (isNew : Bool) (n : Nat) : RxView → Prop
  | quiet {s} : QuietChange v.state s → (v.state = .finWait1 → isNew = false) →
      RxEffect v seg isNew n ⟨s, v.rxbuf, v.rcvNxt32⟩
  | synced : v.state = .synSent → n = 0 →
      RxEffect v seg isNew n ⟨.established, v.rxbuf, ntohl seg.seqno32 + 1⟩
  | opened {d rxbuf} : v.state = .established ∨ v.state = .synRcvd ∧ n = 0 → isNew = true →
      (d = seg.data ∨ v.rxbuf.getSpace.toNat < seg.data.length ∧ d = []) →
      rxbuf.buf = v.rxbuf.buf ++ d →
      RxEffect v seg isNew n ⟨if seg.hasFin then .closeWait else .established, rxbuf,
        v.rcvNxt32 + UInt32.ofNat (d.length + seg.hasFin.toNat)⟩
  | finWait1 {s} : v.state = .finWait1 → isNew = true →
      (s = if seg.hasFin then (if n = 0 then .timeWait else .closing) else .finWait1) →
      RxEffect v seg isNew n ⟨s, v.rxbuf,
        v.rcvNxt32 + UInt32.ofNat (seg.data.length + seg.hasFin.toNat)⟩
  | finWait2 : v.state = .finWait2 → isNew = true → seg.hasFin = true →
      RxEffect v seg isNew n ⟨.timeWait, v.rxbuf, v.rcvNxt32 + UInt32.ofNat 1⟩

theorem toUInt32_dataSize (seg : TcpSegment) :
    seg.dataSize.toUInt32 = UInt32.ofNat seg.data.length := by
  have h := seg.data_lt
  apply UInt32.toNat_inj.mp
  rw [UInt16.toNat_toUInt32, TcpSegment.dataSize, UInt16.toNat_ofNat', UInt32.toNat_ofNat']
  omega

/-- `case UIP_ESTABLISHED`, for a segment in order. -/
theorem rxEstablished_effect {sock : TcpSocket} {seg : TcpSegment} {n : Nat} {v : RxView}
    (hv : v.state = .established ∨ v.state = .synRcvd ∧ n = 0)
    (hs : sock.rxView = ⟨.established, v.rxbuf, v.rcvNxt32⟩) :
    RxEffect v seg true n (rxEstablished sock seg true).rxView := by
  obtain ⟨hst, hbuf, hrcv⟩ : sock.tcpstateflags = .established ∧ sock.rxbuf = v.rxbuf ∧
      sock.uipConnr.rcvNxt32 = v.rcvNxt32 := by
    refine ⟨congrArg RxView.state hs, congrArg RxView.rxbuf hs, congrArg RxView.rcvNxt32 hs⟩
  -- first the data, then the FIN
  have hdata : ∃ s : TcpSocket, s.tcpstateflags = .established ∧
      (∃ d, (d = seg.data ∨ v.rxbuf.getSpace.toNat < seg.data.length ∧ d = []) ∧
        s.rxbuf.buf = v.rxbuf.buf ++ d ∧
        s.uipConnr.rcvNxt32 = v.rcvNxt32 + UInt32.ofNat d.length) ∧
      rxEstablished sock seg true =
        if hasFlag seg.flags tcpFin then
          { s with tcpstateflags := .closeWait, uipConnr.rcvNxt32 := s.uipConnr.rcvNxt32 + 1 }
        else s := by
    unfold rxEstablished
    by_cases hd : seg.data = []
    · refine ⟨sock, hst, ⟨[], Or.inl hd.symm, ?_, ?_⟩, ?_⟩
      · rw [hbuf, List.append_nil]
      · rw [hrcv]
        exact (UInt32.add_zero _).symm
      · simp [hd]
    · by_cases hfit : seg.data.length ≤ sock.rxbuf.getSpace.toNat
      · refine ⟨{ sock with
          rxbuf := sock.rxbuf.push seg.data hfit
          uipConnr.rcvNxt32 := sock.uipConnr.rcvNxt32 + seg.dataSize.toUInt32 }, hst,
          ⟨seg.data, Or.inl rfl, ?_, ?_⟩, ?_⟩
        · rw [FifoBuffer.buf_push, hbuf]
        · rw [toUInt32_dataSize, hrcv]
        · simp [hd, addRecvData, hfit]
      · refine ⟨sock, hst, ⟨[], Or.inr ⟨?_, rfl⟩, ?_, ?_⟩, ?_⟩
        · rw [← hbuf]
          omega
        · rw [hbuf, List.append_nil]
        · rw [hrcv]
          exact (UInt32.add_zero _).symm
        · simp [hd, addRecvData, hfit]
  obtain ⟨s, hsst, ⟨d, hd, hb, hr⟩, he⟩ := hdata
  have heff : RxEffect v seg true n ⟨if seg.hasFin then .closeWait else .established, s.rxbuf,
      v.rcvNxt32 + UInt32.ofNat (d.length + seg.hasFin.toNat)⟩ := .opened hv rfl hd hb
  rw [he]
  cases hf : hasFlag seg.flags tcpFin with
  | true =>
    have hfin : seg.hasFin = true := hf
    rw [hfin, Bool.toNat_true, UInt32.ofNat_add] at heff
    simp only [if_true, TcpSocket.rxView, hr, UInt32.add_assoc]
    exact heff
  | false =>
    have hfin : seg.hasFin = false := hf
    rw [hfin] at heff
    simp only [Bool.false_eq_true, if_false, TcpSocket.rxView, hr, hsst]
    exact heff

theorem rxFinWait1_effect {sock : TcpSocket} {seg : TcpSegment} {isNew : Bool} {n : Nat}
    (hs : sock.tcpstateflags = .finWait1) :
    RxEffect sock.rxView seg isNew n (rxFinWait1 sock seg isNew n).rxView := by
  unfold rxFinWait1
  cases isNew with
  | true =>
    have heff : RxEffect sock.rxView seg true n
        ⟨if seg.hasFin then (if n = 0 then .timeWait else .closing) else .finWait1,
          sock.rxView.rxbuf,
          sock.rxView.rcvNxt32 + UInt32.ofNat (seg.data.length + seg.hasFin.toNat)⟩ :=
      .finWait1 hs rfl rfl
    rw [if_pos rfl]
    cases hf : hasFlag seg.flags tcpFin with
    | true =>
      have hfin : seg.hasFin = true := hf
      rw [hfin, Bool.toNat_true, UInt32.ofNat_add] at heff
      simp only [if_true, TcpSocket.rxView, toUInt32_dataSize, UInt32.add_assoc]
      exact heff
    | false =>
      have hfin : seg.hasFin = false := hf
      rw [hfin] at heff
      simp only [Bool.false_eq_true, if_false]
      have hview : TcpSocket.rxView { sock with
          uipConnr.rcvNxt32 := sock.uipConnr.rcvNxt32 + seg.dataSize.toUInt32 } =
          ⟨.finWait1, sock.rxView.rxbuf,
            sock.rxView.rcvNxt32 + UInt32.ofNat (seg.data.length + false.toNat)⟩ := by
        simp [TcpSocket.rxView, toUInt32_dataSize, hs]
      rw [hview]
      exact heff
  | false =>
    rw [if_neg Bool.false_ne_true]
    split
    · exact .quiet (by rw [show sock.rxView.state = .finWait1 from hs]; exact .finAcked) fun _ => rfl
    · exact .quiet .same fun _ => rfl

theorem rxState_effect (sock : TcpSocket) (seg : TcpSegment) (isNew : Bool) (n : Nat) :
    RxEffect sock.rxView seg isNew n (rxState sock seg isNew n).rxView := by
  have hquiet : ∀ {st s : TcpState}, sock.tcpstateflags = st → st ≠ .finWait1 →
      QuietChange st s → RxEffect sock.rxView seg isNew n ⟨s, sock.rxbuf, sock.uipConnr.rcvNxt32⟩ := by
    rintro st s rfl hne hq
    exact .quiet hq fun hf => absurd hf hne
  have hsame : ∀ {st : TcpState}, sock.tcpstateflags = st → st ≠ .finWait1 →
      RxEffect sock.rxView seg isNew n sock.rxView := by
    rintro st rfl hne
    exact .quiet .same fun hf => absurd hf hne
  unfold rxState
  split
  · next hs =>
    split
    · next hn =>
      cases isNew with
      | true => exact rxEstablished_effect (Or.inr ⟨hs, hn⟩) rfl
      | false => exact hquiet hs TcpState.noConfusion .established
    · exact hsame hs TcpState.noConfusion
  · next hs =>
    cases isNew with
    | true => exact rxEstablished_effect (Or.inl hs) (by rw [TcpSocket.rxView, hs])
    | false =>
      have hskip : rxEstablished sock seg false = sock := by simp [rxEstablished]
      rw [hskip]
      exact hsame hs TcpState.noConfusion
  · next hs => exact hsame hs TcpState.noConfusion
  · next hs =>
    split
    · exact hquiet hs TcpState.noConfusion .closed
    · exact hsame hs TcpState.noConfusion
  · next hs => exact rxFinWait1_effect hs
  · next hs =>
    split
    · next hf => exact .finWait2 hs hf.1 hf.2
    · exact hsame hs TcpState.noConfusion
  · next hs =>
    split
    · exact hquiet hs TcpState.noConfusion .timeWait
    · exact hsame hs TcpState.noConfusion
  · next hs => exact hsame hs TcpState.noConfusion
  · next hs => exact hsame hs TcpState.noConfusion
  · next hs =>
    split
    · next hn => exact .synced hs hn
    · exact hsame hs TcpState.noConfusion

/-- A reset closes the socket; any other segment has one of the listed effects. -/
theorem parseRx_effect {sock : TcpSocket} {mem : TxMemory} {now : UInt32} {seg : TcpSegment}
    {r : RxResult} (h : parseRx sock mem now seg = some r) :
    hasFlag seg.flags tcpRst = true ∧ r.sock.rxView = { sock.rxView with state := .closed } ∨
      hasFlag seg.flags tcpRst = false ∧
        RxEffect sock.rxView seg (isNewPacket sock seg) (getNumOfSending sock.txbuf seg.ackno32)
          r.sock.rxView := by
  rcases parseRx_cases h with ⟨hrst, rfl⟩ | ⟨hrst, mms, -, rfl⟩
  · exact Or.inl ⟨hrst, rfl⟩
  · exact Or.inr ⟨hrst, rxState_effect (withMms sock mms) seg _ _⟩

/-- The initial sequence number of the peer and all the bytes it sends before its FIN. -/
structure Peer where
  irs : UInt32
  stream : List UInt8

/-- The segment begins at position `p` of the peer's sequence space: the SYN stands at
zero, the first byte at one, the FIN behind the last byte. -/
structure Peer.Sends (peer : Peer) (seg : TcpSegment) (p : Nat) : Prop where
  seqno : ntohl seg.seqno32 = peer.irs + UInt32.ofNat p
  syn : hasFlag seg.flags tcpSyn = true → p = 0
  data : hasFlag seg.flags tcpSyn = false → 1 ≤ p ∧
    seg.data = (peer.stream.drop (p - 1)).take seg.data.length
  fin : hasFlag seg.flags tcpSyn = false → seg.hasFin = true →
    p - 1 + seg.data.length = peer.stream.length

/-- What has become of the stream: the bytes the application took, how many were put into
the buffer, how many were counted and thrown away, whether the FIN was consumed. -/
structure StreamNote where
  consumed : List UInt8
  stored : Nat
  discarded : Nat
  fin : Bool
  localClose : Bool
  synced : Bool

/-- The position behind everything that was counted. -/
def StreamNote.position (h : StreamNote) : Nat := 1 + h.stored + h.discarded + h.fin.toNat

/-- The state that says that the peer's FIN was taken. -/
def consumesFin : TcpState → TcpState → Bool
  | .synRcvd, .closeWait => true
  | .established, .closeWait => true
  | .finWait1, .closing => true
  | .finWait1, .timeWait => true
  | .finWait2, .timeWait => true
  | _, _ => false

/-- After the local close the data of a segment in order is thrown away. -/
def discards (sock : TcpSocket) (seg : TcpSegment) : Bool :=
  (sock.tcpstateflags == .finWait1 || sock.tcpstateflags == .finWait2) &&
    isNewPacket sock seg && !hasFlag seg.flags tcpRst

/-- What leaves the buffer went to the application. -/
def noteStream (h : StreamNote) (w : World) (e : Act × Env) (w' : World) : StreamNote :=
  match e.1 with
  | .rx seg =>
      { h with
        stored := h.stored + (w'.sock.rxbuf.buf.length - w.sock.rxbuf.buf.length)
        discarded := h.discarded + if discards w.sock seg then seg.data.length else 0
        fin := h.fin || consumesFin w.sock.tcpstateflags w'.sock.tcpstateflags
        synced := h.synced || w'.sock.tcpstateflags == .established }
  | .close =>
      { h with localClose := h.localClose || w.sock.tcpstateflags != w'.sock.tcpstateflags }
  | _ =>
      { h with consumed := h.consumed ++
          w.sock.rxbuf.buf.take (w.sock.rxbuf.buf.length - w'.sock.rxbuf.buf.length) }

/-- A socket that `listenSyn` or `connect` has just set up for the peer. -/
inductive SetUp (peer : Peer) : World → Prop
  | listen {w₀ w env lq lport} : system.Reaches System.anyStep w₀ →
      w₀.sock.tcpstateflags = .closed → step w₀ (.listenSyn lq lport, env) = some w →
      w.sock.tcpstateflags = .synRcvd → lq.rcvNxt32 = peer.irs + 1 → SetUp peer w
  | connect {w₀ w env addr peerPort lport} : system.Reaches System.anyStep w₀ →
      w₀.sock.tcpstateflags = .closed → step w₀ (.connect addr peerPort lport, env) = some w →
      w.sock.tcpstateflags = .synSent → SetUp peer w

/-- The calls that prepare the socket for another connection. -/
def Act.setsUp : Act → Bool
  | .connect _ _ _ => true
  | .listenSyn _ _ => true
  | .startService _ _ => true
  | .create => true
  | _ => false

def StreamNote.start (s : TcpState) : StreamNote where
  consumed := []
  stored := 0
  discarded := 0
  fin := false
  localClose := false
  synced := s == .synRcvd

/-- One connection, from its set-up on. -/
def streamSystem (peer : Peer) : System (World × StreamNote) (Act × Env) where
  init p := SetUp peer p.1 ∧ p.2 = .start p.1.sock.tcpstateflags
  step p e :=
    if e.1.setsUp then none else (step p.1 e).map fun w' => (w', noteStream p.2 p.1 e w')

/-- Every segment but a reset is one of the peer's, less than `2 ^ 32` away from the
position the socket is at. -/
def FromPeer (peer : Peer) (p : World × StreamNote) (e : Act × Env) : Prop :=
  ∀ seg, e.1 = .rx seg → hasFlag seg.flags tcpRst = false →
    ∃ k, peer.Sends seg k ∧ k < p.2.position + 2 ^ 32 ∧ p.2.position < k + 2 ^ 32

/-- In `SYN_SENT` only a SYN is accepted, a FIN in order comes with data that fits into the
buffer, and no data comes in `FIN_WAIT_2`. -/
structure FinFits (w : World) (seg : TcpSegment) : Prop where
  syn : w.sock.tcpstateflags = .synSent → getNumOfSending w.sock.txbuf seg.ackno32 = 0 →
    hasFlag seg.flags tcpSyn = true
  fits : w.sock.tcpstateflags = .established ∨ w.sock.tcpstateflags = .synRcvd ∧
      getNumOfSending w.sock.txbuf seg.ackno32 = 0 →
    isNewPacket w.sock seg = true → seg.hasFin = true →
    seg.data.length ≤ w.sock.rxbuf.getSpace.toNat
  late : w.sock.tcpstateflags = .finWait2 → isNewPacket w.sock seg = true → seg.data = []

def FinsFit (p : World × StreamNote) (e : Act × Env) : Prop :=
  ∀ seg, e.1 = .rx seg → hasFlag seg.flags tcpRst = false → FinFits p.1 seg

/-- The stream as the application sees it, as `rcv_nxt32` counts it, and as far as a
consumed FIN promises. -/
structure StreamSound (peer : Peer) (w : World) (h : StreamNote) : Prop where
  handed : h.consumed ++ w.sock.rxbuf.buf = peer.stream.take h.stored
  counted : h.synced = true → w.sock.uipConnr.rcvNxt32 = peer.irs + UInt32.ofNat h.position
  kept : h.localClose = false → h.discarded = 0
  complete : h.fin = true → h.stored + h.discarded = peer.stream.length
  entered : w.sock.tcpstateflags = .closeWait ∨ w.sock.tcpstateflags = .closing ∨
    w.sock.tcpstateflags = .timeWait → h.fin = true

/-- The states behind the peer's FIN. -/
def TcpState.heardFin : TcpState → Bool
  | .closeWait => true
  | .closing => true
  | .timeWait => true
  | .lastAck => true
  | _ => false

/-- What the state of the socket says about the history. -/
structure StreamStage (s : TcpState) (h : StreamNote) : Prop where
  fin_eq : s ≠ .closed → h.fin = s.heardFin
  localClose_eq : s ≠ .closed → h.localClose = s.teardown
  synced_eq : s ≠ .closed → h.synced = (s != .synSent)
  fresh : h.synced = false → h.stored = 0 ∧ h.discarded = 0 ∧ h.fin = false

structure StreamInv (peer : Peer) (w : World) (h : StreamNote) : Prop where
  sound : StreamSound peer w h
  stage : StreamStage w.sock.tcpstateflags h
  within : h.stored + h.discarded ≤ peer.stream.length

theorem stage_closed {s : TcpState} {h : StreamNote} (hs : StreamStage s h) :
    StreamStage .closed h :=
  ⟨fun hc => absurd rfl hc, fun hc => absurd rfl hc, fun hc => absurd rfl hc, hs.fresh⟩

theorem streamInv_mk {peer : Peer} {w : World} {h : StreamNote}
    (handed : h.consumed ++ w.sock.rxbuf.buf = peer.stream.take h.stored)
    (counted : h.synced = true →
      w.sock.uipConnr.rcvNxt32 = peer.irs + UInt32.ofNat h.position)
    (kept : h.localClose = false → h.discarded = 0)
    (complete : h.fin = true → h.stored + h.discarded = peer.stream.length)
    (stage : StreamStage w.sock.tcpstateflags h)
    (within : h.stored + h.discarded ≤ peer.stream.length) : StreamInv peer w h := by
  refine ⟨⟨handed, counted, kept, complete, fun he => ?_⟩, stage, within⟩
  have hfin := stage.fin_eq
  rcases he with he | he | he <;> (rw [he] at hfin; exact hfin TcpState.noConfusion)

/-- A step that leaves the receiving side alone, or closes the socket. -/
theorem streamInv_same {peer : Peer} {w w' : World} {h : StreamNote} (hi : StreamInv peer w h)
    (hb : w'.sock.rxbuf = w.sock.rxbuf)
    (hr : w'.sock.uipConnr.rcvNxt32 = w.sock.uipConnr.rcvNxt32)
    (hs : StreamStage w'.sock.tcpstateflags h) : StreamInv peer w' h :=
  streamInv_mk (by rw [hb]; exact hi.sound.handed) (fun hsy => by rw [hr]; exact hi.sound.counted hsy)
    hi.sound.kept hi.sound.complete hs hi.within

/-- A segment that counts nothing is not noted. -/
theorem noteStream_quiet {h : StreamNote} {w w' : World} {env : Env} {seg : TcpSegment}
    (hstage : StreamStage w.sock.tcpstateflags h) (hb : w'.sock.rxbuf = w.sock.rxbuf)
    (hq : QuietChange w.sock.tcpstateflags w'.sock.tcpstateflags)
    (hd : discards w.sock seg = true → seg.data = []) :
    noteStream h w (.rx seg, env) w' = h := by
  have hfin : consumesFin w.sock.tcpstateflags w'.sock.tcpstateflags = false := by
    revert hq
    generalize w.sock.tcpstateflags = s
    generalize w'.sock.tcpstateflags = s'
    intro hq
    cases hq with
    | same => cases s <;> rfl
    | closed => cases s <;> rfl
    | _ => rfl
  have hsync : (h.synced || w'.sock.tcpstateflags == .established) = h.synced := by
    cases he : w'.sock.tcpstateflags == .established with
    | false => rw [Bool.or_false]
    | true =>
      rw [beq_iff_eq.mp he] at hq
      have hsy := hstage.synced_eq
      revert hq hsy
      generalize w.sock.tcpstateflags = s
      intro hq hsy
      cases hq with
      | same => rw [hsy TcpState.noConfusion]; rfl
      | established => rw [hsy TcpState.noConfusion]; rfl
  have hnone : (if discards w.sock seg then seg.data.length else 0) = 0 := by
    split
    · next hdis => rw [hd hdis, List.length_nil]
    · rfl
  simp only [noteStream, hnone, hfin, hb, hsync, Nat.sub_self, Nat.add_zero, Bool.or_false]

theorem stage_quiet {s s' : TcpState} {h : StreamNote} (hs : StreamStage s h)
    (hq : QuietChange s s') : StreamStage s' h := by
  cases hq with
  | same => exact hs
  | closed => exact stage_closed hs
  | established =>
    have hne : TcpState.synRcvd ≠ .closed := TcpState.noConfusion
    exact ⟨fun _ => hs.fin_eq hne, fun _ => hs.localClose_eq hne, fun _ => hs.synced_eq hne,
      hs.fresh⟩
  | finAcked =>
    have hne : TcpState.finWait1 ≠ .closed := TcpState.noConfusion
    exact ⟨fun _ => hs.fin_eq hne, fun _ => hs.localClose_eq hne, fun _ => hs.synced_eq hne,
      hs.fresh⟩
  | timeWait =>
    have hne : TcpState.closing ≠ .closed := TcpState.noConfusion
    exact ⟨fun _ => hs.fin_eq hne, fun _ => hs.localClose_eq hne, fun _ => hs.synced_eq hne,
      hs.fresh⟩

/-- A segment in order stands at the position of the history. -/
theorem position_of_new {peer : Peer} {w : World} {h : StreamNote} {seg : TcpSegment} {k : Nat}
    (hi : StreamInv peer w h) (hsy : h.synced = true) (hk : peer.Sends seg k)
    (hlt : k < h.position + 2 ^ 32) (hgt : h.position < k + 2 ^ 32)
    (hnew : isNewPacket w.sock seg = true) :
    k = h.position ∧ seg.data = (peer.stream.drop (h.position - 1)).take seg.data.length ∧
      (seg.hasFin = true → h.position - 1 + seg.data.length = peer.stream.length) := by
  have hseq : ntohl seg.seqno32 = w.sock.uipConnr.rcvNxt32 := beq_iff_eq.mp hnew
  rw [hk.seqno, hi.sound.counted hsy] at hseq
  have hnat := congrArg UInt32.toNat (UInt32.add_right_inj _ |>.mp hseq)
  rw [UInt32.toNat_ofNat', UInt32.toNat_ofNat'] at hnat
  have hkp : k = h.position := by omega
  have hsyn : hasFlag seg.flags tcpSyn = false := by
    cases hf : hasFlag seg.flags tcpSyn with
    | false => rfl
    | true =>
      have h0 := hk.syn hf
      have hpos : 1 ≤ h.position := by
        unfold StreamNote.position
        omega
      omega
  subst hkp
  exact ⟨rfl, (hk.data hsyn).2, hk.fin hsyn⟩

/-- The SYN of the peer is taken in `SYN_SENT`: the position is one. -/
theorem streamInv_synced {peer : Peer} {w w' : World} {h : StreamNote} {env : Env}
    {seg : TcpSegment} {k : Nat} (hi : StreamInv peer w h) (hk : peer.Sends seg k)
    (hs : w.sock.tcpstateflags = .synSent) (hsyn : hasFlag seg.flags tcpSyn = true)
    (hs' : w'.sock.tcpstateflags = .established) (hb : w'.sock.rxbuf = w.sock.rxbuf)
    (hr : w'.sock.uipConnr.rcvNxt32 = ntohl seg.seqno32 + 1) :
    StreamInv peer w' (noteStream h w (.rx seg, env) w') := by
  have hne : w.sock.tcpstateflags ≠ .closed := by rw [hs]; exact TcpState.noConfusion
  have hlc : h.localClose = false := (hi.stage.localClose_eq hne).trans (by rw [hs]; rfl)
  have hsy : h.synced = false := (hi.stage.synced_eq hne).trans (by rw [hs]; rfl)
  obtain ⟨hst0, hdis0, hfin0⟩ := hi.stage.fresh hsy
  have hnote : noteStream h w (.rx seg, env) w' = { h with synced := true } := by
    simp [noteStream, discards, hs, hs', hb, consumesFin]
  have hirs : ntohl seg.seqno32 = peer.irs := by
    rw [hk.seqno, hk.syn hsyn]
    exact UInt32.add_zero _
  rw [hnote]
  refine streamInv_mk (by rw [hb]; exact hi.sound.handed) (fun _ => ?_) hi.sound.kept
    hi.sound.complete ?_ hi.within
  · rw [hr, hirs, StreamNote.position, hst0, hdis0, hfin0]
    rfl
  · rw [hs']
    exact ⟨fun _ => hfin0, fun _ => hlc, fun _ => rfl, fun hf => Bool.noConfusion hf⟩

/-- A segment in order while the socket is open: its data is stored, or stays out whole. -/
theorem streamInv_opened {peer : Peer} {w w' : World} {h : StreamNote} {env : Env}
    {seg : TcpSegment} {d : List UInt8} (hi : StreamInv peer w h)
    (hopen : w.sock.tcpstateflags = .established ∨ w.sock.tcpstateflags = .synRcvd)
    (hdata : seg.data = (peer.stream.drop (h.position - 1)).take seg.data.length)
    (hlast : seg.hasFin = true → h.position - 1 + seg.data.length = peer.stream.length)
    (hd : d = seg.data ∨ seg.hasFin = false ∧ d = [])
    (hs' : w'.sock.tcpstateflags = if seg.hasFin then .closeWait else .established)
    (hb : w'.sock.rxbuf.buf = w.sock.rxbuf.buf ++ d)
    (hr : w'.sock.uipConnr.rcvNxt32 =
      w.sock.uipConnr.rcvNxt32 + UInt32.ofNat (d.length + seg.hasFin.toNat)) :
    StreamInv peer w' (noteStream h w (.rx seg, env) w') := by
  have hstage : h.fin = false ∧ h.localClose = false ∧ h.synced = true := by
    have hst := hi.stage
    rcases hopen with hs | hs <;>
      (rw [hs] at hst
       exact ⟨hst.fin_eq TcpState.noConfusion, hst.localClose_eq TcpState.noConfusion,
        hst.synced_eq TcpState.noConfusion⟩)
  obtain ⟨hfin, hlc, hsy⟩ := hstage
  have hdis : h.discarded = 0 := hi.sound.kept hlc
  have hpos : h.position - 1 = h.stored := by
    rw [StreamNote.position, hdis, hfin, Bool.toNat_false]
    omega
  rw [hpos] at hdata hlast
  have hnote : noteStream h w (.rx seg, env) w' =
      { h with stored := h.stored + d.length, fin := seg.hasFin } := by
    have hcons : consumesFin w.sock.tcpstateflags w'.sock.tcpstateflags = seg.hasFin := by
      rw [hs']
      rcases hopen with hs | hs <;> cases seg.hasFin <;> rw [hs] <;> rfl
    have hnd : discards w.sock seg = false := by
      rcases hopen with hs | hs <;> simp [discards, hs]
    simp [noteStream, hnd, hcons, hb, hfin, hsy]
  have hwithin := hi.within
  rw [hdis, Nat.add_zero] at hwithin
  have htake : w.sock.rxbuf.buf ++ d = w.sock.rxbuf.buf ++ (peer.stream.drop h.stored).take d.length ∧
      h.stored + d.length ≤ peer.stream.length := by
    rcases hd with rfl | ⟨-, rfl⟩
    · refine ⟨congrArg _ hdata, ?_⟩
      have hlen := congrArg List.length hdata
      rw [List.length_take, List.length_drop] at hlen
      omega
    · exact ⟨by simp, by simpa using hwithin⟩
  rw [hnote]
  refine streamInv_mk ?_ (fun _ => ?_) (fun _ => hdis) (fun hf => ?_) ?_ ?_
  · show h.consumed ++ w'.sock.rxbuf.buf = peer.stream.take (h.stored + d.length)
    rw [hb, htake.1, ← List.append_assoc, hi.sound.handed, ← List.take_add]
  · rw [hr, hi.sound.counted hsy, UInt32.add_assoc, ← UInt32.ofNat_add]
    congr 2
    simp only [StreamNote.position, hdis, hfin, Bool.toNat_false]
    omega
  · have hf' : seg.hasFin = true := hf
    show h.stored + d.length + h.discarded = peer.stream.length
    rcases hd with rfl | ⟨hno, -⟩
    · rw [hdis, Nat.add_zero]
      exact hlast hf'
    · rw [hno] at hf'
      cases hf'
  · rw [hs']
    cases seg.hasFin
    · exact ⟨fun _ => rfl, fun _ => hlc, fun _ => hsy, fun hf => by rw [hsy] at hf; cases hf⟩
    · exact ⟨fun _ => rfl, fun _ => hlc, fun _ => hsy, fun hf => by rw [hsy] at hf; cases hf⟩
  · show h.stored + d.length + h.discarded ≤ peer.stream.length
    rw [hdis, Nat.add_zero]
    exact htake.2

/-- A segment in order after the local close: its data is counted and thrown away. -/
theorem streamInv_discarded {peer : Peer} {w w' : World} {h : StreamNote} {env : Env}
    {seg : TcpSegment} (hi : StreamInv peer w h)
    (hopen : w.sock.tcpstateflags = .finWait1 ∨ w.sock.tcpstateflags = .finWait2)
    (hdis : discards w.sock seg = true)
    (hdata : seg.data = (peer.stream.drop (h.position - 1)).take seg.data.length)
    (hlast : seg.hasFin = true → h.position - 1 + seg.data.length = peer.stream.length)
    (hcons : consumesFin w.sock.tcpstateflags w'.sock.tcpstateflags = seg.hasFin)
    (hheard : w'.sock.tcpstateflags.heardFin = seg.hasFin)
    (hdown : w'.sock.tcpstateflags.teardown = true) (hb : w'.sock.rxbuf = w.sock.rxbuf)
    (hr : w'.sock.uipConnr.rcvNxt32 =
      w.sock.uipConnr.rcvNxt32 + UInt32.ofNat (seg.data.length + seg.hasFin.toNat)) :
    StreamInv peer w' (noteStream h w (.rx seg, env) w') := by
  have hstage : h.fin = false ∧ h.localClose = true ∧ h.synced = true := by
    have hst := hi.stage
    rcases hopen with hs | hs <;>
      (rw [hs] at hst
       exact ⟨hst.fin_eq TcpState.noConfusion, hst.localClose_eq TcpState.noConfusion,
        hst.synced_eq TcpState.noConfusion⟩)
  obtain ⟨hfin, hlc, hsy⟩ := hstage
  have hpos : h.position - 1 = h.stored + h.discarded := by
    rw [StreamNote.position, hfin, Bool.toNat_false]
    omega
  rw [hpos] at hdata hlast
  have hnote : noteStream h w (.rx seg, env) w' =
      { h with discarded := h.discarded + seg.data.length, fin := seg.hasFin } := by
    simp [noteStream, hdis, hcons, hb, hfin, hsy]
  have hwithin := hi.within
  have hlen := congrArg List.length hdata
  rw [List.length_take, List.length_drop] at hlen
  rw [hnote]
  refine streamInv_mk ?_ (fun _ => ?_) (fun hno => ?_) (fun hf => ?_) ?_ ?_
  · rw [hb]
    exact hi.sound.handed
  · rw [hr, hi.sound.counted hsy, UInt32.add_assoc, ← UInt32.ofNat_add]
    congr 2
    simp only [StreamNote.position, hfin, Bool.toNat_false]
    omega
  · rw [hlc] at hno
    cases hno
  · show h.stored + (h.discarded + seg.data.length) = peer.stream.length
    rw [← Nat.add_assoc]
    exact hlast hf
  · refine ⟨fun _ => hheard.symm, fun _ => hlc.trans hdown.symm, fun _ => ?_, fun hno => ?_⟩
    · revert hdown
      cases w'.sock.tcpstateflags with
      | synSent => exact Bool.noConfusion
      | _ => exact fun _ => hsy
    · rw [hsy] at hno
      cases hno
  · show h.stored + (h.discarded + seg.data.length) ≤ peer.stream.length
    omega

/-- The segments of the peer, reset included, under the conditions of the receive path. -/
theorem streamInv_rx {peer : Peer} {w w' : World} {h : StreamNote} {env : Env}
    {seg : TcpSegment} {r : RxResult} (hi : StreamInv peer w h)
    (hp : parseRx w.sock w.mem env.now seg = some r) (hw : w'.sock = r.sock)
    (hpeer : FromPeer peer (w, h) (.rx seg, env)) (hfit : FinsFit (w, h) (.rx seg, env)) :
    StreamInv peer w' (noteStream h w (.rx seg, env) w') := by
  have hview : w'.sock.rxView = r.sock.rxView := congrArg _ hw
  rcases parseRx_effect hp with ⟨hrst, hv⟩ | ⟨hrst, heff⟩
  · rw [hv] at hview
    have hs' : w'.sock.tcpstateflags = .closed := congrArg RxView.state hview
    have hb : w'.sock.rxbuf = w.sock.rxbuf := congrArg RxView.rxbuf hview
    have hq : QuietChange w.sock.tcpstateflags w'.sock.tcpstateflags := hs' ▸ .closed
    rw [noteStream_quiet hi.stage hb hq fun hd => by simp [discards, hrst] at hd]
    exact streamInv_same hi hb (congrArg RxView.rcvNxt32 hview) (stage_quiet hi.stage hq)
  · obtain ⟨k, hk, hlt, hgt⟩ := hpeer seg rfl hrst
    have hfits := hfit seg rfl hrst
    -- what a segment in order says about the stream
    have hnew : w.sock.tcpstateflags ≠ .closed → w.sock.tcpstateflags ≠ .synSent →
        isNewPacket w.sock seg = true →
        seg.data = (peer.stream.drop (h.position - 1)).take seg.data.length ∧
          (seg.hasFin = true → h.position - 1 + seg.data.length = peer.stream.length) := by
      intro hc hsent hn
      have hsy : h.synced = true := by
        rw [hi.stage.synced_eq hc]
        exact bne_iff_ne.mpr hsent
      exact (position_of_new hi hsy hk hlt hgt hn).2
    rw [← hview] at heff
    generalize hv' : w'.sock.rxView = v' at heff
    cases heff with
    | @quiet s hq hold =>
      have hs' : w'.sock.tcpstateflags = s := congrArg RxView.state hv'
      have hb : w'.sock.rxbuf = w.sock.rxbuf := congrArg RxView.rxbuf hv'
      have hq' : QuietChange w.sock.tcpstateflags w'.sock.tcpstateflags := hs' ▸ hq
      rw [noteStream_quiet hi.stage hb hq' fun hd => ?_]
      · exact streamInv_same hi hb (congrArg RxView.rcvNxt32 hv') (stage_quiet hi.stage hq')
      · simp only [discards, Bool.and_eq_true, Bool.or_eq_true, beq_iff_eq] at hd
        obtain ⟨⟨hw1 | hw2, hn⟩, -⟩ := hd
        · rw [hold hw1] at hn
          cases hn
        · exact hfits.late hw2 hn
    | synced hs hn =>
      exact streamInv_synced hi hk hs (hfits.syn hs hn) (congrArg RxView.state hv')
        (congrArg RxView.rxbuf hv') (congrArg RxView.rcvNxt32 hv')
    | @opened d rxbuf hs hn hd hbuf =>
      have hopen : w.sock.tcpstateflags = .established ∨ w.sock.tcpstateflags = .synRcvd :=
        hs.imp_right And.left
      obtain ⟨hdata, hlast⟩ := hnew (by rcases hopen with h' | h' <;> rw [h'] <;> exact TcpState.noConfusion)
        (by rcases hopen with h' | h' <;> rw [h'] <;> exact TcpState.noConfusion) hn
      have hd' : d = seg.data ∨ seg.hasFin = false ∧ d = [] := by
        refine hd.imp_right fun hfull => ⟨?_, hfull.2⟩
        cases hf : seg.hasFin with
        | false => rfl
        | true => exact absurd (hfits.fits hs hn hf) (Nat.not_le_of_lt hfull.1)
      have hb : w'.sock.rxbuf.buf = w.sock.rxbuf.buf ++ d :=
        (congrArg (fun v => v.rxbuf.buf) hv').trans hbuf
      exact streamInv_opened hi hopen hdata hlast hd' (congrArg RxView.state hv') hb
        (congrArg RxView.rcvNxt32 hv')
    | @finWait1 s hs hn hst =>
      have hs1 : w.sock.tcpstateflags = .finWait1 := hs
      have hs' : w'.sock.tcpstateflags = s := congrArg RxView.state hv'
      obtain ⟨hdata, hlast⟩ := hnew (by rw [hs1]; exact TcpState.noConfusion)
        (by rw [hs1]; exact TcpState.noConfusion) hn
      have hshape : consumesFin .finWait1 s = seg.hasFin ∧ s.heardFin = seg.hasFin ∧
          s.teardown = true := by
        rw [hst]
        cases seg.hasFin with
        | false => exact ⟨rfl, rfl, rfl⟩
        | true =>
          rw [if_pos rfl]
          split <;> exact ⟨rfl, rfl, rfl⟩
      refine streamInv_discarded hi (Or.inl hs1) (by simp [discards, hs1, hn, hrst]) hdata hlast
        ?_ ?_ ?_ (congrArg RxView.rxbuf hv') (congrArg RxView.rcvNxt32 hv')
      · rw [hs1, hs']
        exact hshape.1
      · rw [hs']
        exact hshape.2.1
      · rw [hs']
        exact hshape.2.2
    | finWait2 hs hn hf =>
      have hs2 : w.sock.tcpstateflags = .finWait2 := hs
      have hs' : w'.sock.tcpstateflags = .timeWait := congrArg RxView.state hv'
      obtain ⟨hdata, hlast⟩ := hnew (by rw [hs2]; exact TcpState.noConfusion)
        (by rw [hs2]; exact TcpState.noConfusion) hn
      have hempty : seg.data = [] := hfits.late hs2 hn
      refine streamInv_discarded hi (Or.inr hs2) (by simp [discards, hs2, hn, hrst]) hdata hlast
        ?_ ?_ ?_ (congrArg RxView.rxbuf hv') ?_
      · rw [hs2, hs', hf]
        rfl
      · rw [hs', hf]
        rfl
      · rw [hs']
        rfl
      · rw [hempty, hf]
        exact congrArg RxView.rcvNxt32 hv'

theorem noteStream_same {h : StreamNote} {w w' : World} {a : Act} {env : Env}
    (ha : ∀ seg, a ≠ .rx seg) (hb : w'.sock.rxbuf = w.sock.rxbuf)
    (hs : a = .close → w'.sock.tcpstateflags = w.sock.tcpstateflags) :
    noteStream h w (a, env) w' = h := by
  cases a with
  | rx seg => exact absurd rfl (ha seg)
  | close => simp [noteStream, hs rfl]
  | _ => simp [noteStream, hb]

/-- A step that leaves the receiving side alone, and the state as well unless it closes. -/
theorem streamInv_move {peer : Peer} {w w' : World} {h : StreamNote} {a : Act} {env : Env}
    (hi : StreamInv peer w h) (ha : ∀ seg, a ≠ .rx seg) (hb : w'.sock.rxbuf = w.sock.rxbuf)
    (hr : w'.sock.uipConnr.rcvNxt32 = w.sock.uipConnr.rcvNxt32)
    (hs : w'.sock.tcpstateflags = w.sock.tcpstateflags ∨
      w'.sock.tcpstateflags = .closed ∧ a ≠ .close) :
    StreamInv peer w' (noteStream h w (a, env) w') := by
  rw [noteStream_same ha hb fun hc => hs.resolve_right fun hcl => hcl.2 hc]
  refine streamInv_same hi hb hr ?_
  rcases hs with hs | ⟨hs, -⟩
  · rw [hs]
    exact hi.stage
  · rw [hs]
    exact stage_closed hi.stage

theorem runOp_rxView {w w₁ : World} {env : Env} {op : Op} {ops : List Op}
    (h : runOp w env op = some (w₁, ops)) : w₁.sock.rxView = w.sock.rxView := by
  obtain ⟨pool, mem, n, rfl⟩ := runOp_changes h
  rfl

theorem streamInv_runOp {peer : Peer} {w w₁ w' : World} {h : StreamNote} {a : Act} {env : Env}
    {op : Op} {ops : List Op} (hi : StreamInv peer w h) (ha : ∀ seg, a ≠ .rx seg)
    (hrun : runOp w env op = some (w₁, ops)) (hw : w'.sock = w₁.sock) :
    StreamInv peer w' (noteStream h w (a, env) w') := by
  have hv : w'.sock.rxView = w.sock.rxView := (congrArg _ hw).trans (runOp_rxView hrun)
  exact streamInv_move hi ha (congrArg RxView.rxbuf hv) (congrArg RxView.rcvNxt32 hv)
    (Or.inl (congrArg RxView.state hv))

/-- `pseek` hands the front of the buffer over. -/
theorem streamInv_pop {peer : Peer} {w w' : World} {h : StreamNote} {env : Env} {seek : Nat}
    (hi : StreamInv peer w h) (hb : w'.sock.rxbuf = w.sock.rxbuf.pop seek)
    (hr : w'.sock.uipConnr.rcvNxt32 = w.sock.uipConnr.rcvNxt32)
    (hs : w'.sock.tcpstateflags = w.sock.tcpstateflags) :
    StreamInv peer w' (noteStream h w (.app, env) w') := by
  have hnote : noteStream h w (.app, env) w' =
      { h with consumed := h.consumed ++ w.sock.rxbuf.buf.take seek } := by
    have htake : w.sock.rxbuf.buf.take (w.sock.rxbuf.buf.length - w'.sock.rxbuf.buf.length) =
        w.sock.rxbuf.buf.take seek := by
      rw [hb, FifoBuffer.buf_pop, List.length_drop, List.take_eq_take_iff]
      omega
    simp only [noteStream, htake]
  rw [hnote]
  refine streamInv_mk ?_ (fun hsy => ?_) hi.sound.kept hi.sound.complete ?_ hi.within
  · show h.consumed ++ w.sock.rxbuf.buf.take seek ++ w'.sock.rxbuf.buf = _
    rw [hb, FifoBuffer.buf_pop, List.append_assoc, List.take_append_drop]
    exact hi.sound.handed
  · rw [hr]
    exact hi.sound.counted hsy
  · rw [hs]
    exact ⟨hi.stage.fin_eq, hi.stage.localClose_eq, hi.stage.synced_eq, hi.stage.fresh⟩

/-- `close` moves the socket to the states of the teardown. -/
theorem streamInv_close {peer : Peer} {w w' : World} {h : StreamNote} {env : Env} {s : TcpState}
    {k : Caller} (hi : StreamInv peer w h) (hc : closeStart w.sock.tcpstateflags = some (s, k))
    (hw : w'.sock = { w.sock with tcpstateflags := s }) :
    StreamInv peer w' (noteStream h w (.close, env) w') := by
  have hs' : w'.sock.tcpstateflags = s := congrArg TcpSocket.tcpstateflags hw
  have hshape : w.sock.tcpstateflags ≠ .closed ∧ w.sock.tcpstateflags ≠ s ∧
      s.heardFin = w.sock.tcpstateflags.heardFin ∧ s.teardown = true ∧
      (s != .synSent) = (w.sock.tcpstateflags != .synSent) := by
    obtain ⟨he, rfl, -⟩ | ⟨he, rfl, -⟩ := closeStart_cases hc <;>
      (rw [he]; exact ⟨TcpState.noConfusion, TcpState.noConfusion, rfl, rfl, rfl⟩)
  obtain ⟨hnc, hne, hheard, hdown, hsent⟩ := hshape
  have hnote : noteStream h w (.close, env) w' = { h with localClose := true } := by
    simp [noteStream, hs', hne]
  rw [hnote]
  refine streamInv_mk (by rw [hw]; exact hi.sound.handed) (fun hsy => ?_) (fun hno => ?_)
    hi.sound.complete ?_ hi.within
  · rw [hw]
    exact hi.sound.counted hsy
  · cases hno
  · rw [hs']
    exact ⟨fun _ => (hi.stage.fin_eq hnc).trans hheard.symm, fun _ => hdown.symm,
      fun _ => (hi.stage.synced_eq hnc).trans hsent.symm, hi.stage.fresh⟩

theorem streamInv_step {peer : Peer} {w w' : World} {h : StreamNote} {a : Act} {env : Env}
    (hi : StreamInv peer w h) (hpeer : FromPeer peer (w, h) (a, env))
    (hfit : FinsFit (w, h) (a, env)) (hsetup : a.setsUp = false) (ht : Transition w env a w') :
    StreamInv peer w' (noteStream h w (a, env) w') := by
  have hnone : ∀ seg, Act.app ≠ .rx seg := fun _ => Act.noConfusion
  cases ht with
  | rx hops hr => exact streamInv_rx hi hr rfl hpeer hfit
  | rxReply hops hr => exact streamInv_rx hi hr rfl hpeer hfit
  | periodicAbort => exact streamInv_move hi (fun _ => Act.noConfusion) rfl rfl (Or.inr ⟨rfl, Act.noConfusion⟩)
  | stop => exact streamInv_move hi (fun _ => Act.noConfusion) rfl rfl (Or.inr ⟨rfl, Act.noConfusion⟩)
  | start => cases hsetup
  | ipOp hops hr => exact streamInv_runOp hi (fun _ => Act.noConfusion) hr rfl
  | appOp hops hr => exact streamInv_runOp hi hnone hr rfl
  | create => cases hsetup
  | callNothing ha => exact streamInv_move hi (ne_rx_of_ofApp ha) rfl rfl (Or.inl rfl)
  | connect => cases hsetup
  | listenSyn => cases hsetup
  | close hat hc => exact streamInv_close hi hc rfl
  | goto ha => exact streamInv_move hi (ne_rx_of_ofApp ha) rfl rfl (Or.inl rfl)
  | closeDone => exact streamInv_move hi hnone rfl rfl (Or.inr ⟨rfl, Act.noConfusion⟩)
  | forceClose => exact streamInv_move hi hnone rfl rfl (Or.inr ⟨rfl, Act.noConfusion⟩)
  | pseekPop => exact streamInv_pop hi rfl rfl rfl
  | _ => exact streamInv_move hi (fun _ => Act.noConfusion) rfl rfl (Or.inl rfl)

theorem streamInv_setUp {peer : Peer} {w : World} (h : SetUp peer w) :
    StreamInv peer w (.start w.sock.tcpstateflags) := by
  have hmk : ∀ {s : TcpState}, w.sock.tcpstateflags = s → s = .synRcvd ∨ s = .synSent →
      w.sock.rxbuf.buf = [] → (s = .synRcvd → w.sock.uipConnr.rcvNxt32 = peer.irs + 1) →
      StreamInv peer w (.start w.sock.tcpstateflags) := by
    intro s hs hcase hb hr
    rw [hs]
    refine streamInv_mk ?_ (fun hsy => ?_) (fun _ => rfl) (fun hf => Bool.noConfusion hf) ?_
      (Nat.zero_le _)
    · rw [hb]
      rfl
    · exact hr (beq_iff_eq.mp hsy)
    · rw [hs]
      rcases hcase with rfl | rfl <;>
        exact ⟨fun _ => rfl, fun _ => rfl, fun _ => rfl, fun _ => ⟨rfl, rfl, rfl⟩⟩
  cases h with
  | listen hr hc hs hst hirs =>
    cases step_transition hs with
    | callNothing =>
      rw [hc] at hst
      cases hst
    | goto =>
      rw [hc] at hst
      cases hst
    | listenSyn hat hl =>
      rw [listenSyn, if_pos hc] at hl
      obtain ⟨rfl, -⟩ := Prod.mk.inj (Option.some.inj hl)
      exact hmk rfl (Or.inl rfl) rfl fun _ => hirs
  | connect hr hc hs hst =>
    cases step_transition hs with
    | callNothing =>
      rw [hc] at hst
      cases hst
    | goto =>
      rw [hc] at hst
      cases hst
    | connect hat hl =>
      rw [connectOpen, if_neg (not_not.mpr hc)] at hl
      split at hl
      · cases hl
      · obtain ⟨rfl, -⟩ := Prod.mk.inj (Option.some.inj hl)
        exact hmk rfl (Or.inr rfl) rfl TcpState.noConfusion

theorem streamSystem_step {peer : Peer} {w w' : World} {h h' : StreamNote} {e : Act × Env}
    (hs : (streamSystem peer).step (w, h) e = some (w', h')) :
    e.1.setsUp = false ∧ step w e = some w' ∧ h' = noteStream h w e w' := by
  simp only [streamSystem] at hs
  split at hs
  · cases hs
  · next hsu =>
    obtain ⟨t, ht, heq⟩ := Option.map_eq_some_iff.mp hs
    obtain ⟨rfl, rfl⟩ := Prod.mk.inj heq
    exact ⟨by simpa using hsu, ht, rfl⟩

/-- Receive-stream integrity: in every run of a connection all of whose segments come from
the peer, and in which no FIN is counted without its data. -/
theorem stream_integrity {peer : Peer} {w : World} {h : StreamNote}
    (hr : (streamSystem peer).Reaches (fun p e => FromPeer peer p e ∧ FinsFit p e) (w, h)) :
    StreamSound peer w h := by
  have hinv : StreamInv peer (w, h).1 (w, h).2 := by
    refine hr.invariant (P := fun p => StreamInv peer p.1 p.2) ?_ ?_
    · intro p hinit
      obtain ⟨hset, hstart⟩ := hinit
      rw [hstart]
      exact streamInv_setUp hset
    · rintro ⟨w, h⟩ ⟨a, env⟩ ⟨w', h'⟩ hi ⟨hpeer, hfit⟩ hs
      obtain ⟨hsu, hstep, rfl⟩ := streamSystem_step hs
      exact streamInv_step hi hpeer hfit hsu (step_transition hstep)
  exact hinv.sound

/-- The segment the peer sends at position `k`, behind its SYN. -/
def sendsAt (peer : Peer) (seg : TcpSegment) (k : Nat) : Bool :=
  ntohl seg.seqno32 == peer.irs + UInt32.ofNat k && !hasFlag seg.flags tcpSyn && decide (1 ≤ k) &&
    seg.data == (peer.stream.drop (k - 1)).take seg.data.length &&
    (!seg.hasFin || decide (k - 1 + seg.data.length = peer.stream.length))

/-- `FromPeer` for the steps of a replay, computed. -/
def fromPeer (peer : Peer) (p : World × StreamNote) (e : Act × Env) : Bool :=
  match e.1 with
  | .rx seg =>
      let k := (ntohl seg.seqno32 - peer.irs).toNat
      sendsAt peer seg k && decide (k < p.2.position + 2 ^ 32) &&
        decide (p.2.position < k + 2 ^ 32)
  | _ => true

theorem fromPeer_sound {peer : Peer} {p : World × StreamNote} {e : Act × Env}
    (h : fromPeer peer p e = true) : FromPeer peer p e := by
  obtain ⟨a, env⟩ := e
  rintro seg rfl -
  simp only [fromPeer, sendsAt, Bool.and_eq_true, Bool.or_eq_true, Bool.not_eq_true', beq_iff_eq,
    decide_eq_true_eq] at h
  obtain ⟨⟨⟨⟨⟨⟨hseq, hsyn⟩, hpos⟩, hdata⟩, hfin⟩, hlt⟩, hgt⟩ := h
  refine ⟨_, ⟨hseq, fun hs => ?_, fun _ => ⟨hpos, hdata⟩, fun _ hf => hfin.resolve_left ?_⟩, hlt, hgt⟩
  · rw [hsyn] at hs
    cases hs
  · rw [hf]
    exact Bool.noConfusion

/-- `FinsFit` for the steps of a replay, computed. -/
def finsFit (p : World × StreamNote) (e : Act × Env) : Bool :=
  match e.1 with
  | .rx seg =>
      p.1.sock.tcpstateflags != .synSent && p.1.sock.tcpstateflags != .finWait2 &&
        decide (seg.data.length ≤ p.1.sock.rxbuf.getSpace.toNat)
  | _ => true

theorem finsFit_sound {p : World × StreamNote} {e : Act × Env} (h : finsFit p e = true) :
    FinsFit p e := by
  obtain ⟨a, env⟩ := e
  rintro seg rfl -
  simp only [finsFit, Bool.and_eq_true, bne_iff_ne, decide_eq_true_eq] at h
  obtain ⟨⟨hsent, hwait⟩, hfits⟩ := h
  exact ⟨fun hs => absurd hs hsent, fun _ _ _ => hfits, fun hs => absurd hs hwait⟩

/-- The SYN of a peer whose first byte has the number 100. -/
def synTaken : World :=
  (step World.zeroed (.listenSyn ⟨⟨1⟩, 7, 0, 100⟩ 80, quietEnv)).getD World.zeroed

theorem synTaken_setUp (stream : List UInt8) : SetUp ⟨99, stream⟩ synTaken := by
  have hstep : step World.zeroed (.listenSyn ⟨⟨1⟩, 7, 0, 100⟩ 80, quietEnv) = some synTaken := rfl
  exact .listen (.init World.zeroed_initial) rfl hstep rfl rfl

/-- `accept`, and the acknowledgement of its SYN|ACK. -/
def acceptedPeer : List (Act × Env) :=
  [(.accept, quietEnv), (.app, quietEnv), (.app, quietEnv), (.app, quietEnv),
    (.rx ⟨htonl 100, htonl 3940, tcpAck, htons 1000, some none, [], length_nil_lt⟩, quietEnv),
    (.ipOp, quietEnv), (.app, quietEnv)]

/-- As many bytes as the receive buffer holds. -/
def fillingSegment : TcpSegment where
  seqno32 := htonl 100
  ackno32 := htonl 3940
  flags := tcpAck
  wnd16 := htons 1000
  mmsOpt := some none
  data := List.replicate 512 0
  data_lt := by
    rw [List.length_replicate]
    omega

/-- A full receive buffer, then the last byte of the stream together with the FIN. -/
def finBehindFullBuffer : List (Act × Env) :=
  acceptedPeer ++ [(.rx fillingSegment, quietEnv),
    (.rx ⟨htonl 612, htonl 3940, tcpFin ||| tcpAck, htons 1000, some none, [0], by decide⟩,
      quietEnv)]

/-- The byte is dropped and the FIN consumed: the application sees a complete stream. -/
theorem fin_consumed_without_data : ¬ ∀ peer w h,
    (streamSystem peer).Reaches (FromPeer peer) (w, h) → StreamSound peer w h := by
  intro hall
  let peer : Peer := ⟨99, List.replicate 513 0⟩
  have hinit : (streamSystem peer).init (synTaken, .start .synRcvd) := ⟨synTaken_setUp _, rfl⟩
  have hrun : ((streamSystem peer).runChecked (fromPeer peer) (synTaken, .start .synRcvd)
      finBehindFullBuffer).any (fun p => p.1.sock.tcpstateflags == .closeWait && p.2.fin
        && p.2.stored == 512 && p.2.discarded == 0) = true := by decide +kernel
  obtain ⟨⟨w, h⟩, hr, hp⟩ := System.exists_of_runChecked (fun _ _ => fromPeer_sound) hinit hrun
  simp only [Bool.and_eq_true, beq_iff_eq] at hp
  obtain ⟨⟨⟨-, hfin⟩, hst⟩, hdis⟩ := hp
  have hcomplete := (hall peer w h hr).complete hfin
  have hlen : peer.stream.length = 513 := List.length_replicate
  omega

/-- Three bytes in two segments, the first of them twice, and two bytes read in between. -/
def readBetween : List (Act × Env) :=
  let first : TcpSegment :=
    ⟨htonl 100, htonl 3940, tcpAck, htons 1000, some none, [1, 2], by decide⟩
  acceptedPeer ++ [(.rx first, quietEnv), (.rx first, { quietEnv with buf := 2 }),
    (.ipOp, quietEnv), (.ipOp, quietEnv), (.pseek 2, quietEnv), (.app, quietEnv), (.app, quietEnv),
    (.rx ⟨htonl 102, htonl 3940, tcpFin ||| tcpAck, htons 1000, some none, [3], by decide⟩,
      { quietEnv with buf := 2 })]

theorem stream_integrity_read : ∃ w h, h.consumed = [1, 2] ∧ h.fin = true ∧
    StreamSound ⟨99, [1, 2, 3]⟩ w h := by
  let peer : Peer := ⟨99, [1, 2, 3]⟩
  have hinit : (streamSystem peer).init (synTaken, .start .synRcvd) := ⟨synTaken_setUp _, rfl⟩
  have hrun : ((streamSystem peer).runChecked (fun p e => fromPeer peer p e && finsFit p e)
      (synTaken, .start .synRcvd) readBetween).any
      (fun p => p.2.consumed == [1, 2] && p.2.fin) = true := by decide +kernel
  have hok : ∀ p e, (fromPeer peer p e && finsFit p e) = true → FromPeer peer p e ∧ FinsFit p e := by
    intro p e h
    obtain ⟨hpeer, hfit⟩ := Bool.and_eq_true_iff.mp h
    exact ⟨fromPeer_sound hpeer, finsFit_sound hfit⟩
  obtain ⟨⟨w, h⟩, hr, hp⟩ := System.exists_of_runChecked hok hinit hrun
  simp only [Bool.and_eq_true, beq_iff_eq] at hp
  exact ⟨w, h, hp.1, hp.2, stream_integrity hr⟩

end MiMic.Tcp
