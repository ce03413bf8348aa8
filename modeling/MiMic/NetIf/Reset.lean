import MiMic.NetIf.Checksums
import MiMic.NetIf.EthFrame

/-!
# The answer to a segment without a connection

The demultiplexer gives a segment that no socket and no listener takes to
`allocTcpReverseRstAck`, whatever its flags are. Two stacks that have forgotten each other are
followed through as many answers as they give.
-/
namespace MiMic.NetIf

open MiMic.Tcp

/-- The packet of `NyLPC_cMiMicIpTcpSocket_allocTcpReverseRstAck` before its checksums; `buf` is
what stood in the block. -/
def reverseRstAck (pid : UInt16) (buf : TxPacket) (iph : Memory) : TxPacket where
  iph := { writeTxIpHeader
      { buf.iph with
        vhl := 0x40 ||| (0x0f &&& 0x05)
        destipaddr := srcIpAddr iph
        srcipaddr := destIpAddr iph }
      uipProtoTcp pid with
    len16 := htons ((5 + 5) * 4) }
  tcph :=
    { srcport := (ipPayload iph).u16 2
      destport := (ipPayload iph).u16 0
      seqno32 := (ipPayload iph).u32 8
      ackno32 := htonl (ntohl ((ipPayload iph).u32 4) + 1)
      tcpoffset := 5 <<< (4 : UInt8)
      flags := tcpRst ||| tcpAck
      wnd16 := 0
      tcpchksum := 0
      urgp := 0 }
  body := []

def allocTcpReverseRstAck (pid : UInt16) (buf : TxPacket) (iph : Memory) : TxPacket :=
  (reverseRstAck pid buf iph).fillTcpChksum.fillIpChksum

/-- A stack with its tables, and what it builds its next packet from. -/
structure Stack where
  net : MiMicIpNetIf
  config : IPv4Config
  pid : UInt16
  block : TxPacket

/-- What `tcp_rx` sends for a segment that belongs to no connection. A listener sends nothing. -/
def Stack.answer (s : Stack) (iph : Memory) : Option TxPacket :=
  match tcpRx s.net s.config iph with
  | .reset => some (allocTcpReverseRstAck s.pid s.block iph)
  | _ => none

/-- The packet on the wire after `n` answers, the first of them given by `a`. -/
def exchange : Nat → Stack → Stack → Memory → Option Memory
  | 0, _, _, iph => some iph
  | n + 1, a, b, iph => (a.answer iph).bind fun r => exchange n b a (listMemory r.bytes)

def tcpFlags (iph : Memory) : UInt8 := ipPayload iph 13

/-- The length of a segment in sequence space. -/
def sequenceLength (iph : Memory) : Nat :=
  (totalLength iph - 4 * ihl iph - 4 * tcpOffset iph) +
    (if hasFlag (tcpFlags iph) tcpSyn then 1 else 0) +
    (if hasFlag (tcpFlags iph) tcpFin then 1 else 0)

/-- The reset that the segment calls for, sent back to where it came from. -/
structure IsReset (iph : Memory) (r : TxPacket) : Prop where
  rst : hasFlag r.tcph.flags tcpRst = true
  seqno : r.tcph.seqno32 = if hasFlag (tcpFlags iph) tcpAck then (ipPayload iph).u32 8 else 0
  ackno : ntohl r.tcph.ackno32 = ntohl ((ipPayload iph).u32 4) + UInt32.ofNat (sequenceLength iph)
  srcport : r.tcph.srcport = (ipPayload iph).u16 2
  destport : r.tcph.destport = (ipPayload iph).u16 0
  srcip : r.iph.srcipaddr = destIpAddr iph
  destip : r.iph.destipaddr = srcIpAddr iph
  verifies : Verifies (listMemory r.bytes)

def AnswersAsPrescribed (iph : Memory) (answer : Option TxPacket) : Prop :=
  if hasFlag (tcpFlags iph) tcpRst then answer = none else ∃ r, answer = some r ∧ IsReset iph r

/-- The segment belongs to no connection and to no listener of the stack. -/
structure Stack.Misses (s : Stack) (iph : Memory) : Prop where
  dest : destIpAddr iph = s.config.ipAddr
  chksum : makeTcpChecksum iph = 0xffff
  socket : getMatchTcpSocket s.net ((ipPayload iph).u16 2) (srcIpAddr iph) ((ipPayload iph).u16 0) =
    none
  listener : getListenerByPeerPort s.net ((ipPayload iph).u16 2) = none

/-- The stack at the segment's source address has neither a connection nor a listener for it. -/
structure Stack.Forgot (s : Stack) (iph : Memory) : Prop where
  src : srcIpAddr iph = s.config.ipAddr
  socket : getMatchTcpSocket s.net ((ipPayload iph).u16 0) (destIpAddr iph) ((ipPayload iph).u16 2) =
    none
  listener : getListenerByPeerPort s.net ((ipPayload iph).u16 0) = none

/-- The segments whose answer comes out right. -/
structure AnsweredRight (iph : Memory) : Prop where
  noRst : hasFlag (tcpFlags iph) tcpRst = false
  ack : hasFlag (tcpFlags iph) tcpAck = true ∨ (ipPayload iph).u32 8 = 0
  length : sequenceLength iph = 1

theorem tcpRx_reset_iff {s : Stack} {iph : Memory} :
    tcpRx s.net s.config iph = .reset ↔ s.Misses iph := by
  unfold tcpRx
  constructor
  · intro h
    split_ifs at h with hdest hsum
    split at h
    · cases h
    · next hsocket =>
      split at h
      · next hlistener => exact ⟨not_not.mp hdest, not_not.mp hsum, hsocket, hlistener⟩
      · cases h
  · intro h
    rw [if_neg (not_not.mpr h.dest), if_neg (not_not.mpr h.chksum), h.socket, h.listener]

theorem answer_of_misses {s : Stack} {iph : Memory} (h : s.Misses iph) :
    s.answer iph = some (allocTcpReverseRstAck s.pid s.block iph) := by
  rw [Stack.answer, tcpRx_reset_iff.mpr h]

theorem answer_none_of_not_misses {s : Stack} {iph : Memory} (h : ¬ s.Misses iph) :
    s.answer iph = none := by
  rw [Stack.answer]
  split
  · next hr => exact absurd (tcpRx_reset_iff.mp hr) h
  · rfl

section

variable (pid : UInt16) (buf : TxPacket) (iph : Memory)

theorem Sized_reverseRstAck : (reverseRstAck pid buf iph).Sized := by
  refine ⟨rfl, rfl, ?_⟩
  show (ntohs (htons ((5 + 5) * 4))).toNat = 40
  decide

theorem verifies_allocTcpReverseRstAck :
    Verifies (listMemory (allocTcpReverseRstAck pid buf iph).bytes) :=
  verifies_fillChksums (Sized_reverseRstAck pid buf iph) rfl rfl

/-- What the other stack reads in the answer. -/
structure Reversed (iph q : Memory) : Prop where
  src : srcIpAddr q = destIpAddr iph
  dest : destIpAddr q = srcIpAddr iph
  srcport : (ipPayload q).u16 0 = (ipPayload iph).u16 2
  destport : (ipPayload q).u16 2 = (ipPayload iph).u16 0
  chksum : makeTcpChecksum q = 0xffff

theorem reversed_allocTcpReverseRstAck :
    Reversed iph (listMemory (allocTcpReverseRstAck pid buf iph).bytes) := by
  have hverifies := verifies_allocTcpReverseRstAck pid buf iph
  have hvhl : (allocTcpReverseRstAck pid buf iph).iph.vhl = 0x45 := rfl
  generalize hr : allocTcpReverseRstAck pid buf iph = r at hverifies hvhl ⊢
  have hsrc : r.iph.srcipaddr = destIpAddr iph := by rw [← hr]; rfl
  have hdest : r.iph.destipaddr = srcIpAddr iph := by rw [← hr]; rfl
  have hsrcport : r.tcph.srcport = (ipPayload iph).u16 2 := by rw [← hr]; rfl
  have hdestport : r.tcph.destport = (ipPayload iph).u16 0 := by rw [← hr]; rfl
  have hholds : (listMemory r.bytes).Holds 0 r.bytes := by
    rw [Memory.Holds, window_listMemory (by omega), List.drop_zero, List.take_length]
  obtain ⟨hheads, -⟩ := hholds.split
  obtain ⟨hip, htcp⟩ := hheads.split
  obtain ⟨hip, hdestAt⟩ := hip.split
  obtain ⟨-, hsrcAt⟩ := hip.split
  obtain ⟨htcp, -⟩ := htcp.split
  obtain ⟨htcp, -⟩ := htcp.split
  obtain ⟨htcp, -⟩ := htcp.split
  obtain ⟨htcp, -⟩ := htcp.split
  obtain ⟨htcp, -⟩ := htcp.split
  obtain ⟨htcp, -⟩ := htcp.split
  obtain ⟨hsrcportAt, hdestportAt⟩ := htcp.split
  have hpayload : ipPayload (listMemory r.bytes) = fun i => listMemory r.bytes (20 + i) := by
    unfold ipPayload
    rw [ipHeaderLength_bytes hvhl]
    rfl
  constructor
  · have hv : (listMemory r.bytes).u32 12 = r.iph.srcipaddr.v := hsrcAt.u32
    rw [srcIpAddr, hv, hsrc]
  · have hv : (listMemory r.bytes).u32 16 = r.iph.destipaddr.v := hdestAt.u32
    rw [destIpAddr, hv, hdest]
  · have hv : (ipPayload (listMemory r.bytes)).u16 0 = r.tcph.srcport := by
      rw [hpayload]
      exact hsrcportAt.u16
    rw [hv, hsrcport]
  · have hv : (ipPayload (listMemory r.bytes)).u16 2 = r.tcph.destport := by
      rw [hpayload]
      exact hdestportAt.u16
    rw [hv, hdestport]
  · exact hverifies.2

theorem sequenceLength_lt : sequenceLength iph < 2 ^ 32 := by
  have h := totalLength_lt iph
  rw [sequenceLength]
  split <;> split <;> omega

/-- The packet is the right reset for a segment of length one that has an acknowledgement number
to give, or zero in its place. -/
theorem isReset_iff : IsReset iph (allocTcpReverseRstAck pid buf iph) ↔
    (hasFlag (tcpFlags iph) tcpAck = true ∨ (ipPayload iph).u32 8 = 0) ∧ sequenceLength iph = 1 := by
  have hackno : ntohl (allocTcpReverseRstAck pid buf iph).tcph.ackno32 =
      ntohl ((ipPayload iph).u32 4) + 1 := ntohl_htonl _
  constructor
  · intro h
    have hseq : (ipPayload iph).u32 8 =
        if hasFlag (tcpFlags iph) tcpAck then (ipPayload iph).u32 8 else 0 := h.seqno
    have hadd := hackno.symm.trans h.ackno
    constructor
    · by_cases hack : hasFlag (tcpFlags iph) tcpAck = true
      · exact Or.inl hack
      · rw [if_neg hack] at hseq
        exact Or.inr hseq
    · have hlen := congrArg UInt32.toNat ((UInt32.add_right_inj _).mp hadd)
      rw [UInt32.toNat_ofNat', Nat.mod_eq_of_lt (sequenceLength_lt iph)] at hlen
      exact hlen.symm
  · rintro ⟨hack, hlen⟩
    have hrst : hasFlag (tcpRst ||| tcpAck) tcpRst = true := by decide
    refine ⟨hrst, ?_, ?_, rfl, rfl, rfl, rfl, verifies_allocTcpReverseRstAck pid buf iph⟩
    · show (ipPayload iph).u32 8 = _
      obtain hack | hzero := hack
      · rw [if_pos hack]
      · split
        · rfl
        · exact hzero
    · rw [hackno, hlen]
      rfl

end

theorem answersAsPrescribed_iff {s : Stack} {iph : Memory} (h : s.Misses iph) :
    AnswersAsPrescribed iph (s.answer iph) ↔ AnsweredRight iph := by
  rw [AnswersAsPrescribed, answer_of_misses h]
  by_cases hrst : hasFlag (tcpFlags iph) tcpRst = true
  · rw [if_pos hrst]
    refine iff_of_false (Option.some_ne_none _) fun hr => ?_
    rw [hr.noRst] at hrst
    cases hrst
  · rw [if_neg hrst]
    constructor
    · rintro ⟨r, hr, hreset⟩
      obtain rfl := Option.some.inj hr
      obtain ⟨hack, hlen⟩ := (isReset_iff s.pid s.block iph).mp hreset
      exact ⟨Bool.eq_false_iff.mpr hrst, hack, hlen⟩
    · intro hr
      exact ⟨_, rfl, (isReset_iff s.pid s.block iph).mpr ⟨hr.ack, hr.length⟩⟩

theorem misses_reversed {s : Stack} {iph q : Memory} (h : Reversed iph q) :
    s.Misses q ↔ s.Forgot iph := by
  constructor
  · intro hm
    refine ⟨h.dest.symm.trans hm.dest, ?_, ?_⟩
    · rw [← h.src, ← h.srcport, ← h.destport]
      exact hm.socket
    · rw [← h.destport]
      exact hm.listener
  · intro hf
    refine ⟨h.dest.trans hf.src, h.chksum, ?_, ?_⟩
    · rw [h.src, h.srcport, h.destport]
      exact hf.socket
    · rw [h.destport]
      exact hf.listener

theorem forgot_reversed {s : Stack} {iph q : Memory} (h : Reversed iph q) (hm : s.Misses iph) :
    s.Forgot q := by
  refine ⟨h.src.trans hm.dest, ?_, ?_⟩
  · rw [h.dest, h.srcport, h.destport]
    exact hm.socket
  · rw [h.srcport]
    exact hm.listener

/-- Two stacks that have both forgotten the connection answer each other without end. -/
theorem exchange_ne_none (n : Nat) :
    ∀ {a b : Stack} {iph : Memory}, a.Misses iph → b.Forgot iph → exchange n a b iph ≠ none := by
  induction n with
  | zero => exact fun _ _ => Option.some_ne_none _
  | succ n ih =>
    intro a b iph hm hf
    rw [exchange, answer_of_misses hm, Option.bind_some]
    have hrev := reversed_allocTcpReverseRstAck a.pid a.block iph
    exact ih ((misses_reversed hrev).mpr hf) (forgot_reversed hrev hm)

theorem exchange_ends_iff {a b : Stack} {iph : Memory} (hm : a.Misses iph) :
    (∃ n, exchange n a b iph = none) ↔ ¬ b.Forgot iph := by
  constructor
  · rintro ⟨n, hn⟩ hf
    exact exchange_ne_none n hm hf hn
  · intro hf
    refine ⟨2, ?_⟩
    have hrev := reversed_allocTcpReverseRstAck a.pid a.block iph
    have hnone := answer_none_of_not_misses (fun hb => hf ((misses_reversed hrev).mp hb))
    rw [exchange, answer_of_misses hm, Option.bind_some, exchange, hnone]
    rfl

/-- A segment that belongs to nothing is answered as prescribed, and the answers come to an end,
exactly if it is no reset, carries an acknowledgement number or zero, takes one sequence number,
and the stack it came from still knows its port. -/
theorem reset_generation (a b : Stack) (iph : Memory) (h : a.Misses iph) :
    (AnswersAsPrescribed iph (a.answer iph) ∧ ∃ n, exchange n a b iph = none) ↔
      AnsweredRight iph ∧ ¬ b.Forgot iph :=
  and_congr (answersAsPrescribed_iff h) (exchange_ends_iff h)

/-- A board without connections, with listeners on the given ports. -/
def closedStack (ip : UInt32) (ports : List UInt16) : Stack where
  net :=
    { config := none, tcpPortCounter := 0, tcp := [], udp := [], udpNb := []
      listeners := ports.map fun port =>
        ⟨true, ⟨htons port, ⟨0, Vector.replicate numberOfQ ⟨⟨0⟩, 0, 0, 0⟩⟩⟩⟩ }
  config := ⟨⟨htonl ip⟩, 1460⟩
  pid := 0
  block := ⟨⟨0, 0, 0, 0, 0, 0, 0, 0, ⟨0⟩, ⟨0⟩⟩, ⟨0, 0, 0, 0, 0, 0, 0, 0, 0⟩, []⟩

/-- A segment without data from 192.168.0.7 port 7 to 192.168.0.2 port 80. -/
def bareSegment (flags : UInt8) : Memory :=
  let p : TxPacket :=
    { iph := ⟨0x45, 0, htons 40, 0, 0, 64, uipProtoTcp, 0, ⟨htonl 0xc0a80007⟩, ⟨htonl 0xc0a80002⟩⟩
      tcph := ⟨htons 7, htons 80, htonl 100, 0, 0x50, flags, 0, 0, 0⟩
      body := [] }
  listMemory p.fillTcpChksum.fillIpChksum.bytes

theorem misses_bareSegment_syn : (closedStack 0xc0a80002 []).Misses (bareSegment tcpSyn) := by
  constructor <;> decide +kernel

theorem misses_bareSegment_rst : (closedStack 0xc0a80002 []).Misses (bareSegment tcpRst) := by
  constructor <;> decide +kernel

/-- A SYN to a closed port. -/
theorem reset_generation_syn :
    AnswersAsPrescribed (bareSegment tcpSyn)
        ((closedStack 0xc0a80002 []).answer (bareSegment tcpSyn)) ∧
      ∃ n, exchange n (closedStack 0xc0a80002 []) (closedStack 0xc0a80007 [7]) (bareSegment tcpSyn) =
        none := by
  have hiff := reset_generation (closedStack 0xc0a80002 []) (closedStack 0xc0a80007 [7])
    (bareSegment tcpSyn) misses_bareSegment_syn
  refine hiff.mpr ⟨⟨by decide +kernel, by decide +kernel, by decide +kernel⟩, fun hf => ?_⟩
  exact absurd hf.listener (by decide +kernel)

/-- A reset between two boards that both have closed ports is answered without end. -/
theorem not_reset_generation : ¬ ∀ (a b : Stack) (iph : Memory), a.Misses iph →
    AnswersAsPrescribed iph (a.answer iph) ∧ ∃ n, exchange n a b iph = none := by
  intro h
  obtain ⟨-, n, hn⟩ := h _ (closedStack 0xc0a80007 []) _ misses_bareSegment_rst
  have hforgot : (closedStack 0xc0a80007 []).Forgot (bareSegment tcpRst) := by
    constructor <;> decide +kernel
  exact exchange_ne_none n misses_bareSegment_rst hforgot hn

end MiMic.NetIf
