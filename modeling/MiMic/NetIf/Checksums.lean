import MiMic.NetIf.Receive
import MiMic.Tcp.Checksum

/-!
# The checksums of both directions

The accumulator folds carries as it goes; a receiver compares what it accumulates with all
ones. Every packet that the TCP and UDP writers finish passes both tests of a receiver.
-/
namespace MiMic.NetIf

open Verif MiMic.Tcp

structure UdpHeader where
  srcport : UInt16
  destport : UInt16
  udplen : UInt16
  udpchksum : UInt16

/-- The part of `uip_udp_conn` that the headers take; the port is in network order. -/
structure UdpConn where
  lipaddr : IPv4Addr
  lport : UInt16

/-- The content of a UDP transmit buffer: both headers and the payload behind them. -/
structure UdpPacket where
  iph : IPv4Header
  udph : UdpHeader
  body : List UInt8

def UdpHeader.bytes (h : UdpHeader) : List UInt8 :=
  u16Bytes h.srcport ++ u16Bytes h.destport ++ u16Bytes h.udplen ++ u16Bytes h.udpchksum

namespace UdpPacket

def bytes (p : UdpPacket) : List UInt8 := p.iph.bytes ++ p.udph.bytes ++ p.body

/-- `udpchksum = ~makeTcpChecksum(header)`. -/
def fillUdpChksum (p : UdpPacket) : UdpPacket :=
  { p with udph := { p.udph with udpchksum := ~~~ makeTcpChecksum (listMemory p.bytes) } }

def fillIpChksum (p : UdpPacket) : UdpPacket :=
  { p with iph := { p.iph with ipchksum := ~~~ makeIpChecksum (listMemory p.bytes) } }

end UdpPacket

/-- The packet of `setUdpTxBufHeader` before its checksums, for the header of five words
that both callers ask for. -/
def writeUdpTxBufHeader (conn : UdpConn) (pid : UInt16) (buf : UdpPacket) (destIp : IPv4Addr)
    (destPort payloadSize : UInt16) : UdpPacket where
  iph := writeTxIpHeader
    { buf.iph with
      vhl := 0x45
      len16 := htons (payloadSize + (5 * 4 + 8))
      destipaddr := destIp
      srcipaddr := conn.lipaddr }
    uipProtoUdp pid
  udph := { srcport := conn.lport
            destport := htons destPort
            udplen := htons (payloadSize + 8)
            udpchksum := 0 }
  body := buf.body

def setUdpTxBufHeader (conn : UdpConn) (pid : UInt16) (buf : UdpPacket) (destIp : IPv4Addr)
    (destPort payloadSize : UInt16) : UdpPacket :=
  (writeUdpTxBufHeader conn pid buf destIp destPort payloadSize).fillUdpChksum.fillIpChksum

/-- The IP header of a packet. -/
def ipHeaderBytes (iph : Memory) : List UInt8 := iph.window 0 (4 * ihl iph)

def segmentLength (iph : Memory) : Nat := totalLength iph - 4 * ihl iph

/-- The bytes behind the IP header. -/
def segmentBytes (iph : Memory) : List UInt8 := iph.window (4 * ihl iph) (segmentLength iph)

/-- Addresses, a zero byte, the protocol and the length of the segment. -/
def pseudoHeader (iph : Memory) : List UInt8 :=
  iph.window 12 8 ++ [0, iph 9] ++
    [UInt8.ofNat (segmentLength iph / 256), UInt8.ofNat (segmentLength iph)]

/-- The header ends within the packet. It has its five words, or the packet is as short as
every one that arrives in an Ethernet frame. -/
structure IsPacket (iph : Memory) : Prop where
  header_le : 4 * ihl iph ≤ totalLength iph
  sized : 5 ≤ ihl iph ∨ totalLength iph ≤ 65518

/-- The protocols whose checksum covers a pseudo header. -/
def HasPseudoHeader (iph : Memory) : Prop := iph 9 = uipProtoTcp ∨ iph 9 = uipProtoUdp

theorem toNat_proto_le {iph : Memory} (h : HasPseudoHeader iph) :
    0 < (iph 9).toNat ∧ (iph 9).toNat ≤ 17 := by
  obtain h | h := h <;> rw [h] <;> decide

theorem totalLength_lt (iph : Memory) : totalLength iph < 65536 := by
  rw [← ipPacketLength_eq]
  exact (ipPacketLength iph).toNat_lt

/-- The accumulator of the library is the sum with its carries folded in. -/
theorem uipChksum_eq_foldCarries (sum : UInt16) (data : List UInt8) :
    (uipChksum sum data).toNat =
      OnesComplement.foldCarries (sum.toNat + OnesComplement.wordTotal data) := by
  have hlt := sum.toNat_lt
  rw [OnesComplement.foldCarries_eq]
  apply toNat_uipChksum
  exact (OnesComplement.normalize_of_le (by omega)).symm

/-- Pieces are accumulated one after the other, each from its own first word on. -/
theorem foldl_uipChksum (sum : UInt16) (pieces : List (List UInt8)) :
    (pieces.foldl uipChksum sum).toNat =
      OnesComplement.foldCarries (sum.toNat + (pieces.map OnesComplement.wordTotal).sum) := by
  rw [OnesComplement.foldCarries_eq]
  suffices h : ∀ (s : UInt16) (n : Nat), s.toNat = OnesComplement.normalize n →
      (pieces.foldl uipChksum s).toNat =
        OnesComplement.normalize (n + (pieces.map OnesComplement.wordTotal).sum) by
    have hlt := sum.toNat_lt
    exact h sum sum.toNat (OnesComplement.normalize_of_le (by omega)).symm
  induction pieces with
  | nil => intro s n h; simpa using h
  | cons piece pieces ih =>
    intro s n h
    rw [List.foldl_cons, ih _ _ (toNat_uipChksum piece s n h), List.map_cons, List.sum_cons,
      Nat.add_assoc]

theorem wordTotal_pseudoHeader {iph : Memory} :
    OnesComplement.wordTotal (pseudoHeader iph) =
      OnesComplement.wordTotal (iph.window 12 8) + (iph 9).toNat + segmentLength iph := by
  have hlt := totalLength_lt iph
  have hle : segmentLength iph < 65536 := by
    unfold segmentLength
    omega
  unfold pseudoHeader
  rw [OnesComplement.wordTotal_append _ (by simp), OnesComplement.wordTotal_append _ (by simp)]
  simp only [OnesComplement.wordTotal, UInt8.toNat_ofNat']
  show _ + (0 * 256 + (iph 9).toNat + 0) + _ = _
  omega

/-- The sum that a receiver compares: over the pseudo header and the segment. -/
def segmentTotal (iph : Memory) : Nat :=
  OnesComplement.wordTotal (pseudoHeader iph ++ segmentBytes iph)

theorem segmentTotal_eq (iph : Memory) :
    segmentTotal iph = OnesComplement.wordTotal (iph.window 12 8) + (iph 9).toNat +
      segmentLength iph + OnesComplement.wordTotal (segmentBytes iph) := by
  rw [segmentTotal, OnesComplement.wordTotal_append _ (by simp [pseudoHeader]),
    wordTotal_pseudoHeader]

/-- As the source notes, adding the protocol to the length does not carry. -/
theorem makeTcpChecksum_eq {iph : Memory} (h : IsPacket iph) (hp : HasPseudoHeader iph) :
    ∃ sum : UInt16, sum.toNat = OnesComplement.normalize (segmentTotal iph) ∧
      makeTcpChecksum iph = if sum = 0 then 0xffff else htons sum := by
  obtain ⟨-, hproto⟩ := toNat_proto_le hp
  have hlt := totalLength_lt iph
  have hle := h.header_le
  have hhl := ipHeaderLength_eq iph
  have hlen : (ipPacketLength iph - ipHeaderLength iph).toNat = segmentLength iph := by
    rw [UInt16.toNat_sub_of_le _ _ (by rw [UInt16.le_iff_toNat_le, ipPacketLength_eq, hhl]; exact hle),
      ipPacketLength_eq, hhl]
    rfl
  have hfit : segmentLength iph + (iph 9).toNat < 65536 := by
    have hsized := h.sized
    unfold segmentLength
    omega
  have hstart : (ipPacketLength iph - ipHeaderLength iph + (iph 9).toUInt16).toNat =
      OnesComplement.normalize (segmentLength iph + (iph 9).toNat) := by
    rw [OnesComplement.normalize_of_le (by omega), UInt16.toNat_add, hlen, UInt8.toNat_toUInt16]
    omega
  refine ⟨uipChksum (uipChksum (ipPacketLength iph - ipHeaderLength iph + (iph 9).toUInt16)
    (iph.window 12 8)) (segmentBytes iph), ?_, ?_⟩
  · rw [toNat_uipChksum _ _ _ (toNat_uipChksum _ _ _ hstart), segmentTotal_eq]
    apply congrArg
    omega
  · unfold makeTcpChecksum segmentBytes
    rw [← hlen, ← hhl]

theorem htons_eq_ones (sum : UInt16) : htons sum = 0xffff ↔ sum = 0xffff := by
  constructor
  · intro h
    rw [← ntohs_htons sum, h]
    decide
  · rintro rfl
    exact htons_ones

/-- A checksum function reports all ones when the accumulated sum is all ones, and also when it
is zero. -/
theorem report_eq_ones {sum : UInt16} {n : Nat} (hs : sum.toNat = OnesComplement.normalize n)
    (hn : 0 < n) :
    (if sum = 0 then 0xffff else htons sum) = (0xffff : UInt16) ↔
      OnesComplement.normalize n = 65535 := by
  have hpos := OnesComplement.normalize_pos hn
  have hne : sum ≠ 0 := by
    rintro rfl
    rw [← hs] at hpos
    exact absurd hpos (by decide)
  rw [if_neg hne, htons_eq_ones, ← hs]
  exact UInt16.toNat_inj.symm

theorem segmentTotal_pos {iph : Memory} (hp : HasPseudoHeader iph) : 0 < segmentTotal iph := by
  have hproto := (toNat_proto_le hp).1
  rw [segmentTotal_eq]
  omega

theorem makeTcpChecksum_iff {iph : Memory} (h : IsPacket iph) (hp : HasPseudoHeader iph) :
    makeTcpChecksum iph = 0xffff ↔
      OnesComplement.foldCarries (segmentTotal iph) = 65535 := by
  obtain ⟨sum, hsum, hc⟩ := makeTcpChecksum_eq h hp
  rw [hc, OnesComplement.foldCarries_eq]
  exact report_eq_ones hsum (segmentTotal_pos hp)

theorem makeIpChecksum_eq (iph : Memory) :
    ∃ sum : UInt16,
      sum.toNat = OnesComplement.normalize (OnesComplement.wordTotal (ipHeaderBytes iph)) ∧
      makeIpChecksum iph = if sum = 0 then 0xffff else htons sum := by
  refine ⟨uipChksum 0 (ipHeaderBytes iph), ?_, ?_⟩
  · have h := toNat_uipChksum (ipHeaderBytes iph) 0 0 rfl
    rwa [Nat.zero_add] at h
  · unfold makeIpChecksum ipHeaderBytes
    rw [ipHeaderLength_eq]

theorem wordTotal_pos {data : List UInt8} (h : ∃ b ∈ data, b ≠ 0) :
    0 < OnesComplement.wordTotal data := by
  have hpos : ∀ b : UInt8, b ≠ 0 → 0 < b.toNat := by
    intro b hb
    apply Nat.pos_of_ne_zero
    intro h0
    exact hb (UInt8.toNat_inj.mp h0)
  obtain ⟨b, hb, hne⟩ := h
  have hb0 := hpos b hne
  induction data using OnesComplement.wordTotal.induct with
  | case1 => cases hb
  | case2 a =>
    rw [List.mem_singleton] at hb
    rw [OnesComplement.wordTotal, ← hb]
    omega
  | case3 a c rest ih =>
    rw [OnesComplement.wordTotal]
    obtain rfl | rfl | hrest : b = a ∨ b = c ∨ b ∈ rest := by simpa using hb
    · omega
    · omega
    · have hr := ih hrest
      omega

theorem isCorrectIpCheckSum_iff {iph : Memory} (h : ∃ b ∈ ipHeaderBytes iph, b ≠ 0) :
    isCorrectIpCheckSum iph = true ↔
      OnesComplement.foldCarries (OnesComplement.wordTotal (ipHeaderBytes iph)) = 65535 := by
  obtain ⟨sum, hsum, hc⟩ := makeIpChecksum_eq iph
  rw [isCorrectIpCheckSum, beq_iff_eq, hc, OnesComplement.foldCarries_eq]
  exact report_eq_ones hsum (wordTotal_pos h)

/-- A packet as its writer leaves it: a header of five words, then `rest`, as long as the
length field says. -/
structure Built (h : IPv4Header) (rest : List UInt8) : Prop where
  vhl_eq : h.vhl = 0x45
  len_eq : (ntohs h.len16).toNat = 20 + rest.length

section

variable {h : IPv4Header} {rest : List UInt8}

theorem ihl_built (hb : Built h rest) : ihl (listMemory (h.bytes ++ rest)) = 5 := by
  have h0 : listMemory (h.bytes ++ rest) 0 = h.vhl := rfl
  rw [ihl, h0, hb.vhl_eq]
  rfl

theorem totalLength_built (hb : Built h rest) :
    totalLength (listMemory (h.bytes ++ rest)) = 20 + rest.length := by
  have hu : (listMemory (h.bytes ++ rest)).u16 2 = h.len16 :=
    u16_listMemory_u16Bytes [h.vhl, h.tos] (h.bytes.drop 4 ++ rest) h.len16
  rw [← hb.len_eq, ← ipPacketLength_eq, ipPacketLength, hu]

theorem isPacket_built (hb : Built h rest) : IsPacket (listMemory (h.bytes ++ rest)) := by
  refine ⟨?_, Or.inl (Nat.le_of_eq (ihl_built hb).symm)⟩
  rw [ihl_built hb, totalLength_built hb]
  omega

theorem segmentLength_built (hb : Built h rest) :
    segmentLength (listMemory (h.bytes ++ rest)) = rest.length := by
  rw [segmentLength, ihl_built hb, totalLength_built hb]
  omega

theorem segmentBytes_built (hb : Built h rest) :
    segmentBytes (listMemory (h.bytes ++ rest)) = rest := by
  rw [segmentBytes, segmentLength_built hb, ihl_built hb, window_listMemory]
  · rw [show 4 * 5 = h.bytes.length from rfl, List.drop_left, List.take_length]
  · rw [List.length_append, IPv4Header.length_bytes]

theorem ipHeaderBytes_built (hb : Built h rest) :
    ipHeaderBytes (listMemory (h.bytes ++ rest)) = h.bytes := by
  rw [ipHeaderBytes, ihl_built hb, window_listMemory]
  · rw [List.drop_zero, show 4 * 5 = h.bytes.length from rfl, List.take_left]
  · rw [List.length_append, IPv4Header.length_bytes]
    omega

theorem segmentTotal_built (hb : Built h rest) :
    segmentTotal (listMemory (h.bytes ++ rest)) =
      OnesComplement.wordTotal (u32Bytes h.srcipaddr.v ++ u32Bytes h.destipaddr.v) +
        h.proto.toNat + rest.length + OnesComplement.wordTotal rest := by
  rw [segmentTotal_eq, segmentLength_built hb, segmentBytes_built hb]
  rfl

/-- The words of an IP header, its checksum apart. -/
theorem wordTotal_ipHeader (h : IPv4Header) :
    OnesComplement.wordTotal h.bytes =
      OnesComplement.wordTotal { h with ipchksum := 0 }.bytes + (ntohs h.ipchksum).toNat := by
  have hz : OnesComplement.wordTotal (u16Bytes 0) = 0 := rfl
  have hsplit : ∀ g : IPv4Header, OnesComplement.wordTotal g.bytes =
      OnesComplement.wordTotal (g.bytes.take 10) + OnesComplement.wordTotal (u16Bytes g.ipchksum) +
        OnesComplement.wordTotal (g.bytes.drop 12) := by
    intro g
    have hg : g.bytes = (g.bytes.take 10 ++ u16Bytes g.ipchksum) ++ g.bytes.drop 12 := rfl
    conv_lhs => rw [hg]
    rw [OnesComplement.wordTotal_append _ (by simp), OnesComplement.wordTotal_append _ (by simp)]
  rw [hsplit h, hsplit { h with ipchksum := 0 }, hz, wordTotal_u16Bytes, Nat.add_zero]
  exact Nat.add_right_comm _ _ _

/-- The complement of what a checksum function reports completes the sum to all ones. -/
theorem foldCarries_complement {sum : UInt16} {n : Nat}
    (hs : sum.toNat = OnesComplement.normalize n) (hn : 0 < n) :
    OnesComplement.foldCarries
      (n + (ntohs (~~~ (if sum = 0 then 0xffff else htons sum))).toNat) = 65535 := by
  have hpos := OnesComplement.normalize_pos hn
  have hne : sum ≠ 0 := by
    rintro rfl
    rw [← hs] at hpos
    exact absurd hpos (by decide)
  rw [if_neg hne, ntohs_complement, hs, OnesComplement.foldCarries_eq]
  exact OnesComplement.normalize_complement hn

/-- The IP header verifies once its checksum is filled in from a zero field. -/
theorem isCorrectIpCheckSum_fill (hb : Built h rest) (h0 : h.ipchksum = 0) :
    isCorrectIpCheckSum (listMemory
      ({ h with ipchksum := ~~~ makeIpChecksum (listMemory (h.bytes ++ rest)) }.bytes ++ rest)) =
        true := by
  obtain ⟨sum, hsum, hc⟩ := makeIpChecksum_eq (listMemory (h.bytes ++ rest))
  rw [ipHeaderBytes_built hb] at hsum
  have hvhl : ∃ b ∈ h.bytes, b ≠ 0 := ⟨h.vhl, List.mem_cons_self, by rw [hb.vhl_eq]; decide⟩
  have hfill : Built { h with ipchksum := ~~~ makeIpChecksum (listMemory (h.bytes ++ rest)) } rest :=
    ⟨hb.vhl_eq, hb.len_eq⟩
  have hzero : { h with ipchksum := 0 } = h := by rw [← h0]
  rw [isCorrectIpCheckSum_iff]
  · rw [ipHeaderBytes_built hfill, wordTotal_ipHeader]
    simp only [hzero, hc]
    exact foldCarries_complement hsum (wordTotal_pos hvhl)
  · rw [ipHeaderBytes_built hfill]
    exact ⟨h.vhl, List.mem_cons_self, by rw [hb.vhl_eq]; decide⟩

end

/-- What a receiver tests of a packet. -/
def Verifies (iph : Memory) : Prop :=
  isCorrectIpCheckSum iph = true ∧ makeTcpChecksum iph = 0xffff

theorem built_of_sized {p : TxPacket} (h : p.Sized) : Built p.iph (p.tcph.bytes ++ p.body) := by
  refine ⟨h.vhl_eq, ?_⟩
  rw [h.len_eq, List.length_append, TcpHeader.length_bytes]
  omega

theorem iph_fillTcpChksum (p : TxPacket) : p.fillTcpChksum.iph = p.iph := by
  rw [TxPacket.fillTcpChksum]

theorem body_fillTcpChksum (p : TxPacket) : p.fillTcpChksum.body = p.body := by
  rw [TxPacket.fillTcpChksum]

theorem verifies_fillChksums {p : TxPacket} (h : p.Sized) (hip : p.iph.ipchksum = 0)
    (htcp : p.tcph.tcpchksum = 0) : Verifies (listMemory p.fillTcpChksum.fillIpChksum.bytes) := by
  constructor
  · have hb := built_of_sized (Sized_fillTcpChksum h)
    rw [iph_fillTcpChksum, body_fillTcpChksum] at hb
    have hip' := isCorrectIpCheckSum_fill hb hip
    have hbytes : p.fillTcpChksum.bytes = p.iph.bytes ++ (p.fillTcpChksum.tcph.bytes ++ p.body) :=
      List.append_assoc _ _ _
    have hfilled : p.fillTcpChksum.fillIpChksum.bytes =
        { p.iph with ipchksum := ~~~ makeIpChecksum (listMemory p.fillTcpChksum.bytes) }.bytes ++
          (p.fillTcpChksum.tcph.bytes ++ p.body) := List.append_assoc _ _ _
    rw [← hbytes] at hip'
    rw [hfilled]
    exact hip'
  · exact chksumVerifies_fillChksums h htcp

/-- The checksums have their place in the headers. -/
theorem length_bytes_fillChksums (p : TxPacket) :
    p.fillTcpChksum.fillIpChksum.bytes.length = p.bytes.length := by
  simp only [TxPacket.bytes, TxPacket.fillIpChksum, TxPacket.fillTcpChksum, List.length_append,
    IPv4Header.length_bytes, TcpHeader.length_bytes]

theorem verifies_setTxPacket (sock : TcpSocket) (pid : UInt16) (buf : TxPacket) (tcpf : UInt8)
    (data : List UInt8) (h : (setTxPacket sock pid buf tcpf data).bytes.length < 65536) :
    Verifies (listMemory (setTxPacket sock pid buf tcpf data).bytes) := by
  rw [setTxPacket, length_bytes_fillChksums] at h
  exact verifies_fillChksums (Sized_writeTxPacket_of_fits sock pid buf tcpf h) rfl rfl

theorem verifies_setTxPacketHeader (sock : TcpSocket) (pid : UInt16) (buf : TxPacket) (tcpf : UInt8)
    (h : buf.bytes.length < 65536) :
    Verifies (listMemory
      (setTxPacketHeader sock pid buf tcpf (UInt16.ofNat buf.body.length)).bytes) :=
  verifies_fillChksums (Sized_writeTxPacketHeader_of_fits sock pid buf tcpf h) rfl rfl

section

variable {p : UdpPacket}

theorem wordTotal_udpSegment (h : UdpHeader) (body : List UInt8) :
    OnesComplement.wordTotal (h.bytes ++ body) =
      OnesComplement.wordTotal ({ h with udpchksum := 0 }.bytes ++ body) +
        (ntohs h.udpchksum).toNat := by
  have hsplit : ∀ g : UdpHeader, OnesComplement.wordTotal (g.bytes ++ body) =
      OnesComplement.wordTotal (g.bytes.take 6) + OnesComplement.wordTotal (u16Bytes g.udpchksum) +
        OnesComplement.wordTotal body := by
    intro g
    have hg : g.bytes ++ body = (g.bytes.take 6 ++ u16Bytes g.udpchksum) ++ body := rfl
    rw [hg, OnesComplement.wordTotal_append _ (by simp [UdpHeader.bytes]),
      OnesComplement.wordTotal_append _ (by simp [UdpHeader.bytes])]
  have hz : OnesComplement.wordTotal (u16Bytes 0) = 0 := rfl
  rw [hsplit h, hsplit { h with udpchksum := 0 }, hz, wordTotal_u16Bytes, Nat.add_zero]
  exact Nat.add_right_comm _ _ _

theorem bytes_udp (p : UdpPacket) : p.bytes = p.iph.bytes ++ (p.udph.bytes ++ p.body) :=
  List.append_assoc _ _ _

/-- A UDP packet filled in from zero fields passes both tests. -/
theorem verifies_fillUdpChksums (hb : Built p.iph (p.udph.bytes ++ p.body))
    (hproto : p.iph.proto = uipProtoUdp) (hip : p.iph.ipchksum = 0) (hudp : p.udph.udpchksum = 0) :
    Verifies (listMemory p.fillUdpChksum.fillIpChksum.bytes) := by
  have hb' : Built p.iph (p.fillUdpChksum.udph.bytes ++ p.body) := ⟨hb.vhl_eq, hb.len_eq⟩
  have hbf : Built p.fillUdpChksum.fillIpChksum.iph (p.fillUdpChksum.udph.bytes ++ p.body) :=
    ⟨hb.vhl_eq, hb.len_eq⟩
  constructor
  · have hip' := isCorrectIpCheckSum_fill hb' hip
    have hbytes : p.fillUdpChksum.bytes = p.iph.bytes ++ (p.fillUdpChksum.udph.bytes ++ p.body) :=
      bytes_udp p.fillUdpChksum
    rw [← hbytes] at hip'
    rw [bytes_udp]
    exact hip'
  · have hp : ∀ q : UdpPacket, q.iph.proto = uipProtoUdp → HasPseudoHeader (listMemory q.bytes) :=
      fun q hq => Or.inr hq
    have hpacket := isPacket_built hb
    have hpacketf := isPacket_built hbf
    rw [← bytes_udp] at hpacket
    have hp0 := hp p hproto
    have hpf := hp p.fillUdpChksum.fillIpChksum hproto
    obtain ⟨sum, hsum, hc⟩ := makeTcpChecksum_eq hpacket hp0
    have hpos := segmentTotal_pos hp0
    have hzero : { p.udph with udpchksum := 0 } = p.udph := by rw [← hudp]
    have hfield : p.fillUdpChksum.udph.udpchksum = ~~~ makeTcpChecksum (listMemory p.bytes) := rfl
    have htotal : segmentTotal (listMemory p.fillUdpChksum.fillIpChksum.bytes) =
        segmentTotal (listMemory p.bytes) + (ntohs p.fillUdpChksum.udph.udpchksum).toNat := by
      rw [bytes_udp p.fillUdpChksum.fillIpChksum, bytes_udp p, segmentTotal_built hb]
      have h := segmentTotal_built hbf
      have hw := wordTotal_udpSegment p.fillUdpChksum.udph p.body
      have hu : { p.fillUdpChksum.udph with udpchksum := 0 } = p.udph := hzero
      rw [hu] at hw
      rw [hw, ← Nat.add_assoc] at h
      exact h
    rw [makeTcpChecksum_iff (bytes_udp p.fillUdpChksum.fillIpChksum ▸ hpacketf) hpf, htotal, hfield,
      hc]
    exact foldCarries_complement hsum hpos

theorem verifies_setUdpTxBufHeader (conn : UdpConn) (pid : UInt16) (buf : UdpPacket)
    (destIp : IPv4Addr) (destPort : UInt16) (h : buf.bytes.length < 65536) :
    Verifies (listMemory
      (setUdpTxBufHeader conn pid buf destIp destPort (UInt16.ofNat buf.body.length)).bytes) := by
  apply verifies_fillUdpChksums
  · refine ⟨rfl, ?_⟩
    have hlen : buf.bytes.length = 28 + buf.body.length := by
      rw [UdpPacket.bytes, List.length_append]
      rfl
    simp only [writeUdpTxBufHeader, writeTxIpHeader, ntohs_htons, List.length_append]
    show (UInt16.ofNat buf.body.length + 28).toNat = 20 + (8 + buf.body.length)
    rw [UInt16.toNat_add, UInt16.toNat_ofNat']
    show (buf.body.length % 2 ^ 16 + 28) % 2 ^ 16 = 20 + (8 + buf.body.length)
    omega
  · rfl
  · rfl
  · rfl

end

/-- A string that comes in pieces, all but the last of an even length. -/
theorem foldl_uipChksum_flatten (sum : UInt16) (pieces : List (List UInt8))
    (h : ∀ piece ∈ pieces.dropLast, piece.length % 2 = 0) : (pieces.foldl uipChksum sum).toNat =
      OnesComplement.foldCarries (sum.toNat + OnesComplement.wordTotal pieces.flatten) := by
  rw [foldl_uipChksum, OnesComplement.wordTotal_flatten h]

/-- The accumulator computes the one's-complement sum, of pieces too if they end between two
words; finished packets verify; and a receiver accepts what adds up to all ones. -/
theorem checksums_correct :
    (∀ (sum : UInt16) (data : List UInt8), (uipChksum sum data).toNat =
      OnesComplement.foldCarries (sum.toNat + OnesComplement.wordTotal data)) ∧
    (∀ (sum : UInt16) (pieces : List (List UInt8)),
      (∀ piece ∈ pieces.dropLast, piece.length % 2 = 0) → (pieces.foldl uipChksum sum).toNat =
        OnesComplement.foldCarries (sum.toNat + OnesComplement.wordTotal pieces.flatten)) ∧
    (∀ (sock : TcpSocket) (pid : UInt16) (buf : TxPacket) (tcpf : UInt8) (data : List UInt8),
      (setTxPacket sock pid buf tcpf data).bytes.length < 65536 →
        Verifies (listMemory (setTxPacket sock pid buf tcpf data).bytes)) ∧
    (∀ (sock : TcpSocket) (pid : UInt16) (buf : TxPacket) (tcpf : UInt8),
      buf.bytes.length < 65536 →
        Verifies (listMemory
          (setTxPacketHeader sock pid buf tcpf (UInt16.ofNat buf.body.length)).bytes)) ∧
    (∀ (conn : UdpConn) (pid : UInt16) (buf : UdpPacket) (destIp : IPv4Addr) (destPort : UInt16),
      buf.bytes.length < 65536 →
        Verifies (listMemory (setUdpTxBufHeader conn pid buf destIp destPort
          (UInt16.ofNat buf.body.length)).bytes)) ∧
    (∀ iph, IsPacket iph → HasPseudoHeader iph →
      (makeTcpChecksum iph = 0xffff ↔ OnesComplement.foldCarries
        (OnesComplement.wordTotal (pseudoHeader iph ++ segmentBytes iph)) = 65535)) ∧
    (∀ iph, (∃ b ∈ ipHeaderBytes iph, b ≠ 0) →
      (isCorrectIpCheckSum iph = true ↔ OnesComplement.foldCarries
        (OnesComplement.wordTotal (ipHeaderBytes iph)) = 65535)) := by
  refine ⟨uipChksum_eq_foldCarries, foldl_uipChksum_flatten, ?_, ?_, ?_, ?_, ?_⟩
  · exact verifies_setTxPacket
  · exact verifies_setTxPacketHeader
  · exact verifies_setUdpTxBufHeader
  · exact fun iph h hp => makeTcpChecksum_iff h hp
  · exact fun iph h => isCorrectIpCheckSum_iff h

/-- A buffer of zeros with an odd payload behind the headers. -/
def zeroedTcpBuf : TxPacket :=
  ⟨⟨0, 0, 0, 0, 0, 0, 0, 0, ⟨0⟩, ⟨0⟩⟩, ⟨0, 0, 0, 0, 0, 0, 0, 0, 0⟩, [0x41, 0x42, 0x43]⟩

def zeroedUdpBuf : UdpPacket :=
  ⟨⟨0, 0, 0, 0, 0, 0, 0, 0, ⟨0⟩, ⟨0⟩⟩, ⟨0, 0, 0, 0⟩, [0x41, 0x42, 0x43]⟩

def queryPacket : List UInt8 :=
  (setUdpTxBufHeader ⟨⟨0x2700a8c0⟩, 0xe914⟩ 0x3939 zeroedUdpBuf ⟨0xfb0000e0⟩ 5353 3).bytes

theorem checksums_correct_board :
    ([[0xff, 0xfe], [0x00, 0x02], [0x41]].foldl uipChksum 1).toNat =
      OnesComplement.foldCarries (1 + OnesComplement.wordTotal [0xff, 0xfe, 0x00, 0x02, 0x41]) ∧
    Verifies (listMemory (setTxPacket World.zeroed.sock 0x3939 zeroedTcpBuf tcpSyn []).bytes) ∧
    Verifies (listMemory (setTxPacketHeader World.zeroed.sock 0x3939 zeroedTcpBuf tcpAck 3).bytes) ∧
    Verifies (listMemory queryPacket) ∧
    OnesComplement.foldCarries (OnesComplement.wordTotal
      (pseudoHeader (listMemory queryPacket) ++ segmentBytes (listMemory queryPacket))) = 65535 ∧
    OnesComplement.foldCarries
      (OnesComplement.wordTotal (ipHeaderBytes (listMemory queryPacket))) = 65535 := by
  obtain ⟨-, hpieces, hsyn, hack, hudp, hseg, hip⟩ := checksums_correct
  have hquery : Verifies (listMemory queryPacket) :=
    hudp ⟨⟨0x2700a8c0⟩, 0xe914⟩ 0x3939 zeroedUdpBuf ⟨0xfb0000e0⟩ 5353 (by decide)
  have hpacket : IsPacket (listMemory queryPacket) := ⟨by decide +kernel, Or.inl (by decide +kernel)⟩
  have hsent := hsyn World.zeroed.sock 0x3939 zeroedTcpBuf tcpSyn [] (by decide +kernel)
  have hanswer := hack World.zeroed.sock 0x3939 zeroedTcpBuf tcpAck (by decide)
  refine ⟨hpieces 1 [[0xff, 0xfe], [0x00, 0x02], [0x41]] (by decide), hsent, hanswer, hquery, ?_, ?_⟩
  · exact (hseg _ hpacket (Or.inr (by decide +kernel))).mp hquery.2
  · exact (hip _ ⟨0x45, List.mem_of_elem_eq_true (by decide +kernel), by decide⟩).mp hquery.1

/-- The bytes 1 and 2 in two pieces count as two words. -/
theorem odd_piece_padded : ¬ ∀ (sum : UInt16) (pieces : List (List UInt8)),
    (pieces.foldl uipChksum sum).toNat =
      OnesComplement.foldCarries (sum.toNat + OnesComplement.wordTotal pieces.flatten) := by
  intro h
  have heq := h 0 [[1], [2]]
  rw [foldl_uipChksum, OnesComplement.foldCarries_eq, OnesComplement.foldCarries_eq] at heq
  exact absurd heq (by decide)

end MiMic.NetIf
