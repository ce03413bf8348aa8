import MiMic.Tcp.Socket

/-!
# Packets that verify

A packet whose length field covers exactly its bytes verifies once its checksum
field is the complement of the sum taken with that field zero. Both packet
writers and the in-place change of the acknowledgement number end that way.
-/
namespace MiMic.Tcp

open Verif

/-- The fields that the checksum code relies on. -/
structure TxPacket.Sized (p : TxPacket) : Prop where
  vhl_eq : p.iph.vhl = 0x45
  proto_eq : p.iph.proto = uipProtoTcp
  len_eq : (ntohs p.iph.len16).toNat = 40 + p.body.length

/-- The bytes that the TCP checksum covers behind the pseudo header, the field itself left out. -/
def TxPacket.chksumTotal (p : TxPacket) : Nat :=
  20 + p.body.length + p.iph.proto.toNat +
    OnesComplement.wordTotal (u32Bytes p.iph.srcipaddr.v ++ u32Bytes p.iph.destipaddr.v) +
    OnesComplement.wordTotal p.tcph.front + OnesComplement.wordTotal (u16Bytes p.tcph.urgp ++ p.body)

theorem u16_listMemory_u16Bytes (pre post : List UInt8) (n : UInt16) :
    (listMemory (pre ++ u16Bytes n ++ post)).u16 pre.length = n := by
  have hn := n.toNat_lt
  have h0 : listMemory (pre ++ u16Bytes n ++ post) pre.length = UInt8.ofNat n.toNat := by
    simp [listMemory, u16Bytes, List.getD_eq_getElem?_getD]
  have h1 : listMemory (pre ++ u16Bytes n ++ post) (pre.length + 1) =
      UInt8.ofNat (n.toNat / 256) := by
    simp [listMemory, u16Bytes, List.getD_eq_getElem?_getD]
  apply UInt16.toNat_inj.mp
  rw [Memory.u16, h0, h1]
  simp only [UInt16.toNat_ofNat', UInt8.toNat_ofNat']
  omega

theorem ipHeaderLength_bytes {p : TxPacket} (h : p.iph.vhl = 0x45) :
    ipHeaderLength (listMemory p.bytes) = 20 := by
  have h0 : listMemory p.bytes 0 = p.iph.vhl := rfl
  rw [ipHeaderLength, h0, h]
  rfl

theorem ipPacketLength_bytes (p : TxPacket) :
    ipPacketLength (listMemory p.bytes) = ntohs p.iph.len16 := by
  have hb : p.bytes = [p.iph.vhl, p.iph.tos] ++ u16Bytes p.iph.len16 ++ p.bytes.drop 4 := rfl
  rw [ipPacketLength, hb]
  exact congrArg ntohs (u16_listMemory_u16Bytes [p.iph.vhl, p.iph.tos] _ p.iph.len16)

theorem window_addresses (p : TxPacket) :
    (listMemory p.bytes).window 12 8 =
      u32Bytes p.iph.srcipaddr.v ++ u32Bytes p.iph.destipaddr.v := by
  rw [window_listMemory]
  · rfl
  · simp only [TxPacket.bytes, List.length_append, IPv4Header.length_bytes]
    omega

theorem window_segment (p : TxPacket) :
    (listMemory p.bytes).window 20 (20 + p.body.length) = p.tcph.bytes ++ p.body := by
  have hdrop : p.bytes.drop 20 = p.tcph.bytes ++ p.body := by
    simp [TxPacket.bytes, List.append_assoc, List.drop_append]
  rw [window_listMemory]
  · rw [hdrop]
    exact List.take_of_length_le (by simp)
  · simp [TxPacket.bytes]

theorem wordTotal_u16Bytes (n : UInt16) :
    OnesComplement.wordTotal (u16Bytes n) = (ntohs n).toNat := by
  have hn := n.toNat_lt
  rw [ntohs, toNat_uint16Bswap]
  simp only [u16Bytes, OnesComplement.wordTotal, UInt8.toNat_ofNat']
  omega

theorem wordTotal_segment (p : TxPacket) :
    OnesComplement.wordTotal (p.tcph.bytes ++ p.body) =
      OnesComplement.wordTotal p.tcph.front + (ntohs p.tcph.tcpchksum).toNat +
        OnesComplement.wordTotal (u16Bytes p.tcph.urgp ++ p.body) := by
  have h : p.tcph.bytes ++ p.body =
      (p.tcph.front ++ u16Bytes p.tcph.tcpchksum) ++ (u16Bytes p.tcph.urgp ++ p.body) := by
    simp [TcpHeader.bytes]
  have hfront : (p.tcph.front ++ u16Bytes p.tcph.tcpchksum).length % 2 = 0 := by
    rw [List.length_append, TcpHeader.length_front, length_u16Bytes]
  rw [h, OnesComplement.wordTotal_append _ hfront,
    OnesComplement.wordTotal_append _ (by rw [TcpHeader.length_front]), wordTotal_u16Bytes]

/-- The accumulated sum is the carried form of the total. -/
theorem makeTcpChecksum_bytes {p : TxPacket} (h : p.Sized) :
    ∃ sum : UInt16,
      sum.toNat = OnesComplement.normalize (p.chksumTotal + (ntohs p.tcph.tcpchksum).toNat) ∧
      makeTcpChecksum (listMemory p.bytes) = if sum = 0 then 0xffff else htons sum := by
  have hlen := h.len_eq
  have hlt := (ntohs p.iph.len16).toNat_lt
  have hproto : p.iph.proto.toNat = 6 := by rw [h.proto_eq]; rfl
  have hsub : (ntohs p.iph.len16 - 20).toNat = 20 + p.body.length := by
    have hle : (20 : UInt16) ≤ ntohs p.iph.len16 := by
      rw [UInt16.le_iff_toNat_le, hlen]
      show 20 ≤ _
      omega
    rw [UInt16.toNat_sub_of_le _ _ hle, hlen]
    show 40 + p.body.length - 20 = _
    omega
  have hstart : (ntohs p.iph.len16 - 20 + p.iph.proto.toUInt16).toNat =
      OnesComplement.normalize (20 + p.body.length + p.iph.proto.toNat) := by
    rw [OnesComplement.normalize_of_le (by omega), UInt16.toNat_add, hsub, UInt8.toNat_toUInt16]
    omega
  have hseg : (listMemory p.bytes).window (20 : UInt16).toNat (ntohs p.iph.len16 - 20).toNat =
      p.tcph.bytes ++ p.body := by
    rw [hsub]
    exact window_segment p
  refine ⟨uipChksum (uipChksum (ntohs p.iph.len16 - 20 + p.iph.proto.toUInt16)
    ((listMemory p.bytes).window 12 8)) (p.tcph.bytes ++ p.body), ?_, ?_⟩
  · rw [window_addresses, toNat_uipChksum _ _ _ (toNat_uipChksum _ _ _ hstart), wordTotal_segment]
    congr 1
    unfold TxPacket.chksumTotal
    omega
  · rw [← hseg]
    unfold makeTcpChecksum
    rw [ipHeaderLength_bytes h.vhl_eq, ipPacketLength_bytes]
    rfl

theorem Sized_fillTcpChksum {p : TxPacket} (h : p.Sized) : p.fillTcpChksum.Sized :=
  ⟨h.vhl_eq, h.proto_eq, h.len_eq⟩

theorem htons_ones : htons 0xffff = 0xffff := by decide

theorem ntohs_complement (n : UInt16) : (ntohs (~~~ htons n)).toNat = 65535 - n.toNat := by
  have hn := n.toNat_lt
  have hc : (~~~ htons n).toNat = 65535 - (htons n).toNat := UInt16.toNat_not _
  rw [ntohs, toNat_uint16Bswap, hc, htons, toNat_uint16Bswap]
  omega

theorem chksumTotal_pos (p : TxPacket) : 0 < p.chksumTotal := by
  unfold TxPacket.chksumTotal
  omega

/-- A packet verifies when its words add up to a multiple of `65535`. -/
theorem chksumVerifies_iff {p : TxPacket} (h : p.Sized) :
    p.ChksumVerifies ↔
      OnesComplement.normalize (p.chksumTotal + (ntohs p.tcph.tcpchksum).toNat) = 65535 := by
  obtain ⟨sum, hsum, hc⟩ := makeTcpChecksum_bytes h
  have hpos : 0 < sum.toNat := by
    rw [hsum]
    exact OnesComplement.normalize_pos (Nat.add_pos_left (chksumTotal_pos p) _)
  have hne : sum ≠ 0 := fun he => by simp [he] at hpos
  rw [TxPacket.ChksumVerifies, hc, if_neg hne, ← hsum]
  constructor
  · intro he
    have hs : sum = ntohs 0xffff := by rw [← he, ntohs_htons]
    rw [hs]
    decide
  · intro he
    rw [show sum = 0xffff from UInt16.toNat_inj.mp he, htons_ones]

/-- A packet filled in from a zero checksum field verifies. -/
theorem chksumVerifies_fillTcpChksum {p : TxPacket} (h : p.Sized) (h0 : p.tcph.tcpchksum = 0) :
    p.fillTcpChksum.ChksumVerifies := by
  obtain ⟨sum, hsum, hc⟩ := makeTcpChecksum_bytes h
  have hz : (ntohs p.tcph.tcpchksum).toNat = 0 := by rw [h0]; decide
  rw [hz, Nat.add_zero] at hsum
  have hpos : 0 < sum.toNat := by
    rw [hsum]
    exact OnesComplement.normalize_pos (chksumTotal_pos p)
  have hne : sum ≠ 0 := fun he => by simp [he] at hpos
  have hfield : p.fillTcpChksum.tcph.tcpchksum = ~~~ htons sum := by
    show ~~~ makeTcpChecksum (listMemory p.bytes) = _
    rw [hc, if_neg hne]
  have htotal : p.fillTcpChksum.chksumTotal = p.chksumTotal := rfl
  rw [chksumVerifies_iff (Sized_fillTcpChksum h), htotal, hfield, ntohs_complement, hsum]
  exact OnesComplement.normalize_complement (chksumTotal_pos p)

/-- The IP checksum lies outside of what the TCP checksum covers. -/
theorem chksumVerifies_fillIpChksum {p : TxPacket} (h : p.Sized) (hv : p.ChksumVerifies) :
    p.fillIpChksum.ChksumVerifies := by
  have hs : p.fillIpChksum.Sized := ⟨h.vhl_eq, h.proto_eq, h.len_eq⟩
  have htotal : p.fillIpChksum.chksumTotal = p.chksumTotal := rfl
  have htcph : p.fillIpChksum.tcph = p.tcph := rfl
  rw [chksumVerifies_iff hs, htotal, htcph]
  exact (chksumVerifies_iff h).mp hv

theorem Sized_fillChksums {p : TxPacket} (h : p.Sized) : p.fillTcpChksum.fillIpChksum.Sized :=
  ⟨h.vhl_eq, h.proto_eq, h.len_eq⟩

theorem chksumVerifies_fillChksums {p : TxPacket} (h : p.Sized) (h0 : p.tcph.tcpchksum = 0) :
    p.fillTcpChksum.fillIpChksum.ChksumVerifies :=
  chksumVerifies_fillIpChksum (Sized_fillTcpChksum h) (chksumVerifies_fillTcpChksum h h0)

theorem Sized_withAckNo {p : TxPacket} (h : p.Sized) (ackno : UInt32) : (p.withAckNo ackno).Sized :=
  ⟨h.vhl_eq, h.proto_eq, h.len_eq⟩

theorem Sized_updateAckNo {p : TxPacket} (h : p.Sized) (ackno : UInt32) :
    (updateAckNo p ackno).Sized :=
  Sized_fillTcpChksum (Sized_withAckNo h ackno)

/-- The rewritten acknowledgement number keeps the packet valid. -/
theorem chksumVerifies_updateAckNo {p : TxPacket} (h : p.Sized) (ackno : UInt32) :
    (updateAckNo p ackno).ChksumVerifies :=
  chksumVerifies_fillTcpChksum (Sized_withAckNo h ackno) rfl

/-- A packet no longer than its length field can say announces its length. -/
theorem Sized_writeTxPacket_of_fits (sock : TcpSocket) (pid : UInt16) (buf : TxPacket)
    (tcpf : UInt8) {data : List UInt8}
    (h : (writeTxPacket sock pid buf tcpf data).bytes.length < 65536) :
    (writeTxPacket sock pid buf tcpf data).Sized := by
  refine ⟨rfl, rfl, ?_⟩
  simp only [TxPacket.bytes, writeTxPacket, List.length_append, IPv4Header.length_bytes,
    TcpHeader.length_bytes] at h
  simp only [writeTxPacket, ntohs_htons, List.length_append]
  cases hsyn : hasFlag tcpf tcpSyn with
  | false =>
    rw [hsyn] at h
    change 20 + 20 + (0 + data.length) < 65536 at h
    show (UInt16.ofNat data.length + 40).toNat = 40 + (0 + data.length)
    rw [UInt16.toNat_add, UInt16.toNat_ofNat']
    show (data.length % 2 ^ 16 + 40) % 2 ^ 16 = 40 + (0 + data.length)
    omega
  | true =>
    rw [hsyn] at h
    change 20 + 20 + (4 + data.length) < 65536 at h
    show (UInt16.ofNat data.length + 44).toNat = 40 + (4 + data.length)
    rw [UInt16.toNat_add, UInt16.toNat_ofNat']
    show (data.length % 2 ^ 16 + 44) % 2 ^ 16 = 40 + (4 + data.length)
    omega

theorem Sized_writeTxPacketHeader_of_fits (sock : TcpSocket) (pid : UInt16) (buf : TxPacket)
    (tcpf : UInt8) (h : buf.bytes.length < 65536) :
    (writeTxPacketHeader sock pid buf tcpf (UInt16.ofNat buf.body.length)).Sized := by
  refine ⟨rfl, rfl, ?_⟩
  simp only [TxPacket.bytes, List.length_append, IPv4Header.length_bytes,
    TcpHeader.length_bytes] at h
  simp only [writeTxPacketHeader, ntohs_htons]
  show (UInt16.ofNat buf.body.length + 40).toNat = 40 + buf.body.length
  rw [UInt16.toNat_add, UInt16.toNat_ofNat']
  show (buf.body.length % 2 ^ 16 + 40) % 2 ^ 16 = 40 + buf.body.length
  omega

/-- The largest payload that a transmit buffer holds. -/
def maxPayload : Nat := 1460

theorem length_writeTxPacket_le (sock : TcpSocket) (pid : UInt16) (buf : TxPacket) (tcpf : UInt8)
    (data : List UInt8) :
    (writeTxPacket sock pid buf tcpf data).bytes.length ≤ 44 + data.length := by
  simp only [TxPacket.bytes, writeTxPacket, List.length_append, IPv4Header.length_bytes,
    TcpHeader.length_bytes]
  cases hasFlag tcpf tcpSyn
  · show 20 + 20 + (0 + data.length) ≤ 44 + data.length
    omega
  · show 20 + 20 + (4 + data.length) ≤ 44 + data.length
    omega

theorem Sized_writeTxPacket (sock : TcpSocket) (pid : UInt16) (buf : TxPacket) (tcpf : UInt8)
    {data : List UInt8} (h : data.length ≤ maxPayload) :
    (writeTxPacket sock pid buf tcpf data).Sized := by
  have hle := length_writeTxPacket_le sock pid buf tcpf data
  unfold maxPayload at h
  apply Sized_writeTxPacket_of_fits
  omega

theorem Sized_setTxPacket (sock : TcpSocket) (pid : UInt16) (buf : TxPacket) (tcpf : UInt8)
    {data : List UInt8} (h : data.length ≤ maxPayload) :
    (setTxPacket sock pid buf tcpf data).Sized :=
  Sized_fillChksums (Sized_writeTxPacket sock pid buf tcpf h)

theorem chksumVerifies_setTxPacket (sock : TcpSocket) (pid : UInt16) (buf : TxPacket)
    (tcpf : UInt8) {data : List UInt8} (h : data.length ≤ maxPayload) :
    (setTxPacket sock pid buf tcpf data).ChksumVerifies :=
  chksumVerifies_fillChksums (Sized_writeTxPacket sock pid buf tcpf h) rfl

theorem Sized_writeTxPacketHeader (sock : TcpSocket) (pid : UInt16) (buf : TxPacket) (tcpf : UInt8)
    (h : buf.body.length ≤ maxPayload) :
    (writeTxPacketHeader sock pid buf tcpf (UInt16.ofNat buf.body.length)).Sized := by
  unfold maxPayload at h
  apply Sized_writeTxPacketHeader_of_fits
  simp only [TxPacket.bytes, List.length_append, IPv4Header.length_bytes, TcpHeader.length_bytes]
  omega

theorem Sized_setTxPacketHeader (sock : TcpSocket) (pid : UInt16) (buf : TxPacket) (tcpf : UInt8)
    (h : buf.body.length ≤ maxPayload) :
    (setTxPacketHeader sock pid buf tcpf (UInt16.ofNat buf.body.length)).Sized :=
  Sized_fillChksums (Sized_writeTxPacketHeader sock pid buf tcpf h)

theorem chksumVerifies_setTxPacketHeader (sock : TcpSocket) (pid : UInt16) (buf : TxPacket)
    (tcpf : UInt8) (h : buf.body.length ≤ maxPayload) :
    (setTxPacketHeader sock pid buf tcpf (UInt16.ofNat buf.body.length)).ChksumVerifies :=
  chksumVerifies_fillChksums (Sized_writeTxPacketHeader sock pid buf tcpf h) rfl

/-- The checksums leave the length fields alone. -/
theorem payloadLength_fillChksums (p : TxPacket) :
    p.fillTcpChksum.fillIpChksum.payloadLength = p.payloadLength := by
  simp only [TxPacket.payloadLength, TxPacket.fillIpChksum, TxPacket.fillTcpChksum]

theorem payloadLength_setTxPacket (sock : TcpSocket) (pid : UInt16) (buf : TxPacket) (tcpf : UInt8)
    (data : List UInt8) :
    (setTxPacket sock pid buf tcpf data).payloadLength = UInt16.ofNat data.length := by
  rw [setTxPacket, payloadLength_fillChksums]
  simp only [TxPacket.payloadLength, writeTxPacket, ntohs_htons]
  cases hasFlag tcpf tcpSyn
  · show UInt16.ofNat data.length + 40 - 20 - 20 = _
    simp only [UInt16.sub_eq_add_neg, UInt16.add_assoc]
    exact UInt16.add_zero _
  · show UInt16.ofNat data.length + 44 - 20 - 24 = _
    simp only [UInt16.sub_eq_add_neg, UInt16.add_assoc]
    exact UInt16.add_zero _

theorem payloadLength_setTxPacketHeader (sock : TcpSocket) (pid : UInt16) (buf : TxPacket)
    (tcpf : UInt8) (len : UInt16) :
    (setTxPacketHeader sock pid buf tcpf len).payloadLength = len := by
  rw [setTxPacketHeader, payloadLength_fillChksums]
  simp only [TxPacket.payloadLength, writeTxPacketHeader, ntohs_htons]
  show len + 40 - 20 - 20 = _
  simp only [UInt16.sub_eq_add_neg, UInt16.add_assoc]
  exact UInt16.add_zero _

section

variable (sock : TcpSocket) (pid : UInt16) (buf : TxPacket) (tcpf : UInt8)

theorem flags_setTxPacket (data : List UInt8) :
    (setTxPacket sock pid buf tcpf data).tcph.flags = tcpf := rfl

theorem seqno32_setTxPacket (data : List UInt8) :
    (setTxPacket sock pid buf tcpf data).tcph.seqno32 = htonl sock.uipConnr.sndNxt32 := rfl

theorem ackno32_setTxPacket (data : List UInt8) :
    (setTxPacket sock pid buf tcpf data).tcph.ackno32 = htonl sock.uipConnr.rcvNxt32 := rfl

theorem flags_setTxPacketHeader (len : UInt16) :
    (setTxPacketHeader sock pid buf tcpf len).tcph.flags = tcpf := rfl

theorem seqno32_setTxPacketHeader (len : UInt16) :
    (setTxPacketHeader sock pid buf tcpf len).tcph.seqno32 = htonl sock.uipConnr.sndNxt32 := rfl

theorem ackno32_setTxPacketHeader (len : UInt16) :
    (setTxPacketHeader sock pid buf tcpf len).tcph.ackno32 = htonl sock.uipConnr.rcvNxt32 := rfl

end

end MiMic.Tcp
