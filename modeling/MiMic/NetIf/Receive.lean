import MiMic.Tcp.LockSections
import MiMic.NetIf.Tables

/-!
# The receive path of an Ethernet frame

From the frame that the driver hands over to the size a protocol handler computes.
The memory behind the frame is readable, so a length field is bounded by nothing but
the tests of the code.
-/
namespace MiMic.NetIf

open MiMic.Tcp

/-- `NyLPC_TEthernetIIHeader_TYPE_IP`. -/
def ethernetTypeIp : UInt16 := 0x0800

/-- `sizeof(struct NyLPC_TEthernetIIHeader)`. -/
def sizeOfEthernetIIHeader : UInt16 := 14

/-- What the frame holds behind its Ethernet header. -/
def ethernetPayload (eth : Memory) : Memory := fun i => eth (sizeOfEthernetIIHeader.toNat + i)

/-- The fragment size that `uipTask` computes for an IP frame; the driver returns `rxLen`. -/
def ipFragmentSize (eth : Memory) (rxLen : UInt16) : Option UInt16 :=
  if rxLen > 0 ∧ eth.u16 12 = htons ethernetTypeIp then some (rxLen - sizeOfEthernetIIHeader)
  else none

/-- `NyLPC_cIPv4Payload_attachRxBuf`. -/
def attachRxBuf (iph : Memory) (fragmentSize : UInt16) : Bool :=
  if iph 0 &&& 0xf0 ≠ 0x40 then false
  else if ntohs (iph.u16 2) > fragmentSize then false
  else if ntohs (iph.u16 6) &&& 0x3fff ≠ 0 then false
  else isCorrectIpCheckSum iph

/-- `i_ipp->payload`. -/
def ipPayload (iph : Memory) : Memory := fun i => iph ((ipHeaderLength iph).toNat + i)

def srcIpAddr (iph : Memory) : IPv4Addr := ⟨iph.u32 12⟩
def destIpAddr (iph : Memory) : IPv4Addr := ⟨iph.u32 16⟩

/-- `data_size` of `NyLPC_cMiMicIpTcpSocket_parseRx`. -/
def tcpDataSize (iph : Memory) : UInt16 :=
  ipPacketLength iph - ipHeaderLength iph - tcpHeaderLength (ipPayload iph)

/-- `tcp_data_offset`, from the IP header on. -/
def tcpDataOffset (iph : Memory) : Nat :=
  (ipHeaderLength iph).toNat + (tcpHeaderLength (ipPayload iph)).toNat

/-- The segment as the state machine of the socket reads it. -/
def rxSegment (iph : Memory) : TcpSegment where
  seqno32 := (ipPayload iph).u32 4
  ackno32 := (ipPayload iph).u32 8
  flags := ipPayload iph 13
  wnd16 := (ipPayload iph).u16 14
  mmsOpt := getTcpMmsOpt (ipPayload iph)
  data := iph.window (tcpDataOffset iph) (tcpDataSize iph).toNat
  data_lt := by
    rw [length_window]
    exact (tcpDataSize iph).toNat_lt

/-- What the listener notes of a SYN; `none` when the option walk does not return. -/
def synParam (iph : Memory) : Option TcpSocketSynParam :=
  (getTcpMmsOpt (ipPayload iph)).map fun mss =>
    { srcaddr := srcIpAddr iph
      rport := (ipPayload iph).u16 0
      mss := mss.getD 0
      rcvNxt32 := ntohl ((ipPayload iph).u32 4) + 1 }

/-- `struct NyLPC_TIPv4RxInfo`. -/
structure IPv4RxInfo where
  peerIp : IPv4Addr
  ip : IPv4Addr
  peerPort : UInt16
  port : UInt16
  size : UInt16

/-- `NyLPC_TUdpHeader_getHeaderLength`. -/
def udpHeaderLength : UInt16 := 8

/-- `dheader` of `NyLPC_cMiMicIpUdpSocket_parseRx`. -/
def udpRxInfo (iph : Memory) : IPv4RxInfo where
  peerIp := srcIpAddr iph
  ip := destIpAddr iph
  peerPort := ntohs ((ipPayload iph).u16 0)
  port := ntohs ((ipPayload iph).u16 2)
  size := ipPacketLength iph - ipHeaderLength iph - udpHeaderLength

def udpDataOffset (iph : Memory) : Nat := (ipHeaderLength iph).toNat + udpHeaderLength.toNat

/-- Where a received packet ends up, with the length the handler goes on with. -/
inductive RxOutcome
  | drop
  | socket (i : Nat) (seg : TcpSegment)
  | listener (j : Nat)
  | reset
  | udp (info : IPv4RxInfo)
  | icmpEcho (len : UInt16)

/-- `tcp_rx`. -/
def tcpRx (net : MiMicIpNetIf) (config : IPv4Config) (iph : Memory) : RxOutcome :=
  if destIpAddr iph ≠ config.ipAddr then .drop
  else if makeTcpChecksum iph ≠ 0xffff then .drop
  else
    match getMatchTcpSocket net ((ipPayload iph).u16 2) (srcIpAddr iph) ((ipPayload iph).u16 0) with
    | some i => .socket i (rxSegment iph)
    | none =>
        match getListenerByPeerPort net ((ipPayload iph).u16 2) with
        | none => .reset
        | some j => .listener j

def addrBroadcast : IPv4Addr := ⟨0xffffffff⟩

/-- `NyLPC_TIPv4Addr_MULTICAST` and its mask: 224.0.0.0 in network order. -/
def addrMulticast : IPv4Addr := ⟨htonl 0xe0000000⟩

def isEqualWithMask (addr1 addr2 mask : IPv4Addr) : Bool := addr1.v &&& mask.v == addr2.v &&& mask.v

/-- `NyLPC_cMiMicIpUdpSocket_parseRx`, up to the handler or the receive buffer. -/
def udpParseRx (sock : UdpSocket) (iph : Memory) : RxOutcome :=
  if destIpAddr iph = addrBroadcast ∧ sock.flags &&& 1 = 0 then .drop else .udp (udpRxInfo iph)

/-- The socket that `udp_rx` looks up. -/
def udpTarget (net : MiMicIpNetIf) (config : IPv4Config) (iph : Memory) : Option UdpSocket :=
  if destIpAddr iph ≠ config.ipAddr then getMatchUdpSocket net ((ipPayload iph).u16 2)
  else if isEqualWithMask (destIpAddr iph) addrMulticast addrMulticast then
    getMatchMulticastUdpSocket net (destIpAddr iph) ((ipPayload iph).u16 2)
  else if destIpAddr iph ≠ addrBroadcast then getMatchUdpSocket net ((ipPayload iph).u16 2)
  else none

/-- `udp_rx`. -/
def udpRx (net : MiMicIpNetIf) (config : IPv4Config) (iph : Memory) : RxOutcome :=
  match udpTarget net config iph with
  | none => .drop
  | some sock => if makeTcpChecksum iph ≠ 0xffff then .drop else udpParseRx sock iph

def icmpEcho : UInt8 := 8

/-- `NyLPC_cIPv4IComp_rx`, up to the copy of the packet. -/
def icompRx (config : IPv4Config) (iph : Memory) : RxOutcome :=
  if config.ipAddr ≠ ⟨0⟩ ∧ destIpAddr iph ≠ config.ipAddr then .drop
  else if ipPayload iph 0 ≠ icmpEcho then .drop
  else .icmpEcho (ipPacketLength iph)

/-- The `switch` of `NyLPC_cIPv4_rx` over the protocol. -/
def dispatchRx (net : MiMicIpNetIf) (config : IPv4Config) (iph : Memory) : RxOutcome :=
  if iph 9 = uipProtoTcp then tcpRx net config iph
  else if iph 9 = uipProtoUdp then udpRx net config iph
  else if iph 9 = uipProtoIcmp then icompRx config iph
  else .drop

/-- `NyLPC_cIPv4_rx`. -/
def ipv4Rx (net : MiMicIpNetIf) (iph : Memory) (rxSize : UInt16) : RxOutcome :=
  match net.config with
  | none => .drop
  | some config => if attachRxBuf iph rxSize then dispatchRx net config iph else .drop

/-- `size` is the exact difference of the lengths it was computed from, and the bytes at
`off` that it delimits were received. -/
structure Delimits (received off : Nat) (size : UInt16) (exact : Int) : Prop where
  noWrap : (size.toNat : Int) = exact
  inside : off + size.toNat ≤ received

structure RxSafe (net : MiMicIpNetIf) (iph : Memory) (rxSize : UInt16) (received : Nat) : Prop where
  header : 20 ≤ (ipHeaderLength iph).toNat
  packet : (ipHeaderLength iph).toNat ≤ (ipPacketLength iph).toNat
  frame : (ipPacketLength iph).toNat ≤ received
  tcp : ∀ i seg, ipv4Rx net iph rxSize = .socket i seg →
    Delimits received (tcpDataOffset iph) (tcpDataSize iph)
      ((ipPacketLength iph).toNat - (ipHeaderLength iph).toNat -
        (tcpHeaderLength (ipPayload iph)).toNat)
  udp : ∀ info, ipv4Rx net iph rxSize = .udp info →
    Delimits received (udpDataOffset iph) info.size
      ((ipPacketLength iph).toNat - (ipHeaderLength iph).toNat - udpHeaderLength.toNat)
  icmp : ∀ len, ipv4Rx net iph rxSize = .icmpEcho len →
    Delimits received 0 len (ipPacketLength iph).toNat

/-- The frame is one of IPv4 for a running service, and `attachRxBuf` succeeds on it. -/
def Accepted (net : MiMicIpNetIf) (eth : Memory) (rxLen size : UInt16) : Prop :=
  net.config ≠ none ∧ ipFragmentSize eth rxLen = some size ∧
    attachRxBuf (ethernetPayload eth) size = true

/-- Everything the receive path computes for an accepted frame is in bounds. -/
def ReceiveBounds (net : MiMicIpNetIf) (eth : Memory) (rxLen : UInt16) : Prop :=
  ∀ size, Accepted net eth rxLen size →
    RxSafe net (ethernetPayload eth) size (rxLen.toNat - sizeOfEthernetIIHeader.toNat)

/-- The packet gets as far as a TCP socket. -/
def ReachesTcpSocket (net : MiMicIpNetIf) (config : IPv4Config) (iph : Memory) : Prop :=
  iph 9 = uipProtoTcp ∧ destIpAddr iph = config.ipAddr ∧ makeTcpChecksum iph = 0xffff ∧
    getMatchTcpSocket net ((ipPayload iph).u16 2) (srcIpAddr iph) ((ipPayload iph).u16 0) ≠ none

/-- The packet gets as far as a UDP socket that takes it. -/
def ReachesUdpSocket (net : MiMicIpNetIf) (config : IPv4Config) (iph : Memory) : Prop :=
  iph 9 = uipProtoUdp ∧ makeTcpChecksum iph = 0xffff ∧
    ∃ sock, udpTarget net config iph = some sock ∧
      ¬ (destIpAddr iph = addrBroadcast ∧ sock.flags &&& 1 = 0)

/-- `IHL`, the first length field of the packet, in words. -/
def ihl (iph : Memory) : Nat := (iph 0 &&& 0x0f).toNat

/-- The total length field of the IP header. -/
def totalLength (iph : Memory) : Nat := (iph 2).toNat * 256 + (iph 3).toNat

/-- The data offset of a TCP header, in words. -/
def tcpOffset (iph : Memory) : Nat := (ipPayload iph 12 >>> (4 : UInt8)).toNat

/-- What the code leaves untested: the frame holds an Ethernet header, `IHL` covers an IP
header, and the headers end before the packet does. -/
structure HeadersFit (net : MiMicIpNetIf) (config : IPv4Config) (iph : Memory) (rxLen : UInt16) :
    Prop where
  frame : 14 ≤ rxLen.toNat
  ihl_ge : 5 ≤ ihl iph
  ip : 4 * ihl iph ≤ totalLength iph
  tcp : ReachesTcpSocket net config iph → 4 * (ihl iph + tcpOffset iph) ≤ totalLength iph
  udp : ReachesUdpSocket net config iph → 4 * ihl iph + 8 ≤ totalLength iph

theorem ipHeaderLength_eq (iph : Memory) : (ipHeaderLength iph).toNat = 4 * ihl iph := by
  have hle : ihl iph ≤ 15 := by
    rw [ihl, UInt8.toNat_and]
    exact Nat.and_le_right
  rw [ipHeaderLength, UInt16.toNat_mul, UInt8.toNat_toUInt16]
  show ihl iph * 4 % 2 ^ 16 = 4 * ihl iph
  omega

theorem ipPacketLength_eq (iph : Memory) : (ipPacketLength iph).toNat = totalLength iph :=
  toNat_ntohs_u16 iph 2

theorem tcpHeaderLength_eq (iph : Memory) :
    (tcpHeaderLength (ipPayload iph)).toNat = 4 * tcpOffset iph := by
  have hle : tcpOffset iph ≤ 15 := by
    have hlt := (ipPayload iph 12).toNat_lt
    rw [tcpOffset, UInt8.toNat_shiftRight, show (4 : UInt8).toNat % 8 = 4 from rfl,
      Nat.shiftRight_eq_div_pow]
    omega
  rw [tcpHeaderLength, UInt16.toNat_mul, UInt8.toNat_toUInt16]
  show tcpOffset iph * 4 % 2 ^ 16 = 4 * tcpOffset iph
  omega

/-- Two unsigned subtractions are exact if and only if the lengths add up. -/
theorem toNat_sub_sub (len h₁ h₂ : UInt16) :
    ((len - h₁ - h₂).toNat : Int) = len.toNat - h₁.toNat - h₂.toNat ↔
      h₁.toNat + h₂.toNat ≤ len.toNat := by
  have hlen := len.toNat_lt
  have hh₁ := h₁.toNat_lt
  have hh₂ := h₂.toNat_lt
  rw [UInt16.toNat_sub, UInt16.toNat_sub]
  omega

theorem ipv4Rx_accepted {net : MiMicIpNetIf} {config : IPv4Config} {iph : Memory} {size : UInt16}
    (hc : net.config = some config) (ha : attachRxBuf iph size = true) :
    ipv4Rx net iph size = dispatchRx net config iph := by
  rw [ipv4Rx, hc]
  exact if_pos ha

theorem icompRx_cases (config : IPv4Config) (iph : Memory) :
    icompRx config iph = .drop ∨ icompRx config iph = .icmpEcho (ipPacketLength iph) := by
  unfold icompRx
  split
  · exact Or.inl rfl
  · split
    · exact Or.inl rfl
    · exact Or.inr rfl

theorem tcpRx_socket {net : MiMicIpNetIf} {config : IPv4Config} {iph : Memory}
    (hp : iph 9 = uipProtoTcp) :
    (∃ i seg, tcpRx net config iph = .socket i seg) ↔ ReachesTcpSocket net config iph := by
  unfold tcpRx
  constructor
  · intro h
    obtain ⟨i, seg, h⟩ := h
    split at h
    · cases h
    · next hd =>
      split at h
      · cases h
      · next hc =>
        split at h
        · next hm => exact ⟨hp, not_not.mp hd, not_not.mp hc, by rw [hm]; exact Option.some_ne_none _⟩
        · split at h <;> cases h
  · intro h
    obtain ⟨i, hi⟩ := Option.ne_none_iff_exists'.mp h.2.2.2
    rw [if_neg (not_not.mpr h.2.1), if_neg (not_not.mpr h.2.2.1), hi]
    exact ⟨i, rxSegment iph, rfl⟩

theorem tcpRx_ne_udp {net : MiMicIpNetIf} {config : IPv4Config} {iph : Memory} {info : IPv4RxInfo} :
    tcpRx net config iph ≠ .udp info := by
  unfold tcpRx
  split
  · exact RxOutcome.noConfusion
  · split
    · exact RxOutcome.noConfusion
    · split
      · exact RxOutcome.noConfusion
      · split <;> exact RxOutcome.noConfusion

theorem udpRx_eq (net : MiMicIpNetIf) (config : IPv4Config) (iph : Memory) :
    udpRx net config iph = .drop ∨ udpRx net config iph = .udp (udpRxInfo iph) := by
  unfold udpRx
  split
  · exact Or.inl rfl
  · split
    · exact Or.inl rfl
    · unfold udpParseRx
      split
      · exact Or.inl rfl
      · exact Or.inr rfl

theorem udpRx_udp {net : MiMicIpNetIf} {config : IPv4Config} {iph : Memory}
    (hp : iph 9 = uipProtoUdp) :
    udpRx net config iph = .udp (udpRxInfo iph) ↔ ReachesUdpSocket net config iph := by
  unfold udpRx
  constructor
  · intro h
    split at h
    · cases h
    · next sock hs =>
      split at h
      · cases h
      · next hc =>
        unfold udpParseRx at h
        split at h
        · cases h
        · next hb => exact ⟨hp, not_not.mp hc, sock, hs, hb⟩
  · intro h
    obtain ⟨-, hc, sock, hs, hb⟩ := h
    rw [hs]
    show (if makeTcpChecksum iph ≠ 0xffff then .drop else udpParseRx sock iph) = _
    rw [if_neg (not_not.mpr hc), udpParseRx, if_neg hb]

/-- Which packets reach a TCP socket. -/
theorem dispatchRx_socket {net : MiMicIpNetIf} {config : IPv4Config} {iph : Memory} :
    (∃ i seg, dispatchRx net config iph = .socket i seg) ↔ ReachesTcpSocket net config iph := by
  unfold dispatchRx
  by_cases ht : iph 9 = uipProtoTcp
  · rw [if_pos ht]
    exact tcpRx_socket ht
  · rw [if_neg ht]
    refine ⟨fun h => ?_, fun h => absurd h.1 ht⟩
    obtain ⟨i, seg, h⟩ := h
    split at h
    · rcases udpRx_eq net config iph with hu | hu <;> (rw [hu] at h; cases h)
    · split at h
      · rcases icompRx_cases config iph with hu | hu <;> (rw [hu] at h; cases h)
      · cases h

/-- Which packets reach a UDP socket, and with what size. -/
theorem dispatchRx_udp {net : MiMicIpNetIf} {config : IPv4Config} {iph : Memory}
    {info : IPv4RxInfo} :
    dispatchRx net config iph = .udp info ↔
      info = udpRxInfo iph ∧ ReachesUdpSocket net config iph := by
  have hdiff : uipProtoUdp ≠ uipProtoTcp := by decide
  unfold dispatchRx
  by_cases ht : iph 9 = uipProtoTcp
  · rw [if_pos ht]
    exact ⟨fun h => absurd h tcpRx_ne_udp, fun h => absurd (h.2.1.symm.trans ht) hdiff⟩
  · rw [if_neg ht]
    by_cases hu : iph 9 = uipProtoUdp
    · rw [if_pos hu]
      constructor
      · intro h
        have hinfo : info = udpRxInfo iph := by
          rcases udpRx_eq net config iph with hd | hd
          · rw [hd] at h
            cases h
          · rw [hd] at h
            exact (RxOutcome.udp.inj h).symm
        rw [hinfo] at h
        exact ⟨hinfo, (udpRx_udp hu).mp h⟩
      · intro h
        rw [h.1]
        exact (udpRx_udp hu).mpr h.2
    · rw [if_neg hu]
      refine ⟨fun h => ?_, fun h => absurd h.2.1 hu⟩
      split at h
      · rcases icompRx_cases config iph with hi | hi <;> (rw [hi] at h; cases h)
      · cases h

/-- An echo goes on with the total length of the packet. -/
theorem dispatchRx_icmp {net : MiMicIpNetIf} {config : IPv4Config} {iph : Memory} {len : UInt16}
    (h : dispatchRx net config iph = .icmpEcho len) : len = ipPacketLength iph := by
  unfold dispatchRx at h
  split at h
  · unfold tcpRx at h
    split at h
    · cases h
    · split at h
      · cases h
      · split at h
        · cases h
        · split at h <;> cases h
  · split at h
    · rcases udpRx_eq net config iph with hu | hu <;> (rw [hu] at h; cases h)
    · split at h
      · rcases icompRx_cases config iph with hi | hi <;> rw [hi] at h
        · cases h
        · exact (RxOutcome.icmpEcho.inj h).symm
      · cases h

/-- The test of the total length against the fragment size is sound for frames that hold
an Ethernet header: only then does the fragment size not wrap. -/
theorem totalLength_le {eth : Memory} {rxLen size : UInt16} (hlen : 14 ≤ rxLen.toNat)
    (hsize : ipFragmentSize eth rxLen = some size)
    (ha : attachRxBuf (ethernetPayload eth) size = true) :
    (ipPacketLength (ethernetPayload eth)).toNat ≤ rxLen.toNat - sizeOfEthernetIIHeader.toNat := by
  have hsz : size = rxLen - sizeOfEthernetIIHeader := by
    unfold ipFragmentSize at hsize
    split at hsize
    · exact (Option.some.inj hsize).symm
    · cases hsize
  have hle : ¬ ipPacketLength (ethernetPayload eth) > size := by
    unfold attachRxBuf at ha
    split at ha
    · cases ha
    · split at ha
      · cases ha
      · next h => exact h
  have h14 : sizeOfEthernetIIHeader ≤ rxLen := UInt16.le_iff_toNat_le.mpr hlen
  rw [gt_iff_lt, UInt16.lt_iff_toNat_lt, hsz, UInt16.toNat_sub_of_le _ _ h14] at hle
  omega

/-- Receive bounds hold of a frame if and only if its headers fit, once it is accepted. -/
theorem receive_bounds (net : MiMicIpNetIf) (eth : Memory) (rxLen : UInt16) :
    ReceiveBounds net eth rxLen ↔ ∀ config size, net.config = some config →
      ipFragmentSize eth rxLen = some size → attachRxBuf (ethernetPayload eth) size = true →
      HeadersFit net config (ethernetPayload eth) rxLen := by
  have hip := ipHeaderLength_eq (ethernetPayload eth)
  have hpk := ipPacketLength_eq (ethernetPayload eth)
  have htcp := tcpHeaderLength_eq (ethernetPayload eth)
  have hoff : sizeOfEthernetIIHeader.toNat = 14 := rfl
  have hudp : udpHeaderLength.toNat = 8 := rfl
  constructor
  · intro h config size hc hsize ha
    have hne : net.config ≠ none := by
      rw [hc]
      exact Option.some_ne_none _
    obtain ⟨h1, h2, h3, ht, hu, -⟩ := h size ⟨hne, hsize, ha⟩
    rw [ipv4Rx_accepted hc ha] at ht hu
    refine ⟨by omega, by omega, by omega, fun hr => ?_, fun hr => ?_⟩
    · obtain ⟨i, seg, hs⟩ := dispatchRx_socket.mpr hr
      have hsum := (toNat_sub_sub _ _ _).mp (ht i seg hs).noWrap
      omega
    · have hs := dispatchRx_udp.mpr ⟨rfl, hr⟩
      have hsum := (toNat_sub_sub _ _ _).mp (hu _ hs).noWrap
      omega
  · intro h size hacc
    obtain ⟨hne, hsize, ha⟩ := hacc
    obtain ⟨config, hc⟩ := Option.ne_none_iff_exists'.mp hne
    obtain ⟨h14, h5, hle, ht, hu⟩ := h config size hc hsize ha
    have hframe := totalLength_le h14 hsize ha
    refine ⟨by omega, by omega, hframe, fun i seg hs => ?_, fun info hs => ?_, fun len hs => ?_⟩
    · rw [ipv4Rx_accepted hc ha] at hs
      have hsum := ht (dispatchRx_socket.mp ⟨i, seg, hs⟩)
      have hexact := (toNat_sub_sub (ipPacketLength (ethernetPayload eth))
        (ipHeaderLength (ethernetPayload eth))
        (tcpHeaderLength (ipPayload (ethernetPayload eth)))).mpr (by omega)
      refine ⟨hexact, ?_⟩
      unfold tcpDataOffset tcpDataSize
      omega
    · rw [ipv4Rx_accepted hc ha] at hs
      obtain ⟨rfl, hr⟩ := dispatchRx_udp.mp hs
      have hsum := hu hr
      have hexact := (toNat_sub_sub (ipPacketLength (ethernetPayload eth))
        (ipHeaderLength (ethernetPayload eth)) udpHeaderLength).mpr (by omega)
      refine ⟨hexact, ?_⟩
      unfold udpDataOffset udpRxInfo
      dsimp only
      omega
    · rw [ipv4Rx_accepted hc ha] at hs
      obtain rfl := dispatchRx_icmp hs
      exact ⟨rfl, by omega⟩

/-- One established connection from 192.168.0.7 port 7 to 192.168.0.2 port 80. -/
def oneConnection : MiMicIpNetIf where
  config := some ⟨⟨htonl 0xc0a80002⟩, 1460⟩
  tcpPortCounter := 0
  tcp := [{ World.zeroed with
    sock.tcpstateflags := .established
    sock.uipConnr.lport := htons 80
    sock.uipConnr.rport := htons 7
    sock.uipConnr.ripaddr := ⟨htonl 0xc0a80007⟩ }]
  udp := []
  udpNb := []
  listeners := []

/-- A frame of 60 bytes whose TCP header of 20 bytes announces 60; both checksums are right. -/
def longOffsetFrame : Memory :=
  listMemory ([2, 0, 0, 0, 0, 2, 2, 0, 0, 0, 0, 7, 8, 0] ++
    [69, 0, 0, 40, 0, 1, 0, 0, 64, 6, 249, 117, 192, 168, 0, 7, 192, 168, 0, 2] ++
    [0, 7, 0, 80, 0, 0, 0, 100, 0, 0, 15, 100, 240, 16, 3, 232, 122, 115, 0, 0])

/-- The payload size wraps to 65496. -/
theorem tcpDataSize_wraps : ¬ ∀ net eth rxLen, ReceiveBounds net eth rxLen := by
  intro h
  have hacc : Accepted oneConnection longOffsetFrame 60 46 := by
    refine ⟨Option.some_ne_none _, ?_, ?_⟩ <;> decide +kernel
  have hreach : ReachesTcpSocket oneConnection ⟨⟨htonl 0xc0a80002⟩, 1460⟩
      (ethernetPayload longOffsetFrame) := by
    refine ⟨?_, ?_, ?_, ?_⟩ <;> decide +kernel
  obtain ⟨i, seg, hs⟩ := dispatchRx_socket.mpr hreach
  have hd := (h _ _ _ 46 hacc).tcp i seg ((ipv4Rx_accepted rfl hacc.2.2).trans hs)
  have hin := hd.inside
  have hwrap : tcpDataSize (ethernetPayload longOffsetFrame) = 65496 := by decide +kernel
  rw [hwrap] at hin
  exact absurd hin (by decide +kernel)

end MiMic.NetIf
