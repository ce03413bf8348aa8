import MiMic.NetIf.ArpExchange

/-!
# The next hop of an IPv4 packet

The packet lies in its block behind the room for an Ethernet header. Its frame goes to
the group, to the destination or to the router; without an entry in the table an ARP
request goes out instead.
-/
namespace MiMic.NetIf

open Verif

/-- `ip2MulticastEmacAddr`. -/
def ip2MulticastEmacAddr (addr : IPv4Addr) : EthAddr :=
  let n := htonl addr.v
  ⟨#v[0x01, 0x00, 0x5E, ((n >>> (16 : UInt32)) &&& (0x7f : UInt32)).toUInt8,
    ((n >>> (8 : UInt32)) &&& (0xff : UInt32)).toUInt8, (n &&& (0xff : UInt32)).toUInt8]⟩

/-- The address that the ARP table is asked for. -/
def nextHop (cfg : EthConfig) (dest : IPv4Addr) : IPv4Addr :=
  if cfg.isLocalIP dest then dest else cfg.drAddr

def isBroadcast (dest : IPv4Addr) : Bool := dest == addrBroadcast

def isMulticast (dest : IPv4Addr) : Bool := isEqualWithMask dest addrMulticast addrMulticast

/-- `eth_dest` of the static `sendIPv4Tx`. -/
def ethDest (cfg : EthConfig) (s : IPv4Arp) (dest : IPv4Addr) : Option EthAddr :=
  if isBroadcast dest then some ethAddrBroadcast
  else if isMulticast dest then some (ip2MulticastEmacAddr dest)
  else s.iPv4toEthAddr (nextHop cfg dest)

/-- The packet in a block. -/
def packetOf (block : Memory) : Memory := fun i => block (txPayload + i)

/-- `NyLPC_cMiMicIpNetIf_sendIPv4Tx`: the frames that leave the host. `sys` is the block that
`allocSysTxBuf` would find. -/
def sendIPv4Tx (cfg : EthConfig) (s : IPv4Arp) (block sys : Memory) : List (List UInt8) :=
  let dest := destIpAddr (packetOf block)
  match ethDest cfg s dest with
  | some mac =>
      let r := setIPv4Tx block 0 cfg.ethMac mac
      sendTxEthFrame r.1 0 r.2
  | none => (sendArpRequest cfg sys dest).2

/-- The six bytes as one number. -/
def EthAddr.toNat (a : EthAddr) : Nat := a.bytes.foldl (fun n b => n * 256 + b.toNat) 0

/-- An entry of the table for an address. -/
def IPv4Arp.MapsTo (s : IPv4Arp) (a : IPv4Addr) (mac : EthAddr) : Prop :=
  a.v ≠ 0 ∧ ∃ i, (s.slot i).ipaddr = a ∧ (s.slot i).ethaddr = mac

/-- Where a packet for `dest` belongs: to all, to the group address that carries the low 23 bits,
or to the next hop. -/
def MacFor (cfg : EthConfig) (s : IPv4Arp) (dest : IPv4Addr) (mac : EthAddr) : Prop :=
  if isBroadcast dest then mac = ethAddrBroadcast
  else if isMulticast dest then mac.toNat = 0x01005E000000 + (ntohl dest.v).toNat % 2 ^ 23
  else s.MapsTo (nextHop cfg dest) mac

/-- The protocols that `setIPv4Tx` knows; the frame of another one has size zero, and is not
sent. -/
def IsKnownProto (iph : Memory) : Prop :=
  iph 9 = uipProtoTcp ∨ iph 9 = uipProtoUdp ∨ iph 9 = uipProtoIcmp

instance (iph : Memory) : Decidable (IsKnownProto iph) := inferInstanceAs (Decidable (_ ∨ _))

/-- The frames of a packet that goes to `mac`. -/
def ipFrames (cfg : EthConfig) (block : Memory) (mac : EthAddr) : List (List UInt8) :=
  if IsKnownProto (packetOf block) then
    [(EthernetIIHeader.mk mac cfg.ethMac (htons ethernetTypeIp)).bytes ++
      block.window txPayload (totalLength (packetOf block))]
  else []

structure NextHopOk (cfg : EthConfig) (s : IPv4Arp) (block sys : Memory) : Prop where
  sent : (∃ mac, MacFor cfg s (destIpAddr (packetOf block)) mac) →
    ∃ mac, MacFor cfg s (destIpAddr (packetOf block)) mac ∧
      sendIPv4Tx cfg s block sys = ipFrames cfg block mac
  asked : (¬ ∃ mac, MacFor cfg s (destIpAddr (packetOf block)) mac) →
    ∃ request, sendIPv4Tx cfg s block sys = [request] ∧
      IsRequestFrame cfg (nextHop cfg (destIpAddr (packetOf block))) request

/-- `NyLPC_TcEthernetMM_MAX_TX_ETHERNET_FRAME_SIZE`. -/
def maxTxEthernetFrameSize : Nat := 1514

/-- The packet lies in a block. -/
def FitsBlock (block : Memory) : Prop :=
  txPayload + totalLength (packetOf block) ≤ maxTxEthernetFrameSize

theorem toNat_ip2MulticastEmacAddr (addr : IPv4Addr) :
    (ip2MulticastEmacAddr addr).toNat = 0x01005E000000 + (ntohl addr.v).toNat % 2 ^ 23 := by
  have hn : ntohl addr.v = htonl addr.v := rfl
  rw [hn]
  generalize hv : htonl addr.v = n
  have hlt := n.toNat_lt
  have h3 : ((n >>> (16 : UInt32)) &&& (0x7f : UInt32)).toUInt8.toNat = n.toNat / 65536 % 128 := by
    rw [UInt32.toNat_toUInt8, UInt32.toNat_and, UInt32.toNat_shiftRight]
    show (n.toNat >>> 16 &&& 2 ^ 7 - 1) % 2 ^ 8 = _
    rw [Nat.and_two_pow_sub_one_eq_mod, Nat.shiftRight_eq_div_pow]
    omega
  have h4 : ((n >>> (8 : UInt32)) &&& (0xff : UInt32)).toUInt8.toNat = n.toNat / 256 % 256 := by
    rw [UInt32.toNat_toUInt8, UInt32.toNat_and, UInt32.toNat_shiftRight]
    show (n.toNat >>> 8 &&& 2 ^ 8 - 1) % 2 ^ 8 = _
    rw [Nat.and_two_pow_sub_one_eq_mod, Nat.shiftRight_eq_div_pow]
    omega
  have h5 : (n &&& (0xff : UInt32)).toUInt8.toNat = n.toNat % 256 := by
    rw [UInt32.toNat_toUInt8, UInt32.toNat_and]
    show (n.toNat &&& 2 ^ 8 - 1) % 2 ^ 8 = _
    rw [Nat.and_two_pow_sub_one_eq_mod]
    omega
  have hbytes : (ip2MulticastEmacAddr addr).bytes =
      [0x01, 0x00, 0x5E, ((n >>> (16 : UInt32)) &&& (0x7f : UInt32)).toUInt8,
        ((n >>> (8 : UInt32)) &&& (0xff : UInt32)).toUInt8, (n &&& (0xff : UInt32)).toUInt8] := by
    rw [← hv]
    rfl
  rw [EthAddr.toNat, hbytes]
  simp only [List.foldl_cons, List.foldl_nil, h3, h4, h5]
  show (((((0 * 256 + 1) * 256 + 0) * 256 + 94) * 256 + n.toNat / 65536 % 128) * 256 +
    n.toNat / 256 % 256) * 256 + n.toNat % 256 = _
  omega

/-- The frame has the header in front of the packet, and the length of both. -/
theorem sendTx_setIPv4Tx {block : Memory} (h : FitsBlock block) (cfg : EthConfig) (mac : EthAddr) :
    sendTxEthFrame (setIPv4Tx block 0 cfg.ethMac mac).1 0 (setIPv4Tx block 0 cfg.ethMac mac).2 =
      ipFrames cfg block mac := by
  have hset : setIPv4Tx block 0 cfg.ethMac mac =
      (writeHeader block 0 mac cfg.ethMac (htons ethernetTypeIp),
        if IsKnownProto (packetOf block) then 14 + ipPacketLength (packetOf block) else 0) := by
    have hproto : (fun i => block (0 + sizeOfEthernetIIHeader.toNat + i)) = packetOf block := by
      funext i
      show block (0 + 14 + i) = block (14 + i)
      rw [Nat.zero_add]
    simp only [setIPv4Tx, hproto]
    split
    · next hp =>
      have hp' : IsKnownProto (packetOf block) := hp
      rw [if_pos hp']
      rfl
    · next hp =>
      have hp' : ¬ IsKnownProto (packetOf block) := hp
      rw [if_neg hp']
      rfl
  have hfit : 14 + totalLength (packetOf block) ≤ 1514 := h
  rw [hset]
  by_cases hp : IsKnownProto (packetOf block)
  · have hlen : (14 + ipPacketLength (packetOf block)).toNat =
        14 + totalLength (packetOf block) := by
      rw [UInt16.toNat_add, ipPacketLength_eq, show (14 : UInt16).toNat = 14 from rfl]
      omega
    have hne : ¬ 14 + ipPacketLength (packetOf block) = 0 := by
      intro h0
      rw [h0] at hlen
      have hz : (0 : UInt16).toNat = 0 := rfl
      omega
    rw [ipFrames, if_pos hp, if_pos hp, sendTxEthFrame, if_neg hne, hlen, window_add,
      window_writeHeader, window_writeHeader_other _ _ _ _ _ (Or.inr le_rfl)]
    rfl
  · rw [ipFrames, if_neg hp, if_neg hp]
    rfl

/-- An IP frame is not an ARP frame. -/
theorem not_isRequestFrame_ip {cfg : EthConfig} {addr : IPv4Addr} {block : Memory} {mac : EthAddr}
    {request : List UInt8} (h : ipFrames cfg block mac = [request]) :
    ¬ IsRequestFrame cfg addr request := by
  rintro ⟨arp, harp, -⟩
  unfold ipFrames at h
  split at h
  · obtain rfl := List.singleton_inj.mp h
    have hheader := (List.append_inj harp.bytes_eq (by simp)).1
    have htype : u16Bytes (htons ethernetTypeIp) = u16Bytes (htons ethernetTypeArp) :=
      (List.append_inj' hheader (by simp)).2
    exact absurd htype (by decide)
  · cases h

theorem sendIPv4Tx_some {cfg : EthConfig} {s : IPv4Arp} {block : Memory} (h : FitsBlock block)
    (sys : Memory) {mac : EthAddr} (hd : ethDest cfg s (destIpAddr (packetOf block)) = some mac) :
    sendIPv4Tx cfg s block sys = ipFrames cfg block mac := by
  rw [← sendTx_setIPv4Tx h]
  simp only [sendIPv4Tx, hd]

theorem sendIPv4Tx_none {cfg : EthConfig} {s : IPv4Arp} {block : Memory} (sys : Memory)
    (hd : ethDest cfg s (destIpAddr (packetOf block)) = none) :
    sendIPv4Tx cfg s block sys = (sendArpRequest cfg sys (destIpAddr (packetOf block))).2 := by
  simp only [sendIPv4Tx, hd]

/-- The packet gets its frame exactly if it goes to all, to a group, or to a next hop that the
table knows. The request that goes out in the other cases is none, and names the destination of
the packet even where that lies behind the router. -/
theorem nextHopOk_iff (cfg : EthConfig) (s : IPv4Arp) (block sys : Memory) (h : FitsBlock block) :
    NextHopOk cfg s block sys ↔
      isBroadcast (destIpAddr (packetOf block)) ∨ isMulticast (destIpAddr (packetOf block)) ∨
        s.Live (nextHop cfg (destIpAddr (packetOf block))) := by
  generalize hdest : destIpAddr (packetOf block) = dest
  constructor
  · intro hok
    by_contra hno
    push Not at hno
    obtain ⟨hb, hm, hlive⟩ := hno
    have hnone : ¬ ∃ mac, MacFor cfg s dest mac := by
      rintro ⟨mac, hmac⟩
      rw [MacFor, if_neg hb, if_neg hm] at hmac
      obtain ⟨hv, i, hi, -⟩ := hmac
      exact hlive ⟨hv, i, hi⟩
    obtain ⟨request, hsent, hreq⟩ := hok.asked (by rw [hdest]; exact hnone)
    cases hd : ethDest cfg s dest with
    | some mac =>
      rw [sendIPv4Tx_some h sys (by rw [hdest]; exact hd)] at hsent
      exact not_isRequestFrame_ip hsent hreq
    | none =>
      rw [sendIPv4Tx_none sys (by rw [hdest]; exact hd)] at hsent
      exact not_isRequestFrame hsent hreq
  · intro hok
    have hmac : ∃ mac, MacFor cfg s dest mac ∧ ethDest cfg s dest = some mac := by
      unfold MacFor ethDest
      by_cases hb : isBroadcast dest
      · exact ⟨ethAddrBroadcast, by rw [if_pos hb], by rw [if_pos hb]⟩
      · by_cases hm : isMulticast dest
        · refine ⟨ip2MulticastEmacAddr dest, ?_, ?_⟩
          · rw [if_neg hb, if_pos hm]
            exact toNat_ip2MulticastEmacAddr dest
          · rw [if_neg hb, if_pos hm]
        · obtain hb' | hm' | ⟨hv, i, hi⟩ := hok
          · exact absurd hb' hb
          · exact absurd hm' hm
          · obtain ⟨mac, hfound⟩ := s.iPv4toEthAddr_slot i
            rw [hi] at hfound
            refine ⟨mac, ?_, ?_⟩
            · rw [if_neg hb, if_neg hm]
              exact ⟨hv, IPv4Arp.iPv4toEthAddr_some hfound⟩
            · rw [if_neg hb, if_neg hm]
              exact hfound
    obtain ⟨mac, hfor, hfound⟩ := hmac
    constructor
    · intro _
      exact ⟨mac, hdest ▸ hfor, sendIPv4Tx_some h sys (by rw [hdest]; exact hfound)⟩
    · intro hnone
      exact absurd ⟨mac, hdest ▸ hfor⟩ hnone

/-- An empty UDP datagram in its block. -/
def datagramTo (dest : IPv4Addr) : Memory :=
  listMemory (List.replicate 14 0 ++
    (IPv4Header.mk 0x45 0 (htons 28) 0 0 64 uipProtoUdp 0 boardConfig.ipAddr dest).bytes ++
      List.replicate 8 0)

theorem nextHopOk_iff_peer :
    NextHopOk boardConfig peerKnown.1 (datagramTo peerAddr) (fun _ => 0) :=
  (nextHopOk_iff boardConfig peerKnown.1 (datagramTo peerAddr) (fun _ => 0)
    (by unfold FitsBlock; decide +kernel)).mpr
      (Or.inr (Or.inr ⟨by decide +kernel, 0, by decide +kernel⟩))

def offLinkAddr : IPv4Addr := ⟨0x08080808⟩

/-- The router is not in the table, and what goes out for a packet behind it is no request. -/
theorem not_nextHopOk_offLink :
    nextHop boardConfig offLinkAddr = boardConfig.drAddr ∧
      ¬ NextHopOk boardConfig zeroedArp.initializeArp (datagramTo offLinkAddr) (fun _ => 0) := by
  have hdest : destIpAddr (packetOf (datagramTo offLinkAddr)) = offLinkAddr := by decide +kernel
  have hfree : ∀ i, (zeroedArp.initializeArp.slot i).ipaddr = ⟨0⟩ := by decide +kernel
  have hunknown : ¬ ∃ mac, MacFor boardConfig zeroedArp.initializeArp offLinkAddr mac := by
    rintro ⟨mac, hmac⟩
    rw [MacFor, if_neg (by decide +kernel), if_neg (by decide +kernel)] at hmac
    obtain ⟨hv, i, hi, -⟩ := hmac
    rw [hfree i] at hi
    exact hv (congrArg IPv4Addr.v hi).symm
  refine ⟨by decide +kernel, fun hok => ?_⟩
  obtain ⟨request, hsent, hreq⟩ := hok.asked (by rw [hdest]; exact hunknown)
  have hnone : ethDest boardConfig zeroedArp.initializeArp offLinkAddr = none := by decide +kernel
  rw [sendIPv4Tx_none _ (by rw [hdest]; exact hnone)] at hsent
  exact not_isRequestFrame hsent hreq

end MiMic.NetIf
