import MiMic.NetIf.ArpRuns
import MiMic.NetIf.EthFrame

/-!
# An ARP request and its answer

Two hosts run this code on one network. What one hands to its driver is what the other
finds in its receive buffer.
-/
namespace MiMic.NetIf

open Verif

/-- `NyLPC_cMiMicIpNetIf_sendArpRequest`, in the block that `allocSysTxBuf` found. The payload
it was given is used as a frame, and the frame that is sent begins one header before it. -/
def sendArpRequest (cfg : EthConfig) (sys : Memory) (addr : IPv4Addr) :
    Memory × List (List UInt8) :=
  let ethbuf := txPayload
  let m := sys.write (ethbuf + sizeOfEthernetIIHeader.toNat)
    (setArpRequest cfg.ipAddr cfg.ethMac addr).bytes
  let r := setArpTx m ethbuf cfg.ethMac
  let p := ethbuf - sizeOfEthernetIIHeader.toNat
  (r.1, sendTxEthFrame r.1 p r.2)

/-- The reply of `NyLPC_cIPv4Arp_rx` and its `sendRawEthFrameNL`. -/
def sendArpReply (cfg : EthConfig) (sys : Memory) (arp : ArpHeader) : Memory × List (List UInt8) :=
  let arpTx := txPayload
  let m := sys.write arpTx (IPv4Arp.replyTo cfg arp).bytes
  let r := setArpTx m (arpTx - sizeOfEthernetIIHeader.toNat) cfg.ethMac
  (r.1, sendTxEthFrame r.1 (arpTx - sizeOfEthernetIIHeader.toNat) r.2)

/-- A host, with the block that it is going to be given. -/
structure Host where
  cfg : EthConfig
  arp : IPv4Arp
  sys : Memory

/-- What `uipTask` does with a frame for its ARP table, and the frames it answers with. -/
def Host.rxFrame (host : Host) (frame : List UInt8) : Host × List (List UInt8) :=
  let m := listMemory frame
  let rxLen := UInt16.ofNat frame.length - sizeOfEthernetIIHeader
  if (ethHeaderAt m 0).type = htons ethernetTypeIp then
    ({ host with arp := host.arp.incomingIp host.cfg (ethHeaderAt m 0).src ⟨m.u32 (14 + 12)⟩ }, [])
  else if (ethHeaderAt m 0).type = htons ethernetTypeArp then
    let r := host.arp.rx host.cfg (arpAt m 14) rxLen
    ({ host with arp := r.1 },
      if r.2.isSome then (sendArpReply host.cfg host.sys (arpAt m 14)).2 else [])
  else (host, [])

structure IsArpFrame (frame : List UInt8) (dest src : EthAddr) (arp : ArpHeader) : Prop where
  bytes_eq : frame = (EthernetIIHeader.mk dest src (htons ethernetTypeArp)).bytes ++ arp.bytes
  hwtype_eq : arp.hwtype = htons arpHwtypeEth
  protocol_eq : arp.protocol = htons ethernetTypeIp
  hwlen_eq : arp.hwlen = 6
  protolen_eq : arp.protolen = 4

/-- A request of this host for an address. -/
def IsRequestFrame (cfg : EthConfig) (addr : IPv4Addr) (frame : List UInt8) : Prop :=
  ∃ arp, IsArpFrame frame ethAddrBroadcast cfg.ethMac arp ∧ arp.opcode = htons arpRequest ∧
    arp.shwaddr = cfg.ethMac ∧ arp.sipaddr = cfg.ipAddr ∧ arp.dipaddr = addr

/-- A reply of this host to the one that asked. -/
def IsReplyFrame (cfg : EthConfig) (asker : EthAddr) (askerIp : IPv4Addr) (frame : List UInt8) :
    Prop :=
  ∃ arp, IsArpFrame frame asker cfg.ethMac arp ∧ arp.opcode = htons arpReply ∧
    arp.shwaddr = cfg.ethMac ∧ arp.sipaddr = cfg.ipAddr ∧ arp.dhwaddr = asker ∧
    arp.dipaddr = askerIp

/-- What follows when a frame arrives as a request: it is answered with a reply, and both
tables know the other host. -/
def AnsweredBy (a b : Host) (request : List UInt8) : Prop :=
  ∃ reply, (b.rxFrame request).2 = [reply] ∧ IsReplyFrame b.cfg a.cfg.ethMac a.cfg.ipAddr reply ∧
    (b.rxFrame request).1.arp.iPv4toEthAddr a.cfg.ipAddr = some a.cfg.ethMac ∧
    (a.rxFrame reply).1.arp.iPv4toEthAddr b.cfg.ipAddr = some b.cfg.ethMac

/-- The whole exchange. -/
def ExchangeOk (a b : Host) : Prop :=
  ∃ request, (sendArpRequest a.cfg a.sys b.cfg.ipAddr).2 = [request] ∧
    IsRequestFrame a.cfg b.cfg.ipAddr request ∧ AnsweredBy a b request

theorem sendArpRequest_eq (cfg : EthConfig) (sys : Memory) (addr : IPv4Addr) :
    sendArpRequest cfg sys addr =
      ((setArpTx (sys.write 28 (setArpRequest cfg.ipAddr cfg.ethMac addr).bytes) 14 cfg.ethMac).1,
        sendTxEthFrame
          (setArpTx (sys.write 28 (setArpRequest cfg.ipAddr cfg.ethMac addr).bytes) 14 cfg.ethMac).1 0
          (setArpTx (sys.write 28 (setArpRequest cfg.ipAddr cfg.ethMac addr).bytes) 14 cfg.ethMac).2) :=
  rfl

/-- Fourteen stale bytes, the header, and the front of the ARP packet. -/
theorem sendArpRequest_frames (cfg : EthConfig) (sys : Memory) (addr : IPv4Addr) :
    (sendArpRequest cfg sys addr).2 =
      [sys.window 0 14 ++
        (EthernetIIHeader.mk ethAddrBroadcast cfg.ethMac (htons ethernetTypeArp)).bytes ++
          (setArpRequest cfg.ipAddr cfg.ethMac addr).bytes.take 14] := by
  have hl := (setArpRequest cfg.ipAddr cfg.ethMac addr).length_bytes
  have hwritten := window_write_self sys 28 (setArpRequest cfg.ipAddr cfg.ethMac addr).bytes
  have hread : arpAt (sys.write 28 (setArpRequest cfg.ipAddr cfg.ethMac addr).bytes) (14 + 14) =
      setArpRequest cfg.ipAddr cfg.ethMac addr := arpAt_of_holds hwritten
  have harp : (arpAt (sys.write 28 (setArpRequest cfg.ipAddr cfg.ethMac addr).bytes) (14 + 14)).opcode
      = htons arpRequest := by
    rw [hread]
    rfl
  have hset := setArpTx_request cfg.ethMac harp
  have hsent : (sendArpRequest cfg sys addr).2 =
      [(writeHeader (sys.write 28 (setArpRequest cfg.ipAddr cfg.ethMac addr).bytes) 14
        ethAddrBroadcast cfg.ethMac (htons ethernetTypeArp)).window 0 42] := by
    rw [sendArpRequest_eq, hset]
    rfl
  have hstale := window_writeHeader_other (sys.write 28 (setArpRequest cfg.ipAddr cfg.ethMac addr).bytes)
    14 ethAddrBroadcast cfg.ethMac (htons ethernetTypeArp) (o := 0) (n := 14) (Or.inl le_rfl)
  rw [window_write_of_disjoint _ (Or.inl (by omega))] at hstale
  have hheader := window_writeHeader (sys.write 28 (setArpRequest cfg.ipAddr cfg.ethMac addr).bytes)
    14 ethAddrBroadcast cfg.ethMac (htons ethernetTypeArp)
  have hfront := window_writeHeader_other (sys.write 28 (setArpRequest cfg.ipAddr cfg.ethMac addr).bytes)
    14 ethAddrBroadcast cfg.ethMac (htons ethernetTypeArp) (o := 28) (n := 14) (Or.inr le_rfl)
  have htake : (sys.write 28 (setArpRequest cfg.ipAddr cfg.ethMac addr).bytes).window 28 14 =
      (setArpRequest cfg.ipAddr cfg.ethMac addr).bytes.take 14 := by
    rw [hl, window_add _ 28 14 14] at hwritten
    have h := congrArg (List.take 14) hwritten
    rwa [List.take_left' (by simp)] at h
  rw [hsent, window_add _ 0 28 14, window_add _ 0 14 14, hstale]
  rw [show 0 + 14 = 14 from rfl, show 0 + 28 = 28 from rfl, hheader, hfront, htake]

/-- The broadcast address of the displaced header stands where the hardware type should. -/
theorem not_isRequestFrame {cfg : EthConfig} {sys : Memory} {addr addr' : IPv4Addr}
    {frame : List UInt8} (h : (sendArpRequest cfg sys addr).2 = [frame]) :
    ¬ IsRequestFrame cfg addr' frame := by
  rintro ⟨arp, harp, -⟩
  rw [sendArpRequest_frames] at h
  obtain rfl := List.singleton_inj.mp h
  have hbytes := harp.bytes_eq
  rw [List.append_assoc] at hbytes
  have htail := (List.append_inj hbytes (by simp)).2
  have hhead := congrArg List.head? htail
  have hbroadcast : ((EthernetIIHeader.mk ethAddrBroadcast cfg.ethMac (htons ethernetTypeArp)).bytes ++
      (setArpRequest cfg.ipAddr cfg.ethMac addr).bytes.take 14).head? = some 0xff := rfl
  have hhwtype : arp.bytes.head? = some (UInt8.ofNat arp.hwtype.toNat) := rfl
  rw [hbroadcast, hhwtype, harp.hwtype_eq] at hhead
  exact absurd hhead (by decide)

theorem sendArpReply_eq (cfg : EthConfig) (sys : Memory) (arp : ArpHeader) :
    sendArpReply cfg sys arp =
      ((setArpTx (sys.write 14 (IPv4Arp.replyTo cfg arp).bytes) 0 cfg.ethMac).1,
        sendTxEthFrame (setArpTx (sys.write 14 (IPv4Arp.replyTo cfg arp).bytes) 0 cfg.ethMac).1 0
          (setArpTx (sys.write 14 (IPv4Arp.replyTo cfg arp).bytes) 0 cfg.ethMac).2) :=
  rfl

theorem sendArpReply_frames (cfg : EthConfig) (sys : Memory) (arp : ArpHeader) :
    (sendArpReply cfg sys arp).2 =
      [(EthernetIIHeader.mk arp.shwaddr cfg.ethMac (htons ethernetTypeArp)).bytes ++
        (IPv4Arp.replyTo cfg arp).bytes] := by
  have hl := (IPv4Arp.replyTo cfg arp).length_bytes
  have hwritten := window_write_self sys 14 (IPv4Arp.replyTo cfg arp).bytes
  have hread : arpAt (sys.write 14 (IPv4Arp.replyTo cfg arp).bytes) (0 + 14) =
      IPv4Arp.replyTo cfg arp := arpAt_of_holds hwritten
  have hop : (arpAt (sys.write 14 (IPv4Arp.replyTo cfg arp).bytes) (0 + 14)).opcode =
      htons arpReply := by
    rw [hread]
    rfl
  have hset := setArpTx_reply cfg.ethMac hop
  rw [hread] at hset
  have hsent : (sendArpReply cfg sys arp).2 =
      [(writeHeaderSrcFirst (sys.write 14 (IPv4Arp.replyTo cfg arp).bytes) 0 arp.shwaddr cfg.ethMac
        (htons ethernetTypeArp)).window 0 42] := by
    rw [sendArpReply_eq, hset]
    rfl
  have hheader := window_writeHeaderSrcFirst (sys.write 14 (IPv4Arp.replyTo cfg arp).bytes) 0
    arp.shwaddr cfg.ethMac (htons ethernetTypeArp)
  have hbody := window_writeHeaderSrcFirst_other (sys.write 14 (IPv4Arp.replyTo cfg arp).bytes) 0
    arp.shwaddr cfg.ethMac (htons ethernetTypeArp) (o := 14) (n := 28) (Or.inr le_rfl)
  rw [hl] at hwritten
  rw [hsent, window_add _ 0 14 28, show 0 + 14 = 14 from rfl, hheader, hbody, hwritten]

/-- An ARP frame is read as the packet it carries. -/
theorem rxFrame_arp (host : Host) {frame : List UInt8} {dest src : EthAddr} {arp : ArpHeader}
    (h : IsArpFrame frame dest src arp) :
    host.rxFrame frame =
      ({ host with arp := (host.arp.rx host.cfg arp sizeOfArpHeader).1 },
        if (host.arp.rx host.cfg arp sizeOfArpHeader).2.isSome then
          (sendArpReply host.cfg host.sys arp).2
        else []) := by
  have hlen : frame.length = 42 := by
    rw [h.bytes_eq, List.length_append, EthernetIIHeader.length_bytes, ArpHeader.length_bytes]
  have hholds : (listMemory frame).Holds 0
      ((EthernetIIHeader.mk dest src (htons ethernetTypeArp)).bytes ++ arp.bytes) := by
    rw [← h.bytes_eq, Memory.Holds, window_listMemory (by omega)]
    simp
  obtain ⟨hheader, harp⟩ := hholds.split
  rw [EthernetIIHeader.length_bytes] at harp
  have hread := arpAt_of_holds harp
  have heth := ethHeaderAt_of_holds hheader
  have hrx : UInt16.ofNat frame.length - sizeOfEthernetIIHeader = sizeOfArpHeader := by
    rw [hlen]
    decide
  have htype : ¬ htons ethernetTypeArp = htons ethernetTypeIp := by decide
  simp only [Host.rxFrame, heth, hrx]
  rw [if_neg htype, if_pos trivial]
  rw [show 0 + 14 = 14 from rfl] at hread
  rw [hread]

/-- Had the request been a request, everything else would follow. -/
theorem answered_of_requestFrame {a b : Host} {request : List UInt8} (ha : a.arp.AddrsUnique)
    (hb : b.arp.AddrsUnique) (hav : a.cfg.ipAddr.v ≠ 0) (hbv : b.cfg.ipAddr.v ≠ 0)
    (h : IsRequestFrame a.cfg b.cfg.ipAddr request) : AnsweredBy a b request := by
  obtain ⟨arp, harp, hop, hshw, hsip, hdip⟩ := h
  have hrx : b.arp.rx b.cfg arp sizeOfArpHeader =
      (b.arp.uipArpUpdate a.cfg.ipAddr a.cfg.ethMac, some (IPv4Arp.replyTo b.cfg arp)) := by
    simp only [IPv4Arp.rx]
    rw [if_neg (by decide), if_pos hop, if_pos hdip, hsip, hshw]
  have hreply : IsReplyFrame b.cfg a.cfg.ethMac a.cfg.ipAddr
      ((EthernetIIHeader.mk arp.shwaddr b.cfg.ethMac (htons ethernetTypeArp)).bytes ++
        (IPv4Arp.replyTo b.cfg arp).bytes) := by
    refine ⟨IPv4Arp.replyTo b.cfg arp, ?_, rfl, rfl, rfl, hshw, hsip⟩
    exact ⟨by rw [hshw], harp.hwtype_eq, harp.protocol_eq, harp.hwlen_eq, harp.protolen_eq⟩
  have hanswer := rxFrame_arp b harp
  rw [hrx] at hanswer
  refine ⟨_, ?_, hreply, ?_, ?_⟩
  · rw [hanswer]
    exact sendArpReply_frames b.cfg b.sys arp
  · rw [hanswer]
    exact lookup_learned hb hav _
  · obtain ⟨reply, hframe, hop', hshw', hsip', -, hdip'⟩ := hreply
    have hrx' : a.arp.rx a.cfg reply sizeOfArpHeader =
        (a.arp.uipArpUpdate b.cfg.ipAddr b.cfg.ethMac, none) := by
      have hne : ¬ reply.opcode = htons arpRequest := by
        rw [hop']
        decide
      simp only [IPv4Arp.rx]
      rw [if_neg (by decide), if_neg hne, if_pos hop', if_pos hdip', hsip', hshw']
    rw [rxFrame_arp a hframe, hrx']
    exact lookup_learned ha hbv _

/-- No request that is sent is one, so no exchange succeeds, whoever takes part and whatever the
block held. -/
theorem arp_exchange_fails (cfg : EthConfig) (sys : Memory) (addr : IPv4Addr) (a b : Host) :
    (∀ frame, (sendArpRequest cfg sys addr).2 = [frame] → ¬ IsRequestFrame cfg addr frame) ∧
      ¬ ExchangeOk a b := by
  constructor
  · exact fun frame h => not_isRequestFrame h
  · rintro ⟨request, hsent, hreq, -⟩
    exact not_isRequestFrame hsent hreq

def boardHost : Host := ⟨boardConfig, zeroedArp.initializeArp, fun _ => 0⟩

def peerHost : Host :=
  ⟨{ boardConfig with ipAddr := peerAddr, ethMac := peerMac }, zeroedArp.initializeArp, fun _ => 0⟩

/-- What the board sends to find the peer. -/
def boardRequest : List UInt8 :=
  List.replicate 14 0 ++
    (EthernetIIHeader.mk ethAddrBroadcast boardConfig.ethMac (htons ethernetTypeArp)).bytes ++
      (setArpRequest boardConfig.ipAddr boardConfig.ethMac peerAddr).bytes.take 14

theorem arp_exchange_fails_board :
    ¬ IsRequestFrame boardConfig peerAddr boardRequest ∧ ¬ ExchangeOk boardHost peerHost := by
  obtain ⟨hreq, hex⟩ :=
    arp_exchange_fails boardConfig (fun _ => 0) peerAddr boardHost peerHost
  exact ⟨hreq boardRequest (by decide +kernel), hex⟩

/-- The peer does not answer what the board sends, and learns nothing from it. -/
theorem request_unanswered :
    (sendArpRequest boardHost.cfg boardHost.sys peerAddr).2 = [boardRequest] ∧
      (peerHost.rxFrame boardRequest).2 = [] ∧
      (peerHost.rxFrame boardRequest).1.arp.iPv4toEthAddr boardConfig.ipAddr = none ∧
      ¬ ExchangeOk boardHost peerHost := by
  refine ⟨by decide +kernel, by decide +kernel, by decide +kernel, ?_⟩
  rintro ⟨request, hsent, hreq, -⟩
  exact not_isRequestFrame hsent hreq

end MiMic.NetIf
