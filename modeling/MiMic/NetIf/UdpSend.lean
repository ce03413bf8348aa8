import MiMic.Driver.EthernetMM
import MiMic.NetIf.Checksums
import MiMic.NetIf.NextHop
import MiMic.NetIf.UdpSocket

/-!
# Sending a datagram

`send` asks for a buffer three times at most. What a block can hold is its size without the
three headers; the sizes that the code compares have only the Ethernet header taken off.
-/
namespace MiMic.Driver

/-- `*o_size` of `NyLPC_cEthernetMM_alloc`. -/
def BlockClass.size : BlockClass → UInt16
  | .max => 1514
  | .b512 => 512
  | .b256 => 256
  | .b128 => 128
  | .b64 => 64

end MiMic.Driver

namespace MiMic.NetIf

open MiMic.Driver

/-- `SIZE_OF_IPv4_UDPIP_HEADER`. -/
def sizeOfUdpIpHeader : UInt16 := 28

/-- `NyLPC_cMiMicIpNetIf_allocTxBuf`: the block, and what is reported as its size. -/
def allocTxBuf (mm : EthernetMM) (hint : UInt16) : Option (BlockId × UInt16) :=
  (mm.alloc (hint + sizeOfEthernetIIHeader)).2.map fun b =>
    (b, b.cls.size - sizeOfEthernetIIHeader)

/-- A turn of the loop in `allocSendBuf`: the manager as it is then, and whether the time is up
when it has nothing. -/
structure AllocTry where
  mm : EthernetMM
  expired : Bool

/-- `allocSendBuf`; `none` while the loop goes on. -/
def allocSendBuf (hint : UInt16) : List AllocTry → Option (Option (BlockId × UInt16))
  | [] => none
  | t :: tries =>
      match allocTxBuf t.mm (hint + sizeOfUdpIpHeader) with
      | some r => some (some r)
      | none => if t.expired then some none else allocSendBuf hint tries

/-- The payload that fits in a block behind the three headers. -/
def payloadCapacity (b : BlockId) : Nat := b.cls.size.toNat - (14 + 28)

/-- `buf==NULL || s<i_len`. -/
def goesOn (len : Nat) (r : Option (BlockId × UInt16)) : Bool :=
  match r with
  | none => true
  | some (_, s) => decide (s.toNat < len)

/-- The loop of `send` over its attempts: the buffers it goes on from, and the last one. -/
def sendLoop (len : Nat) :
    List (List AllocTry) → Option (List (BlockId × UInt16) × Option (BlockId × UInt16))
  | [] => some ([], none)
  | [tries] => (allocSendBuf (UInt16.ofNat (len * 2)) tries).map fun r => ([], r)
  | tries :: attempts =>
      (allocSendBuf (UInt16.ofNat (len * 2)) tries).bind fun r =>
        if goesOn len r then (sendLoop len attempts).map fun p => (r.toList ++ p.1, p.2)
        else some ([], r)

/-- What an ARP request finds: the manager at each turn of the loop in `allocSysTxBuf`, and what
stands in the block. -/
structure SysEnv where
  turns : List EthernetMM
  block : Memory

/-- `NyLPC_cMiMicIpNetIf_allocSysTxBuf`; `none` while the loop goes on. -/
def allocSysTxBuf : List EthernetMM → Option BlockId
  | [] => none
  | mm :: turns =>
      match (mm.alloc hintCtrlPacket).2 with
      | some b => some b
      | none => allocSysTxBuf turns

/-- The system blocks that a transmission takes, the blocks that it gives back, and its frames. -/
structure TxRun where
  system : List BlockId
  released : List BlockId
  frames : List (List UInt8)

def TxRun.idle : TxRun := ⟨[], [], []⟩

/-- `NyLPC_cMiMicIpNetIf_sendArpRequest` with the block that it takes and gives back. -/
def arpRequestTx (cfg : EthConfig) (sys : SysEnv) (addr : IPv4Addr) : Option TxRun :=
  (allocSysTxBuf sys.turns).map fun b => ⟨[b], [b], (sendArpRequest cfg sys.block addr).2⟩

/-- `NyLPC_cMiMicIpNetIf_sendIPv4Tx` with the block of the request that it may send instead. -/
def packetTx (cfg : EthConfig) (arp : IPv4Arp) (packet : Memory) (sys : SysEnv) : Option TxRun :=
  if ethDest cfg arp (destIpAddr (packetOf packet)) = none then
    arpRequestTx cfg sys (destIpAddr (packetOf packet))
  else some { TxRun.idle with frames := sendIPv4Tx cfg arp packet sys.block }

/-- What a call of `send` finds: the tries of its three attempts, what stands in the block, the
ARP table that `hasArpInfo` reads with what a request then finds, and both as they are when the
packet goes out. -/
structure SendEnv where
  attempts : Vector (List AllocTry) 3
  block : Memory
  front : IPv4Header × UdpHeader
  pid : UInt16
  cfg : EthConfig
  known : IPv4Arp
  ask : SysEnv
  arp : IPv4Arp
  sys : SysEnv

/-- `copied` is the block that `memcpy` writes the payload to. -/
structure SendRun where
  ret : Int
  reports : List (BlockId × UInt16)
  copied : Option BlockId
  tx : TxRun

/-- The block behind `memcpy` and `setUdpTxBufHeader`. -/
def udpBlock (conn : UdpConn) (env : SendEnv) (addr : IPv4Addr) (port : UInt16)
    (payload : List UInt8) : Memory :=
  env.block.write txPayload
    (setUdpTxBufHeader conn env.pid ⟨env.front.1, env.front.2, payload⟩ addr port
      (UInt16.ofNat payload.length)).bytes

/-- A host whose address the table does not have is asked for before the packet goes out. -/
def askTx (env : SendEnv) (addr : IPv4Addr) : Option TxRun :=
  if isBroadcast addr ∨ isMulticast addr then some .idle
  else if env.known.iPv4toEthAddr addr = none then arpRequestTx env.cfg env.ask addr
  else some .idle

/-- `psend` of a packet with `payload` in `block`. -/
def psend (s : UdpSocket) (conn : UdpConn) (env : SendEnv) (addr : IPv4Addr) (port : UInt16)
    (payload : List UInt8) (block : BlockId) : Option (Bool × TxRun) :=
  if addr = addrBroadcast ∧ s.flags &&& 1 = 0 then some (false, .idle)
  else
    (askTx env addr).bind fun ask =>
      (packetTx env.cfg env.arp (udpBlock conn env addr port payload) env.sys).map fun tx =>
        (true, ⟨ask.system ++ tx.system, ask.released ++ tx.released ++ [block],
          ask.frames ++ tx.frames⟩)

/-- `send`. -/
def udpSend (s : UdpSocket) (conn : UdpConn) (env : SendEnv) (addr : IPv4Addr) (port : UInt16)
    (buf : Memory) (len : Int) : Option SendRun :=
  if len < 1 ∨ 1200 < len then some ⟨0, [], none, .idle⟩
  else
    (sendLoop len.toNat env.attempts.toList).bind fun p =>
      match p.2 with
      | none => some ⟨-1, p.1, none, .idle⟩
      | some r =>
          (psend s conn env addr port (buf.window 0 len.toNat) r.1).map fun q =>
            if q.1 then ⟨len, p.1 ++ [r], some r.1, q.2⟩
            else ⟨-1, p.1 ++ [r], some r.1, { q.2 with released := q.2.released ++ [r.1] }⟩

/-- The bytes behind the headers of a frame. -/
def framePayload (frame : List UInt8) : List UInt8 := frame.drop (14 + 28)

/-- The payload is copied into its buffer, every buffer is given back once, and a success has
sent the payload. -/
structure SendSafe (payload : List UInt8) (run : SendRun) : Prop where
  fits : ∀ b, run.copied = some b → payload.length ≤ payloadCapacity b
  released : (run.reports.map Prod.fst ++ run.tx.system).Perm run.tx.released
  sent : 0 < run.ret → ∃ frame ∈ run.tx.frames, framePayload frame = payload

/-- `allocSendBuf` reports what a buffer can hold. -/
def ReportsExact (run : SendRun) : Prop :=
  ∀ r ∈ run.reports, r.2.toNat = payloadCapacity r.1

theorem allocSendBuf_size {hint : UInt16} {tries : List AllocTry} {r : BlockId × UInt16}
    (h : allocSendBuf hint tries = some (some r)) : r.2 = r.1.cls.size - sizeOfEthernetIIHeader := by
  induction tries with
  | nil => cases h
  | cons t tries ih =>
    unfold allocSendBuf at h
    split at h
    · next r' hr =>
      obtain rfl := Option.some.inj (Option.some.inj h)
      obtain ⟨b, -, rfl⟩ := Option.map_eq_some_iff.mp hr
      rfl
    · split at h
      · cases h
      · exact ih h

/-- The size that is reported has the IP and UDP headers in it. -/
theorem reported_eq {hint : UInt16} {tries : List AllocTry} {r : BlockId × UInt16}
    (h : allocSendBuf hint tries = some (some r)) : r.2.toNat = payloadCapacity r.1 + 28 := by
  rw [allocSendBuf_size h, payloadCapacity]
  cases r.1.cls <;> decide

/-- The first buffer that an attempt gets. -/
def firstBuffer (hint : UInt16) : List (List AllocTry) → Option (BlockId × UInt16)
  | [] => none
  | tries :: attempts =>
      match allocSendBuf hint tries with
      | some (some r) => some r
      | some none => firstBuffer hint attempts
      | none => none

theorem firstBuffer_reported {hint : UInt16} {attempts : List (List AllocTry)}
    {r : BlockId × UInt16} (h : firstBuffer hint attempts = some r) :
    r.2.toNat = payloadCapacity r.1 + 28 := by
  induction attempts with
  | nil => cases h
  | cons tries attempts ih =>
    unfold firstBuffer at h
    split at h
    · next r' hr =>
      obtain rfl := Option.some.inj h
      exact reported_eq hr
    · exact ih h
    · cases h

/-- What the loop ends with: nothing, the first buffer when it looks large enough, or a first
buffer that does not, which is left behind unless it came last. -/
theorem sendLoop_cases {len : Nat} {rejected : List (BlockId × UInt16)}
    {last : Option (BlockId × UInt16)} {attempts : List (List AllocTry)}
    (h : sendLoop len attempts = some (rejected, last)) :
    (firstBuffer (UInt16.ofNat (len * 2)) attempts = none ∧ rejected = [] ∧ last = none) ∨
      ∃ r, firstBuffer (UInt16.ofNat (len * 2)) attempts = some r ∧
        (rejected = [] ∧ last = some r ∨ r.2.toNat < len ∧ r ∈ rejected) := by
  induction attempts generalizing rejected with
  | nil =>
    obtain ⟨rfl, rfl⟩ := Prod.mk.inj (Option.some.inj h)
    exact Or.inl ⟨rfl, rfl, rfl⟩
  | cons tries attempts ih =>
    have hlast : (∃ r, allocSendBuf (UInt16.ofNat (len * 2)) tries = some r ∧ rejected = [] ∧
          last = r ∧ (r = none → attempts = [])) ∨
        ∃ r p, allocSendBuf (UInt16.ofNat (len * 2)) tries = some r ∧ goesOn len r = true ∧
          sendLoop len attempts = some p ∧ rejected = r.toList ++ p.1 ∧ last = p.2 := by
      cases attempts with
      | nil =>
        obtain ⟨r, hr, hp⟩ := Option.map_eq_some_iff.mp h
        obtain ⟨rfl, rfl⟩ := Prod.mk.inj hp
        exact Or.inl ⟨r, hr, rfl, rfl, fun _ => rfl⟩
      | cons next attempts =>
        obtain ⟨r, hr, hp⟩ := Option.bind_eq_some_iff.mp h
        split at hp
        · next hg =>
          obtain ⟨p, hloop, hp⟩ := Option.map_eq_some_iff.mp hp
          obtain ⟨rfl, rfl⟩ := Prod.mk.inj hp
          exact Or.inr ⟨r, p, hr, hg, hloop, rfl, rfl⟩
        · next hg =>
          obtain ⟨rfl, rfl⟩ := Prod.mk.inj (Option.some.inj hp)
          refine Or.inl ⟨r, hr, rfl, rfl, fun hnone => ?_⟩
          rw [hnone] at hg
          exact absurd rfl hg
    simp only [firstBuffer]
    rcases hlast with ⟨r, hr, rfl, rfl, hend⟩ | ⟨r, ⟨rej', last'⟩, hr, hg, hloop, rfl, rfl⟩
    · rw [hr]
      cases last with
      | none =>
        obtain rfl := hend rfl
        exact Or.inl ⟨rfl, rfl, rfl⟩
      | some r => exact Or.inr ⟨r, rfl, Or.inl ⟨rfl, rfl⟩⟩
    · rw [hr]
      cases r with
      | none => exact ih hloop
      | some r =>
        have hsmall : r.2.toNat < len := by simpa [goesOn] using hg
        exact Or.inr ⟨r, rfl, Or.inr ⟨hsmall, List.mem_cons_self⟩⟩

/-- A request has no payload. -/
theorem framePayload_request {cfg : EthConfig} {sys : Memory} {addr : IPv4Addr}
    {frame : List UInt8} (h : frame ∈ (sendArpRequest cfg sys addr).2) : framePayload frame = [] := by
  rw [sendArpRequest_eq] at h
  simp only [sendTxEthFrame] at h
  split at h
  · cases h
  · obtain rfl := List.mem_singleton.mp h
    refine List.eq_nil_of_length_eq_zero ?_
    have hsize : ∀ (m : Memory) (eth : Nat) (mac : EthAddr), (setArpTx m eth mac).2.toNat = 42 :=
      fun _ _ _ => rfl
    rw [framePayload, List.length_drop, length_window, hsize]

section

variable (conn : UdpConn) (env : SendEnv) (addr : IPv4Addr) (port : UInt16) (payload : List UInt8)

/-- The packet in the block. -/
def udpPacket : UdpPacket :=
  setUdpTxBufHeader conn env.pid ⟨env.front.1, env.front.2, payload⟩ addr port
    (UInt16.ofNat payload.length)

theorem udpBlock_holds : (udpBlock conn env addr port payload).Holds txPayload
    (udpPacket conn env addr port payload).bytes :=
  window_write_self _ _ _

/-- What the code reads back of the packet. -/
structure PacketFields (block : Memory) : Prop where
  dest : destIpAddr (packetOf block) = addr
  proto : packetOf block 9 = uipProtoUdp
  length : totalLength (packetOf block) = payload.length + 28
  body : block.window (14 + 28) payload.length = payload

theorem packetFields_udpBlock (hlen : payload.length ≤ 1200) :
    PacketFields addr payload (udpBlock conn env addr port payload) := by
  have hholds := udpBlock_holds conn env addr port payload
  generalize udpBlock conn env addr port payload = block at hholds ⊢
  generalize hp : udpPacket conn env addr port payload = packet at hholds
  have hdestip : packet.iph.destipaddr = addr := by rw [← hp]; rfl
  have hproto : packet.iph.proto = uipProtoUdp := by rw [← hp]; rfl
  have hlen16 : packet.iph.len16 = htons (UInt16.ofNat payload.length + (5 * 4 + 8)) := by
    rw [← hp]
    rfl
  have hbody : packet.body = payload := by rw [← hp]; rfl
  obtain ⟨hhead, hbodyAt⟩ := hholds.split
  obtain ⟨hip, -⟩ := hhead.split
  obtain ⟨hip, hdest⟩ := hip.split
  obtain ⟨hip, -⟩ := hip.split
  obtain ⟨hip, -⟩ := hip.split
  obtain ⟨hip, httl⟩ := hip.split
  obtain ⟨hip, -⟩ := hip.split
  obtain ⟨hip, -⟩ := hip.split
  obtain ⟨-, hlenAt⟩ := hip.split
  have hshift : ∀ off, (packetOf block).u32 off = block.u32 (txPayload + off) := fun _ => rfl
  constructor
  · rw [destIpAddr, hshift]
    have hv : block.u32 (txPayload + 16) = packet.iph.destipaddr.v := hdest.u32
    rw [hv, hdestip]
  · have hb : block (txPayload + 8 + 1) = packet.iph.proto := httl.byte (i := 1) (by simp)
    exact hb.trans hproto
  · have hb : (packetOf block).u16 2 = packet.iph.len16 := hlenAt.u16
    rw [← ipPacketLength_eq, ipPacketLength, hb, hlen16, ntohs_htons, UInt16.toNat_add,
      UInt16.toNat_ofNat']
    show (payload.length % 2 ^ 16 + 28) % 2 ^ 16 = payload.length + 28
    omega
  · have hb : block.window (14 + 28) packet.body.length = packet.body := hbodyAt
    rw [hbody] at hb
    exact hb

/-- The datagram leaves the host exactly if its destination is resolved. -/
theorem sendIPv4Tx_udp (cfg : EthConfig) (arp : IPv4Arp) (sys : Memory) (hne : payload ≠ [])
    (hlen : payload.length ≤ 1200) :
    (∃ frame ∈ sendIPv4Tx cfg arp (udpBlock conn env addr port payload) sys,
      framePayload frame = payload) ↔ ethDest cfg arp addr ≠ none := by
  have hfields := packetFields_udpBlock conn env addr port payload hlen
  generalize udpBlock conn env addr port payload = block at hfields ⊢
  cases hd : ethDest cfg arp addr with
  | none =>
    refine iff_of_false ?_ (fun h => h rfl)
    rintro ⟨frame, hmem, hpay⟩
    rw [sendIPv4Tx_none sys (by rw [hfields.dest]; exact hd)] at hmem
    exact hne (hpay.symm.trans (framePayload_request hmem))
  | some mac =>
    refine iff_of_true ?_ (Option.some_ne_none _)
    have hfit : FitsBlock block := by
      have h14 : txPayload = 14 := rfl
      have hmax : maxTxEthernetFrameSize = 1514 := rfl
      rw [FitsBlock, hfields.length]
      omega
    have hknown : IsKnownProto (packetOf block) := Or.inr (Or.inl hfields.proto)
    rw [sendIPv4Tx_some hfit sys (by rw [hfields.dest]; exact hd), ipFrames, if_pos hknown]
    refine ⟨_, List.mem_singleton_self _, ?_⟩
    have hwin : block.window txPayload (totalLength (packetOf block)) =
        block.window txPayload 28 ++ block.window (14 + 28) payload.length := by
      rw [hfields.length, Nat.add_comm payload.length 28, window_add]
      rfl
    rw [framePayload, hwin, hfields.body, ← List.append_assoc]
    exact List.drop_left' (by simp)

end

/-- A request gives its block back, and carries no payload. -/
structure IsAsking (tx : TxRun) : Prop where
  released : tx.released = tx.system
  frames : ∀ frame ∈ tx.frames, framePayload frame = []

theorem isAsking_idle : IsAsking .idle := ⟨rfl, fun _ h => absurd h List.not_mem_nil⟩

theorem isAsking_arpRequestTx {cfg : EthConfig} {sys : SysEnv} {addr : IPv4Addr} {tx : TxRun}
    (h : arpRequestTx cfg sys addr = some tx) : IsAsking tx := by
  obtain ⟨b, -, rfl⟩ := Option.map_eq_some_iff.mp h
  exact ⟨rfl, fun _ hmem => framePayload_request hmem⟩

theorem isAsking_askTx {env : SendEnv} {addr : IPv4Addr} {tx : TxRun} (h : askTx env addr = some tx) :
    IsAsking tx := by
  unfold askTx at h
  split at h
  · exact Option.some.inj h ▸ isAsking_idle
  split at h
  · exact isAsking_arpRequestTx h
  · exact Option.some.inj h ▸ isAsking_idle

theorem packetTx_spec {cfg : EthConfig} {arp : IPv4Arp} {packet : Memory} {sys : SysEnv} {tx : TxRun}
    (h : packetTx cfg arp packet sys = some tx) :
    tx.released = tx.system ∧ tx.frames = sendIPv4Tx cfg arp packet sys.block := by
  unfold packetTx at h
  split at h
  · next hnone =>
    refine ⟨(isAsking_arpRequestTx h).released, ?_⟩
    obtain ⟨b, -, rfl⟩ := Option.map_eq_some_iff.mp h
    rw [sendIPv4Tx_none sys.block hnone]
  · exact Option.some.inj h ▸ ⟨rfl, rfl⟩

/-- What `psend` does with a packet that is not refused: the block goes back with those of the
requests, and the packet is sent exactly if its destination is resolved by then. -/
structure Psends (env : SendEnv) (addr : IPv4Addr) (payload : List UInt8) (block : BlockId)
    (tx : TxRun) : Prop where
  released : (block :: tx.system).Perm tx.released
  sent : (∃ frame ∈ tx.frames, framePayload frame = payload) ↔ ethDest env.cfg env.arp addr ≠ none

theorem psend_spec {s : UdpSocket} {conn : UdpConn} {env : SendEnv} {addr : IPv4Addr} {port : UInt16}
    {payload : List UInt8} {block : BlockId} {q : Bool × TxRun} (hne : payload ≠ [])
    (hlen : payload.length ≤ 1200) (hopen : ¬ (addr = addrBroadcast ∧ s.flags &&& 1 = 0))
    (h : psend s conn env addr port payload block = some q) :
    q.1 = true ∧ Psends env addr payload block q.2 := by
  rw [psend, if_neg hopen] at h
  obtain ⟨ask, hask, h⟩ := Option.bind_eq_some_iff.mp h
  obtain ⟨tx, htx, rfl⟩ := Option.map_eq_some_iff.mp h
  obtain ⟨hasked, hquiet⟩ := isAsking_askTx hask
  obtain ⟨hreleased, hframes⟩ := packetTx_spec htx
  refine ⟨rfl, ?_, ?_⟩
  · rw [hasked, hreleased]
    exact (List.perm_append_singleton _ _).symm
  · rw [← sendIPv4Tx_udp conn env addr port payload env.cfg env.arp env.sys.block hne hlen, ← hframes]
    constructor
    · rintro ⟨frame, hmem, hpay⟩
      obtain hmem | hmem := List.mem_append.mp hmem
      · exact absurd (hpay.symm.trans (hquiet frame hmem)) hne
      · exact ⟨frame, hmem, hpay⟩
    · rintro ⟨frame, hmem, hpay⟩
      exact ⟨frame, List.mem_append_right _ hmem, hpay⟩

/-- The first buffer, if there is one, holds the payload, and the packet then goes out unless
it is refused. -/
def FirstBufferFits (s : UdpSocket) (env : SendEnv) (addr : IPv4Addr) (len : Int) : Prop :=
  ∀ r, firstBuffer (UInt16.ofNat (len.toNat * 2)) env.attempts.toList = some r →
    len.toNat ≤ payloadCapacity r.1 ∧
      ((addr = addrBroadcast ∧ s.flags &&& 1 = 0) ∨ ethDest env.cfg env.arp addr ≠ none)

/-- The length is one that `send` does not take. -/
def BadLength (len : Int) : Prop := len < 1 ∨ 1200 < len

theorem payload_ok (buf : Memory) {len : Int} (h : ¬ BadLength len) :
    buf.window 0 len.toNat ≠ [] ∧ (buf.window 0 len.toNat).length ≤ 1200 := by
  obtain ⟨hlow, hhigh⟩ := not_or.mp h
  have hlen := length_window buf 0 len.toNat
  constructor
  · intro hnil
    rw [hnil, List.length_nil] at hlen
    omega
  · omega

/-- How a call with a length it takes ends. -/
inductive SendEnds (s : UdpSocket) (env : SendEnv) (addr : IPv4Addr) (payload : List UInt8)
    (len : Int) (first : Option (BlockId × UInt16)) : SendRun → Prop
  | noBuffer : first = none → SendEnds s env addr payload len first ⟨-1, [], none, .idle⟩
  | leftBehind (r : BlockId × UInt16) (run : SendRun) : first = some r → r.2.toNat < len.toNat →
      r ∈ run.reports → run.tx.released.length < run.reports.length + run.tx.system.length →
      SendEnds s env addr payload len first run
  | refused (r : BlockId × UInt16) : first = some r → addr = addrBroadcast ∧ s.flags &&& 1 = 0 →
      SendEnds s env addr payload len first ⟨-1, [r], some r.1, ⟨[], [r.1], []⟩⟩
  | used (r : BlockId × UInt16) (tx : TxRun) : first = some r →
      ¬ (addr = addrBroadcast ∧ s.flags &&& 1 = 0) → Psends env addr payload r.1 tx →
      SendEnds s env addr payload len first ⟨len, [r], some r.1, tx⟩

section

variable {s : UdpSocket} {conn : UdpConn} {env : SendEnv} {addr : IPv4Addr} {port : UInt16}
  {buf : Memory} {len : Int} {run : SendRun}

theorem udpSend_ends (hlen : ¬ BadLength len)
    (h : udpSend s conn env addr port buf len = some run) :
    SendEnds s env addr (buf.window 0 len.toNat) len
      (firstBuffer (UInt16.ofNat (len.toNat * 2)) env.attempts.toList) run := by
  obtain ⟨hne, hmax⟩ := payload_ok buf hlen
  have hgood : ¬ (len < 1 ∨ 1200 < len) := hlen
  unfold udpSend at h
  rw [if_neg hgood] at h
  obtain ⟨⟨rejected, last⟩, hloop, hrun⟩ := Option.bind_eq_some_iff.mp h
  -- what the last buffer comes to
  have hlast : ∀ r, last = some r →
      (addr = addrBroadcast ∧ s.flags &&& 1 = 0 ∧
        run = ⟨-1, rejected ++ [r], some r.1, ⟨[], [r.1], []⟩⟩) ∨
      (¬ (addr = addrBroadcast ∧ s.flags &&& 1 = 0) ∧
        ∃ tx, Psends env addr (buf.window 0 len.toNat) r.1 tx ∧
          run = ⟨len, rejected ++ [r], some r.1, tx⟩) := by
    rintro r rfl
    obtain ⟨⟨ok, tx⟩, hpsend, rfl⟩ := Option.map_eq_some_iff.mp hrun
    by_cases hrefused : addr = addrBroadcast ∧ s.flags &&& 1 = 0
    · rw [psend, if_pos hrefused] at hpsend
      obtain ⟨rfl, rfl⟩ := Prod.mk.inj (Option.some.inj hpsend)
      exact Or.inl ⟨hrefused.1, hrefused.2, rfl⟩
    · obtain ⟨rfl, hsends⟩ := psend_spec hne hmax hrefused hpsend
      exact Or.inr ⟨hrefused, tx, hsends, rfl⟩
  rcases sendLoop_cases hloop with ⟨hnone, rfl, rfl⟩ | ⟨r, hfirst, ⟨rfl, rfl⟩ | ⟨hsmall, hmem⟩⟩
  · obtain rfl := Option.some.inj hrun
    exact .noBuffer hnone
  · obtain ⟨hb, hflags, rfl⟩ | ⟨hopen, tx, hsends, rfl⟩ := hlast r rfl
    · exact .refused r hfirst ⟨hb, hflags⟩
    · exact .used r tx hfirst hopen hsends
  · have hpos := List.length_pos_of_mem hmem
    cases last with
    | none =>
      obtain rfl := Option.some.inj hrun
      exact .leftBehind r _ hfirst hsmall hmem hpos
    | some r' =>
      refine .leftBehind r run hfirst hsmall ?_ ?_
      · obtain ⟨-, -, rfl⟩ | ⟨-, tx, -, rfl⟩ := hlast r' rfl <;> exact List.mem_append_left _ hmem
      · obtain ⟨-, -, rfl⟩ | ⟨-, tx, hsends, rfl⟩ := hlast r' rfl
        · simpa using hpos
        · have hcount := hsends.released.length_eq
          rw [List.length_cons] at hcount
          show tx.released.length < (rejected ++ [r']).length + tx.system.length
          rw [List.length_append, List.length_singleton, ← hcount]
          omega

theorem firstBufferFits_iff {r : BlockId × UInt16}
    (hfirst : firstBuffer (UInt16.ofNat (len.toNat * 2)) env.attempts.toList = some r) :
    FirstBufferFits s env addr len ↔ len.toNat ≤ payloadCapacity r.1 ∧
      ((addr = addrBroadcast ∧ s.flags &&& 1 = 0) ∨ ethDest env.cfg env.arp addr ≠ none) := by
  constructor
  · intro hall
    exact hall r hfirst
  · intro hr r' hr'
    rw [hfirst] at hr'
    obtain rfl := Option.some.inj hr'
    exact hr

theorem sendSafe_iff (hlen : ¬ BadLength len)
    (h : udpSend s conn env addr port buf len = some run) :
    SendSafe (buf.window 0 len.toNat) run ↔ FirstBufferFits s env addr len := by
  have hfits : ∀ b : BlockId, (∀ b', some b = some b' →
      (buf.window 0 len.toNat).length ≤ payloadCapacity b') ↔ len.toNat ≤ payloadCapacity b := by
    intro b
    rw [length_window]
    constructor
    · intro hall
      exact hall b rfl
    · rintro hle b' hb
      obtain rfl := Option.some.inj hb
      exact hle
  cases udpSend_ends hlen h with
  | noBuffer hnone =>
    refine iff_of_true ⟨fun b hb => (nomatch hb), List.Perm.refl _, fun hpos => ?_⟩ fun r hr => ?_
    · exact absurd (show (0 : Int) < -1 from hpos) (by decide)
    · rw [hnone] at hr
      cases hr
  | leftBehind r _ hfirst hsmall _ hcount =>
    have hcap := firstBuffer_reported hfirst
    rw [firstBufferFits_iff hfirst]
    refine iff_of_false (fun hsafe => ?_) fun hr => by omega
    have heq := hsafe.released.length_eq
    rw [List.length_append, List.length_map] at heq
    omega
  | refused r hfirst hrefused =>
    rw [firstBufferFits_iff hfirst]
    constructor
    · intro hsafe
      exact ⟨(hfits r.1).mp hsafe.fits, Or.inl hrefused⟩
    · intro hr
      exact ⟨(hfits r.1).mpr hr.1, List.Perm.refl _,
        fun hpos => absurd (show (0 : Int) < -1 from hpos) (by decide)⟩
  | used r tx hfirst hrefused hsends =>
    have hpos : 0 < len := by
      have hlow := (not_or.mp hlen).1
      omega
    rw [firstBufferFits_iff hfirst, or_iff_right hrefused, ← hsends.sent]
    constructor
    · intro hsafe
      exact ⟨(hfits r.1).mp hsafe.fits, hsafe.sent hpos⟩
    · intro hr
      exact ⟨(hfits r.1).mpr hr.1, hsends.released, fun _ => hr.2⟩

/-- Whatever buffer comes first, its size was reported with the headers in it. -/
theorem reportsExact_iff (hlen : ¬ BadLength len)
    (h : udpSend s conn env addr port buf len = some run) :
    ReportsExact run ↔
      firstBuffer (UInt16.ofNat (len.toNat * 2)) env.attempts.toList = none := by
  have hwrong : ∀ r : BlockId × UInt16, r ∈ run.reports →
      firstBuffer (UInt16.ofNat (len.toNat * 2)) env.attempts.toList = some r →
      (ReportsExact run ↔
        firstBuffer (UInt16.ofNat (len.toNat * 2)) env.attempts.toList = none) := by
    intro r hmem hfirst
    refine iff_of_false (fun hexact => ?_) (by rw [hfirst]; exact Option.some_ne_none r)
    have hcap := firstBuffer_reported hfirst
    have heq := hexact r hmem
    omega
  cases udpSend_ends hlen h with
  | noBuffer hnone => exact iff_of_true (fun r hr => nomatch hr) hnone
  | leftBehind r _ hfirst _ hmem _ => exact hwrong r hmem hfirst
  | refused r hfirst _ => exact hwrong r (List.mem_singleton_self r) hfirst
  | used r tx hfirst _ _ => exact hwrong r (List.mem_singleton_self r) hfirst

/-- What the code is to do for a call of `send`. -/
structure SendOk (payload : List UInt8) (run : SendRun) : Prop where
  safe : SendSafe payload run
  reported : ReportsExact run

/-- All of it holds only where no buffer is handed out, since every reported size is wrong; the
rest of it holds exactly if the first buffer fits. -/
theorem udp_send (h : udpSend s conn env addr port buf len = some run) :
    (SendOk (buf.window 0 len.toNat) run ↔ BadLength len ∨
      firstBuffer (UInt16.ofNat (len.toNat * 2)) env.attempts.toList = none) ∧
    (SendSafe (buf.window 0 len.toNat) run ↔ BadLength len ∨ FirstBufferFits s env addr len) := by
  by_cases hlen : BadLength len
  · have hbad : len < 1 ∨ 1200 < len := hlen
    unfold udpSend at h
    rw [if_pos hbad] at h
    obtain rfl := Option.some.inj h
    have hsafe : SendSafe (buf.window 0 len.toNat) ⟨0, [], none, .idle⟩ :=
      ⟨fun b hb => (nomatch hb), List.Perm.refl _, fun hpos => absurd hpos (by decide)⟩
    exact ⟨iff_of_true ⟨hsafe, fun r hr => nomatch hr⟩ (Or.inl hlen),
      iff_of_true hsafe (Or.inl hlen)⟩
  · have hsafe := sendSafe_iff hlen h
    have hexact := reportsExact_iff hlen h
    rw [or_iff_right hlen, or_iff_right hlen]
    refine ⟨⟨fun hok => hexact.mp hok.reported, fun hnone => ⟨hsafe.mpr ?_, hexact.mpr hnone⟩⟩, hsafe⟩
    intro r hr
    rw [hnone] at hr
    cases hr

variable (s conn port buf) in
/-- With blocks for the requests, a buffer that is used for a packet leads to a run. -/
theorem udpSend_used {rejected : List (BlockId × UInt16)} {r : BlockId × UInt16}
    (hlen : ¬ BadLength len) (hloop : sendLoop len.toNat env.attempts.toList = some (rejected, some r))
    (hopen : ¬ (addr = addrBroadcast ∧ s.flags &&& 1 = 0)) (hask : (allocSysTxBuf env.ask.turns).isSome)
    (hsys : (allocSysTxBuf env.sys.turns).isSome) :
    ∃ tx, udpSend s conn env addr port buf len = some ⟨len, rejected ++ [r], some r.1, tx⟩ ∧
      Psends env addr (buf.window 0 len.toNat) r.1 tx := by
  obtain ⟨hne, hmax⟩ := payload_ok buf hlen
  have hgood : ¬ (len < 1 ∨ 1200 < len) := hlen
  have hrequest : ∀ (sys : SysEnv) (a : IPv4Addr), (allocSysTxBuf sys.turns).isSome →
      ∃ tx, arpRequestTx env.cfg sys a = some tx := by
    intro sys a hturns
    obtain ⟨b, hb⟩ := Option.isSome_iff_exists.mp hturns
    exact ⟨_, by rw [arpRequestTx, hb, Option.map_some]⟩
  have hasked : ∃ ask, askTx env addr = some ask := by
    unfold askTx
    split
    · exact ⟨_, rfl⟩
    split
    · exact hrequest _ _ hask
    · exact ⟨_, rfl⟩
  have hsent : ∃ tx, packetTx env.cfg env.arp (udpBlock conn env addr port (buf.window 0 len.toNat))
      env.sys = some tx := by
    unfold packetTx
    split
    · exact hrequest _ _ hsys
    · exact ⟨_, rfl⟩
  obtain ⟨ask, hask⟩ := hasked
  obtain ⟨tx, htx⟩ := hsent
  have hpsend : ∃ q, psend s conn env addr port (buf.window 0 len.toNat) r.1 = some q := by
    rw [psend, if_neg hopen, hask, Option.bind_some, htx]
    exact ⟨_, rfl⟩
  obtain ⟨⟨ok, tx⟩, hpsend⟩ := hpsend
  obtain ⟨rfl, hsends⟩ := psend_spec hne hmax hopen hpsend
  refine ⟨tx, ?_, hsends⟩
  rw [udpSend, if_neg hgood, hloop, Option.bind_some]
  simp only [hpsend, Option.map_some, if_true]

end

/-- Only the blocks of one class are free. -/
def onlyFree (cls : BlockClass) : AllocTry where
  mm := fun b => ⟨if b.cls = cls then 0 else 1, false⟩
  expired := true

/-- A call on a board that has resolved no address. -/
def boardSend (first second : BlockClass) : SendEnv where
  attempts := #v[[onlyFree first], [onlyFree second], [onlyFree second]]
  block := fun _ => 0
  front := (⟨0, 0, 0, 0, 0, 0, 0, 0, ⟨0⟩, ⟨0⟩⟩, ⟨0, 0, 0, 0⟩)
  pid := 1
  cfg := boardConfig
  known := zeroedArp.initializeArp
  ask := ⟨[.initialized], fun _ => 0⟩
  arp := zeroedArp.initializeArp
  sys := ⟨[.initialized], fun _ => 0⟩

def boardSocket : UdpSocket := ⟨htons 53, ⟨0⟩, 1⟩

def boardConn : UdpConn := ⟨boardConfig.ipAddr, htons 53⟩

theorem boardSend_used (first second : BlockClass) (addr : IPv4Addr) {len : Int}
    {rejected : List (BlockId × UInt16)} {r : BlockId × UInt16} (hlen : ¬ BadLength len)
    (hloop : sendLoop len.toNat (boardSend first second).attempts.toList = some (rejected, some r)) :
    ∃ tx, udpSend boardSocket boardConn (boardSend first second) addr 53 (fun _ => 7) len =
        some ⟨len, rejected ++ [r], some r.1, tx⟩ ∧
      Psends (boardSend first second) addr (Memory.window (fun _ => 7) 0 len.toNat) r.1 tx := by
  have hsys : (allocSysTxBuf [.initialized]).isSome := by decide
  exact udpSend_used _ _ _ _ hlen hloop (fun h => absurd h.2 (by decide)) hsys hsys

/-- A hundred bytes for everyone, in a block of 256. -/
theorem udp_send_broadcast : ∃ run : SendRun, run.ret = 100 ∧
    SendSafe (Memory.window (fun _ => 7) 0 100) run ∧
    ¬ SendOk (Memory.window (fun _ => 7) 0 100) run := by
  have hloop : sendLoop 100 (boardSend .b256 .b256).attempts.toList =
      some ([], some (⟨.b256, 0⟩, 242)) := by decide +kernel
  have hlen : ¬ BadLength 100 := by
    rintro (h | h) <;> omega
  obtain ⟨tx, hrun, -⟩ := boardSend_used .b256 .b256 addrBroadcast hlen hloop
  have hfirst : firstBuffer (UInt16.ofNat ((100 : Int).toNat * 2))
      (boardSend .b256 .b256).attempts.toList = some (⟨.b256, 0⟩, 242) := by decide +kernel
  have h := udp_send hrun
  refine ⟨_, rfl, h.2.mpr (Or.inr fun r hr => ?_), fun hok => ?_⟩
  · rw [hfirst] at hr
    obtain rfl := Option.some.inj hr
    exact ⟨by decide, Or.inr (by decide +kernel)⟩
  · rcases h.1.mp hok with hbad | hnone
    · exact hlen hbad
    · rw [hfirst] at hnone
      cases hnone

/-- A hundred bytes are copied into a block of 128, a block that was too small is not given back,
a datagram whose destination is not resolved counts as sent, and 242 bytes are promised in a
block of 256. -/
theorem not_udp_send :
    (¬ ∀ s conn env addr port buf len run, udpSend s conn env addr port buf len = some run →
      ∀ b, run.copied = some b → len.toNat ≤ payloadCapacity b) ∧
    (¬ ∀ s conn env addr port buf len run, udpSend s conn env addr port buf len = some run →
      (run.reports.map Prod.fst ++ run.tx.system).Perm run.tx.released) ∧
    (¬ ∀ s conn env addr port buf len run, udpSend s conn env addr port buf len = some run →
      0 < run.ret → ∃ frame ∈ run.tx.frames, framePayload frame = buf.window 0 len.toNat) ∧
    ¬ ∀ s conn env addr port buf len run, udpSend s conn env addr port buf len = some run →
      ReportsExact run := by
  have hgood : ∀ len : Int, 1 ≤ len → len ≤ 1200 → ¬ BadLength len := by
    rintro len hlow hhigh (h | h) <;> omega
  have hhundred := hgood 100 (by decide) (by decide)
  have hloop : sendLoop 100 (boardSend .b256 .b256).attempts.toList =
      some ([], some (⟨.b256, 0⟩, 242)) := by decide +kernel
  refine ⟨fun h => ?_, fun h => ?_, fun h => ?_, fun h => ?_⟩
  · have hsmall : sendLoop 100 (boardSend .b128 .b128).attempts.toList =
        some ([], some (⟨.b128, 0⟩, 114)) := by decide +kernel
    obtain ⟨tx, hrun, -⟩ := boardSend_used .b128 .b128 addrBroadcast hhundred hsmall
    exact absurd (h _ _ _ _ _ _ _ _ hrun _ rfl) (by decide)
  · have hleft : sendLoop 120 (boardSend .b128 .b512).attempts.toList =
        some ([(⟨.b128, 0⟩, 114)], some (⟨.b512, 0⟩, 498)) := by decide +kernel
    obtain ⟨tx, hrun, hsends⟩ := boardSend_used .b128 .b512 addrBroadcast
      (hgood 120 (by decide) (by decide)) hleft
    have hcount := (h _ _ _ _ _ _ _ _ hrun).length_eq.trans hsends.released.length_eq.symm
    simp only [List.length_append, List.length_map, List.length_cons, List.length_nil] at hcount
    omega
  · have hnone : ethDest (boardSend .b256 .b256).cfg (boardSend .b256 .b256).arp offLinkAddr =
        none := by decide +kernel
    obtain ⟨tx, hrun, hsends⟩ := boardSend_used .b256 .b256 offLinkAddr hhundred hloop
    have hpos : (0 : Int) < 100 := by decide
    exact hsends.sent.mp (h _ _ _ _ _ _ _ _ hrun hpos) hnone
  · obtain ⟨tx, hrun, -⟩ := boardSend_used .b256 .b256 addrBroadcast hhundred hloop
    exact absurd (h _ _ _ _ _ _ _ _ hrun _ (List.mem_singleton_self _)) (by decide)

end MiMic.NetIf
