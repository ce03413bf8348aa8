import MiMic.NetIf.UdpSocket

/-!
# Which socket a datagram reaches

`udp_rx` looks a socket up and hands the packet to its `parseRx`. The lookup by group is on
the side of the packets for the own address; every other packet goes to the first socket
that has its port.
-/
namespace MiMic.NetIf

/-- `udp_rx`: what the socket it found makes of the packet. The buffer and the handler are
those of that socket. -/
def udpRxParse (net : MiMicIpNetIf) (config : IPv4Config) (iph : Memory) (rxbuf : FifoBuffer)
    (hasRxHandler handlerTakes : Bool) : Option (UdpSocket × UdpParse) :=
  match udpTarget net config iph with
  | none => none
  | some conn =>
      if makeTcpChecksum iph ≠ 0xffff then none
      else some (conn, UdpRxSocket.parseRx ⟨conn, rxbuf, hasRxHandler⟩ iph handlerTakes)

/-- The receive path stops where `parseRx` begins. -/
theorem udpRx_eq_parse (net : MiMicIpNetIf) (config : IPv4Config) (iph : Memory)
    (rxbuf : FifoBuffer) (hasRxHandler handlerTakes : Bool) :
    udpRx net config iph =
      match udpRxParse net config iph rxbuf hasRxHandler handlerTakes with
      | none => .drop
      | some (conn, _) => udpParseRx conn iph := by
  unfold udpRx udpRxParse
  cases udpTarget net config iph with
  | none => rfl
  | some conn =>
    by_cases hc : makeTcpChecksum iph = 0xffff
    · simp [hc]
    · simp [hc]

/-- The socket has joined the group; without a group its field is zero. -/
def UdpSocket.joined (s : UdpSocket) (addr : IPv4Addr) : Prop :=
  isEqualWithMask addr addrMulticast addrMulticast = true ∧ s.mcastaddr = addr

def UdpSocket.acceptsBroadcast (s : UdpSocket) : Prop := s.flags &&& 1 ≠ 0

/-- The addresses that a socket may receive from. -/
def MayReceive (config : IPv4Config) (s : UdpSocket) (dest : IPv4Addr) : Prop :=
  dest = config.ipAddr ∨ s.joined dest ∨ dest = addrBroadcast ∧ s.acceptsBroadcast

/-- The handler of the socket is called, or the datagram is queued. -/
def UdpParse.delivered (r : UdpParse) : Bool := r.toHandler || r.queued

/-- A datagram is delivered to a socket only if that may receive it, and the mutex is
released exactly as often as it is taken. -/
structure DemuxOk (net : MiMicIpNetIf) (config : IPv4Config) (iph : Memory) (rxbuf : FifoBuffer)
    (hasRxHandler handlerTakes : Bool) : Prop where
  addressed : ∀ conn r, udpRxParse net config iph rxbuf hasRxHandler handlerTakes = some (conn, r) →
    r.delivered = true → MayReceive config conn (destIpAddr iph)
  paired : ∀ conn r, udpRxParse net config iph rxbuf hasRxHandler handlerTakes = some (conn, r) →
    locksPaired 0 r.locks = true

/-- When the lookup by port alone does no harm: a socket it finds for a broadcast accepts
them, and for any other foreign address has joined that group or has no place for the data. -/
structure TargetFits (config : IPv4Config) (conn : UdpSocket) (iph : Memory) (rxbuf : FifoBuffer)
    (hasRxHandler : Bool) : Prop where
  broadcast : destIpAddr iph = addrBroadcast → conn.acceptsBroadcast
  foreign : destIpAddr iph ≠ config.ipAddr → destIpAddr iph ≠ addrBroadcast →
    conn.joined (destIpAddr iph) ∨ hasRxHandler = false ∧
      UdpRxSocket.hasSpace ⟨conn, rxbuf, hasRxHandler⟩ (udpRxInfo iph).size = false

theorem udpRxParse_eq_some {net : MiMicIpNetIf} {config : IPv4Config} {iph : Memory}
    {rxbuf : FifoBuffer} {hasRxHandler handlerTakes : Bool} {conn : UdpSocket} {r : UdpParse} :
    udpRxParse net config iph rxbuf hasRxHandler handlerTakes = some (conn, r) ↔
      udpTarget net config iph = some conn ∧ makeTcpChecksum iph = 0xffff ∧
        r = UdpRxSocket.parseRx ⟨conn, rxbuf, hasRxHandler⟩ iph handlerTakes := by
  unfold udpRxParse
  cases udpTarget net config iph with
  | none => simp
  | some found =>
    by_cases hc : makeTcpChecksum iph = 0xffff
    · simp only [hc, ne_eq, not_true_eq_false, ↓reduceIte, Option.some.injEq, Prod.mk.injEq,
        true_and]
      constructor
      · rintro ⟨rfl, rfl⟩
        exact ⟨rfl, rfl⟩
      · rintro ⟨rfl, rfl⟩
        exact ⟨rfl, rfl⟩
    · simp [hc]

theorem refuses_iff {s : UdpRxSocket} {iph : Memory} :
    s.refuses iph = true ↔ destIpAddr iph = addrBroadcast ∧ ¬ s.conn.acceptsBroadcast := by
  simp [UdpRxSocket.refuses, UdpSocket.acceptsBroadcast]

/-- Where the lock is concerned only the refused broadcast goes wrong. -/
theorem parseRx_paired (s : UdpRxSocket) (iph : Memory) (handlerTakes : Bool) :
    locksPaired 0 (s.parseRx iph handlerTakes).locks = true ↔ s.refuses iph = false := by
  unfold UdpRxSocket.parseRx
  cases s.refuses iph with
  | true => simp [locksPaired]
  | false =>
    refine iff_of_true ?_ rfl
    simp only [Bool.false_eq_true, ↓reduceIte]
    split
    · rfl
    · split <;> rfl

/-- A packet that is not refused is delivered unless it finds neither handler nor room. -/
theorem parseRx_delivered {s : UdpRxSocket} {iph : Memory} {handlerTakes : Bool}
    (hr : s.refuses iph = false) :
    (s.parseRx iph handlerTakes).delivered = false ↔
      s.hasRxHandler = false ∧ s.hasSpace (udpRxInfo iph).size = false := by
  unfold UdpRxSocket.parseRx UdpParse.delivered
  rw [hr]
  simp only [Bool.false_eq_true, ↓reduceIte]
  cases hh : s.hasRxHandler with
  | true =>
    refine iff_of_false ?_ fun hno => nomatch hno.1
    split
    · simp
    · split <;> simp
  | false =>
    by_cases hsp : s.hasSpace (udpRxInfo iph).size = true
    · simp [hsp]
    · simp [hsp]

/-- Demultiplexing is right for a packet exactly when the socket found for it fits. -/
theorem udp_demultiplexing (net : MiMicIpNetIf) (config : IPv4Config) (iph : Memory)
    (rxbuf : FifoBuffer) (hasRxHandler handlerTakes : Bool) :
    DemuxOk net config iph rxbuf hasRxHandler handlerTakes ↔
      ∀ conn, udpTarget net config iph = some conn → makeTcpChecksum iph = 0xffff →
        TargetFits config conn iph rxbuf hasRxHandler := by
  constructor
  · intro h conn hconn hsum
    have hparse : udpRxParse net config iph rxbuf hasRxHandler handlerTakes = some (conn, _) :=
      udpRxParse_eq_some.mpr ⟨hconn, hsum, rfl⟩
    have hrefuse := (parseRx_paired _ iph handlerTakes).mp (h.paired conn _ hparse)
    constructor
    · intro hb
      by_contra hno
      rw [refuses_iff.mpr ⟨hb, hno⟩] at hrefuse
      cases hrefuse
    · intro hforeign hb
      cases hd : (UdpRxSocket.parseRx ⟨conn, rxbuf, hasRxHandler⟩ iph handlerTakes).delivered with
      | true =>
        rcases h.addressed conn _ hparse hd with hown | hjoined | hbroad
        · exact absurd hown hforeign
        · exact Or.inl hjoined
        · exact absurd hbroad.1 hb
      | false => exact Or.inr ((parseRx_delivered hrefuse).mp hd)
  · intro h
    have hrefuse : ∀ conn, udpTarget net config iph = some conn → makeTcpChecksum iph = 0xffff →
        UdpRxSocket.refuses ⟨conn, rxbuf, hasRxHandler⟩ iph = false := by
      intro conn hconn hsum
      rw [Bool.eq_false_iff]
      intro hr
      obtain ⟨hb, hno⟩ := refuses_iff.mp hr
      exact hno ((h conn hconn hsum).broadcast hb)
    constructor
    · intro conn r hparse hd
      obtain ⟨hconn, hsum, rfl⟩ := udpRxParse_eq_some.mp hparse
      have hfits := h conn hconn hsum
      by_cases hown : destIpAddr iph = config.ipAddr
      · exact Or.inl hown
      · by_cases hb : destIpAddr iph = addrBroadcast
        · exact Or.inr (Or.inr ⟨hb, hfits.broadcast hb⟩)
        · rcases hfits.foreign hown hb with hjoined | hnowhere
          · exact Or.inr (Or.inl hjoined)
          · rw [(parseRx_delivered (hrefuse conn hconn hsum)).mpr hnowhere] at hd
            cases hd
    · intro conn r hparse
      obtain ⟨hconn, hsum, rfl⟩ := udpRxParse_eq_some.mp hparse
      exact (parseRx_paired _ iph handlerTakes).mpr (hrefuse conn hconn hsum)

/-- 192.168.0.2 with a socket of port 53 that has joined no group and takes no broadcasts. -/
def dnsConfig : IPv4Config := ⟨⟨htonl 0xc0a80002⟩, 1460⟩

def dnsTables : MiMicIpNetIf where
  config := some dnsConfig
  tcpPortCounter := 0
  tcp := []
  udp := [⟨true, ⟨htons 53, ⟨0⟩, 0⟩⟩]
  udpNb := []
  listeners := []

/-- Three bytes from 192.168.0.7 for port 53 of 192.168.0.9. -/
def foreignDatagram : Memory :=
  listMemory ([69, 0, 0, 31, 0, 1, 0, 0, 64, 17, 249, 108, 192, 168, 0, 7, 192, 168, 0, 9] ++
    [3, 232, 0, 53, 0, 11, 118, 88, 1, 2, 3])

/-- The same for everyone. -/
def broadcastDatagram : Memory :=
  listMemory ([69, 0, 0, 31, 0, 1, 0, 0, 64, 17, 186, 30, 192, 168, 0, 7, 255, 255, 255, 255] ++
    [3, 232, 0, 53, 0, 11, 55, 10, 1, 2, 3])

/-- A datagram for another host is delivered, and a refused broadcast unlocks the mutex
that nobody has locked. -/
theorem udp_misdelivered :
    (¬ ∀ net config iph rxbuf hasRxHandler handlerTakes conn r,
      udpRxParse net config iph rxbuf hasRxHandler handlerTakes = some (conn, r) →
      r.delivered = true → MayReceive config conn (destIpAddr iph)) ∧
    ¬ ∀ net config iph rxbuf hasRxHandler handlerTakes conn r,
      udpRxParse net config iph rxbuf hasRxHandler handlerTakes = some (conn, r) →
      locksPaired 0 r.locks = true := by
  have hfound : ∀ iph, (iph = foreignDatagram ∨ iph = broadcastDatagram) →
      ∃ conn, udpTarget dnsTables dnsConfig iph = some conn ∧ conn.flags = 0 ∧
        makeTcpChecksum iph = 0xffff := by
    intro iph hiph
    have hany : (udpTarget dnsTables dnsConfig iph).any (·.flags == 0) = true ∧
        makeTcpChecksum iph = 0xffff := by
      rcases hiph with rfl | rfl <;> exact ⟨by decide +kernel, by decide +kernel⟩
    obtain ⟨conn, hconn, hflags⟩ := (Option.any_eq_true _ _).mp hany.1
    exact ⟨conn, hconn, beq_iff_eq.mp hflags, hany.2⟩
  constructor
  · intro h
    obtain ⟨conn, hconn, -, hsum⟩ := hfound _ (Or.inl rfl)
    have hno : ¬ (destIpAddr foreignDatagram = dnsConfig.ipAddr ∨
        isEqualWithMask (destIpAddr foreignDatagram) addrMulticast addrMulticast = true ∨
        destIpAddr foreignDatagram = addrBroadcast) := by decide +kernel
    have hrefuse : UdpRxSocket.refuses ⟨conn, ⟨100, [], Nat.zero_le _⟩, true⟩ foreignDatagram =
        false :=
      Bool.eq_false_iff.mpr fun hr => hno (Or.inr (Or.inr (refuses_iff.mp hr).1))
    have hdeliver : (UdpRxSocket.parseRx ⟨conn, ⟨100, [], Nat.zero_le _⟩, true⟩ foreignDatagram
        true).delivered = true :=
      Bool.not_eq_false _ ▸ fun hd => nomatch ((parseRx_delivered hrefuse).mp hd).1
    have hmay := h dnsTables dnsConfig foreignDatagram _ _ _ _ _
      (udpRxParse_eq_some.mpr ⟨hconn, hsum, rfl⟩) hdeliver
    exact hno (hmay.imp_right (Or.imp And.left And.left))
  · intro h
    obtain ⟨conn, hconn, hflags, hsum⟩ := hfound _ (Or.inr rfl)
    have hpaired := h dnsTables dnsConfig broadcastDatagram ⟨100, [], Nat.zero_le _⟩ false true _ _
      (udpRxParse_eq_some.mpr ⟨hconn, hsum, rfl⟩)
    have hrefuse := (parseRx_paired _ _ _).mp hpaired
    rw [refuses_iff.mpr ⟨by decide +kernel, fun hacc => hacc (by rw [hflags]; rfl)⟩] at hrefuse
    cases hrefuse

end MiMic.NetIf
