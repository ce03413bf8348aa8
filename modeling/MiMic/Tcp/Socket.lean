import MiMic.Lib.Ring
import MiMic.Core.FifoBuffer
import MiMic.NetIf.IpTypes

/-!
# The TCP socket and the packets it writes

A socket keeps its sequence numbers in host order and the acknowledgement number
of a queued packet in network order, as the source does. A transmit buffer is
modelled by the headers and the bytes that follow them.
-/
namespace MiMic.Tcp

open Verif

/-- `UIP_CLOSED` .. `UIP_LAST_ACK`. -/
inductive TcpState
  | closed | synRcvd | synSent | established | finWait1 | finWait2 | closing | timeWait
  | closeWait | lastAck
deriving DecidableEq, Repr

/-- The states before `UIP_ESTABLISHED`. -/
def TcpState.opening : TcpState → Bool
  | .synRcvd => true
  | .synSent => true
  | _ => false

theorem opening_cases {s : TcpState} (h : s.opening = true) : s = .synRcvd ∨ s = .synSent := by
  cases s with
  | synRcvd => exact Or.inl rfl
  | synSent => exact Or.inr rfl
  | _ => cases h

/-- The states that `close` enters and that only a closed socket leaves. -/
def TcpState.teardown : TcpState → Bool
  | .finWait1 => true
  | .finWait2 => true
  | .closing => true
  | .timeWait => true
  | .lastAck => true
  | _ => false

/-- The address of an Ethernet transmit buffer. -/
abbrev BufId := Nat

/-- `NyLPC_TcTcpSocket_NUMBER_OF_TXQ`. -/
abbrev numberOfTxq : Nat := 4

def uipIpRtoMaxRto : UInt32 := 64000
def uipTcpRtoInitial : UInt32 := 3000
def uipTcpRtoConnectionInitial : UInt32 := 200
def uipTcpRtoMinimum : UInt32 := 100
def sizeOfIPv4TcpIpHeader : UInt16 := 40
def iss32 : UInt32 := 3939

structure TxQItem where
  tickOfSent : UInt32
  rto32 : UInt32
  packet : BufId
  ackno : UInt32
deriving DecidableEq, Repr

structure UipConn where
  ripaddr : IPv4Addr
  lipaddr : IPv4Addr
  lport : UInt16
  rport : UInt16
  rcvNxt32 : UInt32
  sndNxt32 : UInt32
  peerMss : UInt16
  defaultMss : UInt16
  peerWin : UInt16
  currentRto32 : UInt32

structure TcpSocket where
  uipConnr : UipConn
  rxbuf : FifoBuffer
  txbuf : Ring TxQItem numberOfTxq
  tcpstateflags : TcpState

/-- The content of a transmit buffer: both headers and what follows them. -/
structure TxPacket where
  iph : IPv4Header
  tcph : TcpHeader
  body : List UInt8

abbrev TxMemory := BufId → TxPacket

namespace TxPacket

def bytes (p : TxPacket) : List UInt8 := p.iph.bytes ++ p.tcph.bytes ++ p.body

/-- `tcpchksum = ~makeTcpChecksum(iph)` over a packet whose field is zero. -/
def fillTcpChksum (p : TxPacket) : TxPacket :=
  { p with tcph := { p.tcph with tcpchksum := ~~~ makeTcpChecksum (listMemory p.bytes) } }

def fillIpChksum (p : TxPacket) : TxPacket :=
  { p with iph := { p.iph with ipchksum := ~~~ makeIpChecksum (listMemory p.bytes) } }

/-- What a receiver of the packet checks. -/
def ChksumVerifies (p : TxPacket) : Prop := makeTcpChecksum (listMemory p.bytes) = 0xffff

/-- The payload length that the length fields of the packet announce. -/
def payloadLength (p : TxPacket) : UInt16 :=
  ntohs p.iph.len16 - 20 - (p.tcph.tcpoffset >>> (4 : UInt8)).toUInt16 * 4

/-- The sequence numbers that the packet takes. -/
def seqSpan (p : TxPacket) : UInt32 :=
  p.payloadLength.toUInt32 + if hasFlag p.tcph.flags (tcpFin ||| tcpSyn) then 1 else 0

end TxPacket

def setTcpTxHeader (h : TcpHeader) (flag : UInt8) (conn : UipConn) : TcpHeader :=
  { h with
    flags := flag
    srcport := conn.lport
    destport := conn.rport
    ackno32 := htonl conn.rcvNxt32
    seqno32 := htonl conn.sndNxt32
    urgp := 0
    tcpchksum := 0 }

/-- The IP header both writers start from; `vhl` is `0x40 | 0x05`. -/
def txIpHeader (sock : TcpSocket) (pid : UInt16) (h : IPv4Header) : IPv4Header :=
  writeTxIpHeader
    { h with vhl := 0x45, destipaddr := sock.uipConnr.ripaddr, srcipaddr := sock.uipConnr.lipaddr }
    uipProtoTcp pid

/-- The packet of `setTxPacket` before its checksums. -/
def writeTxPacket (sock : TcpSocket) (pid : UInt16) (buf : TxPacket) (tcpf : UInt8)
    (data : List UInt8) : TxPacket :=
  let opt := if hasFlag tcpf tcpSyn then setMmsOpt sock.uipConnr.defaultMss else []
  let tcphWord : UInt8 := if hasFlag tcpf tcpSyn then 6 else 5
  { iph := { txIpHeader sock pid buf.iph with
      len16 := htons (UInt16.ofNat data.length + (5 + tcphWord.toUInt16) * 4) }
    tcph := { setTcpTxHeader buf.tcph tcpf sock.uipConnr with
      tcpoffset := tcphWord <<< (4 : UInt8)
      wnd16 := htons sock.rxbuf.getSpace }
    body := opt ++ data }

def setTxPacket (sock : TcpSocket) (pid : UInt16) (buf : TxPacket) (tcpf : UInt8)
    (data : List UInt8) : TxPacket :=
  (writeTxPacket sock pid buf tcpf data).fillTcpChksum.fillIpChksum

/-- The packet of `setTxPacketHeader` before its checksums. The payload is already
in the buffer, behind 40 bytes of headers. -/
def writeTxPacketHeader (sock : TcpSocket) (pid : UInt16) (buf : TxPacket) (tcpf : UInt8)
    (len : UInt16) : TxPacket where
  iph := { txIpHeader sock pid buf.iph with len16 := htons (len + (5 + 5) * 4) }
  tcph := { setTcpTxHeader buf.tcph tcpf sock.uipConnr with
    tcpoffset := 5 <<< (4 : UInt8)
    wnd16 := htons sock.rxbuf.getSpace }
  body := buf.body

def setTxPacketHeader (sock : TcpSocket) (pid : UInt16) (buf : TxPacket) (tcpf : UInt8)
    (len : UInt16) : TxPacket :=
  (writeTxPacketHeader sock pid buf tcpf len).fillTcpChksum.fillIpChksum

def TxPacket.withAckNo (p : TxPacket) (ackno : UInt32) : TxPacket :=
  { p with tcph := { p.tcph with ackno32 := ackno, tcpchksum := 0 } }

/-- `ackno` is in network order. -/
def updateAckNo (p : TxPacket) (ackno : UInt32) : TxPacket := (p.withAckNo ackno).fillTcpChksum

end MiMic.Tcp
