import MiMic.Tcp.Tasks

/-!
# The socket tables of the network interface

Every table is searched from its last entry down. A TCP entry carries the tasks that
work on its socket; `FLAGS_USED` is off from the end of `finalize` until the socket is
created again.
-/
namespace MiMic.Tcp

/-- `FLAGS_USED` of the entry. -/
def World.used (w : World) : Bool := !(w.app == .finalized && w.appOps.isEmpty)

/-- A socket that the lookups find. -/
def World.isOpen (w : World) : Bool := w.used && w.sock.tcpstateflags != .closed

end MiMic.Tcp

namespace MiMic.NetIf

open MiMic.Tcp

/-- `NyLPC_TcMiMicIpTcpListener_NUMBER_OF_Q`. -/
abbrev numberOfQ : Nat := 10

instance neZeroNumberOfQ : NeZero numberOfQ := ⟨by decide⟩

/-- `NyLPC_TTcpListenerListenQ`; an item with `rport` zero is free. -/
structure ListenQ where
  wp : Fin numberOfQ
  item : Vector TcpSocketSynParam numberOfQ

namespace ListenQ

def init (q : ListenQ) : ListenQ where
  wp := 0
  item := q.item.map fun item => { item with rport := 0 }

def isFree (q : ListenQ) : Bool := (q.item.get q.wp).rport == 0

def add (q : ListenQ) (item : TcpSocketSynParam) : ListenQ :=
  if q.isFree then { wp := q.wp + 1, item := q.item.set q.wp item q.wp.isLt } else q

/-- The oldest item, searched from the one behind the write position on. -/
def getLastIndex (q : ListenQ) : Option (Fin numberOfQ) :=
  ((List.finRange numberOfQ).map fun i => q.wp + (i + 1)).find? fun t => (q.item.get t).rport != 0

def remove (q : ListenQ) (i : Fin numberOfQ) : ListenQ :=
  { q with item := q.item.set i { q.item.get i with rport := 0 } i.isLt }

end ListenQ

structure TcpListener where
  port : UInt16
  listenQ : ListenQ

structure ListenerEntry where
  used : Bool
  listener : TcpListener

/-- The part of a UDP socket that the lookups and the receive path read. -/
structure UdpSocket where
  lport : UInt16
  mcastaddr : IPv4Addr
  flags : UInt8

structure UdpEntry where
  used : Bool
  socket : UdpSocket

structure IPv4Config where
  ipAddr : IPv4Addr
  defaultMss : UInt16

/-- `config` is `none` while the service is stopped. -/
structure MiMicIpNetIf where
  config : Option IPv4Config
  tcpPortCounter : UInt16
  tcp : List World
  udp : List UdpEntry
  udpNb : List UdpEntry
  listeners : List ListenerEntry

/-- `for(i=MAX-1;i>=0;i--)`, up to the first entry that matches. -/
def searchDown {α : Type} (p : α → Bool) (table : List α) : Option Nat :=
  (List.range table.length).reverse.find? fun i => (table[i]?).any p

def matchesConn (lport : UInt16) (rip : IPv4Addr) (rport : UInt16) (w : World) : Bool :=
  w.isOpen && lport == w.sock.uipConnr.lport && rport == w.sock.uipConnr.rport &&
    rip == w.sock.uipConnr.ripaddr

def getMatchTcpSocket (net : MiMicIpNetIf) (lport : UInt16) (rip : IPv4Addr) (rport : UInt16) :
    Option Nat :=
  searchDown (matchesConn lport rip rport) net.tcp

def getListenerByPeerPort (net : MiMicIpNetIf) (port : UInt16) : Option Nat :=
  searchDown (fun e => e.used && e.listener.port == port) net.listeners

/-- The ports of the tables are in network order, `lport` is compared as it is given. -/
def isClosedTcpPort (net : MiMicIpNetIf) (lport : UInt16) : Bool :=
  !(net.tcp.any fun w => w.isOpen && w.sock.uipConnr.lport == lport) &&
    !(net.listeners.any fun e => e.used && e.listener.port == lport)

def udpAt (table : List UdpEntry) (p : UdpSocket → Bool) : Option UdpSocket :=
  (searchDown (fun e => e.used && p e.socket) table).bind fun i => (table[i]?).map (·.socket)

def getMatchUdpSocket (net : MiMicIpNetIf) (lport : UInt16) : Option UdpSocket :=
  (udpAt net.udp (·.lport == lport)).or (udpAt net.udpNb (·.lport == lport))

def getMatchMulticastUdpSocket (net : MiMicIpNetIf) (mcastIp : IPv4Addr) (lport : UInt16) :
    Option UdpSocket :=
  (udpAt net.udp fun s => s.lport == lport && s.mcastaddr == mcastIp).or
    (udpAt net.udpNb fun s => s.lport == lport && s.mcastaddr == mcastIp)

theorem searchDown_some {α : Type} {p : α → Bool} {table : List α} {i : Nat}
    (h : searchDown p table = some i) : ∃ a, table[i]? = some a ∧ p a = true := by
  have hp := List.find?_some h
  exact (Option.any_eq_true _ _).mp hp

theorem searchDown_none {α : Type} {p : α → Bool} {table : List α}
    (h : searchDown p table = none) {i : Nat} {a : α} (ha : table[i]? = some a) : p a = false := by
  have hmem : i ∈ (List.range table.length).reverse := by
    rw [List.mem_reverse, List.mem_range]
    exact (List.getElem?_eq_some_iff.mp ha).1
  have hp := List.find?_eq_none.mp h i hmem
  simpa [ha] using hp

end MiMic.NetIf
