import MiMic.Tcp.TxQueue

/-!
# What one lock section does to a socket

Each function is the code between a `lockResource` and its `unlockResource`. The
buffers a section takes off the ring are returned: the caller releases them after
the lock is dropped.
-/
namespace MiMic.Tcp

open Verif

/-- A received segment: header fields in network order, the result of the option
walk (`none` when that loop never ends) and the payload. -/
structure TcpSegment where
  seqno32 : UInt32
  ackno32 : UInt32
  flags : UInt8
  wnd16 : UInt16
  mmsOpt : Option (Option UInt16)
  data : List UInt8
  data_lt : data.length < 65536

theorem length_nil_lt : ([] : List UInt8).length < 65536 := by decide

def TcpSegment.dataSize (seg : TcpSegment) : UInt16 := UInt16.ofNat seg.data.length

/-- `none` when the data does not fit. -/
def addRecvData (rxbuf : FifoBuffer) (data : List UInt8) : Option FifoBuffer :=
  if h : data.length ≤ rxbuf.getSpace.toNat then some (rxbuf.push data h) else none

/-- `case UIP_ESTABLISHED`. -/
def rxEstablished (sock : TcpSocket) (seg : TcpSegment) (isNewPacket : Bool) : TcpSocket :=
  let sock :=
    if seg.data ≠ [] ∧ isNewPacket then
      match addRecvData sock.rxbuf seg.data with
      | some rxbuf =>
          { sock with
            rxbuf := rxbuf
            uipConnr.rcvNxt32 := sock.uipConnr.rcvNxt32 + seg.dataSize.toUInt32 }
      | none => sock
    else sock
  if isNewPacket ∧ hasFlag seg.flags tcpFin then
    { sock with tcpstateflags := .closeWait, uipConnr.rcvNxt32 := sock.uipConnr.rcvNxt32 + 1 }
  else sock

/-- `case UIP_FIN_WAIT_1`. -/
def rxFinWait1 (sock : TcpSocket) (seg : TcpSegment) (isNewPacket : Bool) (numOfNoack : Nat) :
    TcpSocket :=
  if isNewPacket then
    let rcvNxt32 := sock.uipConnr.rcvNxt32 + seg.dataSize.toUInt32
    if hasFlag seg.flags tcpFin then
      { sock with
        uipConnr.rcvNxt32 := rcvNxt32 + 1
        tcpstateflags := if numOfNoack = 0 then .timeWait else .closing }
    else { sock with uipConnr.rcvNxt32 := rcvNxt32 }
  else if numOfNoack = 0 then { sock with tcpstateflags := .finWait2 }
  else sock

/-- The `switch` over the state of the socket. -/
def rxState (sock : TcpSocket) (seg : TcpSegment) (isNewPacket : Bool) (numOfNoack : Nat) :
    TcpSocket :=
  match sock.tcpstateflags with
  | .synRcvd =>
      if numOfNoack = 0 then
        let sock := { sock with tcpstateflags := .established }
        if isNewPacket then rxEstablished sock seg isNewPacket else sock
      else sock
  | .established => rxEstablished sock seg isNewPacket
  | .closeWait => sock
  | .lastAck => if numOfNoack = 0 then { sock with tcpstateflags := .closed } else sock
  | .finWait1 => rxFinWait1 sock seg isNewPacket numOfNoack
  | .finWait2 =>
      if isNewPacket ∧ hasFlag seg.flags tcpFin then
        { sock with uipConnr.rcvNxt32 := sock.uipConnr.rcvNxt32 + 1, tcpstateflags := .timeWait }
      else sock
  | .closing => if numOfNoack = 0 then { sock with tcpstateflags := .timeWait } else sock
  | .closed => sock
  | .timeWait => sock
  | .synSent =>
      if numOfNoack = 0 then
        { sock with tcpstateflags := .established, uipConnr.rcvNxt32 := ntohl seg.seqno32 + 1 }
      else sock

def isNewPacket (sock : TcpSocket) (seg : TcpSegment) : Bool :=
  ntohl seg.seqno32 == sock.uipConnr.rcvNxt32

/-- A maximum segment size in the options replaces the one on record. -/
def withMms (sock : TcpSocket) (mms : Option UInt16) : TcpSocket :=
  { sock with uipConnr.peerMss := mms.getD sock.uipConnr.peerMss }

/-- The socket behind the state switch. -/
def rxSwitch (sock : TcpSocket) (seg : TcpSegment) (mms : Option UInt16) : TcpSocket :=
  rxState (withMms sock mms) seg (isNewPacket sock seg) (getNumOfSending sock.txbuf seg.ackno32)

/-- The queue update of an acknowledgement: the ring, the timeout and what to release. -/
def rxDequeue (sock : TcpSocket) (now : UInt32) (seg : TcpSegment) : TxQ × UInt32 × List BufId :=
  if hasFlag seg.flags tcpAck then
    updateTxQByIndex sock.txbuf sock.uipConnr.currentRto32 now seg.ackno32
  else (sock.txbuf, sock.uipConnr.currentRto32, [])

structure RxResult where
  sock : TcpSocket
  mem : TxMemory
  dlist : List BufId
  reply : Bool

/-- The part of `parseRx` behind the option walk. -/
def rxProcess (sock : TcpSocket) (mem : TxMemory) (now : UInt32) (seg : TcpSegment)
    (mms : Option UInt16) : RxResult :=
  let isNew := isNewPacket sock seg
  let s := rxSwitch sock seg mms
  let q := rxDequeue s now seg
  { sock := { s with
      txbuf := q.1
      uipConnr.peerWin := ntohs seg.wnd16
      uipConnr.currentRto32 := q.2.1 }
    mem := if isNew then updateTxAck q.1 mem (htonl s.uipConnr.rcvNxt32) else mem
    dlist := q.2.2
    reply := hasFlag seg.flags (tcpFin ||| tcpSyn) || (!isNew && seg.data != []) }

/-- `NyLPC_cMiMicIpTcpSocket_parseRx`; `reply` asks for an acknowledgement built from
the resulting socket. `none` when the option walk does not return. -/
def parseRx (sock : TcpSocket) (mem : TxMemory) (now : UInt32) (seg : TcpSegment) :
    Option RxResult :=
  if hasFlag seg.flags tcpRst then
    some ⟨{ sock with tcpstateflags := .closed }, mem, [], false⟩
  else seg.mmsOpt.map (rxProcess sock mem now seg)

/-- What `periodic` leaves to do outside of its lock section, and what it sent inside. -/
inductive PeriodicOut
  | idle
  | free (dlist : List BufId)
  | resend (bufs : List BufId)
  | abort (dlist : List BufId)

/-- The ring of an expired head: its timeout doubled, every packet stamped. -/
def restamp (q : TxQ) (now : UInt32) : TxQ :=
  (q.updateHead fun it => { it with rto32 := it.rto32 * 2 }).updateAll
    fun it => { it with tickOfSent := now }

/-- `NyLPC_cMiMicIpTcpSocket_periodic`. -/
def periodic (sock : TcpSocket) (now : UInt32) : TcpSocket × PeriodicOut :=
  let q := sock.txbuf
  if sock.tcpstateflags = .closed then
    ({ sock with txbuf := (resetTxQ q).1 }, .free (resetTxQ q).2)
  else if q.rp = q.wp then (sock, .idle)
  else if sock.uipConnr.peerWin = 0 then (sock, .idle)
  else if elapseInMsec now (q.slot q.rp).tickOfSent > (q.slot q.rp).rto32 then
    let q := restamp q now
    if (q.slot q.rp).rto32 > uipIpRtoMaxRto then
      ({ sock with tcpstateflags := .closed, txbuf := (resetTxQ q).1 }, .abort (resetTxQ q).2)
    else ({ sock with txbuf := q }, .resend (q.items.map (·.packet)))
  else (sock, .idle)

/-- `NyLPC_cMiMicIpTcpSocket_stopService`; `none` when the socket is closed already. -/
def stopService (sock : TcpSocket) : Option (TcpSocket × List BufId) :=
  if sock.tcpstateflags = .closed then none
  else
    some ({ sock with tcpstateflags := .closed, txbuf := (resetTxQ sock.txbuf).1 },
      (resetTxQ sock.txbuf).2)

/-- `NyLPC_cMiMicIpTcpSocket_startService`. -/
def startService (sock : TcpSocket) (ipAddr : IPv4Addr) (defaultMss : UInt16) : TcpSocket :=
  { sock with
    uipConnr.lipaddr := ipAddr
    uipConnr.defaultMss := defaultMss
    rxbuf := sock.rxbuf.clear }

/-- `NyLPC_cMiMicIpTcpSocket_initialize` over the memory of an earlier socket. -/
def initializeSocket (sock : TcpSocket) : TcpSocket :=
  { sock with tcpstateflags := .closed, txbuf := sock.txbuf.reset, rxbuf := sock.rxbuf.clear }

/-- `if(rp!=wp) resetTxQWithUnlock() else unlockResource()`. -/
def resetTxQIfUsed (q : TxQ) : TxQ × List BufId := if q.rp ≠ q.wp then resetTxQ q else (q, [])

structure TcpSocketSynParam where
  srcaddr : IPv4Addr
  rport : UInt16
  mss : UInt16
  rcvNxt32 : UInt32
deriving DecidableEq, Repr

/-- `NyLPC_cMiMicIpTcpSocket_listenSyn`; `none` is its `FALSE`. -/
def listenSyn (sock : TcpSocket) (lq : TcpSocketSynParam) (lport : UInt16) :
    Option (TcpSocket × List BufId) :=
  if sock.tcpstateflags = .closed then
    let (txbuf, dlist) := resetTxQIfUsed sock.txbuf
    some ({ sock with
      uipConnr.currentRto32 := uipTcpRtoInitial
      uipConnr.lport := lport
      uipConnr.rport := lq.rport
      uipConnr.ripaddr := lq.srcaddr
      uipConnr.sndNxt32 := iss32
      uipConnr.rcvNxt32 := lq.rcvNxt32
      uipConnr.peerMss := if lq.mss ≠ 0 then lq.mss else sock.uipConnr.defaultMss
      uipConnr.peerWin := 0
      rxbuf := sock.rxbuf.clear
      tcpstateflags := .synRcvd
      txbuf := txbuf }, dlist)
  else none

/-- The first lock section of `connect`; `lport` is the port found, zero for none. -/
def connectOpen (sock : TcpSocket) (addr : IPv4Addr) (peerPort lport : UInt16) :
    Option (TcpSocket × List BufId) :=
  if sock.tcpstateflags ≠ .closed then none
  else if htons lport = 0 then none
  else
    let (txbuf, dlist) := resetTxQIfUsed sock.txbuf
    some ({ sock with
      uipConnr.currentRto32 := uipTcpRtoConnectionInitial
      uipConnr.lport := htons lport
      uipConnr.rport := htons peerPort
      uipConnr.ripaddr := addr
      uipConnr.sndNxt32 := iss32
      uipConnr.rcvNxt32 := 0
      uipConnr.peerMss := sock.uipConnr.defaultMss
      uipConnr.peerWin := 1
      rxbuf := sock.rxbuf.clear
      tcpstateflags := .synSent
      txbuf := txbuf }, dlist)

/-- The answers of `getTxQ` before a retry. -/
inductive TxQSlot
  | closed | full | free
deriving DecidableEq, Repr

def getTxQ (sock : TcpSocket) : TxQSlot :=
  if sock.tcpstateflags = .closed then .closed else if sock.txbuf.full then .full else .free

/-- The payload size a buffer of `s` bytes leaves under the peer's limits. -/
def sendSize (conn : UipConn) (s : UInt16) : UInt16 :=
  let s := s - sizeOfIPv4TcpIpHeader
  let s := if conn.peerMss < s then conn.peerMss else s
  if conn.peerWin < s then conn.peerWin else s

/-- The payload size that `sendWithRetransmit` sends of `len` bytes. -/
def swrSize (conn : UipConn) (size len : UInt16) : UInt16 :=
  let s := sendSize conn size
  if len < s then len else s

/-- The sequence number after a packet of `s` bytes with these flags. -/
def swrNextAck (conn : UipConn) (tcpf : UInt8) (s : UInt16) : UInt32 :=
  conn.sndNxt32 + s.toUInt32 + if hasFlag tcpf (tcpFin ||| tcpSyn) then 1 else 0

/-- The packet that `sendWithRetransmit` queues once `getTxQ` found a slot. -/
def sendWithRetransmitQueue (sock : TcpSocket) (mem : TxMemory) (now : UInt32) (pid : UInt16)
    (tcpf : UInt8) (data : List UInt8) (buf : BufId) (size : UInt16) : TcpSocket × TxMemory :=
  let s := swrSize sock.uipConnr size (UInt16.ofNat data.length)
  let nextAck := swrNextAck sock.uipConnr tcpf s
  let item : TxQItem :=
    { tickOfSent := now, rto32 := sock.uipConnr.currentRto32, packet := buf, ackno := htonl nextAck }
  ({ sock with
      txbuf := sock.txbuf.push item
      uipConnr.sndNxt32 := nextAck
      uipConnr.peerWin := sock.uipConnr.peerWin - s },
    Function.update mem buf (setTxPacket sock pid (mem buf) tcpf (data.take s.toNat)))

/-- The packet that `psend` queues once `getTxQ` found a slot; the application has
written `data` behind the headers. -/
def psendQueue (sock : TcpSocket) (mem : TxMemory) (now : UInt32) (pid : UInt16) (buf : BufId)
    (data : List UInt8) : TcpSocket × TxMemory :=
  let len := UInt16.ofNat data.length
  let nextAck := sock.uipConnr.sndNxt32 + len.toUInt32
  let item : TxQItem :=
    { tickOfSent := now, rto32 := sock.uipConnr.currentRto32, packet := buf, ackno := htonl nextAck }
  ({ sock with
      txbuf := sock.txbuf.push item
      uipConnr.sndNxt32 := nextAck
      uipConnr.peerWin := sock.uipConnr.peerWin - len },
    Function.update mem buf
      (setTxPacketHeader sock pid { mem buf with body := data } (tcpAck ||| tcpPsh) len))

/-- The lock section of `pseek`. -/
def pseekPop (sock : TcpSocket) (mem : TxMemory) (pid : UInt16) (buf : BufId) (seek : Nat) :
    TcpSocket × TxMemory :=
  let sock := { sock with rxbuf := sock.rxbuf.pop seek }
  (sock, Function.update mem buf (setTxPacket sock pid (mem buf) tcpAck []))

end MiMic.Tcp
