import MiMic.Core.FifoBuffer
import MiMic.NetIf.Receive
import MiMic.NetIf.EthFrame

/-!
# The receiving side of a UDP socket

The receive buffer holds records: a `NyLPC_TIPv4RxInfo` and the bytes it announces. The IP
task appends a record under the lock, the reader looks at the first one and removes it in
two separate calls.
-/
namespace MiMic.NetIf

/-- A call on the mutex that all sockets share. -/
inductive LockOp
  | lock
  | unlock
deriving DecidableEq, Repr

/-- Every lock is released once, and nothing else is; `held` counts the locks that are held. -/
def locksPaired (held : Nat) : List LockOp → Bool
  | [] => held == 0
  | .lock :: ops => locksPaired (held + 1) ops
  | .unlock :: ops =>
      match held with
      | 0 => false
      | held + 1 => locksPaired held ops

/-- `NyLPC_TcMiMicIpUdpSocket`; of the handler only its presence counts here, what it
answers comes with the packet. -/
structure UdpRxSocket where
  conn : UdpSocket
  rxbuf : FifoBuffer
  hasRxHandler : Bool

/-- `sizeof(struct NyLPC_TIPv4RxInfo)`: the addresses are packed. -/
def sizeOfRxInfo : Nat := 14

/-- The structure as it lies in memory. -/
def IPv4RxInfo.bytes (info : IPv4RxInfo) : List UInt8 :=
  u16Bytes info.size ++ u16Bytes info.port ++ u16Bytes info.peerPort ++ u32Bytes info.ip.v ++
    u32Bytes info.peerIp.v

def rxInfoAt (m : Memory) : IPv4RxInfo where
  size := m.u16 0
  port := m.u16 2
  peerPort := m.u16 4
  ip := ⟨m.u32 6⟩
  peerIp := ⟨m.u32 10⟩

@[simp] theorem IPv4RxInfo.length_bytes (info : IPv4RxInfo) : info.bytes.length = sizeOfRxInfo := rfl

namespace UdpRxSocket

/-- A broadcast for a socket that has not asked for any. -/
def refuses (s : UdpRxSocket) (iph : Memory) : Bool :=
  destIpAddr iph == addrBroadcast && s.conn.flags &&& 1 == 0

def hasSpace (s : UdpRxSocket) (size : UInt16) : Bool :=
  !decide (s.rxbuf.getSpace.toNat < size.toNat + sizeOfRxInfo)

/-- The two pushes of a record. -/
def store (s : UdpRxSocket) (info : IPv4RxInfo) (data : List UInt8)
    (h : info.bytes.length + data.length ≤ s.rxbuf.getSpace.toNat) : UdpRxSocket :=
  { s with
    rxbuf := (s.rxbuf.push info.bytes (Nat.le_of_add_right_le h)).push data (by
      rw [FifoBuffer.toNat_getSpace] at h ⊢
      simp only [FifoBuffer.buf_push, List.length_append]
      show data.length ≤ s.rxbuf.size.toNat - _
      omega) }

end UdpRxSocket

/-- What `parseRx` leaves, whether it called the handler, and its calls on the mutex. -/
structure UdpParse where
  sock : UdpRxSocket
  toHandler : Bool
  queued : Bool
  locks : List LockOp

/-- The bytes behind the UDP header, as many as `dheader` announces. -/
def udpData (iph : Memory) : List UInt8 :=
  iph.window (udpDataOffset iph) (udpRxInfo iph).size.toNat

theorem length_udpData (iph : Memory) : (udpData iph).length = (udpRxInfo iph).size.toNat :=
  length_window _ _ _

theorem hasSpace_le {s : UdpRxSocket} {iph : Memory}
    (h : s.hasSpace (udpRxInfo iph).size = true) :
    (udpRxInfo iph).bytes.length + (udpData iph).length ≤ s.rxbuf.getSpace.toNat := by
  have hle : ¬ s.rxbuf.getSpace.toNat < (udpRxInfo iph).size.toNat + sizeOfRxInfo := by
    simpa [UdpRxSocket.hasSpace] using h
  rw [length_udpData, IPv4RxInfo.length_bytes]
  omega

/-- `NyLPC_cMiMicIpUdpSocket_parseRx`. A refused broadcast goes to the exit that unlocks. -/
def UdpRxSocket.parseRx (s : UdpRxSocket) (iph : Memory) (handlerTakes : Bool) : UdpParse :=
  if s.refuses iph then ⟨s, false, false, [.unlock]⟩
  else if s.hasRxHandler && !handlerTakes then ⟨s, true, false, []⟩
  else if h : s.hasSpace (udpRxInfo iph).size = true then
    ⟨s.store (udpRxInfo iph) (udpData iph) (hasSpace_le h), s.hasRxHandler, true, [.lock, .unlock]⟩
  else ⟨s, s.hasRxHandler, false, [.lock, .unlock]⟩

/-- One turn of the loop of `precv`. -/
inductive PrecvTurn
  | returns (ret : UInt16) (out : Option (IPv4RxInfo × List UInt8))
  | again

namespace UdpRxSocket

/-- The memory that `getPtr` points to. -/
def rxMemory (s : UdpRxSocket) : Memory := listMemory s.rxbuf.buf

/-- The test of the loop, and behind it the look into the buffer. -/
def precvTurn (s : UdpRxSocket) (elapsed waitMsec : Nat) : PrecvTurn :=
  if elapsed < waitMsec then
    if s.rxbuf.getLength > 0 then
      let rh := rxInfoAt s.rxMemory
      .returns rh.size (some (rh, s.rxMemory.window sizeOfRxInfo rh.size.toNat))
    else .again
  else .returns 0 none

def pseek (s : UdpRxSocket) : UdpRxSocket :=
  if s.rxbuf.getLength > 0 then
    { s with rxbuf := s.rxbuf.pop ((rxInfoAt s.rxMemory).size + UInt16.ofNat sizeOfRxInfo).toNat }
  else s

def joinMulticast (s : UdpRxSocket) (addr : IPv4Addr) : UdpRxSocket :=
  { s with conn.mcastaddr := addr }

def setBroadcast (s : UdpRxSocket) : UdpRxSocket := { s with conn.flags := s.conn.flags ||| 1 }

def setOnRxHandler (s : UdpRxSocket) (handler : Bool) : UdpRxSocket :=
  { s with hasRxHandler := handler }

end UdpRxSocket

theorem rxInfoAt_of_holds {m : Memory} {info : IPv4RxInfo} (h : m.Holds 0 info.bytes) :
    rxInfoAt m = info := by
  obtain ⟨h, hpeer⟩ := h.split
  obtain ⟨h, hip⟩ := h.split
  obtain ⟨h, hpeerPort⟩ := h.split
  obtain ⟨hsize, hport⟩ := h.split
  simp only [List.length_append, length_u16Bytes, length_u32Bytes, Nat.zero_add]
    at hport hpeerPort hip hpeer
  rw [rxInfoAt, hsize.u16, hport.u16, hpeerPort.u16, hip.u32, hpeer.u32]

/-- The bytes at the front of the buffer are a structure, then its data. -/
theorem front_of_buf {s : UdpRxSocket} {info : IPv4RxInfo} {data rest : List UInt8}
    (h : s.rxbuf.buf = info.bytes ++ data ++ rest) :
    rxInfoAt s.rxMemory = info ∧ s.rxMemory.window sizeOfRxInfo data.length = data := by
  have hlen : s.rxbuf.buf.length = sizeOfRxInfo + data.length + rest.length := by
    rw [h, List.length_append, List.length_append, IPv4RxInfo.length_bytes]
  constructor
  · apply rxInfoAt_of_holds
    rw [Memory.Holds, IPv4RxInfo.length_bytes, UdpRxSocket.rxMemory,
      window_listMemory (by omega), h, List.drop_zero, List.append_assoc]
    exact List.take_left' rfl
  · rw [UdpRxSocket.rxMemory, window_listMemory (by omega), h, List.append_assoc,
      List.drop_left' (IPv4RxInfo.length_bytes info)]
    exact List.take_left' rfl

end MiMic.NetIf
