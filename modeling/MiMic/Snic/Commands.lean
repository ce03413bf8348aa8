import MiMic.Lib.FieldLayout
import MiMic.NetIf.EthFrame
import MiMic.NetIf.IpTypes
import MiMic.Snic.UartFrame

/-!
# The commands to the Wi-Fi module

Each call of `NyLPC_cSnicApi` fills a local array byte by byte at literal offsets, and announces
a length that it computes apart from the bytes it sends.
-/
namespace MiMic

/-- A store behind what has been stored so far. -/
theorem Memory.Holds.store {m : Memory} {xs : List UInt8} {n : Nat} (h : m.Holds 0 xs)
    (ys : List UInt8) (hn : xs.length = n) : (m.write n ys).Holds 0 (xs ++ ys) := by
  subst hn
  unfold Memory.Holds at *
  rw [List.length_append, window_add, Nat.zero_add, window_write_self,
    window_write_of_disjoint m (by omega), h]

end MiMic

namespace MiMic.Snic

open MiMic.NetIf Verif.FieldLayout Verif.WsFrame

/-- `(NyLPC_TUInt8)((n>>8)&0xff)` -/
def highByte (n : UInt16) : UInt8 := ((n >>> 8) &&& 0xff).toUInt8

/-- `(NyLPC_TUInt8)((n>>0)&0xff)` -/
def lowByte (n : UInt16) : UInt8 := ((n >>> 0) &&& 0xff).toUInt8

/-- What one command puts between the header of its frame and the checksum, and the length that
`startPayload` was given. -/
structure Sent where
  len : UInt16
  bytes : List UInt8

/-- `SNIC_UART_CMD_ID_SNIC` -/
def snicUartCmdIdSnic : UInt8 := 0x70

/-- The length that stands in the header. -/
def announcedLength (len : UInt16) : Nat :=
  let header := (startPayload snicUartCmdIdSnic len).1
  (((header.getD 2 0).toUInt16 &&& 0x7f) <<< 7 ||| ((header.getD 1 0).toUInt16 &&& 0x7f)).toNat

/-- `NyLPC_cSnicNetIf_sendShortPayload`, the tail of `sendCmd`. -/
def sendShortPayload (data : Memory) (len : UInt16) : Sent where
  len := len
  bytes := sendPayload (data.window 0 len.toNat)

/-- The three calls with a payload of the caller: a header from `data` and the payload. -/
def sendWithPayload (data : Memory) (head : UInt16) (payload : List UInt8) : Sent where
  len := head + UInt16.ofNat payload.length
  bytes := sendPayload (data.window 0 head.toNat) ++ sendPayload payload

namespace Sent

variable (data : Memory) (seq : UInt8)

def apiInitalization (bufLen : UInt16) : Sent :=
  sendShortPayload
    ((((data.write 0 [0x00]).write 1 [seq]).write 2 [highByte bufLen]).write 3 [lowByte bufLen]) 4

def cleanUp : Sent := sendShortPayload ((data.write 0 [0x01]).write 1 [seq]) 2

def configure (addr : Option (IPv4Addr × IPv4Addr × IPv4Addr)) : Sent :=
  let data := ((data.write 0 [0x0B]).write 1 [seq]).write 2 [0]
  match addr with
  | none => sendShortPayload (data.write 3 [1]) 4
  | some (addr, netmask, gateway) =>
      sendShortPayload ((((data.write 3 [0]).write 4 (u32Bytes addr.v)).write 8
        (u32Bytes netmask.v)).write 12 (u32Bytes gateway.v)) 16

/-- `_createSocketX` -/
def createSocketX (cmd bindOption : UInt8) (localIp : IPv4Addr) (localPort : UInt16) : Sent :=
  let data := ((data.write 0 [cmd]).write 1 [seq]).write 2 [bindOption]
  if bindOption = 0 then
    sendShortPayload (((data.write 3 (u32Bytes localIp.v)).write 7 [highByte localPort]).write 8
      [lowByte localPort]) 9
  else sendShortPayload data 3

def connectToServer (socket : UInt8) (localIp : IPv4Addr) (_localPort recvBufSize timeout : UInt16) :
    Sent :=
  let data := (((data.write 0 [0x12]).write 1 [seq]).write 2 [socket]).write 3 (u32Bytes localIp.v)
  let data := (data.write 7 [highByte recvBufSize]).write 8 [lowByte recvBufSize]
  let data := (data.write 9 [highByte recvBufSize]).write 10 [highByte recvBufSize]
  sendShortPayload (data.write 11 [(if timeout < 1000 then 1 else timeout / 1000).toUInt8]) 12

def createTcpConnectionServer (socket : UInt8) (recvBufSize : UInt16) (maximumConnection : UInt8) :
    Sent :=
  let data := ((data.write 0 [0x11]).write 1 [seq]).write 2 [socket]
  let data := (data.write 3 [highByte recvBufSize]).write 4 [lowByte recvBufSize]
  sendShortPayload (data.write 5 [maximumConnection]) 6

def sendFromSocket (_socket option : UInt8) (payload : List UInt8) : Sent :=
  let payloadLength := UInt16.ofNat payload.length
  let data := ((data.write 0 [0x02]).write 1 [seq]).write 2 [option]
  let data := (data.write 3 [highByte payloadLength]).write 4 [lowByte payloadLength]
  sendWithPayload data 5 payload

def closeSocket (socket : UInt8) : Sent :=
  sendShortPayload (((data.write 0 [0x03]).write 1 [seq]).write 2 [socket]) 3

def sendUdpPacketFromSocket (socket connectionMode : UInt8) (remoteIp : IPv4Addr)
    (remotePort : UInt16) (payload : List UInt8) : Sent :=
  let payloadLength := UInt16.ofNat payload.length
  let data := ((data.write 0 [0x16]).write 1 [seq]).write 2 (u32Bytes remoteIp.v)
  let data := (data.write 6 [highByte remotePort]).write 7 [lowByte remotePort]
  let data := (data.write 8 [socket]).write 9 [connectionMode]
  let data := (data.write 10 [highByte payloadLength]).write 11 [lowByte payloadLength]
  sendWithPayload data 12 payload

def startUdpReceiveOnSocket (socket : UInt8) (recvBufferSize : UInt32) : Sent :=
  let data := ((data.write 0 [0x14]).write 1 [seq]).write 2 [socket]
  let data := data.write 3 [((recvBufferSize >>> 8) &&& 0xff).toUInt8]
  sendShortPayload (data.write 4 [((recvBufferSize >>> 0) &&& 0xff).toUInt8]) 5

def setSocketOption (socket : UInt8) (level optionName : UInt16) (optionValue : List UInt8) :
    Sent :=
  let optionValueLength := UInt16.ofNat optionValue.length
  let data := ((data.write 0 [0x06]).write 1 [seq]).write 2 [socket]
  let data := (data.write 3 [highByte level]).write 4 [lowByte level]
  let data := (data.write 5 [highByte optionName]).write 6 [lowByte optionName]
  let data := (data.write 7 [highByte optionValueLength]).write 8 [lowByte optionValueLength]
  sendWithPayload data 9 optionValue

def getDhcpInfo : Sent :=
  sendShortPayload (((data.write 0 [0x09]).write 1 [seq]).write 2 [0]) 3

/-- `NyLPC_cSnicApi_sysCloseSocket`, whose sequence number is the one nobody waits for. -/
def sysCloseSocket (sock : UInt8) : Sent :=
  sendShortPayload (((data.write 0 [0x03]).write 1 [0]).write 2 [sock]) 3

/-- `NyLPC_cSnicApi_sendIndicateConfirm` -/
def sendIndicateConfirm (_cmd seq : UInt8) : Sent :=
  sendShortPayload ((data.write 0 [0x03]).write 1 [seq]) 2

def createTcpSocket : UInt8 → IPv4Addr → UInt16 → Sent := createSocketX data seq 0x10

def createUdpSocket : UInt8 → IPv4Addr → UInt16 → Sent := createSocketX data seq 0x13

end Sent

/-- Bytes of the caller whose length a 16-bit argument gives. -/
structure Payload where
  bytes : List UInt8
  length_lt : bytes.length < 2 ^ 16

/-- A call with its arguments. -/
inductive Request
  | apiInitalization (bufLen : UInt16)
  | cleanUp
  | configure (addr : Option (IPv4Addr × IPv4Addr × IPv4Addr))
  | createTcpSocket (bindOption : UInt8) (localIp : IPv4Addr) (localPort : UInt16)
  | createUdpSocket (bindOption : UInt8) (localIp : IPv4Addr) (localPort : UInt16)
  | connectToServer (socket : UInt8) (localIp : IPv4Addr) (localPort recvBufSize timeout : UInt16)
  | createTcpConnectionServer (socket : UInt8) (recvBufSize : UInt16) (maximumConnection : UInt8)
  | sendFromSocket (socket option : UInt8) (payload : Payload)
  | closeSocket (socket : UInt8)
  | sendUdpPacketFromSocket (socket connectionMode : UInt8) (remoteIp : IPv4Addr)
      (remotePort : UInt16) (payload : Payload)
  | startUdpReceiveOnSocket (socket : UInt8) (recvBufferSize : UInt32)
  | setSocketOption (socket : UInt8) (level optionName : UInt16) (optionValue : Payload)
  | getDhcpInfo
  | sysCloseSocket (sock : UInt8)
  | sendIndicateConfirm (cmd seq : UInt8)

namespace Request

def send (data : Memory) (seq : UInt8) : Request → Sent
  | .apiInitalization bufLen => .apiInitalization data seq bufLen
  | .cleanUp => .cleanUp data seq
  | .configure addr => .configure data seq addr
  | .createTcpSocket bindOption localIp localPort =>
      .createTcpSocket data seq bindOption localIp localPort
  | .createUdpSocket bindOption localIp localPort =>
      .createUdpSocket data seq bindOption localIp localPort
  | .connectToServer socket localIp localPort recvBufSize timeout =>
      .connectToServer data seq socket localIp localPort recvBufSize timeout
  | .createTcpConnectionServer socket recvBufSize maximumConnection =>
      .createTcpConnectionServer data seq socket recvBufSize maximumConnection
  | .sendFromSocket socket option payload => .sendFromSocket data seq socket option payload.bytes
  | .closeSocket socket => .closeSocket data seq socket
  | .sendUdpPacketFromSocket socket connectionMode remoteIp remotePort payload =>
      .sendUdpPacketFromSocket data seq socket connectionMode remoteIp remotePort payload.bytes
  | .startUdpReceiveOnSocket socket recvBufferSize =>
      .startUdpReceiveOnSocket data seq socket recvBufferSize
  | .setSocketOption socket level optionName optionValue =>
      .setSocketOption data seq socket level optionName optionValue.bytes
  | .getDhcpInfo => .getDhcpInfo data seq
  | .sysCloseSocket sock => .sysCloseSocket data sock
  | .sendIndicateConfirm cmd seq => .sendIndicateConfirm data cmd seq

def byteField (b : UInt8) : Field := .number 1 b.toNat

def pairField (n : UInt16) : Field := .number 2 n.toNat

def lengthField (payload : Payload) : Field := .number 2 payload.bytes.length

/-- An address is kept in network order. -/
def addrField (a : IPv4Addr) : Field := .number 4 (ntohl a.v).toNat

/-- The fields of `_createSocketX`. An address follows when the socket is to be bound to it. -/
def createSocketFields (bindOption : UInt8) (localIp : IPv4Addr) (localPort : UInt16) :
    List Field :=
  if bindOption = 0 then [byteField bindOption, addrField localIp, pairField localPort]
  else [byteField bindOption]

/-- The layout of the command, with the fields that the arguments of the call name. -/
def layout (seq : UInt8) : Request → List Field
  | .apiInitalization bufLen => [byteField 0x00, byteField seq, pairField bufLen]
  | .cleanUp => [byteField 0x01, byteField seq]
  | .configure none => [byteField 0x0B, byteField seq, byteField 0, byteField 1]
  | .configure (some (addr, netmask, gateway)) =>
      [byteField 0x0B, byteField seq, byteField 0, byteField 0, addrField addr, addrField netmask,
        addrField gateway]
  | .createTcpSocket bindOption localIp localPort =>
      byteField 0x10 :: byteField seq :: createSocketFields bindOption localIp localPort
  | .createUdpSocket bindOption localIp localPort =>
      byteField 0x13 :: byteField seq :: createSocketFields bindOption localIp localPort
  | .connectToServer socket localIp localPort recvBufSize timeout =>
      [byteField 0x12, byteField seq, byteField socket, addrField localIp, pairField localPort,
        pairField recvBufSize, .number 1 (max 1 (timeout.toNat / 1000))]
  | .createTcpConnectionServer socket recvBufSize maximumConnection =>
      [byteField 0x11, byteField seq, byteField socket, pairField recvBufSize,
        byteField maximumConnection]
  | .sendFromSocket socket option payload =>
      [byteField 0x02, byteField seq, byteField socket, byteField option,
        lengthField payload, .raw payload.bytes]
  | .closeSocket socket => [byteField 0x03, byteField seq, byteField socket]
  | .sendUdpPacketFromSocket socket connectionMode remoteIp remotePort payload =>
      [byteField 0x16, byteField seq, addrField remoteIp, pairField remotePort, byteField socket,
        byteField connectionMode, lengthField payload, .raw payload.bytes]
  | .startUdpReceiveOnSocket socket recvBufferSize =>
      [byteField 0x14, byteField seq, byteField socket, .number 2 recvBufferSize.toNat]
  | .setSocketOption socket level optionName optionValue =>
      [byteField 0x06, byteField seq, byteField socket, pairField level, pairField optionName,
        lengthField optionValue, .raw optionValue.bytes]
  | .getDhcpInfo => [byteField 0x09, byteField seq, byteField 0]
  | .sysCloseSocket sock => [byteField 0x03, byteField 0, byteField sock]
  | .sendIndicateConfirm cmd seq => [byteField cmd, byteField seq]

/-- The arguments with which the command comes out as it is laid out. -/
def SentRight : Request → Prop
  | .connectToServer _ _ localPort recvBufSize _ =>
      localPort = recvBufSize ∧ highByte recvBufSize = lowByte recvBufSize
  | .sendFromSocket _ _ _ => False
  | .sendUdpPacketFromSocket _ _ _ _ payload => 12 + payload.bytes.length < 2 ^ 14
  | .startUdpReceiveOnSocket _ recvBufferSize => recvBufferSize.toNat < 2 ^ 16
  | .setSocketOption _ _ _ optionValue => 9 + optionValue.bytes.length < 2 ^ 14
  | .sendIndicateConfirm cmd _ => cmd = 0x03
  | _ => True

end Request

/-- The bytes are the fields, and the header of the frame announces as many. -/
structure Encodes (fields : List Field) (s : Sent) : Prop where
  laid : Laid fields s.bytes
  announced : announcedLength s.len = s.bytes.length

theorem holds_nil (m : Memory) : m.Holds 0 [] := rfl

theorem announcedLength_eq (len : UInt16) : announcedLength len = len.toNat % 2 ^ 14 :=
  (congrArg UInt16.toNat (lengthBits_startPayload snicUartCmdIdSnic len)).trans
    (toNat_and_fourteenBits len)

theorem encodes_sendShortPayload_iff {fs : List Field} {m : Memory} {bs : List UInt8} {n : UInt16}
    (h : m.Holds 0 bs) (hn : bs.length = n.toNat) (hsmall : n.toNat < 2 ^ 14) :
    Encodes fs (sendShortPayload m n) ↔ Laid fs bs := by
  have hbytes : (sendShortPayload m n).bytes = bs := by
    rw [sendShortPayload, UartFrame.sendPayload_eq, ← hn, h]
  have hlen : announcedLength n = bs.length := by
    rw [announcedLength_eq, Nat.mod_eq_of_lt hsmall, hn]
  constructor
  · intro he
    exact hbytes ▸ he.laid
  · intro hl
    exact ⟨hbytes.symm ▸ hl, by rw [hbytes]; exact hlen⟩

theorem encodes_sendWithPayload_iff {fs : List Field} {m : Memory} {bs payload : List UInt8}
    {head : UInt16} (h : m.Holds 0 bs) (hn : bs.length = head.toNat)
    (hsmall : head.toNat < 2 ^ 14) (hpayload : payload.length < 2 ^ 16) :
    Encodes fs (sendWithPayload m head payload) ↔
      Laid fs (bs ++ payload) ∧ head.toNat + payload.length < 2 ^ 14 := by
  have hbytes : (sendWithPayload m head payload).bytes = bs ++ payload := by
    rw [sendWithPayload, UartFrame.sendPayload_eq, UartFrame.sendPayload_eq, ← hn, h]
  have hlen : announcedLength (head + UInt16.ofNat payload.length) =
      (head.toNat + payload.length) % 2 ^ 14 := by
    rw [announcedLength_eq, UInt16.toNat_add, UInt16.toNat_ofNat_of_lt' hpayload]
    omega
  have hannounced : announcedLength (sendWithPayload m head payload).len =
      (sendWithPayload m head payload).bytes.length ↔ head.toNat + payload.length < 2 ^ 14 := by
    rw [hbytes, List.length_append, hn]
    refine Iff.trans (iff_of_eq (congrArg (· = _) hlen)) ?_
    omega
  rw [← hannounced, ← hbytes]
  exact ⟨fun he => ⟨he.laid, he.announced⟩, fun he => ⟨he.1, he.2⟩⟩

theorem toNat_highByte (n : UInt16) : (highByte n).toNat = n.toNat / 256 := by
  have hn := n.toNat_lt
  have hmask : (0xff : UInt16).toNat = 2 ^ 8 - 1 := rfl
  rw [highByte, UInt16.toNat_toUInt8, UInt16.toNat_and, hmask, Nat.and_two_pow_sub_one_eq_mod,
    UInt16.toNat_shiftRight, Nat.shiftRight_eq_div_pow]
  simp
  omega

theorem toNat_lowByte (n : UInt16) : (lowByte n).toNat = n.toNat % 256 := by
  have hmask : (0xff : UInt16).toNat = 2 ^ 8 - 1 := rfl
  rw [lowByte, UInt16.toNat_toUInt8, UInt16.toNat_and, hmask, Nat.and_two_pow_sub_one_eq_mod,
    UInt16.toNat_shiftRight, Nat.shiftRight_eq_div_pow]
  simp

/-- The seconds of a timeout in milliseconds. -/
theorem toNat_timeout (timeout : UInt16) :
    ((if timeout < 1000 then 1 else timeout / 1000).toUInt8).toNat =
      max 1 (timeout.toNat / 1000) := by
  have hlt := timeout.toNat_lt
  have hthousand : (1000 : UInt16).toNat = 1000 := rfl
  split
  · next h =>
    have h := UInt16.lt_iff_toNat_lt.mp h
    show 1 = _
    omega
  · next h =>
    have h := mt UInt16.lt_iff_toNat_lt.mpr h
    rw [UInt16.toNat_toUInt8, UInt16.toNat_div, hthousand]
    omega

theorem ofBigEndian_u32Bytes (n : UInt32) : ofBigEndian (u32Bytes n) = (ntohl n).toNat := by
  have hn := n.toNat_lt
  rw [ntohl, toNat_uint32Bswap]
  simp only [ofBigEndian, u32Bytes, List.foldl_cons, List.foldl_nil, UInt8.toNat_ofNat']
  omega

section

variable {fs : List Field} {bs : List UInt8}

open Request

@[simp] theorem laid_byteField_iff {a b : UInt8} :
    Laid (byteField b :: fs) (a :: bs) ↔ a = b ∧ Laid fs bs := by
  rw [byteField, laid_byte_iff, UInt8.toNat_inj]

@[simp] theorem laid_pairField_iff {a n : UInt16} :
    Laid (pairField n :: fs) (highByte a :: lowByte a :: bs) ↔ a = n ∧ Laid fs bs := by
  have hvalue : (highByte a).toNat * 256 + (lowByte a).toNat = a.toNat := by
    rw [toNat_highByte, toNat_lowByte]
    omega
  rw [pairField, laid_pair_iff, hvalue, UInt16.toNat_inj]

@[simp] theorem laid_addrField_iff {a : IPv4Addr} :
    Laid (addrField a :: fs) (u32Bytes a.v ++ bs) ↔ Laid fs bs := by
  rw [addrField, laid_number_iff (by rfl), ofBigEndian_u32Bytes]
  simp only [true_and]

@[simp] theorem laid_addrField (a : IPv4Addr) : Laid [addrField a] (u32Bytes a.v) := by
  rw [← List.append_nil (u32Bytes a.v), laid_addrField_iff, laid_nil_iff]

@[simp] theorem laid_lengthField_iff {payload : Payload} :
    Laid (lengthField payload :: fs) (highByte (UInt16.ofNat payload.bytes.length) ::
      lowByte (UInt16.ofNat payload.bytes.length) :: bs) ↔ Laid fs bs := by
  have hvalue : payload.bytes.length / 256 * 256 + payload.bytes.length % 256 =
      payload.bytes.length := by omega
  rw [lengthField, laid_pair_iff, toNat_highByte, toNat_lowByte,
    UInt16.toNat_ofNat_of_lt' payload.length_lt]
  exact and_iff_right hvalue

end

section

variable (data : Memory) (seq : UInt8)

open Request

theorem encodes_apiInitalization (bufLen : UInt16) :
    Encodes (layout seq (.apiInitalization bufLen)) (Sent.apiInitalization data seq bufLen) := by
  have h := ((((holds_nil data).store [0x00] rfl).store [seq] rfl).store
    [highByte bufLen] rfl).store [lowByte bufLen] rfl
  refine (encodes_sendShortPayload_iff h rfl (by decide)).mpr ?_
  simp [layout]

theorem encodes_cleanUp : Encodes (layout seq .cleanUp) (Sent.cleanUp data seq) := by
  have h := ((holds_nil data).store [0x01] rfl).store [seq] rfl
  refine (encodes_sendShortPayload_iff h rfl (by decide)).mpr ?_
  simp [layout]

theorem encodes_configure (addr : Option (IPv4Addr × IPv4Addr × IPv4Addr)) :
    Encodes (layout seq (.configure addr)) (Sent.configure data seq addr) := by
  have h := (((holds_nil data).store [0x0B] rfl).store [seq] rfl).store
    [0] rfl
  cases addr with
  | none =>
    refine (encodes_sendShortPayload_iff (h.store [1] rfl) rfl (by decide)).mpr ?_
    simp [layout]
  | some a =>
    obtain ⟨addr, netmask, gateway⟩ := a
    have h := (((h.store [0] rfl).store (u32Bytes addr.v) rfl).store
      (u32Bytes netmask.v) rfl).store (u32Bytes gateway.v) rfl
    refine (encodes_sendShortPayload_iff h rfl (by decide)).mpr ?_
    simp [layout]

theorem encodes_createSocketX (cmd bindOption : UInt8) (localIp : IPv4Addr) (localPort : UInt16) :
    Encodes (byteField cmd :: byteField seq :: createSocketFields bindOption localIp localPort)
      (Sent.createSocketX data seq cmd bindOption localIp localPort) := by
  have h := (((holds_nil data).store [cmd] rfl).store [seq] rfl).store
    [bindOption] rfl
  unfold Sent.createSocketX createSocketFields
  split
  · have h := ((h.store (u32Bytes localIp.v) rfl).store [highByte localPort] rfl).store
      [lowByte localPort] rfl
    refine (encodes_sendShortPayload_iff h rfl (by decide)).mpr ?_
    simp
  · refine (encodes_sendShortPayload_iff h rfl (by decide)).mpr ?_
    simp

theorem encodes_connectToServer_iff (socket : UInt8) (localIp : IPv4Addr)
    (localPort recvBufSize timeout : UInt16) :
    Encodes (layout seq (.connectToServer socket localIp localPort recvBufSize timeout))
      (Sent.connectToServer data seq socket localIp localPort recvBufSize timeout) ↔
        localPort = recvBufSize ∧ highByte recvBufSize = lowByte recvBufSize := by
  have h := ((((((((((holds_nil data).store [0x12] rfl).store [seq] rfl).store
    [socket] rfl).store (u32Bytes localIp.v) rfl).store
    [highByte recvBufSize] rfl).store [lowByte recvBufSize] rfl).store
    [highByte recvBufSize] rfl).store [highByte recvBufSize] rfl).store
    [(if timeout < 1000 then 1 else timeout / 1000).toUInt8] rfl)
  refine (encodes_sendShortPayload_iff h rfl (by decide)).trans ?_
  have hlow : (highByte recvBufSize).toNat * 256 + (highByte recvBufSize).toNat =
      recvBufSize.toNat ↔ highByte recvBufSize = lowByte recvBufSize := by
    rw [← UInt8.toNat_inj, toNat_highByte, toNat_lowByte]
    omega
  have hsize : Laid [pairField recvBufSize, .number 1 (max 1 (timeout.toNat / 1000))]
      [highByte recvBufSize, highByte recvBufSize,
        (if timeout < 1000 then 1 else timeout / 1000).toUInt8] ↔
      highByte recvBufSize = lowByte recvBufSize := by
    rw [pairField, laid_pair_iff, laid_byte_iff, hlow]
    exact and_iff_left ⟨toNat_timeout timeout, laid_nil_iff.mpr rfl⟩
  simp [layout, hsize, eq_comm (a := recvBufSize)]

theorem encodes_createTcpConnectionServer (socket : UInt8) (recvBufSize : UInt16)
    (maximumConnection : UInt8) :
    Encodes (layout seq (.createTcpConnectionServer socket recvBufSize maximumConnection))
      (Sent.createTcpConnectionServer data seq socket recvBufSize maximumConnection) := by
  have h := ((((((holds_nil data).store [0x11] rfl).store [seq] rfl).store
    [socket] rfl).store [highByte recvBufSize] rfl).store
    [lowByte recvBufSize] rfl).store [maximumConnection] rfl
  refine (encodes_sendShortPayload_iff h rfl (by decide)).mpr ?_
  simp [layout]

theorem not_encodes_sendFromSocket (socket option : UInt8) (payload : Payload) :
    ¬ Encodes (layout seq (.sendFromSocket socket option payload))
      (Sent.sendFromSocket data seq socket option payload.bytes) := by
  have h := (((((holds_nil data).store [0x02] rfl).store [seq] rfl).store
    [option] rfl).store [highByte (UInt16.ofNat payload.bytes.length)] rfl).store
    [lowByte (UInt16.ofNat payload.bytes.length)] rfl
  intro he
  have hlaid := ((encodes_sendWithPayload_iff h rfl (by decide) payload.length_lt).mp he).1
  have hlen := length_of_laid hlaid
  simp [layout, byteField, lengthField, Field.size] at hlen
  omega

theorem encodes_closeSocket (socket : UInt8) :
    Encodes (layout seq (.closeSocket socket)) (Sent.closeSocket data seq socket) := by
  have h := (((holds_nil data).store [0x03] rfl).store [seq] rfl).store
    [socket] rfl
  refine (encodes_sendShortPayload_iff h rfl (by decide)).mpr ?_
  simp [layout]

theorem encodes_sendUdpPacketFromSocket_iff (socket connectionMode : UInt8) (remoteIp : IPv4Addr)
    (remotePort : UInt16) (payload : Payload) :
    Encodes (layout seq (.sendUdpPacketFromSocket socket connectionMode remoteIp remotePort payload))
      (Sent.sendUdpPacketFromSocket data seq socket connectionMode remoteIp remotePort
        payload.bytes) ↔ 12 + payload.bytes.length < 2 ^ 14 := by
  have h := (((((((((holds_nil data).store [0x16] rfl).store [seq] rfl).store
    (u32Bytes remoteIp.v) rfl).store [highByte remotePort] rfl).store
    [lowByte remotePort] rfl).store [socket] rfl).store
    [connectionMode] rfl).store
    [highByte (UInt16.ofNat payload.bytes.length)] rfl).store
    [lowByte (UInt16.ofNat payload.bytes.length)] rfl
  refine (encodes_sendWithPayload_iff h rfl (by decide) payload.length_lt).trans
    (and_iff_right ?_)
  simp [layout]

theorem encodes_startUdpReceiveOnSocket_iff (socket : UInt8) (recvBufferSize : UInt32) :
    Encodes (layout seq (.startUdpReceiveOnSocket socket recvBufferSize))
      (Sent.startUdpReceiveOnSocket data seq socket recvBufferSize) ↔
        recvBufferSize.toNat < 2 ^ 16 := by
  have h := (((((holds_nil data).store [0x14] rfl).store [seq] rfl).store
    [socket] rfl).store [((recvBufferSize >>> 8) &&& 0xff).toUInt8] rfl).store
    [((recvBufferSize >>> 0) &&& 0xff).toUInt8] rfl
  refine (encodes_sendShortPayload_iff h rfl (by decide)).trans ?_
  have hmask : (0xff : UInt32).toNat = 2 ^ 8 - 1 := rfl
  have hhigh : ((recvBufferSize >>> 8) &&& 0xff).toUInt8.toNat =
      recvBufferSize.toNat / 256 % 256 := by
    rw [UInt32.toNat_toUInt8, UInt32.toNat_and, hmask, Nat.and_two_pow_sub_one_eq_mod,
      UInt32.toNat_shiftRight, Nat.shiftRight_eq_div_pow]
    simp
  have hlow : ((recvBufferSize >>> 0) &&& 0xff).toUInt8.toNat = recvBufferSize.toNat % 256 := by
    rw [UInt32.toNat_toUInt8, UInt32.toNat_and, hmask, Nat.and_two_pow_sub_one_eq_mod,
      UInt32.toNat_shiftRight, Nat.shiftRight_eq_div_pow]
    simp
  have hsize : Laid [.number 2 recvBufferSize.toNat]
      [((recvBufferSize >>> 8) &&& 0xff).toUInt8, ((recvBufferSize >>> 0) &&& 0xff).toUInt8] ↔
      recvBufferSize.toNat < 2 ^ 16 := by
    rw [laid_pair_iff, hhigh, hlow]
    refine (and_iff_left (laid_nil_iff.mpr rfl)).trans ?_
    omega
  simpa [layout, -laid_pair_iff, -UInt32.toUInt8_and] using hsize

theorem encodes_setSocketOption_iff (socket : UInt8) (level optionName : UInt16)
    (optionValue : Payload) :
    Encodes (layout seq (.setSocketOption socket level optionName optionValue))
      (Sent.setSocketOption data seq socket level optionName optionValue.bytes) ↔
        9 + optionValue.bytes.length < 2 ^ 14 := by
  have h := (((((((((holds_nil data).store [0x06] rfl).store [seq] rfl).store
    [socket] rfl).store [highByte level] rfl).store [lowByte level] rfl).store
    [highByte optionName] rfl).store [lowByte optionName] rfl).store
    [highByte (UInt16.ofNat optionValue.bytes.length)] rfl).store
    [lowByte (UInt16.ofNat optionValue.bytes.length)] rfl
  refine (encodes_sendWithPayload_iff h rfl (by decide) optionValue.length_lt).trans
    (and_iff_right ?_)
  simp [layout]

theorem encodes_getDhcpInfo : Encodes (layout seq .getDhcpInfo) (Sent.getDhcpInfo data seq) := by
  have h := (((holds_nil data).store [0x09] rfl).store [seq] rfl).store
    [0] rfl
  refine (encodes_sendShortPayload_iff h rfl (by decide)).mpr ?_
  simp [layout]

theorem encodes_sysCloseSocket (sock : UInt8) :
    Encodes (layout seq (.sysCloseSocket sock)) (Sent.sysCloseSocket data sock) := by
  have h := (((holds_nil data).store [0x03] rfl).store [0] rfl).store
    [sock] rfl
  refine (encodes_sendShortPayload_iff h rfl (by decide)).mpr ?_
  simp [layout]

theorem encodes_sendIndicateConfirm_iff (cmd confirmSeq : UInt8) :
    Encodes (layout seq (.sendIndicateConfirm cmd confirmSeq))
      (Sent.sendIndicateConfirm data cmd confirmSeq) ↔ cmd = 0x03 := by
  have h := ((holds_nil data).store [0x03] rfl).store [confirmSeq] rfl
  refine (encodes_sendShortPayload_iff h rfl (by decide)).trans ?_
  simp [layout, eq_comm]

end

/-- A command comes out as it is laid out for exactly these arguments. -/
theorem command_encoding (data : Memory) (seq : UInt8) (r : Request) :
    Encodes (r.layout seq) (r.send data seq) ↔ r.SentRight := by
  cases r with
  | apiInitalization bufLen => exact iff_of_true (encodes_apiInitalization data seq bufLen) trivial
  | cleanUp => exact iff_of_true (encodes_cleanUp data seq) trivial
  | configure addr => exact iff_of_true (encodes_configure data seq addr) trivial
  | createTcpSocket bindOption localIp localPort =>
    exact iff_of_true (encodes_createSocketX data seq 0x10 bindOption localIp localPort) trivial
  | createUdpSocket bindOption localIp localPort =>
    exact iff_of_true (encodes_createSocketX data seq 0x13 bindOption localIp localPort) trivial
  | connectToServer socket localIp localPort recvBufSize timeout =>
    exact encodes_connectToServer_iff data seq socket localIp localPort recvBufSize timeout
  | createTcpConnectionServer socket recvBufSize maximumConnection =>
    exact iff_of_true
      (encodes_createTcpConnectionServer data seq socket recvBufSize maximumConnection) trivial
  | sendFromSocket socket option payload =>
    exact iff_of_false (not_encodes_sendFromSocket data seq socket option payload) not_false
  | closeSocket socket => exact iff_of_true (encodes_closeSocket data seq socket) trivial
  | sendUdpPacketFromSocket socket connectionMode remoteIp remotePort payload =>
    exact encodes_sendUdpPacketFromSocket_iff data seq socket connectionMode remoteIp remotePort
      payload
  | startUdpReceiveOnSocket socket recvBufferSize =>
    exact encodes_startUdpReceiveOnSocket_iff data seq socket recvBufferSize
  | setSocketOption socket level optionName optionValue =>
    exact encodes_setSocketOption_iff data seq socket level optionName optionValue
  | getDhcpInfo => exact iff_of_true (encodes_getDhcpInfo data seq) trivial
  | sysCloseSocket sock => exact iff_of_true (encodes_sysCloseSocket data seq sock) trivial
  | sendIndicateConfirm cmd confirmSeq =>
    exact encodes_sendIndicateConfirm_iff data seq cmd confirmSeq

/-- A connection to port 80 with a receive buffer of 1024 bytes asks for port 1024 and for 1028
bytes. -/
theorem not_command_encoding :
    ¬ Encodes ((Request.connectToServer 1 ⟨0x0100a8c0⟩ 80 1024 5000).layout 7)
      ((Request.connectToServer 1 ⟨0x0100a8c0⟩ 80 1024 5000).send (fun _ => 0) 7) := by
  intro h
  have hsame := (encodes_connectToServer_iff (fun _ => 0) 7 1 ⟨0x0100a8c0⟩ 80 1024 5000).mp h
  exact absurd hsame.1 (by decide)

end MiMic.Snic
