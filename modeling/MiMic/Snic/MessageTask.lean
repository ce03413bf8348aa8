import MiMic.Lib.System
import MiMic.NetIf.UdpSocket
import MiMic.Snic.Api
import MiMic.Snic.SerialDevice
import MiMic.Snic.UartFrame

/-!
# The message task

`messageTask` waits for a start byte, reads a header, and gives the serial line to the handler
of its command. What the handlers find in the tables of the interface is given for each turn;
what they leave there is not part of this model, only what they take from the line.
-/
namespace MiMic.Snic

open Verif
open NetIf (sizeOfRxInfo)

/-- The copying loop of `waitForRead`: how many bytes of the segment it takes until its write
index meets `i_len`; `none` when the segment ends first. -/
def meets (len : UInt8) : UInt16 → List UInt8 → Option Nat
  | _, [] => none
  | wp, _ :: rest =>
      if wp + 1 = len.toUInt16 then some 1 else (meets len (wp + 1) rest).map (· + 1)

/-- `waitForRead` from the write index `wp` on. The index is compared behind a byte, so a length
of 0 is met when it has wrapped; 65536 turns are enough for every length. -/
def waitForRead (len : UInt8) : Nat → UInt16 → SerialDevice → Option (List UInt8 × SerialDevice)
  | 0, _, _ => none
  | fuel + 1, wp, d =>
      match d.pread with
      | none => none
      | some (seg, d) =>
          match meets len wp seg with
          | some k => some (seg.take k, d.pseek k)
          | none =>
              (waitForRead len fuel (wp + UInt16.ofNat seg.length) (d.pseek seg.length)).map
                fun (buf, d) => (seg ++ buf, d)

/-- `NyLPC_cSnicNetIf_readPayload`. -/
def readPayload (len : UInt8) (d : SerialDevice) : Option (List UInt8 × SerialDevice) :=
  waitForRead len 65536 0 d

/-- `waitforRawByte`. -/
def waitforRawByte (byte : UInt8) (d : SerialDevice) : Option (Bool × SerialDevice) :=
  d.pread.map fun (seg, d) => (seg.headD 0 == byte, d.pseek 1)

/-- `NyLPC_cSnicNetIf_seekPayload`. -/
def seekPayload (n : UInt16) (d : SerialDevice) : SerialDevice := d.pseek n.toNat

/-- `(((NyLPC_TUInt16)hi)<<8)|lo`. -/
def word16 (hi lo : UInt8) : UInt16 := (hi.toUInt16 <<< 8) ||| lo.toUInt16

/-- What a handler reads of the object it finds under a sequence number. -/
structure Requester where
  lastSeq : UInt8
  lastCmd : UInt8
  bufLen : UInt16

/-- What a handler reads of a socket: the space in the queue, at first and after the sleep. -/
structure SocketState where
  flags : UInt8
  space : UInt16
  spaceAfterSleep : UInt16

/-- What the lookups of the interface answer. -/
structure RxTables where
  lockObjectById : UInt8 → Option Requester
  getTcpListenerBySocket : UInt8 → Bool
  getTcpSocketBySocket : UInt8 → Option SocketState
  getUdpSocketBySocket : UInt8 → Option SocketState

/-- `UART_CMD_SID_RESPONSE_CMD_MASK`, on a byte. -/
def responseCmdMask : UInt8 := 0x7f

/-- `FLAGS_SOCKET_ENABLE|FLAGS_ACCEPTED`. -/
def enabledAndAccepted : UInt8 := 0x03

/-- `NyLPC_cSnicTcpListener_onClientSocketInd`. -/
def onClientSocketInd (d : SerialDevice) : Option (Bool × SerialDevice) :=
  (readPayload 7 d).map fun (_, d) => (true, d)

/-- `NyLPC_cSnicTcpSocket_onConnectionRecvInd`. -/
def tcpOnConnectionRecvInd (s : SocketState) (d : SerialDevice) : Option (Bool × SerialDevice) :=
  if s.flags &&& enabledAndAccepted = enabledAndAccepted then some (false, d)
  else do
    let (buf, d) ← readPayload 2 d
    let datalen := word16 (buf.getD 0 0) (buf.getD 1 0)
    if s.space < datalen ∧ s.spaceAfterSleep < datalen then some (true, seekPayload datalen d)
    else
      let (_, d) ← readPayload datalen.toUInt8 d
      some (true, d)

/-- `NyLPC_cSnicUdpSocket_onConnectionRecvInd`. -/
def udpOnConnectionRecvInd (s : SocketState) (d : SerialDevice) : Option (Bool × SerialDevice) := do
  let (buf, d) ← readPayload 8 d
  let datalen := word16 (buf.getD 6 0) (buf.getD 7 0)
  if s.space.toNat < datalen.toNat + sizeOfRxInfo then some (false, d)
  else
    let (_, d) ← readPayload datalen.toUInt8 d
    some (true, d)

/-- The branch of `indicationHandler` for data whose socket is not known. -/
def passOver (d : SerialDevice) : Option (Bool × SerialDevice) := do
  let (buf, d) ← readPayload 2 d
  some (true, seekPayload (word16 (buf.getD 0 0) (buf.getD 1 0)) d)

/-- `indicationHandler`. -/
def indicationHandler (t : RxTables) (cmd : UInt8) (d : SerialDevice) :
    Option (Bool × SerialDevice) :=
  if cmd = 0x21 then do
    let (buf, d) ← readPayload 2 d
    if t.getTcpListenerBySocket (buf.getD 1 0) then onClientSocketInd d
    else some (true, seekPayload 7 d)
  else if cmd = 0x20 then some (false, d)
  else if cmd = 0x22 then do
    let (buf, d) ← readPayload 2 d
    match t.getTcpSocketBySocket (buf.getD 1 0) with
    | some s => tcpOnConnectionRecvInd s d
    | none => passOver d
  else if cmd = 0x23 then do
    let (buf, d) ← readPayload 2 d
    match t.getUdpSocketBySocket (buf.getD 1 0) with
    | some s => udpOnConnectionRecvInd s d
    | none => passOver d
  else if cmd = 0x24 ∨ cmd = 0x25 then some (false, d)
  else some (true, d)

/-- The head of `requestHandler` and of the two like it: the object that waits for the answer
`cmd` with the sequence number `seq`. -/
def answered (t : RxTables) (cmd seq : UInt8) : Option Requester :=
  (t.lockObjectById seq).filter fun inst =>
    inst.lastSeq == seq && inst.lastCmd == cmd &&& responseCmdMask

/-- `requestHandler`. -/
def requestHandler (t : RxTables) (cmd : UInt8) (d : SerialDevice) :
    Option (Bool × SerialDevice) := do
  let (buf, d) ← readPayload 2 d
  let status := buf.getD 1 0
  match answered t cmd (buf.getD 0 0), payloadLen cmd with
  | none, _ | _, none => some (false, d)
  | some _, some n =>
      -- only the answer to the initialisation is read before its status is looked at
      if cmd = 0x00 ||| responseBit then
        let (_, d) ← readPayload (UInt8.ofNat n) d
        some (status == 0, d)
      else if status ≠ 0 then some (false, d)
      else if n = 0 then some (true, d)
      else
        let (_, d) ← readPayload (UInt8.ofNat n) d
        some (true, d)

/-- `NyLPC_cSnicApi_rxHandler`. -/
def apiRxHandler (t : RxTables) (d : SerialDevice) : Option (Bool × SerialDevice) := do
  let (buf, d) ← readPayload 1 d
  if buf.getD 0 0 &&& 0x20 ≠ 0 then indicationHandler t (buf.getD 0 0) d
  else requestHandler t (buf.getD 0 0) d

/-- `NyLPC_cSnicWifi_rxHandler`. -/
def wifiRxHandler (t : RxTables) (d : SerialDevice) : Option (Bool × SerialDevice) := do
  let (buf, d) ← readPayload 3 d
  let cmd := buf.getD 0 0
  match answered t cmd (buf.getD 1 0) with
  | none => some (false, d)
  | some _ =>
      if cmd = 0x80 ∨ cmd = 0x81 ∨ cmd = 0x82 ∨ cmd = 0x83 then some (buf.getD 2 0 == 0, d)
      else some (false, d)

/-- `NyLPC_cSnicGeneral_rxHandler`. -/
def generalRxHandler (t : RxTables) (d : SerialDevice) : Option (Bool × SerialDevice) := do
  let (buf, d) ← readPayload 3 d
  match answered t (buf.getD 0 0) (buf.getD 1 0) with
  | none => some (false, d)
  | some inst =>
      if buf.getD 0 0 = 0x88 then
        let (len, d) ← readPayload 1 d
        let len := len.getD 0 0
        if buf.getD 2 0 ≠ 0 then some (false, d)
        else if len.toNat + 1 < inst.bufLen.toNat then
          let (_, d) ← readPayload len d
          some (true, d)
        else some (true, seekPayload len.toUInt16 d)
      else some (false, d)

/-- The handlers between which `messageTask` chooses. -/
inductive RxHandler
  | general | snicApi | snicWifi
deriving DecidableEq

namespace RxHandler

/-- `SNIC_UART_CMD_ID_*`. -/
def ofCmd (cmd : UInt8) : Option RxHandler :=
  if cmd = 0x01 then some general
  else if cmd = 0x70 then some snicApi
  else if cmd = 0x50 then some snicWifi
  else none

def run (t : RxTables) (d : SerialDevice) : RxHandler → Option (Bool × SerialDevice)
  | general => generalRxHandler t d
  | snicApi => apiRxHandler t d
  | snicWifi => wifiRxHandler t d

end RxHandler

/-- A call of a handler: what was unread before it and behind it. -/
structure RxCall where
  handler : RxHandler
  before : List UInt8
  after : List UInt8

structure MessageTask where
  dev : SerialDevice
  calls : List RxCall

namespace MessageTask

/-- The end of a turn whose handler has taken its packet. -/
def awaitEsc (m : MessageTask) : Option MessageTask :=
  (waitforRawByte dataEsc m.dev).map fun (_, d) => { m with dev := d }

/-- One turn of the loop of `messageTask`; `none` when it waits for bytes that do not come. -/
def turn (m : MessageTask) (t : RxTables) : Option MessageTask := do
  let (som, d) ← waitforRawByte dataSom m.dev
  if !som then some { m with dev := d }
  else
    let (header, d) ← readPayload 3 d
    match RxHandler.ofCmd (UartFrameFormatHeader.ofBytes header).getCmd with
    | none => awaitEsc { m with dev := d }
    | some h =>
        let (ok, d') ← h.run t d
        let m' : MessageTask := ⟨d', m.calls ++ [⟨h, d.unread, d'.unread⟩]⟩
        if ok then m'.awaitEsc else some m'

end MessageTask

/-- The task behind its start, with the frames of the module on the line. -/
def messageTask (fs : List UartFrame) : System MessageTask RxTables where
  init m := ∃ cuts, m = ⟨.init (UartFrame.stream fs) cuts, []⟩
  step := MessageTask.turn

end MiMic.Snic
