import MiMic.Lib.System
import MiMic.Snic.IdPtrTable

/-!
# Calls to the Wi-Fi module and its packets

A call of `NyLPC_cSnicApi` registers the object for a sequence number, sends its command and
polls a signal that the message task sets in `requestHandler`. The two run side by side; each
step below is one access to what they share.
-/
namespace MiMic.Snic

open Verif

/-- The functions of `NyLPC_cSnicApi` that wait for an answer. -/
inductive ApiCall
  | apiInitalization | cleanUp | configure | createTcpSocket | createUdpSocket | connectToServer
  | createTcpConnectionServer | sendFromSocket | closeSocket | sendUdpPacketFromSocket
  | startUdpReceiveOnSocket | setSocketOption | getDhcpInfo
deriving DecidableEq

namespace ApiCall

/-- `UART_CMD_SID_SNIC_*_REQ`. -/
def cmd : ApiCall → UInt8
  | .apiInitalization => 0x00
  | .cleanUp => 0x01
  | .sendFromSocket => 0x02
  | .closeSocket => 0x03
  | .setSocketOption => 0x06
  | .getDhcpInfo => 0x09
  | .configure => 0x0B
  | .createTcpSocket => 0x10
  | .createTcpConnectionServer => 0x11
  | .connectToServer => 0x12
  | .createUdpSocket => 0x13
  | .startUdpReceiveOnSocket => 0x14
  | .sendUdpPacketFromSocket => 0x16

/-- Whether the call goes through `sendCmd`, which clears the signal before it sends. -/
def clearsSignal : ApiCall → Bool
  | .sendFromSocket | .sendUdpPacketFromSocket | .setSocketOption => false
  | _ => true

/-- Whether the call reads the answer before it gives its registration back. -/
def readsFirst : ApiCall → Bool
  | .sendUdpPacketFromSocket => true
  | _ => false

end ApiCall

/-- `UART_CMD_SID_RESPONSE_BIT_MASK`. -/
def responseBit : UInt8 := 0x80

/-- How many bytes `requestHandler` reads behind the status of an answer that it knows. -/
def payloadLen (cmd : UInt8) : Option Nat :=
  if cmd = 0x09 ||| responseBit then some 18
  else if cmd = 0x14 ||| responseBit ∨ cmd = 0x16 ||| responseBit ∨ cmd = 0x02 ||| responseBit ∨
      cmd = 0x12 ||| responseBit then some 2
  else if cmd = 0x11 ||| responseBit then some 3
  else if cmd = 0x13 ||| responseBit ∨ cmd = 0x10 ||| responseBit then some 1
  else if cmd = 0x06 ||| responseBit ∨ cmd = 0x03 ||| responseBit ∨ cmd = 0x0B ||| responseBit ∨
      cmd = 0x01 ||| responseBit then some 0
  else if cmd = 0x00 ||| responseBit then some 4
  else none

/-- The handler knows the answer to every call. -/
theorem payloadLen_cmd (c : ApiCall) : ∃ n, payloadLen (c.cmd ||| responseBit) = some n := by
  cases c <;> exact ⟨_, rfl⟩

/-- A packet of the module from its command on, with the bytes that can be read behind the
status before the reader gives up. -/
structure Packet where
  cmd : UInt8
  seq : UInt8
  status : UInt8
  payload : List UInt8
deriving DecidableEq

/-- `NyLPC_TcSnicApi_t`. The answer stands in `response`, be it in `rawbuf` or behind the pointer
that the call has left there. -/
structure SnicApi where
  signal : Bool
  lastCmd : UInt8
  lastStatus : UInt8
  lastSeq : UInt8
  response : List UInt8

/-- The one object, `_inst._snic_api`. -/
def snicApi : Obj := 0

/-- Where a call is. -/
inductive AppPc
  | idle
  | calling (c : ApiCall)
  | registered (c : ApiCall) (i : Slot)
  | ready (c : ApiCall)
  | waiting (c : ApiCall)
  | seen (c : ApiCall)
  | leaving (c : ApiCall)
  | removing (c : ApiCall) (i : Slot)
  | returning (c : ApiCall)
deriving DecidableEq

/-- Where `requestHandler` is. -/
inductive RxPc
  | idle
  | looked (k : Packet) (i : Slot)
  | checking (k : Packet)
  | storing (k : Packet)
  | signalling
  | unlocking
deriving DecidableEq

structure Link where
  table : IdPtrTable
  api : SnicApi
  app : AppPc
  rx : RxPc
  taken : List UInt8

/-- A caller calls, one of the two goes on, or a packet arrives. -/
inductive LinkEvent
  | call (c : ApiCall)
  | app
  | receive (k : Packet)
  | rx

namespace Link

/-- The next access of the call. -/
def appStep (w : Link) : Option Link :=
  match w.app with
  | .idle => none
  | .calling c =>
      (w.table.obj2Item none).map fun i =>
        { w with table := w.table.addItem snicApi i, app := .registered c i }
  | .registered c i =>
      some { w with api := { w.api with lastSeq := (w.table.items i).id }, app := .ready c }
  | .ready c =>
      some { w with
        api := { w.api with signal := if c.clearsSignal then false else w.api.signal }
        app := .waiting c }
  | .waiting c => some { w with app := if w.api.signal then .seen c else .waiting c }
  | .seen c =>
      some { w with taken := if c.readsFirst then w.api.response else w.taken, app := .leaving c }
  | .leaving c =>
      (w.table.obj2Item (some snicApi)).map fun i =>
        if (w.table.items i).locked then { w with app := .removing c i }
        else { w with table := w.table.clearItem i, app := .returning c }
  | .removing c i =>
      if (w.table.items i).locked then some w
      else some { w with table := w.table.clearItem i, app := .returning c }
  | .returning c =>
      some { w with taken := if c.readsFirst then w.taken else w.api.response, app := .idle }

/-- The next access of `requestHandler`. -/
def rxStep (w : Link) : Option Link :=
  match w.rx with
  | .idle => none
  | .looked k i =>
      match (w.table.items i).obj with
      | none => some { w with rx := .idle }
      | some _ => some { w with rx := .checking k }
  | .checking k =>
      if w.api.lastSeq ≠ k.seq ∨ w.api.lastCmd ≠ k.cmd &&& 0x7f then
        some { w with rx := .signalling }
      else some { w with api := { w.api with lastStatus := k.status }, rx := .storing k }
  | .storing k =>
      match payloadLen k.cmd with
      | some n =>
          if w.api.lastStatus = 0 ∧ n ≤ k.payload.length then
            some { w with api := { w.api with response := k.payload.take n }, rx := .signalling }
          else some { w with rx := .signalling }
      | none => some { w with rx := .signalling }
  | .signalling => some { w with api := { w.api with signal := true }, rx := .unlocking }
  | .unlocking => some { w with table := w.table.unLockPtr snicApi, rx := .idle }

/-- Indications do not come to `requestHandler`. -/
def isIndication (k : Packet) : Bool := k.cmd &&& 0x20 != 0

def step (w : Link) : LinkEvent → Option Link
  | .call c =>
      if w.app = .idle then some { w with api := { w.api with lastCmd := c.cmd }, app := .calling c }
      else none
  | .app => w.appStep
  | .receive k =>
      if w.rx = .idle then
        if isIndication k then some w
        else
          match w.table.id2Item k.seq with
          | none => some w
          | some i => some { w with table := w.table.lockItem i, rx := .looked k i }
      else none
  | .rx => w.rxStep

end Link

/-- What a call has heard since it began, and whether every success so far had its answer. -/
structure Heard where
  slot : Slot
  seq : UInt8
  packets : List Packet
  good : Bool

/-- A success that the packet allows: the answer to this call, with status and bytes. -/
def Answers (c : ApiCall) (seq : UInt8) (bytes : List UInt8) (k : Packet) : Prop :=
  k.cmd = c.cmd ||| responseBit ∧ k.seq = seq ∧ k.status = 0 ∧
    ∀ n, payloadLen k.cmd = some n → n ≤ k.payload.length ∧ bytes.take n = k.payload.take n

instance (c : ApiCall) (seq : UInt8) (bytes : List UInt8) (k : Packet) :
    Decidable (Answers c seq bytes k) :=
  match h : payloadLen k.cmd with
  | none => decidable_of_iff (k.cmd = c.cmd ||| responseBit ∧ k.seq = seq ∧ k.status = 0)
      (by simp [Answers, h])
  | some n => decidable_of_iff (k.cmd = c.cmd ||| responseBit ∧ k.seq = seq ∧ k.status = 0 ∧
      n ≤ k.payload.length ∧ bytes.take n = k.payload.take n) (by simp [Answers, h])

/-- What the call that ends in `w` has read. -/
def readBytes (w : Link) (c : ApiCall) : List UInt8 := if c.readsFirst then w.taken else w.api.response

def Heard.note (b : Heard) (w : Link) : LinkEvent → Heard
  | .call _ => { b with packets := [] }
  | .receive k => { b with packets := b.packets ++ [k] }
  | .app =>
      match w.app with
      | .calling _ =>
          match w.table.obj2Item none with
          | some i => { b with slot := i, seq := w.table.nextId }
          | none => b
      | .returning c => { b with
          good := b.good && (decide (w.api.lastStatus ≠ 0) ||
            b.packets.any fun k => decide (Answers c b.seq (readBytes w c) k)) }
      | _ => b
  | .rx => b

def linkSystem : System Link LinkEvent where
  init w := w.table = .initialized ∧ w.app = .idle ∧ w.rx = .idle
  step := Link.step

def heardLink : System (Link × Heard) LinkEvent :=
  linkSystem.observe ⟨0, 0, [], true⟩ fun b w e _ => b.note w e

end MiMic.Snic
