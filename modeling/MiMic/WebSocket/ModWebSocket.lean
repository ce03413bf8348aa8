import MiMic.Lib.WsFrame
import MiMic.Core.FormatWriter

/-!
# The WebSocket module

`NyLPC_cModWebSocket` behind its handshake. The stream of the connection stands as the bytes
that are not read yet and the bytes that were written; a list of answers says what each call of
`pread` finds, the calls behind its end find nothing.
-/
namespace MiMic.WebSocket

open Verif.WsFrame (MaskKey applyMask)

inductive FrameType
  | bin | txt
deriving DecidableEq, Repr

inductive PayloadSt
  | start | read | closed
deriving DecidableEq, Repr

/-- `NyLPC_TcModWebSocket_t` with its stream. -/
structure ModWebSocket where
  payloadSt : PayloadSt
  frameType : FrameType
  /-- The bit `FLAGS_MASK_BIT`. -/
  frameMasked : Bool
  frameMask : MaskKey
  payloadSize : UInt16
  payloadPtr : UInt16
  rx : List UInt8
  tx : List UInt8
deriving DecidableEq

/-- What `pread` finds: an error, or that many bytes; no byte is a timeout. -/
inductive Recv
  | closed
  | bytes (n : Nat)
deriving DecidableEq, Repr

namespace ModWebSocket

/-- The label `Error`. -/
def error (ws : ModWebSocket) : ModWebSocket := { ws with payloadSt := .closed }

def rseek (ws : ModWebSocket) (n : Nat) : ModWebSocket := { ws with rx := ws.rx.drop n }

def streamWrite (ws : ModWebSocket) (bs : List UInt8) : ModWebSocket := { ws with tx := ws.tx ++ bs }

def writeClosePacket (ws : ModWebSocket) (code : UInt16) : ModWebSocket :=
  ws.streamWrite ([0x88, 0x02] ++ u16Bytes (htons code))

/-- Where `update` goes on with the next `pread`: at `START`, or in the payload of a ping
(which is written back) or of a pong. -/
inductive UpdatePos
  | start
  | drain (echo : Bool)
deriving DecidableEq, Repr

/-- The test of the loops that drain a payload. -/
def drainPos (ws : ModWebSocket) (echo : Bool) : UpdatePos :=
  if ws.payloadSize = ws.payloadPtr then .start else .drain echo

/-- A data frame is entered. -/
def enterPayload (ws : ModWebSocket) (headerSize : Nat) : ModWebSocket :=
  { ws.rseek headerSize with payloadSt := .read }

/-- The switch over the opcode; no position means that `update` returns. -/
def opcodeStep (ws : ModWebSocket) (opcode : UInt8) (rx : List UInt8) (headerSize : Nat) :
    ModWebSocket × Option UpdatePos :=
  if opcode = 0x00 then (ws.error, none)
  else if opcode = 0x01 then
    if ws.frameType ≠ .txt then (ws.error, none) else (ws.enterPayload headerSize, none)
  else if opcode = 0x02 then
    if ws.frameType = .bin then (ws.error, none) else (ws.enterPayload headerSize, none)
  else if opcode = 0x08 then ((ws.writeClosePacket 1009).error, none)
  else if opcode = 0x09 then
    let ws := (ws.streamWrite (0x0a :: (rx.take headerSize).drop 1)).rseek headerSize
    (ws, some (ws.drainPos true))
  else if opcode = 0x0a then
    let ws := ws.rseek headerSize
    (ws, some (ws.drainPos false))
  else (ws.error, none)

/-- The mask is copied if there is one. -/
def takeMask (ws : ModWebSocket) (b1 : UInt8) (rx : List UInt8) (headerSize : Nat) : ModWebSocket :=
  if b1 &&& 0x80 = 0x80 then
    { ws with frameMasked := true, frameMask := fun i => rx.getD (headerSize - 4 + i) 0 }
  else { ws with frameMasked := false }

/-- The header once its size is known. -/
def headerStep (ws : ModWebSocket) (b0 b1 : UInt8) (rx : List UInt8) (headerSize : Nat) :
    ModWebSocket × Option UpdatePos :=
  if rx.length < headerSize then (ws, none)
  else if b0 &&& 0x80 ≠ 0x80 then ({ ws with frameMasked := false }.error, none)
  else
    { ws.takeMask b1 rx headerSize with payloadPtr := 0 }.opcodeStep (b0 &&& 0x0f) rx headerSize

def maskSize (b1 : UInt8) : Nat := if b1 &&& 0x80 = 0x80 then 4 else 0

/-- A length of 16 bits stands behind the first two bytes. -/
def longStep (ws : ModWebSocket) (b0 b1 : UInt8) (rx : List UInt8) :
    List UInt8 → ModWebSocket × Option UpdatePos
  | l0 :: l1 :: _ =>
      { ws with payloadSize := (l0.toUInt16 <<< 8) ||| l1.toUInt16 }.headerStep b0 b1 rx
        (2 + 2 + maskSize b1)
  | _ => (ws, none)

/-- `ST_START_PAYLOAD` with the bytes that `pread` shows. -/
def startStep (ws : ModWebSocket) (rx : List UInt8) : ModWebSocket × Option UpdatePos :=
  match rx with
  | b0 :: b1 :: rest =>
      if b1 &&& 0x7f ≤ 125 then
        { ws with payloadSize := (b1 &&& 0x7f).toUInt16 }.headerStep b0 b1 rx (2 + maskSize b1)
      else if b1 &&& 0x7f = 126 then ws.longStep b0 b1 rx rest
      else ((ws.writeClosePacket 1009).error, none)
  | _ => (ws, none)

/-- A round of a loop that drains a payload. -/
def drainStep (ws : ModWebSocket) (echo : Bool) (rx : List UInt8) :
    ModWebSocket × Option UpdatePos :=
  if rx.length = 0 then (ws, none)
  else
    let rs := min rx.length (ws.payloadSize.toNat - ws.payloadPtr.toNat)
    let ws := (if echo then ws.streamWrite (rx.take rs) else ws).rseek rs
    let ws := { ws with payloadPtr := ws.payloadPtr + UInt16.ofNat rs }
    (ws, some (ws.drainPos echo))

/-- What follows a call of `pread`. -/
def preadStep (pos : UpdatePos) (ws : ModWebSocket) : Recv → ModWebSocket × Option UpdatePos
  | .closed => (ws.error, none)
  | .bytes n =>
      match pos with
      | .drain echo => ws.drainStep echo (ws.rx.take n)
      | .start =>
          if (ws.rx.take n).length = 0 then (ws, none)
          else
            match ws.payloadSt with
            | .read => (ws, none)
            | .start => ws.startStep (ws.rx.take n)
            | .closed => (ws.error, none)

def updateFrom : UpdatePos → ModWebSocket → List Recv → ModWebSocket × List Recv
  | _, ws, [] => (ws, [])
  | pos, ws, r :: rs =>
      match ws.preadStep pos r with
      | (ws, none) => (ws, rs)
      | (ws, some pos) => updateFrom pos ws rs

/-- `NyLPC_cModWebSocket_update`, with the answers that it leaves. -/
def update (ws : ModWebSocket) (rs : List Recv) : ModWebSocket × List Recv :=
  if ws.payloadSt = .closed then (ws, rs) else updateFrom .start ws rs

/-- The payload bytes behind the read position. -/
def unmask (ws : ModWebSocket) (rx : List UInt8) : List UInt8 :=
  if ws.frameMasked then applyMask ws.frameMask ws.payloadPtr.toNat rx else rx

/-- The position is moved on; at the end of the payload a header is awaited. -/
def advance (ws : ModWebSocket) (n : Nat) : ModWebSocket :=
  let ws := { ws.rseek n with payloadPtr := ws.payloadPtr + UInt16.ofNat n }
  if ws.payloadSize = ws.payloadPtr then { ws with payloadSt := .start } else ws

/-- What a reading function returns: the bytes it has delivered, or -1. -/
structure ReadResult (α : Type) where
  ws : ModWebSocket
  data : α
  ret : Int

/-- `NyLPC_cModWebSocket_read` behind `update`, with the answer to its `pread`. -/
def readPayload (ws : ModWebSocket) (bufLen : Nat) : Recv → ReadResult (List UInt8)
  | .closed => ⟨ws.error, [], -1⟩
  | .bytes n =>
      let rs := min (ws.rx.take n).length bufLen
      if (ws.rx.take n).length = 0 then ⟨ws, [], 0⟩
      else ⟨ws.advance rs, ws.unmask (ws.rx.take rs), rs⟩

def nextRecv (rs : List Recv) : Recv := rs.headD (.bytes 0)

def read (ws : ModWebSocket) (bufLen : Nat) (rs : List Recv) : ReadResult (List UInt8) :=
  match ws.update rs with
  | (ws, rs) =>
      match ws.payloadSt with
      | .read => ws.readPayload bufLen (nextRecv rs)
      | .start => ⟨ws, [], 0⟩
      | .closed => ⟨ws, [], -1⟩

section Callback

variable {σ : Type}

/-- The loops over the callback, with its state and whether it went well: the `break` for the
answer 0 leaves the switch and not the loop. -/
def callbackLoop (cb : σ → UInt8 → σ × Int) : σ → List UInt8 → σ × Bool
  | s, [] => (s, true)
  | s, c :: cs =>
      match cb s c with
      | (s, v) => if v = 1 then callbackLoop cb s cs else if v = 0 then callbackLoop cb s cs else (s, false)

/-- `NyLPC_cModWebSocket_readCB` behind `update`. -/
def readPayloadCB (ws : ModWebSocket) (cb : σ → UInt8 → σ × Int) (s : σ) : Recv → ReadResult σ
  | .closed => ⟨ws.error, s, -1⟩
  | .bytes n =>
      let rs := min (ws.rx.take n).length (ws.payloadSize.toNat - ws.payloadPtr.toNat)
      if (ws.rx.take n).length = 0 then ⟨ws, s, 0⟩
      else
        match callbackLoop cb s (ws.unmask (ws.rx.take rs)) with
        | (s, true) => ⟨ws.advance rs, s, rs⟩
        | (s, false) => ⟨ws.error, s, -1⟩

def readCB (ws : ModWebSocket) (cb : σ → UInt8 → σ × Int) (s : σ) (rs : List Recv) : ReadResult σ :=
  match ws.update rs with
  | (ws, rs) =>
      match ws.payloadSt with
      | .read => ws.readPayloadCB cb s (nextRecv rs)
      | .start => ⟨ws, s, 0⟩
      | .closed => ⟨ws, s, -1⟩

end Callback

/-- The first byte of a data frame. -/
def typeByte : FrameType → UInt8
  | .txt => 0x80 ||| 0x01
  | .bin => 0x80 ||| 0x02

/-- `NyLPC_cModWebSocket_writePayloadHeader`; the stream takes what it is given. -/
def writePayloadHeader (ws : ModWebSocket) (len : Int16) : ModWebSocket × Bool :=
  if ws.payloadSt = .closed then (ws, false)
  else
    let w0 := typeByte ws.frameType
    if len < 126 then (ws.streamWrite [w0, len.toUInt16.toUInt8], true)
    else
      -- `s` is 3, one byte less than `w` holds
      (ws.streamWrite (([w0, 126] ++ u16Bytes (htons len.toUInt16)).take 3), true)

/-- `NyLPC_cModWebSocket_write` of a buffer of `i_len` bytes. -/
def write (ws : ModWebSocket) (buf : List UInt8) (rs : List Recv) : ModWebSocket × Bool :=
  match (ws.update rs).1.writePayloadHeader (Int16.ofNat buf.length) with
  | (ws, true) => (ws.streamWrite buf, true)
  | (ws, false) => (ws.error, false)

/-- `NyLPC_cModWebSocket_writeFormatV`. -/
def writeFormat (ws : ModWebSocket) (fmt : List UInt8) (args : List FormatArg) (rs : List Recv) :
    Option (ModWebSocket × Bool) := do
  let l ← formatLength fmt args
  match (ws.update rs).1.writePayloadHeader l with
  | (ws, true) => do
      let pieces ← formatPrint fmt args
      some (pieces.foldl streamWrite ws, true)
  | (ws, false) => some (ws.error, false)

/-- `NyLPC_cModWebSocket_startBulkWrite`. -/
def startBulkWrite (ws : ModWebSocket) (len : Int16) (rs : List Recv) : ModWebSocket × Bool :=
  match (ws.update rs).1.writePayloadHeader len with
  | (ws, true) => (ws, true)
  | (ws, false) => (ws.error, false)

/-- `NyLPC_cModWebSocket_writeBulkFormatV`. -/
def writeBulkFormat (ws : ModWebSocket) (fmt : List UInt8) (args : List FormatArg) :
    Option (ModWebSocket × Bool) :=
  if ws.payloadSt = .closed then some (ws, false)
  else (formatPrint fmt args).map fun pieces => (pieces.foldl streamWrite ws, true)

/-- `NyLPC_cModWebSocket_endBulkWrite`. -/
def endBulkWrite (ws : ModWebSocket) : Bool := ws.payloadSt ≠ .closed

/-- `NyLPC_cModWebSocket_close`. -/
def close (ws : ModWebSocket) (code : UInt16) (rs : List Recv) : ModWebSocket :=
  let ws := (ws.update rs).1
  if ws.payloadSt = .closed then ws else (ws.writeClosePacket code).error

end ModWebSocket

end MiMic.WebSocket
