import MiMic.Core.FormatWriter
import MiMic.Http.BodyParser

/-!
# Writing a body

`NyLPC_cHttpStream` collects bytes in the send buffer of its socket, with chunked encoding
behind five reserved bytes, and `NyLPC_cHttpBodyWriter` writes a body through it. The socket
sends what it is given; `none` is a store outside of the buffer that it handed out.
-/
namespace MiMic.Http

/-- A send buffer: its size as handed out, `txb_size`, and its first `tx_len` bytes. -/
structure TxBuf where
  size : UInt16
  txbSize : UInt16
  bytes : List UInt8
deriving DecidableEq, Repr

namespace TxBuf

def txLen (b : TxBuf) : UInt16 := UInt16.ofNat b.bytes.length

/-- The buffer as `write_func` sets it up; the bytes reserved for the header are not written
yet. -/
def alloc (weType : TransferEncoding) (s : UInt16) : TxBuf :=
  match weType with
  | .chunked => ⟨s, s - 7, List.replicate 5 0⟩
  | .none => ⟨s, s, []⟩

def freeSize (b : TxBuf) : UInt16 := b.txbSize - b.txLen

/-- `memcpy` to `txb+tx_len`. -/
def append (b : TxBuf) (src : List UInt8) : Option TxBuf :=
  if b.bytes.length + src.length ≤ b.size.toNat then some { b with bytes := b.bytes ++ src }
  else none

end TxBuf

/-- The digits of `put_chunked_header`. -/
def chunkDigits : List UInt8 :=
  [0x30, 0x31, 0x32, 0x33, 0x34, 0x35, 0x36, 0x37, 0x38, 0x39, 0x41, 0x42, 0x43, 0x44, 0x45, 0x46]

def chunkDigit (i : UInt16) : UInt8 := chunkDigits.getD i.toNat 0

/-- `put_chunked_header`. -/
def putChunkedHeader (val : UInt16) : List UInt8 :=
  [chunkDigit ((val &&& 0x0f00) >>> 8), chunkDigit ((val &&& 0x00f0) >>> 4),
    chunkDigit (val &&& 0x000f), chCr, chLf]

/-- What `flush_func` sends of a buffer. -/
def TxBuf.flush (weType : TransferEncoding) (b : TxBuf) : Option (List UInt8) :=
  match weType with
  | .chunked =>
      if 5 ≤ b.size.toNat ∧ b.bytes.length + 2 ≤ b.size.toNat then
        some (putChunkedHeader (b.txLen - 5) ++ b.bytes.drop 5 ++ [chCr, chLf])
      else none
  | .none => some b.bytes

/-- `NyLPC_TcHttpStream_t`, with the sizes of the buffers that `allocSendBuf` will hand out,
after which it returns NULL, and what was sent. -/
structure HttpStream where
  weType : TransferEncoding
  txb : Option TxBuf
  sizes : List UInt16
  sent : List UInt8
deriving DecidableEq, Repr

/-- One round of the loop of `write_func`: all of `src` is kept in the buffer, or the buffer is
full and a rest remains. -/
def TxBuf.fill (b : TxBuf) (src : List UInt8) : Option (TxBuf × Option (List UInt8)) :=
  if b.freeSize.toNat > src.length then (b.append src).map (·, none)
  else (b.append (src.take b.freeSize.toNat)).map (·, some (src.drop b.freeSize.toNat))

namespace HttpStream

/-- The loop of `write_func` while there is no buffer. -/
def writeAlloc (weType : TransferEncoding) :
    List UInt16 → List UInt8 → List UInt8 → Option (HttpStream × Bool)
  | [], sent, src => some (⟨weType, none, [], sent⟩, src.isEmpty)
  | s :: sizes, sent, src =>
      if src.isEmpty then some (⟨weType, none, s :: sizes, sent⟩, true)
      else
        match (TxBuf.alloc weType s).fill src with
        | none => none
        | some (b, none) => some (⟨weType, some b, sizes, sent⟩, true)
        | some (b, some rest) =>
            match b.flush weType with
            | none => none
            | some bytes => writeAlloc weType sizes (sent ++ bytes) rest

/-- `write_func` on the `l` bytes of `src`. -/
def writeFunc (st : HttpStream) (src : List UInt8) : Option (HttpStream × Bool) :=
  match st.txb with
  | none => writeAlloc st.weType st.sizes st.sent src
  | some b =>
      if src.isEmpty then some (st, true)
      else
        match b.fill src with
        | none => none
        | some (b, none) => some ({ st with txb := some b }, true)
        | some (b, some rest) =>
            match b.flush st.weType with
            | none => none
            | some bytes => writeAlloc st.weType st.sizes (st.sent ++ bytes) rest

/-- `flush_func`. -/
def flushFunc (st : HttpStream) : Option HttpStream :=
  match st.txb with
  | none => some st
  | some b => (b.flush st.weType).map fun bytes => { st with txb := none, sent := st.sent ++ bytes }

/-- `setWriteEncoding_func`. -/
def setWriteEncoding (st : HttpStream) (et : TransferEncoding) : Option HttpStream :=
  if st.weType = et then some st else st.flushFunc.map fun st => { st with weType := et }

end HttpStream

structure BodyWriter where
  stream : HttpStream
  isChunked : Bool
  isError : Bool
deriving DecidableEq, Repr

namespace BodyWriter

/-- `NyLPC_cHttpBodyWriter_initialize`. -/
def init (st : HttpStream) : Option BodyWriter :=
  (st.setWriteEncoding .none).map fun st => ⟨st, false, false⟩

def setChunked (w : BodyWriter) : Option BodyWriter :=
  (w.stream.setWriteEncoding .chunked).map fun st => { w with stream := st, isChunked := true }

/-- The bytes that `write_func` takes for `i_length`: `strlen` decides where it is negative. -/
def ofLength (buf : List UInt8) (len : UInt32) : List UInt8 :=
  if len.toInt32 < 0 then cString buf else buf.take len.toNat

/-- `printHandler`. -/
def printHandler (w : BodyWriter) (buf : List UInt8) (len : UInt32) : Option (BodyWriter × Bool) :=
  if w.isError then some (w, false)
  else (w.stream.writeFunc (ofLength buf len)).map fun (st, ok) =>
    if ok then ({ w with stream := st }, true) else ({ w with stream := st, isError := true }, false)

def write (w : BodyWriter) (buf : List UInt8) : Option (BodyWriter × Bool) :=
  w.printHandler buf (UInt32.ofNat buf.length)

/-- The pieces one after the other; the last one decides what is returned. -/
def printPieces (w : BodyWriter) : List (List UInt8) → Option (BodyWriter × Bool)
  | [] => some (w, true)
  | [piece] => w.write piece
  | piece :: pieces =>
      match w.write piece with
      | none => none
      | some (w, _) => w.printPieces pieces

/-- `NyLPC_cHttpBodyWriter_format`. -/
def format (w : BodyWriter) (fmt : List UInt8) (args : List FormatArg) :
    Option (BodyWriter × Bool) :=
  if w.isError then some (w, false)
  else
    match formatPrint fmt args with
    | none => none
    | some pieces => w.printPieces pieces

/-- `NyLPC_cHttpBodyWriter_close`. -/
def close (w : BodyWriter) : Option (BodyWriter × Bool) :=
  if w.isError then some (w, false)
  else
    let finish (w : BodyWriter) : Option (BodyWriter × Bool) :=
      w.stream.flushFunc.map fun st => ({ w with stream := st }, true)
    if w.isChunked then
      match w.stream.setWriteEncoding .none with
      | none => none
      | some st =>
          match st.writeFunc [chZero, chCr, chLf, chCr, chLf] with
          | none => none
          | some (st, true) => finish { w with stream := st }
          | some (st, false) => some ({ w with stream := st, isError := true }, false)
    else finish w

end BodyWriter

/-- A call of the writer, with what it can be given: an object in memory is smaller than 2^31
bytes, and the arguments are those of the format. -/
inductive BodyCall
  | write (buf : List UInt8) (fits : buf.length < 2 ^ 31)
  | format (fmt : List UInt8) (args : List FormatArg) (wellTyped : (formatText fmt args).isSome)

/-- The bytes that a call writes. -/
def BodyCall.bytes : BodyCall → List UInt8
  | .write buf _ => buf
  | .format fmt args _ => (formatText fmt args).getD []

def BodyCall.run (w : BodyWriter) : BodyCall → Option (BodyWriter × Bool)
  | .write buf _ => w.write buf
  | .format fmt args _ => w.format fmt args

def runCalls (w : BodyWriter) : List BodyCall → Option BodyWriter
  | [] => some w
  | call :: calls =>
      match call.run w with
      | none => none
      | some (w, _) => runCalls w calls

/-- A chunked body behind its header: the calls, then `close`. -/
def writeBody (sizes : List UInt16) (calls : List BodyCall) : Option (HttpStream × Bool) := do
  let w ← BodyWriter.init ⟨.none, none, sizes, []⟩
  let w ← w.setChunked
  let w ← runCalls w calls
  let (w, ok) ← w.close
  some (w.stream, ok)

end MiMic.Http
