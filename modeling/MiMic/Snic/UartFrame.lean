import MiMic.Core.Stdlib

/-!
# UART frames

The frame that `startPayload`, `sendPayload` and `endPayload` put on the line, and the reader's
view of its header. The Wi-Fi module sends frames of the same shape.
-/
namespace MiMic.Snic

/-- `SNIC_DATA_SOM`. -/
def dataSom : UInt8 := 0x02

/-- `SNIC_DATA_EOM`. -/
def dataEom : UInt8 := 0x04

/-- `SNIC_DATA_ESC`. -/
def dataEsc : UInt8 := 0x10

/-- `NyLPC_TUartFrameFormatHeader`. -/
structure UartFrameFormatHeader where
  l0 : UInt8
  l1 : UInt8
  commandId : UInt8

namespace UartFrameFormatHeader

/-- The three bytes that `recvHeader` reads into the structure. -/
def ofBytes (b : List UInt8) : UartFrameFormatHeader where
  l0 := b.getD 0 0
  l1 := b.getD 1 0
  commandId := b.getD 2 0

/-- `NyLPC_TUartFrameFormat_getLength`. -/
def getLength (h : UartFrameFormatHeader) : UInt16 :=
  ((h.l1.toUInt16 &&& 0x03) <<< 7) ||| (h.l0.toUInt16 &&& 0x7f)

/-- `NyLPC_TUartFrameFormat_getCmd`. -/
def getCmd (h : UartFrameFormatHeader) : UInt8 := h.commandId &&& 0x7f

end UartFrameFormatHeader

/-- What `startPayload` writes, and the checksum it leaves in `tx_data`. -/
def startPayload (cmd : UInt8) (len : UInt16) : List UInt8 × UInt8 :=
  let tx1 := (0x80 : UInt8) ||| (len &&& 0x007f : UInt16).toUInt8
  let tx2 := (0x80 : UInt8) ||| ((len &&& 0x3f80) >>> 7 : UInt16).toUInt8
  ([dataSom, tx1, tx2, 0x80 ||| cmd], tx1 + tx2 + cmd)

/-- `NyLPC_cSnicNetIf_sendPayload`: nothing is written for the length 0. -/
def sendPayload (buf : List UInt8) : List UInt8 := if 0 < buf.length then buf else []

/-- `NyLPC_cSnicNetIf_endPayload` with the checksum that `startPayload` has left. -/
def endPayload (checksum : UInt8) : List UInt8 := [checksum ||| 0x80, dataEom]

/-- The header of a frame as the reader takes it behind the start byte. -/
def writtenHeader (cmd : UInt8) (len : UInt16) : UartFrameFormatHeader :=
  .ofBytes ((startPayload cmd len).1.drop 1)

/-- The reader keeps nine bits of the length, the writer fourteen. -/
theorem getLength_writtenHeader (cmd : UInt8) (len : UInt16) :
    (writtenHeader cmd len).getLength = len &&& 0x1ff := by
  show ((((0x80 : UInt8) ||| ((len &&& 0x3f80) >>> 7 : UInt16).toUInt8).toUInt16 &&& 0x03) <<< 7) |||
    (((0x80 : UInt8) ||| (len &&& 0x007f : UInt16).toUInt8).toUInt16 &&& 0x7f) = _
  apply UInt16.toBitVec_inj.mp
  ext i hi
  interval_cases i <;> simp [-UInt16.toUInt16_toUInt8]

theorem getCmd_writtenHeader (cmd : UInt8) (len : UInt16) :
    (writtenHeader cmd len).getCmd = cmd &&& 0x7f := by
  show (0x80 ||| cmd) &&& 0x7f = cmd &&& 0x7f
  apply UInt8.toBitVec_inj.mp
  ext i hi
  interval_cases i <;> simp

theorem and_nineBits {len : UInt16} : len &&& 0x1ff = len ↔ len.toNat < 512 := by
  have hmask : (0x1ff : UInt16).toNat = 2 ^ 9 - 1 := rfl
  rw [← UInt16.toNat_inj, UInt16.toNat_and, hmask, Nat.and_two_pow_sub_one_eq_mod]
  omega

theorem and_sevenBits {cmd : UInt8} : cmd &&& 0x7f = cmd ↔ cmd.toNat < 128 := by
  have hmask : (0x7f : UInt8).toNat = 2 ^ 7 - 1 := rfl
  rw [← UInt8.toNat_inj, UInt8.toNat_and, hmask, Nat.and_two_pow_sub_one_eq_mod]
  omega

/-- What the writer was given comes back from the header. -/
def HeaderKept (cmd : UInt8) (len : UInt16) : Prop :=
  (writtenHeader cmd len).getLength = len ∧ (writtenHeader cmd len).getCmd = cmd

theorem headerKept_iff {cmd : UInt8} {len : UInt16} :
    HeaderKept cmd len ↔ len.toNat < 512 ∧ cmd.toNat < 128 := by
  rw [HeaderKept, getLength_writtenHeader, getCmd_writtenHeader, and_nineBits, and_sevenBits]

/-- The header carries fourteen bits of the length. -/
theorem lengthBits_startPayload (cmd : UInt8) (len : UInt16) :
    (((startPayload cmd len).1.getD 2 0).toUInt16 &&& 0x7f) <<< 7 |||
      (((startPayload cmd len).1.getD 1 0).toUInt16 &&& 0x7f) = len &&& 0x3fff := by
  show ((((0x80 : UInt8) ||| ((len &&& 0x3f80) >>> 7 : UInt16).toUInt8).toUInt16 &&& 0x7f) <<< 7) |||
    (((0x80 : UInt8) ||| (len &&& 0x007f : UInt16).toUInt8).toUInt16 &&& 0x7f) = len &&& 0x3fff
  apply UInt16.toBitVec_inj.mp
  ext i hi
  interval_cases i <;> simp [-UInt16.toUInt16_toUInt8]

theorem toNat_and_fourteenBits (len : UInt16) : (len &&& 0x3fff).toNat = len.toNat % 2 ^ 14 := by
  have hmask : (0x3fff : UInt16).toNat = 2 ^ 14 - 1 := rfl
  rw [UInt16.toNat_and, hmask, Nat.and_two_pow_sub_one_eq_mod]

/-- A frame with a payload that its header can tell the length of. -/
structure UartFrame where
  cmd : UInt8
  payload : List UInt8
  length_lt : payload.length < 2 ^ 14

namespace UartFrame

def len (f : UartFrame) : UInt16 := UInt16.ofNat f.payload.length

/-- Checksum and end byte. -/
def trailer (f : UartFrame) : List UInt8 := endPayload (startPayload f.cmd f.len).2

/-- The frame on the line. -/
def wire (f : UartFrame) : List UInt8 :=
  (startPayload f.cmd f.len).1 ++ sendPayload f.payload ++ f.trailer

/-- Frames one behind the other. -/
def stream (fs : List UartFrame) : List UInt8 := fs.flatMap wire

theorem sendPayload_eq (buf : List UInt8) : sendPayload buf = buf := by
  cases buf <;> rfl

/-- The three header bytes. -/
def header (f : UartFrame) : List UInt8 := (startPayload f.cmd f.len).1.drop 1

theorem length_header (f : UartFrame) : f.header.length = 3 := rfl

theorem wire_eq (f : UartFrame) : f.wire = dataSom :: (f.header ++ (f.payload ++ f.trailer)) := by
  rw [wire, sendPayload_eq, List.append_assoc]
  rfl

theorem length_wire (f : UartFrame) : f.wire.length = 4 + (f.payload ++ f.trailer).length := by
  rw [wire_eq, List.length_cons, List.length_append, length_header]
  omega

theorem getCmd_header (f : UartFrame) :
    (UartFrameFormatHeader.ofBytes f.header).getCmd = f.cmd &&& 0x7f :=
  getCmd_writtenHeader f.cmd f.len

/-- The fourteen bits of the length that the writer sends. -/
theorem len_of_header (f : UartFrame) :
    ((f.header.getD 1 0).toUInt16 &&& 0x7f) <<< 7 ||| ((f.header.getD 0 0).toUInt16 &&& 0x7f) =
      f.len := by
  have hlen : f.len.toNat = f.payload.length :=
    UInt16.toNat_ofNat_of_lt' (lt_trans f.length_lt (by decide))
  have hbits : f.len &&& 0x3fff = f.len := by
    rw [← UInt16.toNat_inj, toNat_and_fourteenBits, hlen, Nat.mod_eq_of_lt f.length_lt]
  exact (lengthBits_startPayload f.cmd f.len).trans hbits

/-- A line begins with one frame at most. -/
theorem payload_eq_of_prefix {f g : UartFrame} {s : List UInt8} (hf : f.wire <+: s)
    (hg : g.wire <+: s) : f.payload = g.payload ∧ f.cmd &&& 0x7f = g.cmd &&& 0x7f := by
  obtain ⟨a, rfl⟩ := hf
  obtain ⟨b, hb⟩ := hg
  rw [wire_eq, wire_eq, List.cons_append, List.cons_append, List.cons_inj_right, List.append_assoc,
    List.append_assoc, List.append_assoc, List.append_assoc] at hb
  obtain ⟨hheader, hrest⟩ := List.append_inj hb rfl
  have hlen : g.len = f.len := by
    rw [← len_of_header, ← len_of_header, hheader]
  have hlength : g.payload.length = f.payload.length := by
    have h := congrArg UInt16.toNat hlen
    unfold len at h
    rwa [UInt16.toNat_ofNat_of_lt' (lt_trans g.length_lt (by decide)),
      UInt16.toNat_ofNat_of_lt' (lt_trans f.length_lt (by decide))] at h
  refine ⟨((List.append_inj hrest hlength).1).symm, ?_⟩
  rw [← getCmd_header, ← getCmd_header, hheader]

theorem or_topBit_ne (c : UInt8) {b : UInt8} (hb : b &&& 0x80 = 0) : c ||| 0x80 ≠ b := by
  intro h
  have htop : (c ||| 0x80).toBitVec.getLsbD 7 = true := by simp
  have hbot : b.toBitVec.getLsbD 7 = false := by
    have hbit := congrArg (fun v : UInt8 => v.toBitVec.getLsbD 7) hb
    simpa using hbit
  rw [h, hbot] at htop
  exact Bool.noConfusion htop

/-- The end of a frame holds no start byte. -/
theorem som_not_mem_trailer (f : UartFrame) : dataSom ∉ f.trailer := by
  intro h
  rcases List.mem_cons.mp h with hc | he
  · exact or_topBit_ne _ (by decide) hc.symm
  · exact absurd he (by decide)

theorem stream_cons (f : UartFrame) (fs : List UartFrame) :
    stream (f :: fs) = f.wire ++ stream fs := List.flatMap_cons

end UartFrame

end MiMic.Snic
