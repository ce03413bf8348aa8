import MiMic.WebSocket.Header

/-!
# The frames that the module writes

Every frame is given back to the decoder of the format: data frames, the answer to a ping, and
close frames.
-/
namespace MiMic.WebSocket

open Verif.WsFrame

/-- The frame type stays and what was written stays written. -/
def Extends (ws ws' : ModWebSocket) : Prop := ws'.frameType = ws.frameType ∧ ws.tx <+: ws'.tx

namespace Extends

theorem refl (ws : ModWebSocket) : Extends ws ws := ⟨rfl, List.prefix_rfl⟩

theorem trans {ws₁ ws₂ ws₃ : ModWebSocket} (h : Extends ws₁ ws₂) (h' : Extends ws₂ ws₃) :
    Extends ws₁ ws₃ := ⟨h'.1.trans h.1, h.2.trans h'.2⟩

end Extends

namespace ModWebSocket

theorem extends_opcodeStep (ws : ModWebSocket) (opcode : UInt8) (rx : List UInt8) (headerSize : Nat) :
    Extends ws (ws.opcodeStep opcode rx headerSize).1 := by
  unfold opcodeStep
  split_ifs
  all_goals first
    | exact ⟨rfl, List.prefix_rfl⟩
    | exact ⟨rfl, List.prefix_append _ _⟩

theorem extends_headerStep (ws : ModWebSocket) (b0 b1 : UInt8) (rx : List UInt8) (headerSize : Nat) :
    Extends ws (ws.headerStep b0 b1 rx headerSize).1 := by
  unfold headerStep
  split_ifs
  · exact .refl ws
  · exact ⟨rfl, List.prefix_rfl⟩
  · refine Extends.trans ?_ (extends_opcodeStep _ _ _ _)
    unfold takeMask
    split_ifs <;> exact ⟨rfl, List.prefix_rfl⟩

theorem extends_startStep (ws : ModWebSocket) (rx : List UInt8) : Extends ws (ws.startStep rx).1 := by
  have hsize : ∀ size b0 b1 rx n,
      Extends ws ({ ws with payloadSize := size }.headerStep b0 b1 rx n).1 :=
    fun size b0 b1 rx n => Extends.trans ⟨rfl, List.prefix_rfl⟩ (extends_headerStep _ b0 b1 rx n)
  unfold startStep
  split
  · split_ifs
    · exact hsize _ _ _ _ _
    · unfold longStep
      split
      · exact hsize _ _ _ _ _
      · exact .refl ws
    · exact ⟨rfl, List.prefix_append _ _⟩
  · exact .refl ws

theorem extends_preadStep (pos : UpdatePos) (ws : ModWebSocket) (r : Recv) :
    Extends ws (ws.preadStep pos r).1 := by
  cases r with
  | closed => exact ⟨rfl, List.prefix_rfl⟩
  | bytes n =>
    cases pos with
    | drain echo =>
      simp only [preadStep, drainStep]
      split_ifs
      · exact .refl ws
      · exact ⟨rfl, List.prefix_append _ _⟩
      · exact ⟨rfl, List.prefix_rfl⟩
    | start =>
      simp only [preadStep]
      split
      · exact .refl ws
      · split
        · exact .refl ws
        · exact extends_startStep _ _
        · exact ⟨rfl, List.prefix_rfl⟩

theorem extends_updateFrom (pos : UpdatePos) (ws : ModWebSocket) (rs : List Recv) :
    Extends ws (updateFrom pos ws rs).1 := by
  induction rs generalizing pos ws with
  | nil => exact .refl ws
  | cons r rs ih =>
    have h := extends_preadStep pos ws r
    rw [updateFrom]
    generalize ws.preadStep pos r = p at h
    obtain ⟨ws', _ | pos'⟩ := p
    · exact h
    · exact h.trans (ih pos' ws')

theorem extends_update (ws : ModWebSocket) (rs : List Recv) : Extends ws (ws.update rs).1 := by
  unfold update
  split_ifs
  · exact .refl ws
  · exact extends_updateFrom _ _ _

end ModWebSocket

/-- A frame that the module writes, with what it is meant to carry. -/
inductive FrameWrite
  | write (buf : List UInt8)
  | format (call : FormatCall)
  | bulk (calls : List FormatCall)
  /-- The answer to `ping`. -/
  | pong (form : LengthForm) (ping : Frame)
  | close (code : UInt16)

def typeOpcode : FrameType → UInt8
  | .txt => 1
  | .bin => 2

/-- The calls between `startBulkWrite` and `endBulkWrite`. -/
def writeBulk (ws : ModWebSocket) : List FormatCall → Option ModWebSocket
  | [] => some ws
  | call :: calls =>
      match ws.writeBulkFormat call.fmt call.args with
      | some (ws, true) => writeBulk ws calls
      | _ => none

namespace FrameWrite

def opcode (ft : FrameType) : FrameWrite → UInt8
  | .write _ | .format _ | .bulk _ => typeOpcode ft
  | .pong _ _ => 10
  | .close _ => 8

def payload : FrameWrite → List UInt8
  | .write buf => buf
  | .format call => call.text
  | .bulk calls => calls.flatMap FormatCall.text
  | .pong _ ping => ping.payload
  | .close code => bigEndian 2 code.toNat

/-- The lengths that the writer accepts, and the pings that a client can send. -/
def Allowed : FrameWrite → Prop
  | .pong form ping =>
      ping.Valid form ∧ ping.fin = true ∧ ping.opcode = 9 ∧ form ≠ .sixtyFour
  | .close _ => True
  | w => w.payload.length ≤ 32767

/-- The bytes that were put on the stream for a frame, by a call on any state that reports
success; for the answer to a ping these are the first bytes that `update` writes. -/
inductive Written (ft : FrameType) : FrameWrite → List UInt8 → Prop
  | write {ws ws' : ModWebSocket} {buf rs bytes} : ws.frameType = ft →
      ws.write buf rs = (ws', true) → ws'.tx = (ws.update rs).1.tx ++ bytes →
      Written ft (.write buf) bytes
  | format {ws ws' : ModWebSocket} {call : FormatCall} {rs bytes} : ws.frameType = ft →
      ws.writeFormat call.fmt call.args rs = some (ws', true) →
      ws'.tx = (ws.update rs).1.tx ++ bytes → Written ft (.format call) bytes
  | bulk {ws ws₁ ws' : ModWebSocket} {calls : List FormatCall} {rs bytes} : ws.frameType = ft →
      ws.startBulkWrite (Int16.ofNat (calls.flatMap FormatCall.text).length) rs = (ws₁, true) →
      writeBulk ws₁ calls = some ws' → ws'.endBulkWrite = true →
      ws'.tx = (ws.update rs).1.tx ++ bytes → Written ft (.bulk calls) bytes
  | pong {ws : ModWebSocket} {form ping rs rest bytes more} : ws.payloadSt = .start →
      ws.rx = encode form ping ++ rest → bytes ≠ [] → (ws.update rs).1.tx = ws.tx ++ bytes ++ more →
      Written ft (.pong form ping) bytes
  | close {ws : ModWebSocket} {code bytes} : (ws.writeClosePacket code).tx = ws.tx ++ bytes →
      Written ft (.close code) bytes

/-- The bytes are one unmasked final frame of the intended opcode and payload. -/
def Decodes (ft : FrameType) (w : FrameWrite) (bytes : List UInt8) : Prop :=
  decode bytes = some (⟨true, w.opcode ft, none, w.payload⟩, [])

/-- The frames that come out right. -/
def Right : FrameWrite → Prop
  | .pong _ _ => False
  | .close _ => True
  | w => w.payload.length ≤ 125

end FrameWrite

/-- The header that is sent for a payload of `n` bytes. -/
def payloadHeader (ft : FrameType) (n : Nat) : List UInt8 :=
  if n < 126 then [ModWebSocket.typeByte ft, UInt8.ofNat n]
  else [ModWebSocket.typeByte ft, 126, UInt8.ofNat (n / 256)]

theorem writePayloadHeader_eq {ws : ModWebSocket} {n : Nat} (hst : ws.payloadSt ≠ .closed)
    (hn : n ≤ 32767) : ws.writePayloadHeader (Int16.ofNat n) =
      (ws.streamWrite (payloadHeader ws.frameType n), true) := by
  have hlt : Int16.ofNat n < 126 ↔ n < 126 := by
    rw [Int16.lt_iff_toInt_lt, Int16.toInt_ofNat_of_lt (by omega)]
    change (n : Int) < 126 ↔ _
    omega
  rw [ModWebSocket.writePayloadHeader, if_neg hst, payloadHeader]
  by_cases hs : n < 126
  · have hlow : (Int16.ofNat n).toUInt16.toUInt8 = UInt8.ofNat n := by
      apply UInt8.toNat_inj.mp
      rw [UInt16.toNat_toUInt8, UInt8.toNat_ofNat']
      change n % 65536 % 256 = n % 256
      omega
    rw [if_pos (hlt.mpr hs), if_pos hs, hlow]
  · rw [if_neg fun h => hs (hlt.mp h), if_neg hs]
    have hv : (Int16.ofNat n).toUInt16.toNat = n := by
      change n % 65536 = n
      omega
    have hhi : UInt8.ofNat (htons (Int16.ofNat n).toUInt16).toNat = UInt8.ofNat (n / 256) := by
      apply UInt8.toNat_inj.mp
      rw [htons, toNat_uint16Bswap, hv, UInt8.toNat_ofNat', UInt8.toNat_ofNat']
      omega
    rw [u16Bytes, hhi]
    rfl

theorem firstByte_data (ft : FrameType) (payload : List UInt8) :
    firstByte ⟨true, typeOpcode ft, none, payload⟩ = ModWebSocket.typeByte ft := by
  cases ft <;> rfl

/-- A header of two bytes is right, one of three is not: a byte of the length is missing. -/
theorem decode_payloadHeader (ft : FrameType) {payload : List UInt8} (hn : payload.length ≤ 32767) :
    decode (payloadHeader ft payload.length ++ payload) =
      some (⟨true, typeOpcode ft, none, payload⟩, []) ↔ payload.length ≤ 125 := by
  constructor
  · intro hdec
    by_contra hlong
    rw [payloadHeader, if_neg (by omega)] at hdec
    have hcons : [ModWebSocket.typeByte ft, 126, UInt8.ofNat (payload.length / 256)] ++ payload =
        ModWebSocket.typeByte ft :: 126 :: (UInt8.ofNat (payload.length / 256) :: payload) := rfl
    rw [hcons] at hdec
    -- what is taken for the payload lacks its first byte
    have hlen := length_decode hdec
    have hext : extWidth 126 = 2 ∧ maskWidth 126 = 0 := ⟨rfl, rfl⟩
    rw [hext.1, hext.2, List.length_cons, List.length_nil] at hlen
    simp only at hlen
    omega
  · intro hshort
    have hop : typeOpcode ft < 16 := by cases ft <;> decide
    have hvalid : Frame.Valid ⟨true, typeOpcode ft, none, payload⟩ .seven := ⟨hop, hshort⟩
    have hbytes : payloadHeader ft payload.length ++ payload =
        encode .seven ⟨true, typeOpcode ft, none, payload⟩ ++ [] := by
      rw [payloadHeader, if_pos (by omega), encode, encodeHeader, firstByte_data, secondByte]
      simp [LengthForm.code, LengthForm.width, bigEndian, keyBytes, masked]
    rw [hbytes, decode_encode hvalid]

/-- The header for a count of 16 bits. -/
def announced (ft : FrameType) (len : Int16) : List UInt8 :=
  if len < 126 then [ModWebSocket.typeByte ft, len.toUInt16.toUInt8]
  else ([ModWebSocket.typeByte ft, 126] ++ u16Bytes (htons len.toUInt16)).take 3

theorem writePayloadHeader_true {ws ws' : ModWebSocket} {len : Int16}
    (h : ws.writePayloadHeader len = (ws', true)) : ws.payloadSt ≠ .closed := by
  intro hst
  rw [ModWebSocket.writePayloadHeader, if_pos hst] at h
  cases h

theorem foldl_streamWrite (ws : ModWebSocket) (pieces : List (List UInt8)) :
    pieces.foldl ModWebSocket.streamWrite ws = ws.streamWrite pieces.flatten := by
  induction pieces generalizing ws with
  | nil => simp [ModWebSocket.streamWrite]
  | cons p pieces ih => simp [ih, ModWebSocket.streamWrite]

theorem writeBulk_eq {ws ws' : ModWebSocket} {calls : List FormatCall}
    (h : writeBulk ws calls = some ws') :
    ws' = ws.streamWrite (calls.flatMap FormatCall.text) := by
  induction calls generalizing ws with
  | nil =>
    obtain rfl := Option.some.inj h
    simp [ModWebSocket.streamWrite]
  | cons call calls ih =>
    obtain ⟨pieces, hprint, htext⟩ := call.print
    rw [writeBulk, ModWebSocket.writeBulkFormat, hprint, Option.map_some, foldl_streamWrite,
      htext] at h
    by_cases hst : ws.payloadSt = .closed
    · simp [if_pos hst] at h
    · rw [if_neg hst] at h
      rw [ih h, List.flatMap_cons]
      simp [ModWebSocket.streamWrite]

namespace FrameWrite

/-- A data frame is its header and its payload. -/
theorem Written.data {ft : FrameType} {w : FrameWrite} {bytes : List UInt8} (h : Written ft w bytes)
    (hop : w.opcode ft = typeOpcode ft) (hn : w.payload.length ≤ 32767) :
    bytes = payloadHeader ft w.payload.length ++ w.payload := by
  -- behind `update` the header is written, then the payload
  have hheader : ∀ {ws ws₁ : ModWebSocket} {rs : List Recv}, ws.frameType = ft →
      (ws.update rs).1.writePayloadHeader (Int16.ofNat w.payload.length) = (ws₁, true) →
      ws₁ = (ws.update rs).1.streamWrite (payloadHeader ft w.payload.length) := by
    intro ws ws₁ rs hft hw
    have heq := writePayloadHeader_eq (writePayloadHeader_true hw) hn
    rw [(ws.extends_update rs).1, hft, hw] at heq
    exact (Prod.mk.inj heq).1
  have hcancel : ∀ {ws ws₁ : ModWebSocket} {rs : List Recv},
      ws₁ = (ws.update rs).1.streamWrite (payloadHeader ft w.payload.length) →
      (ws₁.streamWrite w.payload).tx = (ws.update rs).1.tx ++ bytes →
      bytes = payloadHeader ft w.payload.length ++ w.payload := by
    rintro ws ws₁ rs rfl htx
    simp only [ModWebSocket.streamWrite, List.append_assoc] at htx
    exact (List.append_cancel_left htx).symm
  cases h with
  | @write ws ws' buf rs _ hft hw htx =>
    rw [ModWebSocket.write] at hw
    split at hw
    · next ws₁ hw₁ =>
      obtain ⟨rfl, -⟩ := Prod.mk.inj hw
      exact hcancel (hheader hft hw₁) htx
    · cases hw
  | @format ws ws' call rs _ hft hw htx =>
    obtain ⟨pieces, hprint, htext⟩ := call.print
    rw [ModWebSocket.writeFormat, formatLength_text call.formatText_eq] at hw
    simp only [Option.bind_eq_bind, Option.bind_some, hprint] at hw
    split at hw
    · next ws₁ hw₁ =>
      obtain ⟨rfl, -⟩ := Prod.mk.inj (Option.some.inj hw)
      rw [foldl_streamWrite, htext] at htx
      exact hcancel (hheader hft hw₁) htx
    · simp at hw
  | @bulk ws ws₁ ws' calls rs _ hft hstart hbulk _ htx =>
    rw [ModWebSocket.startBulkWrite] at hstart
    split at hstart
    · next ws₂ hw₂ =>
      obtain ⟨rfl, -⟩ := Prod.mk.inj hstart
      rw [writeBulk_eq hbulk] at htx
      exact hcancel (hheader hft hw₂) htx
    · cases hstart
  | pong => cases ft <;> simp [opcode, typeOpcode] at hop
  | close => cases ft <;> simp [opcode, typeOpcode] at hop

theorem Written.close_eq {ft : FrameType} {code : UInt16} {bytes : List UInt8}
    (h : Written ft (.close code) bytes) : bytes = [0x88, 0x02] ++ bigEndian 2 code.toNat := by
  cases h with
  | @close ws _ _ htx =>
    rw [ModWebSocket.writeClosePacket, ModWebSocket.streamWrite] at htx
    rw [← List.append_cancel_left htx]
    have hcode := code.toNat_lt
    have hlo : UInt8.ofNat (htons code).toNat = UInt8.ofNat (code.toNat / 256) := by
      apply UInt8.toNat_inj.mp
      rw [htons, toNat_uint16Bswap, UInt8.toNat_ofNat', UInt8.toNat_ofNat']
      omega
    have hhi : UInt8.ofNat ((htons code).toNat / 256) = UInt8.ofNat code.toNat := by
      have hdiv : code.toNat / 256 < 256 := by omega
      apply UInt8.toNat_inj.mp
      rw [htons, toNat_uint16Bswap, UInt8.toNat_ofNat', UInt8.toNat_ofNat']
      generalize code.toNat / 256 = q at hdiv
      omega
    rw [u16Bytes, hlo, hhi]
    rfl

/-- The first byte of the answer to a ping. -/
theorem Written.pong_head {ft : FrameType} {form : LengthForm} {ping : Frame} {bytes : List UInt8}
    (h : Written ft (.pong form ping) bytes) (hvalid : ping.Valid form) (hfin : ping.fin = true)
    (hop : ping.opcode = 9) (hform : form ≠ .sixtyFour) : bytes.head? = some 0x0a := by
  cases h with
  | @pong ws _ _ rs rest _ more hst hrx hne htx =>
    -- nothing is written before the header is taken, and then `0x0a` first
    have hpong : ∀ rs, (ws.update rs).1.tx = ws.tx ∨ ∃ t, (ws.update rs).1.tx = ws.tx ++ 0x0a :: t := by
      intro rs
      rw [ModWebSocket.update, if_neg (by rw [hst]; exact PayloadSt.noConfusion)]
      cases rs with
      | nil => exact Or.inl rfl
      | cons r rs =>
        cases r with
        | closed => exact Or.inl rfl
        | bytes n =>
          rw [ModWebSocket.updateFrom]
          obtain ⟨-, size, hs⟩ | ⟨-, hs⟩ :=
            ModWebSocket.preadStep_encode n hst hrx hvalid hfin hform
          · rw [hs]
            exact Or.inl rfl
          · rw [hs, hop]
            have hstep : ∃ pos ws₁ u, (ws.withHeader ping).opcodeStep 9 (ws.rx.take n)
                (ModWebSocket.headerLength form ping) = (ws₁, some pos) ∧ ws₁.tx = ws.tx ++ 0x0a :: u :=
              ⟨_, _, _, rfl, rfl⟩
            obtain ⟨pos, ws₁, u, hs₁, hu⟩ := hstep
            obtain ⟨t, ht⟩ := (ModWebSocket.extends_updateFrom pos ws₁ rs).2
            rw [hs₁]
            refine Or.inr ⟨u ++ t, ?_⟩
            rw [← ht, hu, List.append_assoc, List.cons_append]
    obtain heq | ⟨t, heq⟩ := hpong rs
    · rw [heq, List.append_assoc] at htx
      have hnil := List.self_eq_append_right.mp htx
      exact absurd (List.append_eq_nil_iff.mp hnil).1 hne
    · rw [heq, List.append_assoc] at htx
      have hcancel := List.append_cancel_left htx
      cases bytes with
      | nil => exact absurd rfl hne
      | cons b bytes =>
        rw [List.cons_append] at hcancel
        rw [List.head?_cons, (List.cons.inj hcancel).1]

/-- Data frames of up to 125 bytes and close frames come out right, and no others. -/
theorem decodes_iff {ft : FrameType} {w : FrameWrite} {bytes : List UInt8}
    (h : Written ft w bytes) (hw : w.Allowed) : Decodes ft w bytes ↔ w.Right := by
  cases w with
  | write buf =>
    rw [Decodes, h.data rfl hw]
    exact decode_payloadHeader ft hw
  | format call =>
    rw [Decodes, h.data rfl hw]
    exact decode_payloadHeader ft hw
  | bulk calls =>
    rw [Decodes, h.data rfl hw]
    exact decode_payloadHeader ft hw
  | pong form ping =>
    obtain ⟨hvalid, hfin, hop, hform⟩ := hw
    have hhead := h.pong_head hvalid hfin hop hform
    refine ⟨fun hdec => ?_, fun hr => hr.elim⟩
    cases bytes with
    | nil => cases hhead
    | cons b bytes =>
      obtain rfl : b = 0x0a := Option.some.inj hhead
      exact absurd ((fin_of_decode hdec).mp rfl) (by decide)
  | close code =>
    have hop : (8 : UInt8) < 16 := by decide
    have hvalid : Frame.Valid ⟨true, 8, none, bigEndian 2 code.toNat⟩ .seven :=
      ⟨hop, by simp [LengthForm.Fits]⟩
    have hbytes : [0x88, 0x02] ++ bigEndian 2 code.toNat =
        encode .seven ⟨true, 8, none, bigEndian 2 code.toNat⟩ ++ [] := by
      rw [List.append_nil, encode, encodeHeader, LengthForm.code, length_bigEndian]
      have hfirst : firstByte ⟨true, 8, none, bigEndian 2 code.toNat⟩ = 0x88 := by
        change (0x80 : UInt8) ||| 8 = 0x88
        decide
      have hsecond : secondByte none (UInt8.ofNat 2) = 0x02 := rfl
      rw [hfirst, hsecond]
      rfl
    refine ⟨fun _ => trivial, fun _ => ?_⟩
    rw [Decodes, h.close_eq, hbytes, decode_encode hvalid]
    rfl

/-- Every buffer that is accepted is sent on an open connection. -/
theorem written_write (ft : FrameType) {buf : List UInt8} (hn : buf.length ≤ 32767) :
    Written ft (.write buf) (payloadHeader ft buf.length ++ buf) := by
  let ws : ModWebSocket := ⟨.start, ft, false, fun _ => 0, 0, 0, [], []⟩
  have hheader : ws.writePayloadHeader (Int16.ofNat buf.length) =
      (ws.streamWrite (payloadHeader ft buf.length), true) :=
    writePayloadHeader_eq PayloadSt.noConfusion hn
  have hw : ws.write buf [] =
      ((ws.streamWrite (payloadHeader ft buf.length)).streamWrite buf, true) := by
    rw [ModWebSocket.write, show (ws.update []).1 = ws from rfl, hheader]
  exact .write rfl hw rfl

theorem decodes_iff_text : Decodes .txt (.write [0x48, 0x69]) [0x81, 0x02, 0x48, 0x69] ↔
    FrameWrite.Right (.write [0x48, 0x69]) :=
  have hw : Written .txt (.write [0x48, 0x69]) [0x81, 0x02, 0x48, 0x69] :=
    @written_write .txt [0x48, 0x69] (by decide)
  decodes_iff hw (by simp [Allowed, payload])

/-- A text of 126 bytes goes out with one byte of its length. -/
theorem not_decodes_long : ¬ ∀ ft w bytes, Written ft w bytes → w.Allowed → Decodes ft w bytes := by
  intro h
  have hn : (List.replicate 126 (0x61 : UInt8)).length ≤ 32767 := by simp
  have hdec := h .txt (.write (List.replicate 126 0x61)) _ (written_write .txt hn) hn
  have hshort := (decode_payloadHeader .txt hn).mp hdec
  simp at hshort

end FrameWrite

end MiMic.WebSocket
