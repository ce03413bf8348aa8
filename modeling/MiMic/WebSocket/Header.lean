import MiMic.WebSocket.ModWebSocket

/-!
# Frame headers as the module reads them

The header of a frame is taken only when `pread` shows all of it; then the module knows the
length, the mask and the opcode.
-/
namespace MiMic.WebSocket

open Verif.WsFrame

theorem getD_take (l : List UInt8) {i n : Nat} (h : i < n) : (l.take n).getD i 0 = l.getD i 0 := by
  simp [List.getD_eq_getElem?_getD, h]

namespace ModWebSocket

/-- The state with what the header of `f` says. -/
def withHeader (ws : ModWebSocket) (f : Frame) : ModWebSocket :=
  { ws with
    payloadSize := UInt16.ofNat f.payload.length
    payloadPtr := 0
    frameMasked := f.mask.isSome
    frameMask := f.mask.getD ws.frameMask }

theorem maskSize_secondByte {form : LengthForm} {n : Nat} (mask : Option MaskKey)
    (h : form.Fits n) : maskSize (secondByte mask (form.code n)) = (keyBytes mask).length := by
  have hbits := (secondByte_bits mask (code_lt h)).2.2
  cases mask with
  | none => rw [maskSize, if_neg fun h => hbits.mp h rfl]; rfl
  | some key => rw [maskSize, if_pos (hbits.mpr (by simp))]; rfl

/-- The length of 16 bits, put together from its two bytes. -/
theorem bigEndian_u16 {n : Nat} (h : n < 2 ^ 16) :
    ((UInt8.ofNat (n / 256)).toUInt16 <<< 8) ||| (UInt8.ofNat n).toUInt16 = UInt16.ofNat n := by
  apply UInt16.toNat_inj.mp
  have hhigh : ((UInt8.ofNat (n / 256)).toUInt16 <<< 8).toNat = (n / 256) <<< 8 := by
    rw [UInt16.toNat_shiftLeft, UInt8.toNat_toUInt16, UInt8.toNat_ofNat']
    change ((n / 256 % 256) <<< 8) % 65536 = _
    rw [Nat.shiftLeft_eq, Nat.shiftLeft_eq]
    omega
  rw [UInt16.toNat_or, hhigh, UInt8.toNat_toUInt16, UInt8.toNat_ofNat', UInt16.toNat_ofNat',
    ← Nat.shiftLeft_add_eq_or_of_lt (by omega), Nat.shiftLeft_eq]
  omega

/-- The bytes of the mask stand behind the length. -/
theorem getD_key {form : LengthForm} {f : Frame} {key : MaskKey} (hm : f.mask = some key)
    (rest : List UInt8) (i : Fin 4) :
    (encode form f ++ rest).getD (2 + form.width + i) 0 = key i := by
  rw [encode, encodeHeader, hm]
  have hlen := length_bigEndian form.width f.payload.length
  generalize bigEndian form.width f.payload.length = ext at hlen
  rw [← hlen]
  have hidx : 2 + ext.length + (i : Nat) = ext.length + (i : Nat) + 1 + 1 := by omega
  simp only [List.cons_append, hidx, List.getD_cons_succ, List.append_assoc]
  rw [List.getD_eq_getElem?_getD, List.getElem?_append_right (by omega), Nat.add_sub_cancel_left]
  fin_cases i <;> rfl

def headerLength (form : LengthForm) (f : Frame) : Nat :=
  2 + form.width + (keyBytes f.mask).length

theorem takeMask_encode {form : LengthForm} {f : Frame} {n : Nat} (ws : ModWebSocket)
    (rest : List UInt8) (hvalid : f.Valid form) (hn : headerLength form f ≤ n) :
    ws.takeMask (secondByte f.mask (form.code f.payload.length)) ((encode form f ++ rest).take n)
        (headerLength form f) =
      { ws with frameMasked := f.mask.isSome, frameMask := f.mask.getD ws.frameMask } := by
  have hsb := (secondByte_bits f.mask (code_lt hvalid.length)).2.2
  rw [takeMask]
  cases hm : f.mask with
  | none =>
    rw [hm] at hsb
    rw [if_neg fun h => hsb.mp h rfl]
    rfl
  | some key =>
    have hlen : headerLength form f = 2 + form.width + 4 := by rw [headerLength, hm]; rfl
    have hkey : (fun i : Fin 4 => ((encode form f ++ rest).take n).getD
        (headerLength form f - 4 + i) 0) = key := by
      funext i
      rw [hlen] at hn ⊢
      rw [Nat.add_sub_cancel, getD_take _ (by omega), getD_key hm rest i]
    rw [hm] at hsb
    rw [if_pos (hsb.mpr (by simp)), hkey]
    rfl

/-- A header that is shown in full. -/
theorem headerStep_full {form : LengthForm} {f : Frame} {n : Nat} (ws : ModWebSocket)
    (rest : List UInt8) (hvalid : f.Valid form) (hfin : f.fin = true)
    (hn : headerLength form f ≤ n) (hlen : n ≤ (encode form f ++ rest).length) :
    { ws with payloadSize := UInt16.ofNat f.payload.length }.headerStep (firstByte f)
        (secondByte f.mask (form.code f.payload.length)) ((encode form f ++ rest).take n)
        (headerLength form f) =
      (ws.withHeader f).opcodeStep f.opcode ((encode form f ++ rest).take n)
        (headerLength form f) := by
  obtain ⟨-, hopc, -, hfb⟩ := firstByte_bits f hvalid.opcode
  have hshown : ((encode form f ++ rest).take n).length = n := List.length_take_of_le hlen
  rw [headerStep, if_neg (by rw [hshown]; omega), if_neg fun h => h (hfb.mpr hfin), hopc,
    takeMask_encode _ rest hvalid hn]
  rfl

theorem headerStep_short {ws : ModWebSocket} {b0 b1 : UInt8} {rx : List UInt8} {n : Nat}
    (h : rx.length < n) : ws.headerStep b0 b1 rx n = (ws, none) := if_pos h

/-- What is done with the first `n` bytes of a frame with a length of 7 or 16 bits. -/
theorem startStep_encode {form : LengthForm} {f : Frame} {n : Nat} (ws : ModWebSocket)
    (rest : List UInt8) (hvalid : f.Valid form) (hfin : f.fin = true) (hform : form ≠ .sixtyFour)
    (hlen : n ≤ (encode form f ++ rest).length) :
    (n < headerLength form f ∧ ∃ size, ws.startStep ((encode form f ++ rest).take n) =
      ({ ws with payloadSize := size }, none)) ∨
    (headerLength form f ≤ n ∧ ws.startStep ((encode form f ++ rest).take n) =
      (ws.withHeader f).opcodeStep f.opcode ((encode form f ++ rest).take n)
        (headerLength form f)) := by
  have hsb := (secondByte_bits f.mask (code_lt hvalid.length)).1
  have hms := maskSize_secondByte f.mask hvalid.length
  have hshown : ((encode form f ++ rest).take n).length = n := List.length_take_of_le hlen
  have hfull := fun h => headerStep_full ws rest hvalid hfin (n := n) h hlen
  have hcons : encode form f ++ rest = firstByte f :: secondByte f.mask (form.code f.payload.length) ::
      (bigEndian form.width f.payload.length ++
        (keyBytes f.mask ++ (masked f.mask 0 f.payload ++ rest))) := by
    simp [encode, encodeHeader]
  generalize hx : encode form f ++ rest = x at *
  have hcount : n = 0 ∨ n = 1 ∨ ∃ k, n = k + 2 := by
    by_cases hn : n < 2
    · omega
    · exact Or.inr (Or.inr ⟨n - 2, by omega⟩)
  obtain rfl | rfl | ⟨n, rfl⟩ := hcount
  · exact Or.inl ⟨by rw [headerLength]; omega, ws.payloadSize, rfl⟩
  · rw [hcons]
    exact Or.inl ⟨by rw [headerLength]; omega, ws.payloadSize, rfl⟩
  · have htake : x.take (n + 2) = firstByte f :: secondByte f.mask (form.code f.payload.length) ::
      (bigEndian form.width f.payload.length ++
        (keyBytes f.mask ++ (masked f.mask 0 f.payload ++ rest))).take n := by
      rw [hcons]
      rfl
    -- once the length is known the rest of the header is waited for
    have hgo : ∀ size, size = UInt16.ofNat f.payload.length →
        ws.startStep (x.take (n + 2)) = { ws with payloadSize := size }.headerStep (firstByte f)
          (secondByte f.mask (form.code f.payload.length)) (x.take (n + 2)) (headerLength form f) →
        (n + 2 < headerLength form f ∧ ∃ size, ws.startStep (x.take (n + 2)) =
          ({ ws with payloadSize := size }, none)) ∨
        (headerLength form f ≤ n + 2 ∧ ws.startStep (x.take (n + 2)) =
          (ws.withHeader f).opcodeStep f.opcode (x.take (n + 2)) (headerLength form f)) := by
      rintro size rfl hs
      by_cases hn : n + 2 < headerLength form f
      · exact Or.inl ⟨hn, _, hs.trans (headerStep_short (by omega))⟩
      · exact Or.inr ⟨not_lt.mp hn, hs.trans (hfull (not_lt.mp hn))⟩
    cases form with
    | seven =>
      have hle : f.payload.length ≤ 125 := hvalid.length
      have hcode : (UInt8.ofNat f.payload.length).toNat = f.payload.length := by
        rw [UInt8.toNat_ofNat']
        omega
      have hb : secondByte f.mask (LengthForm.seven.code f.payload.length) &&& 0x7f ≤ 125 := by
        rw [hsb, UInt8.le_iff_toNat_le]
        exact hcode.le.trans hle
      have hlen7 : headerLength .seven f = 2 + maskSize (secondByte f.mask
          (LengthForm.seven.code f.payload.length)) := by rw [hms]; rfl
      refine hgo _ rfl ?_
      rw [htake, startStep, if_pos hb, ← htake, hlen7, hsb]
      congr 2
      apply UInt16.toNat_inj.mp
      rw [LengthForm.code, UInt8.toNat_toUInt16, hcode, UInt16.toNat_ofNat']
      omega
    | sixteen =>
      have hlt : f.payload.length < 2 ^ 16 := hvalid.length
      have hb : secondByte f.mask (LengthForm.sixteen.code f.payload.length) &&& 0x7f = 126 := hsb
      have hlen16 : headerLength .sixteen f = 2 + 2 + maskSize (secondByte f.mask
          (LengthForm.sixteen.code f.payload.length)) := by rw [hms]; rfl
      have hext : bigEndian LengthForm.sixteen.width f.payload.length =
          [UInt8.ofNat (f.payload.length / 256), UInt8.ofNat f.payload.length] := rfl
      rw [hext] at htake
      have hstep : ∀ tail, x.take (n + 2) = firstByte f :: secondByte f.mask
            (LengthForm.sixteen.code f.payload.length) :: tail →
          ws.startStep (x.take (n + 2)) = ws.longStep (firstByte f)
            (secondByte f.mask (LengthForm.sixteen.code f.payload.length)) (x.take (n + 2)) tail := by
        intro tail h
        rw [h, startStep, if_neg (by rw [hb]; decide), if_pos hb]
      rcases n with _ | _ | n
      · exact Or.inl ⟨by rw [hlen16]; omega, ws.payloadSize, hstep _ htake⟩
      · exact Or.inl ⟨by rw [hlen16]; omega, ws.payloadSize, hstep _ htake⟩
      · refine hgo _ (bigEndian_u16 hlt) ((hstep _ htake).trans ?_)
        rw [hlen16]
        rfl
    | sixtyFour => exact absurd rfl hform

theorem headerLength_le (form : LengthForm) (f : Frame) (rest : List UInt8) :
    headerLength form f ≤ (encode form f ++ rest).length := by
  simp [headerLength, encode, encodeHeader]
  omega

/-- What a call of `pread` leads to when a frame begins. -/
theorem preadStep_encode {ws : ModWebSocket} {form : LengthForm} {f : Frame} {rest : List UInt8}
    (n : Nat) (hst : ws.payloadSt = .start) (hrx : ws.rx = encode form f ++ rest)
    (hvalid : f.Valid form) (hfin : f.fin = true) (hform : form ≠ .sixtyFour) :
    (n < headerLength form f ∧ ∃ size, ws.preadStep .start (.bytes n) =
      ({ ws with payloadSize := size }, none)) ∨
    (headerLength form f ≤ n ∧ ws.preadStep .start (.bytes n) =
      (ws.withHeader f).opcodeStep f.opcode (ws.rx.take n) (headerLength form f)) := by
  have hle := headerLength_le form f rest
  have htake : (encode form f ++ rest).take (min n (encode form f ++ rest).length) =
      (encode form f ++ rest).take n := by
    rw [List.take_eq_take_iff]
    omega
  have hs := startStep_encode ws rest hvalid hfin hform (Nat.min_le_right n _)
  rw [htake, ← hrx] at hs
  rw [← hrx] at hle
  by_cases hzero : (ws.rx.take n).length = 0
  · refine Or.inl ⟨?_, ws.payloadSize, ?_⟩
    · rw [List.length_take] at hzero
      have hpos : 0 < headerLength form f := by rw [headerLength]; omega
      omega
    · simp only [preadStep, if_pos hzero]
  · have hstep : ws.preadStep .start (.bytes n) = ws.startStep (ws.rx.take n) := by
      simp only [preadStep, if_neg hzero, hst]
    rw [hstep]
    exact hs.imp (fun ⟨h, hs⟩ => ⟨by omega, hs⟩) (fun ⟨h, hs⟩ => ⟨by omega, hs⟩)

end ModWebSocket

end MiMic.WebSocket
