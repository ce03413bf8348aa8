import Mathlib.Tactic

/-!
# WebSocket frames

A frame is two bytes with FIN, opcode, mask bit and length, a longer length of 16 or 64 bits, a
mask and the payload: its bytes in each of the three forms of the length, and the decoder that
gives it back.
-/
namespace Verif.WsFrame

abbrev MaskKey := Fin 4 → UInt8

/-- The octets of the payload from position `i` on, masked or unmasked. -/
def applyMask (key : MaskKey) : Nat → List UInt8 → List UInt8
  | _, [] => []
  | i, b :: bs => (b ^^^ key (Fin.ofNat 4 i)) :: applyMask key (i + 1) bs

@[simp] theorem length_applyMask (key : MaskKey) (i : Nat) (bs : List UInt8) :
    (applyMask key i bs).length = bs.length := by
  induction bs generalizing i with
  | nil => rfl
  | cons b bs ih => simp [applyMask, ih]

theorem applyMask_append (key : MaskKey) (i : Nat) (as bs : List UInt8) :
    applyMask key i (as ++ bs) = applyMask key i as ++ applyMask key (i + as.length) bs := by
  induction as generalizing i with
  | nil => rfl
  | cons a as ih =>
    simp only [List.cons_append, applyMask, ih, List.length_cons, Nat.add_assoc, Nat.add_comm 1]

theorem applyMask_applyMask (key : MaskKey) (i : Nat) (bs : List UInt8) :
    applyMask key i (applyMask key i bs) = bs := by
  induction bs generalizing i with
  | nil => rfl
  | cons b bs ih => rw [applyMask, applyMask, ih, UInt8.xor_assoc, UInt8.xor_self, UInt8.xor_zero]

/-- The payload on the wire, from position `i` on. -/
def masked : Option MaskKey → Nat → List UInt8 → List UInt8
  | none, _, bs => bs
  | some key, i, bs => applyMask key i bs

@[simp] theorem length_masked (mask : Option MaskKey) (i : Nat) (bs : List UInt8) :
    (masked mask i bs).length = bs.length := by
  cases mask <;> simp [masked]

theorem masked_append (mask : Option MaskKey) (i : Nat) (as bs : List UInt8) :
    masked mask i (as ++ bs) = masked mask i as ++ masked mask (i + as.length) bs := by
  cases mask with
  | none => rfl
  | some key => exact applyMask_append key i as bs

@[simp] theorem masked_masked (mask : Option MaskKey) (i : Nat) (bs : List UInt8) :
    masked mask i (masked mask i bs) = bs := by
  cases mask with
  | none => rfl
  | some key => exact applyMask_applyMask key i bs

theorem masked_take (mask : Option MaskKey) (i n : Nat) (bs : List UInt8) (hn : n ≤ bs.length) :
    (masked mask i bs).take n = masked mask i (bs.take n) := by
  have h := masked_append mask i (bs.take n) (bs.drop n)
  have hlen : (masked mask i (bs.take n)).length = n := by simpa using hn
  rw [List.take_append_drop] at h
  rw [h, List.take_left' hlen]

theorem masked_drop (mask : Option MaskKey) (i n : Nat) (bs : List UInt8) (hn : n ≤ bs.length) :
    (masked mask i bs).drop n = masked mask (i + n) (bs.drop n) := by
  have h := masked_append mask i (bs.take n) (bs.drop n)
  have hlen : (masked mask i (bs.take n)).length = n := by simpa using hn
  rw [List.take_append_drop, List.length_take, Nat.min_eq_left hn] at h
  rw [h, List.drop_left' hlen]

def bigEndian : Nat → Nat → List UInt8
  | 0, _ => []
  | k + 1, n => bigEndian k (n / 256) ++ [UInt8.ofNat n]

def ofBigEndian (bs : List UInt8) : Nat := bs.foldl (fun n b => n * 256 + b.toNat) 0

@[simp] theorem length_bigEndian (k n : Nat) : (bigEndian k n).length = k := by
  induction k generalizing n with
  | zero => rfl
  | succ k ih => simp [bigEndian, ih]

theorem ofBigEndian_bigEndian {k n : Nat} (h : n < 256 ^ k) : ofBigEndian (bigEndian k n) = n := by
  induction k generalizing n with
  | zero =>
    obtain rfl : n = 0 := by simpa using h
    rfl
  | succ k ih =>
    have hdiv : n / 256 < 256 ^ k := by
      rw [pow_succ] at h
      omega
    have hfold := ih hdiv
    rw [ofBigEndian] at hfold
    rw [ofBigEndian, bigEndian, List.foldl_append, hfold, List.foldl_cons, List.foldl_nil,
      UInt8.toNat_ofNat']
    omega

structure Frame where
  fin : Bool
  opcode : UInt8
  mask : Option MaskKey
  payload : List UInt8

/-- The three ways to write the length of the payload. -/
inductive LengthForm
  | seven | sixteen | sixtyFour
deriving DecidableEq

namespace LengthForm

def Fits : LengthForm → Nat → Prop
  | seven, n => n ≤ 125
  | sixteen, n => n < 2 ^ 16
  | sixtyFour, n => n < 2 ^ 63

/-- The seven bits of the second octet. -/
def code : LengthForm → Nat → UInt8
  | seven, n => UInt8.ofNat n
  | sixteen, _ => 126
  | sixtyFour, _ => 127

/-- The octets of the extended length. -/
def width : LengthForm → Nat
  | seven => 0
  | sixteen => 2
  | sixtyFour => 8

end LengthForm

def keyBytes : Option MaskKey → List UInt8
  | none => []
  | some key => [key 0, key 1, key 2, key 3]

def firstByte (f : Frame) : UInt8 := (if f.fin then 0x80 else 0) ||| f.opcode

def secondByte (mask : Option MaskKey) (code : UInt8) : UInt8 :=
  (if mask.isSome then 0x80 else 0) ||| code

def encodeHeader (form : LengthForm) (f : Frame) : List UInt8 :=
  firstByte f :: secondByte f.mask (form.code f.payload.length) ::
    (bigEndian form.width f.payload.length ++ keyBytes f.mask)

def encode (form : LengthForm) (f : Frame) : List UInt8 :=
  encodeHeader form f ++ masked f.mask 0 f.payload

def extWidth (b : UInt8) : Nat :=
  if b &&& 0x7f = 127 then 8 else if b &&& 0x7f = 126 then 2 else 0

def maskWidth (b : UInt8) : Nat := if b &&& 0x80 = 0 then 0 else 4

/-- A frame and what follows it; the reserved bits have to be 0. -/
def decode : List UInt8 → Option (Frame × List UInt8)
  | b0 :: b1 :: rest =>
      let ext := rest.take (extWidth b1)
      let key := (rest.drop (extWidth b1)).take (maskWidth b1)
      let n := if ext = [] then (b1 &&& 0x7f).toNat else ofBigEndian ext
      let body := rest.drop (extWidth b1 + maskWidth b1)
      if b0 &&& 0x70 = 0 ∧ extWidth b1 + maskWidth b1 + n ≤ rest.length then
        let mask : Option MaskKey := if key = [] then none else some fun i => key.getD i 0
        some (⟨b0 &&& 0x80 ≠ 0, b0 &&& 0x0f, mask, masked mask 0 (body.take n)⟩, body.drop n)
      else none
  | _ => none

/-- Every octet of a frame is accounted for. -/
theorem length_decode {b0 b1 : UInt8} {tail rest : List UInt8} {f : Frame}
    (h : decode (b0 :: b1 :: tail) = some (f, rest)) :
    extWidth b1 + maskWidth b1 + f.payload.length + rest.length = tail.length := by
  simp only [decode] at h
  generalize (if tail.take (extWidth b1) = [] then (b1 &&& 0x7f).toNat
    else ofBigEndian (tail.take (extWidth b1))) = n at h
  by_cases hn : b0 &&& 0x70 = 0 ∧ extWidth b1 + maskWidth b1 + n ≤ tail.length
  · rw [if_pos hn] at h
    obtain ⟨rfl, rfl⟩ := Prod.mk.inj (Option.some.inj h)
    simp only [length_masked, List.length_take, List.length_drop]
    omega
  · rw [if_neg hn] at h
    cases h

theorem fin_of_decode {b0 : UInt8} {tail rest : List UInt8} {f : Frame}
    (h : decode (b0 :: tail) = some (f, rest)) : f.fin = true ↔ b0 &&& 0x80 ≠ 0 := by
  cases tail with
  | nil => cases h
  | cons b1 tail =>
    simp only [decode] at h
    generalize (if tail.take (extWidth b1) = [] then (b1 &&& 0x7f).toNat
      else ofBigEndian (tail.take (extWidth b1))) = n at h
    by_cases hn : b0 &&& 0x70 = 0 ∧ extWidth b1 + maskWidth b1 + n ≤ tail.length
    · rw [if_pos hn] at h
      obtain ⟨rfl, rfl⟩ := Prod.mk.inj (Option.some.inj h)
      simp
    · rw [if_neg hn] at h
      cases h

structure Frame.Valid (f : Frame) (form : LengthForm) : Prop where
  opcode : f.opcode < 16
  length : form.Fits f.payload.length

theorem firstByte_bits (f : Frame) (h : f.opcode < 16) :
    firstByte f &&& 0x70 = 0 ∧ firstByte f &&& 0x0f = f.opcode ∧
      (firstByte f &&& 0x80 ≠ 0 ↔ f.fin = true) ∧ (firstByte f &&& 0x80 = 0x80 ↔ f.fin = true) := by
  have hall : ∀ (fin : Bool) (k : Fin 16),
      ((if fin then 0x80 else 0) ||| UInt8.ofNat k) &&& 0x70 = 0 ∧
      ((if fin then 0x80 else 0) ||| UInt8.ofNat k) &&& 0x0f = UInt8.ofNat k ∧
      (((if fin then 0x80 else 0) ||| UInt8.ofNat k) &&& 0x80 ≠ 0 ↔ fin = true) ∧
      (((if fin then 0x80 else 0) ||| UInt8.ofNat k) &&& 0x80 = 0x80 ↔ fin = true) := by decide
  have hk := hall f.fin ⟨f.opcode.toNat, h⟩
  rwa [UInt8.ofNat_toNat] at hk

theorem secondByte_bits (mask : Option MaskKey) {code : UInt8} (h : code < 128) :
    secondByte mask code &&& 0x7f = code ∧ (secondByte mask code &&& 0x80 = 0 ↔ mask = none) ∧
      (secondByte mask code &&& 0x80 = 0x80 ↔ mask ≠ none) := by
  have hall : ∀ (m : Bool) (k : Fin 128),
      ((if m then 0x80 else 0) ||| UInt8.ofNat k) &&& 0x7f = UInt8.ofNat k ∧
      (((if m then 0x80 else 0) ||| UInt8.ofNat k) &&& 0x80 = 0 ↔ m = false) ∧
      (((if m then 0x80 else 0) ||| UInt8.ofNat k) &&& 0x80 = 0x80 ↔ m = true) := by decide
  obtain ⟨h1, h2, h3⟩ := hall mask.isSome ⟨code.toNat, h⟩
  rw [UInt8.ofNat_toNat] at h1 h2 h3
  exact ⟨h1, h2.trans (by cases mask <;> simp), h3.trans (by cases mask <;> simp)⟩

theorem code_lt {form : LengthForm} {n : Nat} (h : form.Fits n) : form.code n < 128 := by
  cases form with
  | seven =>
    have hn : n ≤ 125 := h
    rw [LengthForm.code, UInt8.lt_iff_toNat_lt, UInt8.toNat_ofNat']
    change _ < 128
    omega
  | sixteen => exact (by decide : (126 : UInt8) < 128)
  | sixtyFour => exact (by decide : (127 : UInt8) < 128)

theorem extWidth_secondByte {form : LengthForm} {n : Nat} (mask : Option MaskKey)
    (h : form.Fits n) : extWidth (secondByte mask (form.code n)) = form.width := by
  rw [extWidth, (secondByte_bits mask (code_lt h)).1]
  cases form with
  | seven =>
    have hn : n ≤ 125 := h
    have hne : ∀ c : UInt8, 125 < c.toNat → UInt8.ofNat n ≠ c := by
      rintro c hc rfl
      rw [UInt8.toNat_ofNat'] at hc
      omega
    rw [LengthForm.code, if_neg (hne 127 (by decide)), if_neg (hne 126 (by decide))]
    rfl
  | sixteen => rfl
  | sixtyFour => rfl

theorem length_keyBytes {form : LengthForm} {n : Nat} (mask : Option MaskKey) (h : form.Fits n) :
    maskWidth (secondByte mask (form.code n)) = (keyBytes mask).length := by
  have hbits := (secondByte_bits mask (code_lt h)).2.1
  cases mask with
  | none => rw [maskWidth, if_pos (hbits.mpr rfl)]; rfl
  | some key => rw [maskWidth, if_neg fun h0 => nomatch hbits.mp h0]; rfl

theorem key_getD (key : MaskKey) : (fun i : Fin 4 => (keyBytes (some key)).getD i 0) = key := by
  funext i
  fin_cases i <;> rfl

/-- Every form of a frame is read back, whatever follows it. -/
theorem decode_encode {f : Frame} {form : LengthForm} (h : f.Valid form) (rest : List UInt8) :
    decode (encode form f ++ rest) = some (f, rest) := by
  obtain ⟨hop, hlen⟩ := h
  obtain ⟨hrsv, hopc, hfin, -⟩ := firstByte_bits f hop
  have hn : (if bigEndian form.width f.payload.length = []
      then (secondByte f.mask (form.code f.payload.length) &&& 0x7f).toNat
      else ofBigEndian (bigEndian form.width f.payload.length)) = f.payload.length := by
    rw [(secondByte_bits f.mask (code_lt hlen)).1]
    cases form with
    | seven =>
      have hle : f.payload.length ≤ 125 := hlen
      change (UInt8.ofNat f.payload.length).toNat = _
      rw [UInt8.toNat_ofNat']
      omega
    | sixteen => exact ofBigEndian_bigEndian (k := 2) (lt_of_lt_of_le hlen (by norm_num))
    | sixtyFour => exact ofBigEndian_bigEndian (k := 8) (lt_of_lt_of_le hlen (by norm_num))
  have hmask : (if keyBytes f.mask = [] then none
      else some fun i : Fin 4 => (keyBytes f.mask).getD i 0) = f.mask := by
    cases hm : f.mask with
    | none => rfl
    | some key =>
      have hne : keyBytes (some key) ≠ [] := List.cons_ne_nil _ _
      rw [if_neg hne, key_getD]
  generalize hext : bigEndian form.width f.payload.length = ext at *
  generalize hkey : keyBytes f.mask = key at *
  have hw : extWidth (secondByte f.mask (form.code f.payload.length)) = ext.length := by
    rw [extWidth_secondByte f.mask hlen, ← hext, length_bigEndian]
  have hk : maskWidth (secondByte f.mask (form.code f.payload.length)) = key.length := by
    rw [length_keyBytes f.mask hlen, hkey]
  have hbody : (masked f.mask 0 f.payload).length = f.payload.length := length_masked _ _ _
  simp only [encode, encodeHeader, List.cons_append, List.append_assoc, decode,
    hext, hkey, hk, hw]
  rw [List.take_left, List.drop_left, List.take_left, ← List.drop_drop, List.drop_left,
    List.drop_left, hn, hmask, if_pos, hopc, List.take_left' hbody, List.drop_left' hbody,
    masked_masked]
  · cases hf : f.fin <;> simp [hf] at hfin <;> simp [hfin, ← hf]
  · refine ⟨hrsv, ?_⟩
    simp only [List.length_append, hbody]
    omega

end Verif.WsFrame
