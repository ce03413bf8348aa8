import MiMic.Lib.WsFrame

/-!
# Field layouts

A message as its fields one behind the other: numbers in network order, each in its own width,
and byte strings.
-/
namespace Verif.FieldLayout

open Verif.WsFrame

theorem ofBigEndian_append (bs : List UInt8) (b : UInt8) :
    ofBigEndian (bs ++ [b]) = ofBigEndian bs * 256 + b.toNat := by
  rw [ofBigEndian, List.foldl_append]
  rfl

theorem ofBigEndian_lt (bs : List UInt8) : ofBigEndian bs < 256 ^ bs.length := by
  induction bs using List.reverseRecOn with
  | nil => decide
  | append_singleton bs b ih =>
    have hb := b.toNat_lt
    rw [ofBigEndian_append, List.length_append, List.length_singleton, pow_succ]
    omega

theorem bigEndian_ofBigEndian (bs : List UInt8) : bigEndian bs.length (ofBigEndian bs) = bs := by
  induction bs using List.reverseRecOn with
  | nil => rfl
  | append_singleton bs b ih =>
    have hb := b.toNat_lt
    have hdiv : (ofBigEndian bs * 256 + b.toNat) / 256 = ofBigEndian bs := by omega
    have hlow : UInt8.ofNat (ofBigEndian bs * 256 + b.toNat) = b := by
      apply UInt8.toNat_inj.mp
      rw [UInt8.toNat_ofNat']
      omega
    rw [ofBigEndian_append, List.length_append, List.length_singleton, bigEndian, hdiv, hlow, ih]

inductive Field
  | number (width value : Nat)
  | raw (bytes : List UInt8)

namespace Field

def bytes : Field → List UInt8
  | .number width value => bigEndian width value
  | .raw bs => bs

/-- A number that its width can hold. -/
def Fits : Field → Prop
  | .number width value => value < 256 ^ width
  | .raw _ => True

def size : Field → Nat
  | .number width _ => width
  | .raw bs => bs.length

@[simp] theorem length_bytes (f : Field) : f.bytes.length = f.size := by
  cases f with
  | number width value => exact length_bigEndian width value
  | raw bs => rfl

end Field

def encode (fs : List Field) : List UInt8 := fs.flatMap Field.bytes

/-- The message is these fields, none of them cut. -/
structure Laid (fs : List Field) (bs : List UInt8) : Prop where
  fits : ∀ f ∈ fs, f.Fits
  bytes : bs = encode fs

theorem length_of_laid {fs : List Field} {bs : List UInt8} (h : Laid fs bs) :
    bs.length = (fs.map Field.size).sum := by
  rw [h.bytes, encode, List.length_flatMap]
  simp only [Field.length_bytes]

@[simp] theorem laid_nil_iff {bs : List UInt8} : Laid [] bs ↔ bs = [] :=
  ⟨fun h => h.bytes, fun h => ⟨by simp, h⟩⟩

theorem laid_cons_iff {f : Field} {fs : List Field} {bs : List UInt8} :
    Laid (f :: fs) bs ↔ f.Fits ∧ ∃ rest, bs = f.bytes ++ rest ∧ Laid fs rest := by
  constructor
  · intro h
    exact ⟨h.fits f (by simp), encode fs, h.bytes, fun g hg => h.fits g (by simp [hg]), rfl⟩
  · rintro ⟨hf, rest, rfl, h⟩
    refine ⟨?_, by rw [h.bytes]; rfl⟩
    intro g hg
    rcases List.mem_cons.mp hg with rfl | hg
    · exact hf
    · exact h.fits g hg

/-- Behind bytes as many as the field has, the message is laid as the fields that follow. -/
theorem laid_cons_append_iff {f : Field} {fs : List Field} {as bs : List UInt8}
    (h : as.length = f.size) :
    Laid (f :: fs) (as ++ bs) ↔ (f.Fits ∧ as = f.bytes) ∧ Laid fs bs := by
  rw [laid_cons_iff]
  constructor
  · rintro ⟨hf, rest, hrest, hlaid⟩
    obtain ⟨has, rfl⟩ := List.append_inj hrest (by simpa using h)
    exact ⟨⟨hf, has⟩, hlaid⟩
  · rintro ⟨⟨hf, rfl⟩, hlaid⟩
    exact ⟨hf, bs, rfl, hlaid⟩

@[simp] theorem laid_raw (bs : List UInt8) : Laid [.raw bs] bs :=
  ⟨by simp [Field.Fits], by simp [encode, Field.bytes]⟩

theorem laid_number_iff {width value : Nat} {as bs : List UInt8} {fs : List Field}
    (h : as.length = width) :
    Laid (.number width value :: fs) (as ++ bs) ↔ ofBigEndian as = value ∧ Laid fs bs := by
  rw [laid_cons_append_iff h]
  refine and_congr_left fun _ => ?_
  constructor
  · rintro ⟨hfits, rfl⟩
    exact ofBigEndian_bigEndian hfits
  · rintro rfl
    subst h
    exact ⟨ofBigEndian_lt as, (bigEndian_ofBigEndian as).symm⟩

@[simp] theorem laid_byte_iff {value : Nat} {a : UInt8} {bs : List UInt8} {fs : List Field} :
    Laid (.number 1 value :: fs) (a :: bs) ↔ a.toNat = value ∧ Laid fs bs := by
  have h : a :: bs = [a] ++ bs := rfl
  rw [h, laid_number_iff (by rfl)]
  simp [ofBigEndian]

@[simp] theorem laid_pair_iff {value : Nat} {a b : UInt8} {bs : List UInt8} {fs : List Field} :
    Laid (.number 2 value :: fs) (a :: b :: bs) ↔
      a.toNat * 256 + b.toNat = value ∧ Laid fs bs := by
  have h : a :: b :: bs = [a, b] ++ bs := rfl
  rw [h, laid_number_iff (by rfl)]
  simp [ofBigEndian]

end Verif.FieldLayout
