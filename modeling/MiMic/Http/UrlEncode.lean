import MiMic.Core.FormatWriter
import MiMic.Core.Text

/-!
# The percent decoder

`NyLPC_cUrlEncode` takes one character a call and gives a byte for each character that stands for
itself and for each whole escape.
-/
namespace MiMic.Http

/-- `NyLPC_TcUrlEncode_ST`, a whole byte with what `out` takes. -/
inductive UrlEncodeSt
  | error
  | next
  | done (out : UInt8)
deriving DecidableEq, Repr

/-- `NyLPC_TcUrlEncode`: the first digit of an escape, and how much of the escape was taken. -/
structure UrlEncode where
  v : UInt8
  len : Nat
deriving DecidableEq, Repr

namespace UrlEncode

/-- `NyLPC_cUrlEncode_reset`. -/
def reset (u : UrlEncode) : UrlEncode := { u with len := 0 }

/-- `NyLPC_cUrlEncode_decode`. -/
def decode (u : UrlEncode) (c : UInt8) : UrlEncodeSt × UrlEncode :=
  if c = chPercent then
    if u.len ≠ 0 then (.error, ⟨0, 0⟩) else (.next, { u with len := 1 })
  else
    match u.len with
    | 0 => (.done c, u)
    | 1 => if !isXDigit c then (.error, ⟨0, 0⟩) else (.next, ⟨ctox c, 2⟩)
    | 2 => if !isXDigit c then (.error, ⟨0, 0⟩) else (.done (u.v <<< 4 ||| ctox c), ⟨0, 0⟩)
    | _ => (.error, ⟨0, 0⟩)

/-- The bytes of a text, and where the decoder stands behind it. -/
def decodeAll (u : UrlEncode) : List UInt8 → Option (List UInt8 × UrlEncode)
  | [] => some ([], u)
  | c :: cs =>
      match decode u c with
      | (.error, _) => none
      | (.next, u') => decodeAll u' cs
      | (.done b, u') => (decodeAll u' cs).map fun r => (b :: r.1, r.2)

/-- What a text gives, an escape cut short by its end left out. -/
def decoded (t : List UInt8) : Option (List UInt8) := (decodeAll ⟨0, 0⟩ t).map Prod.fst

end UrlEncode

/-- Every byte stands for itself or is escaped with two digits, whatever the choice. -/
inductive PercentEncodes : List UInt8 → List UInt8 → Prop
  | nil : PercentEncodes [] []
  | plain {c : UInt8} {d t : List UInt8} (hc : c ≠ chPercent) (h : PercentEncodes d t) :
      PercentEncodes (c :: d) (c :: t)
  | escaped {b x y : UInt8} {d t : List UInt8} (hx : isXDigit x = true) (hy : isXDigit y = true)
      (hb : b.toNat = 16 * (ctox x).toNat + (ctox y).toNat) (h : PercentEncodes d t) :
      PercentEncodes (b :: d) (chPercent :: x :: y :: t)

/-- An escape without its last digit. -/
def CutEscape (t : List UInt8) : Prop :=
  t = [chPercent] ∨ ∃ x, isXDigit x = true ∧ t = [chPercent, x]

def hexDigit (n : Nat) : UInt8 := (ascii "0123456789ABCDEF").getD n 0

/-- The characters that stand for themselves in every part of a URL. -/
def unreserved (c : UInt8) : Bool :=
  (0x61 ≤ c && c ≤ 0x7a) || (0x41 ≤ c && c ≤ 0x5a) || isDigit c || c == 0x2d || c == 0x2e ||
    c == 0x5f || c == 0x7e

def percentEncode (d : List UInt8) : List UInt8 :=
  d.flatMap fun b =>
    if unreserved b then [b] else [chPercent, hexDigit (b.toNat / 16), hexDigit (b.toNat % 16)]

theorem hexDigit_spec {n : Nat} (h : n < 16) :
    isXDigit (hexDigit n) = true ∧ (ctox (hexDigit n)).toNat = n := by
  have hall : ∀ k : Fin 16, isXDigit (hexDigit k) = true ∧ (ctox (hexDigit k)).toNat = k := by decide
  exact hall ⟨n, h⟩

theorem percentEncodes_percentEncode (d : List UInt8) : PercentEncodes d (percentEncode d) := by
  induction d with
  | nil => exact .nil
  | cons b d ih =>
    rw [percentEncode, List.flatMap_cons]
    split
    · next hb => exact .plain (fun h => absurd (h ▸ hb) (by decide)) ih
    · have hlt := b.toNat_lt
      obtain ⟨hx, hxv⟩ := hexDigit_spec (show b.toNat / 16 < 16 by omega)
      obtain ⟨hy, hyv⟩ := hexDigit_spec (show b.toNat % 16 < 16 by omega)
      exact .escaped hx hy (by omega) ih

/-- The two digits as the decoder puts them together. -/
theorem escape_eq (x y : UInt8) :
    (ctox x <<< 4 ||| ctox y).toNat = 16 * (ctox x).toNat + (ctox y).toNat := by
  have hx : ∀ x : UInt8, (ctox x).toNat < 16 := forall_char (by decide +kernel)
  have hlt := hx x
  have hlt' := hx y
  have hshift : (ctox x <<< 4).toNat = (ctox x).toNat <<< 4 := by
    rw [UInt8.toNat_shiftLeft]
    show (ctox x).toNat <<< 4 % 2 ^ 8 = _
    rw [Nat.shiftLeft_eq]
    omega
  rw [UInt8.toNat_or, hshift, ← Nat.shiftLeft_add_eq_or_of_lt (by omega), Nat.shiftLeft_eq]
  omega

namespace UrlEncode

variable {u u' : UrlEncode} {d t : List UInt8}

theorem decode_plain {c : UInt8} (hlen : u.len = 0) (hc : c ≠ chPercent) :
    u.decode c = (.done c, u) := by
  rw [decode, if_neg hc, hlen]
  rfl

theorem decode_percent (hlen : u.len = 0) : u.decode chPercent = (.next, { u with len := 1 }) := by
  rw [decode, if_pos rfl, if_neg (not_not.mpr hlen)]

theorem not_percent_of_isXDigit {c : UInt8} (h : isXDigit c = true) : c ≠ chPercent :=
  fun hc => absurd (hc ▸ h) (by decide)

theorem decode_first {c : UInt8} (hlen : u.len = 1) (hc : isXDigit c = true) :
    u.decode c = (.next, ⟨ctox c, 2⟩) := by
  rw [decode, if_neg (not_percent_of_isXDigit hc), hlen]
  simp only [hc, Bool.not_true, Bool.false_eq_true, if_false]

theorem decode_second {x c : UInt8} (hc : isXDigit c = true) :
    decode ⟨ctox x, 2⟩ c = (.done (ctox x <<< 4 ||| ctox c), ⟨0, 0⟩) := by
  rw [decode, if_neg (not_percent_of_isXDigit hc)]
  simp only [hc, Bool.not_true, Bool.false_eq_true, if_false]

/-- Within an escape anything but a digit is malformed. -/
theorem decode_malformed {c : UInt8} (hlen : u.len = 1 ∨ u.len = 2) (hc : isXDigit c = false) :
    u.decode c = (.error, ⟨0, 0⟩) := by
  rw [decode]
  split
  · rw [if_pos (by omega)]
  · obtain hlen | hlen := hlen
    · rw [hlen]
      simp only [hc, Bool.not_false, if_true]
    · rw [hlen]
      simp only [hc, Bool.not_false, if_true]

/-- The decoder undoes percent-encoding. -/
theorem decodeAll_of_percentEncodes (h : PercentEncodes d t) (hlen : u.len = 0) :
    ∃ u', decodeAll u t = some (d, u') ∧ u'.len = 0 := by
  induction h generalizing u with
  | nil => exact ⟨u, rfl, hlen⟩
  | plain hc _ ih =>
    obtain ⟨u', hrun, hlen'⟩ := ih hlen
    refine ⟨u', ?_, hlen'⟩
    rw [decodeAll, decode_plain hlen hc]
    simp only [hrun, Option.map_some]
  | @escaped b x y _ _ hx hy hb _ ih =>
    obtain ⟨u', hrun, hlen'⟩ := ih (u := ⟨0, 0⟩) rfl
    have hbyte : ctox x <<< 4 ||| ctox y = b := UInt8.toNat_inj.mp ((escape_eq x y).trans hb.symm)
    refine ⟨u', ?_, hlen'⟩
    rw [decodeAll, decode_percent hlen]
    simp only
    rw [decodeAll, decode_first rfl hx]
    simp only
    rw [decodeAll, decode_second hy]
    simp only [hrun, Option.map_some, hbyte]

/-- What is decoded without an error is an encoding, with at most a cut escape behind it. -/
theorem percentEncodes_of_decodeAll (hlen : u.len = 0) (h : decodeAll u t = some (d, u')) :
    PercentEncodes d t ∨ ∃ s e, t = s ++ e ∧ PercentEncodes d s ∧ CutEscape e := by
  induction hn : t.length using Nat.strongRecOn generalizing t u d with
  | ind n ih =>
    subst hn
    match t with
    | [] =>
      rw [decodeAll] at h
      obtain ⟨rfl, rfl⟩ := Prod.mk.inj (Option.some.inj h)
      exact Or.inl .nil
    | c :: cs =>
      by_cases hc : c = chPercent
      · subst hc
        rw [decodeAll, decode_percent hlen] at h
        simp only at h
        match cs with
        | [] =>
          rw [decodeAll] at h
          obtain ⟨rfl, rfl⟩ := Prod.mk.inj (Option.some.inj h)
          exact Or.inr ⟨[], _, rfl, .nil, Or.inl rfl⟩
        | x :: cs =>
          cases hx : isXDigit x with
          | false =>
            rw [decodeAll, decode_malformed (Or.inl rfl) hx] at h
            cases h
          | true =>
            rw [decodeAll, decode_first rfl hx] at h
            simp only at h
            match cs with
            | [] =>
              rw [decodeAll] at h
              obtain ⟨rfl, rfl⟩ := Prod.mk.inj (Option.some.inj h)
              exact Or.inr ⟨[], _, rfl, .nil, Or.inr ⟨x, hx, rfl⟩⟩
            | y :: cs =>
              cases hy : isXDigit y with
              | false =>
                rw [decodeAll, decode_malformed (Or.inr rfl) hy] at h
                cases h
              | true =>
                rw [decodeAll, decode_second hy] at h
                obtain ⟨⟨d', u''⟩, hrest, heq⟩ := Option.map_eq_some_iff.mp h
                obtain ⟨rfl, rfl⟩ := Prod.mk.inj heq
                obtain hwhole | ⟨s, e, rfl, hs, he⟩ := ih cs.length (by simp only [List.length_cons]; omega) rfl hrest rfl
                · exact Or.inl (.escaped hx hy (escape_eq x y) hwhole)
                · exact Or.inr ⟨_ :: x :: y :: s, e, rfl, .escaped hx hy (escape_eq x y) hs, he⟩
      · rw [decodeAll, decode_plain hlen hc] at h
        obtain ⟨⟨d', u''⟩, hrest, heq⟩ := Option.map_eq_some_iff.mp h
        obtain ⟨rfl, rfl⟩ := Prod.mk.inj heq
        obtain hwhole | ⟨s, e, rfl, hs, he⟩ := ih cs.length (by simp) hlen hrest rfl
        · exact Or.inl (.plain hc hwhole)
        · exact Or.inr ⟨c :: s, e, rfl, .plain hc hs, he⟩

theorem decoded_of_percentEncodes (h : PercentEncodes d t) : decoded t = some d := by
  obtain ⟨u', hrun, -⟩ := decodeAll_of_percentEncodes (u := ⟨0, 0⟩) h rfl
  rw [decoded, hrun]
  rfl

theorem percentEncodes_of_decoded (h : decoded t = some d) :
    PercentEncodes d t ∨ ∃ s e, t = s ++ e ∧ PercentEncodes d s ∧ CutEscape e := by
  obtain ⟨⟨d', u'⟩, hrun, rfl⟩ := Option.map_eq_some_iff.mp h
  exact percentEncodes_of_decodeAll rfl hrun

/-- A digit that the last escape left is of no account. -/
theorem decodeAll_reset (hlen : u.len = 0) (t : List UInt8) :
    (decodeAll u t).map Prod.fst = decoded t := by
  induction t with
  | nil => rfl
  | cons c cs ih =>
    have hzero : decoded (c :: cs) = (decodeAll ⟨0, 0⟩ (c :: cs)).map Prod.fst := rfl
    by_cases hc : c = chPercent
    · subst hc
      rw [hzero, decodeAll, decodeAll, decode_percent hlen, decode_percent rfl]
      -- the first digit is stored over
      cases cs with
      | nil => rfl
      | cons x cs =>
        cases hx : isXDigit x with
        | false =>
          simp only [decodeAll]
          rw [decode_malformed (Or.inl rfl) hx, decode_malformed (Or.inl rfl) hx]
        | true =>
          simp only [decodeAll]
          rw [decode_first rfl hx, decode_first rfl hx]
    · rw [hzero, decodeAll, decodeAll, decode_plain hlen hc, decode_plain rfl hc]
      simp only [Option.map_map]
      have hcons : (Prod.fst ∘ fun r : List UInt8 × UrlEncode => (c :: r.1, r.2)) =
          (fun l => c :: l) ∘ Prod.fst := rfl
      rw [hcons, ← Option.map_map, ih, ← Option.map_map]
      rfl

end UrlEncode

end MiMic.Http
