import MiMic.Core.Chars
import MiMic.Lib.Decimal
import Mathlib.Data.List.TakeWhile

/-!
# Text

The C library's number readers on a `long` of 32 bits, comparisons without case, and
`NyLPC_TcStr_t`, a text of limited length in a buffer.
-/
namespace MiMic

open Verif

def chPlus : UInt8 := 0x2b

def isSpace (c : UInt8) : Bool := c == chSpace || (0x09 ≤ c && c ≤ 0x0d)

def toupper (c : UInt8) : UInt8 := if 0x61 ≤ c ∧ c ≤ 0x7a then c - 0x20 else c

/-- `NyLPC_tolower`. -/
def tolower (c : UInt8) : UInt8 := if 0x41 ≤ c ∧ c ≤ 0x5a then c + 0x61 - 0x41 else c

/-- `NyLPC_stricmp`. -/
def stricmp : List UInt8 → List UInt8 → Int
  | [], [] => 0
  | [], c :: _ => -(c.toNat : Int)
  | c :: _, [] => c.toNat
  | c :: s, d :: t =>
      if c = d ∨ tolower c = tolower d then stricmp s t else (c.toNat : Int) - d.toNat

/-- What `strtol` and `strtoul` see in base ten: a minus sign, the digits, and the text behind
them. They convert nothing when there is no digit. -/
def scanNumber (s : List UInt8) : Option (Bool × List UInt8 × List UInt8) :=
  let t := s.dropWhile isSpace
  let u := if t.head? = some chMinus ∨ t.head? = some chPlus then t.tail else t
  if u.takeWhile isDigit = [] then none
  else some (t.head? == some chMinus, u.takeWhile isDigit, u.dropWhile isDigit)

/-- `strtol(s,&e,10)` and the text at `e`; `none` for `e==s`. -/
def strtol (s : List UInt8) : Option (Int × List UInt8) :=
  (scanNumber s).map fun n =>
    (max (-2 ^ 31) (min (2 ^ 31 - 1) (if n.1 then -(Decimal.value n.2.1 : Int) else Decimal.value n.2.1)), n.2.2)

/-- `strtoul(s,&e,10)`, which takes a number with a minus sign modulo 2^32. -/
def strtoul (s : List UInt8) : Option (UInt32 × List UInt8) :=
  (scanNumber s).map fun n =>
    (if 2 ^ 32 ≤ Decimal.value n.2.1 then 0xffffffff
      else if n.1 then -(UInt32.ofNat (Decimal.value n.2.1)) else UInt32.ofNat (Decimal.value n.2.1), n.2.2)

/-- `NyLPC_TcStr_t` for `s` characters: `buf` are the bytes before the terminator that the last
`put` wrote. -/
structure CStr where
  s : Nat
  l : Nat
  buf : List UInt8
deriving DecidableEq, Repr

namespace CStr

/-- `NyLPC_cStr_initialize` with a buffer of `sizeofBuf` bytes. -/
def ofSize (sizeofBuf : Nat) : CStr := ⟨sizeofBuf - 1, 0, []⟩

/-- `NyLPC_cStr_put`; `none` when the text is full. -/
def put (t : CStr) (c : UInt8) : Option CStr :=
  if 0 < t.s - t.l then some { t with buf := t.buf.take t.l ++ [c], l := t.l + 1 } else none

/-- `NyLPC_cStr_clear`: the bytes stay where they are. -/
def clear (t : CStr) : CStr := { t with l := 0 }

/-- `NyLPC_cStr_str`, as a reader of C strings sees it. -/
def str (t : CStr) : List UInt8 := cString t.buf

/-- `NyLPC_cStr_toUpper`. -/
def toUpper (t : CStr) : CStr :=
  { t with buf := t.str.map toupper ++ t.buf.drop t.str.length }

end CStr

theorem cString_of_ne_zero {t : List UInt8} (h : ∀ c ∈ t, c ≠ 0) : cString t = t := by
  rw [cString, List.takeWhile_eq_self_iff]
  intro c hc
  exact bne_iff_ne.mpr (h c hc)

/-- What holds of the 256 characters. -/
theorem forall_char {P : UInt8 → Prop} (h : ∀ n : Fin 256, P (UInt8.ofNat n)) (c : UInt8) : P c := by
  have hc := h ⟨c.toNat, c.toNat_lt⟩
  rwa [UInt8.ofNat_toNat] at hc

theorem char_facts : ∀ c : UInt8, (c ≠ 0 → toupper c ≠ 0) ∧ (isDigit c = true → isSpace c = false) ∧
    (isDigit c = true → c ≠ chMinus ∧ c ≠ chPlus) := forall_char (by decide +kernel)

theorem toupper_ne_zero (c : UInt8) : c ≠ 0 → toupper c ≠ 0 := (char_facts c).1

theorem isSpace_of_isDigit (c : UInt8) : isDigit c = true → isSpace c = false := (char_facts c).2.1

theorem ne_sign_of_isDigit (c : UInt8) : isDigit c = true → c ≠ chMinus ∧ c ≠ chPlus := (char_facts c).2.2

/-- Digits and what follows them. -/
theorem scanNumber_digits {ds rest : List UInt8} (hne : ds ≠ []) (hds : ∀ c ∈ ds, isDigit c = true)
    (hrest : ∀ c, rest.head? = some c → isDigit c = false) :
    scanNumber (ds ++ rest) = some (false, ds, rest) := by
  obtain ⟨c, cs, rfl⟩ := List.exists_cons_of_ne_nil hne
  have hc := hds c (List.mem_cons_self ..)
  obtain ⟨hminus, hplus⟩ := ne_sign_of_isDigit c hc
  have hdrop : (c :: cs ++ rest).dropWhile isSpace = c :: cs ++ rest := by
    rw [List.cons_append, List.dropWhile_cons_of_neg]
    rw [isSpace_of_isDigit c hc]
    exact Bool.false_ne_true
  have hsign : ¬ ((c :: cs ++ rest).head? = some chMinus ∨ (c :: cs ++ rest).head? = some chPlus) := by
    simp [hminus, hplus]
  have htake : rest.takeWhile isDigit = [] := by
    cases rest with
    | nil => rfl
    | cons d ds => exact List.takeWhile_cons_of_neg (by rw [hrest d rfl]; exact Bool.false_ne_true)
  have hrestDrop : rest.dropWhile isDigit = rest := by
    cases rest with
    | nil => rfl
    | cons d ds => exact List.dropWhile_cons_of_neg (by rw [hrest d rfl]; exact Bool.false_ne_true)
  have hall : (c :: cs ++ rest).takeWhile isDigit = c :: cs := by
    rw [List.takeWhile_append_of_pos hds, htake, List.append_nil]
  have hback : (c :: cs ++ rest).dropWhile isDigit = rest := by
    rw [List.dropWhile_append_of_pos hds, hrestDrop]
  simp only [scanNumber, hdrop, if_neg hsign, hall, hback]
  rw [if_neg (by simp)]
  simp [hminus]

theorem ofInt_natCast (n : Nat) : UInt32.ofInt (n : Int) = UInt32.ofNat n := by
  apply UInt32.toNat_inj.mp
  rw [UInt32.ofInt]
  simp
  omega

/-- A decimal number is read back. -/
theorem strtol_decimal {n : Nat} (h : n < 2 ^ 31) : strtol (Decimal.decimal n) = some ((n : Int), []) := by
  have hscan := @scanNumber_digits (Decimal.decimal n) [] (Decimal.decimal_ne_nil n)
    (Decimal.isDigit_decimal n) (fun c hc => nomatch hc)
  rw [List.append_nil] at hscan
  rw [strtol, hscan, Option.map_some]
  simp only [Decimal.value_decimal, Bool.false_eq_true, if_false]
  congr 2
  omega

end MiMic
