import MiMic.Core.FormatBuffer
import MiMic.Core.FormatTextReader
import MiMic.Lib.Hex

/-!
# Integers as text

`NyLPC_itoa` and its relatives write the digits of a number to a buffer, the last one first, close
them and turn them round in place. They return how many characters they wrote.
-/
namespace MiMic.IntegerText

open Verif

/-- `strlen` of what was written: at most 127 characters, as their number is a signed byte. -/
def strlen (m : Memory) : Nat := WorkArray.strlenFrom m 129 0

def reverseLoop : Nat → Nat → Nat → Memory → Memory
  | 0, _, _, m => m
  | fuel + 1, s, j, m =>
      if s < j then
        reverseLoop fuel (s + 1) (j - 1) (Function.update (Function.update m s (m j)) j (m s))
      else m

/-- `NyLPC_reverse`. -/
def reverse (m : Memory) : Memory := reverseLoop (strlen m) 0 (strlen m - 1) m

/-- `o_out[i++]=c`. -/
def put (r : Nat × Memory) (c : UInt8) : Nat × Memory := (r.1 + 1, Function.update r.2 r.1 c)

/-- The loop over the digits; 32 rounds are enough for every base. -/
def putDigits (base : Int) : Nat → Int → Nat × Memory → Nat × Memory
  | 0, _, r => r
  | fuel + 1, n, r =>
      let r := put r (digitChar (n.tmod base))
      if n.tdiv base > 0 then putDigits base fuel (n.tdiv base) r else r

/-- The terminator, and the call of `NyLPC_reverse`. -/
def finish (r : Nat × Memory) : Nat × Memory := (r.1, reverse (Function.update r.2 r.1 0))

/-- `NyLPC_itoa`: what it returns, and the buffer. -/
def itoa (n : Int32) (base : Int8) (m : Memory) : Nat × Memory :=
  let r := putDigits base.toInt 32 (if n < 0 then (-n).toInt else n.toInt) (0, m)
  finish (if n < 0 then put r chMinus else r)

/-- `NyLPC_uitoa`. -/
def uitoa (n : UInt32) (base : Int8) (m : Memory) : Nat × Memory :=
  finish (putDigits base.toInt 32 n.toNat (0, m))

/-- `while(i<i_digit)`. -/
def putZeros (digit : Int8) (r : Nat × Memory) : Nat × Memory :=
  (List.range (digit.toInt - r.1).toNat).foldl (fun r _ => put r chZero) r

/-- `NyLPC_uitoa2`. -/
def uitoa2 (n : UInt32) (base digit : Int8) (m : Memory) : Nat × Memory :=
  finish (putZeros digit (putDigits base.toInt 32 n.toNat (0, m)))

/-- A number in a base, without leading zeros. -/
def numeral (base n : Nat) : List UInt8 :=
  if n = 0 then [chZero] else ((Nat.digits base n).map Hex.digit).reverse

def intText (base : Nat) (z : Int) : List UInt8 :=
  if z < 0 then chMinus :: numeral base z.natAbs else numeral base z.natAbs

/-- The buffer begins with the text and its terminator, its length is returned, and nothing is
stored behind it. -/
structure Writes (m : Memory) (r : Nat × Memory) (t : List UInt8) : Prop where
  count : r.1 = t.length
  text : ∀ (i : Nat) (hi : i < t.length), r.2 i = t[i]
  nul : r.2 t.length = 0
  frame : ∀ i, t.length < i → r.2 i = m i

/-- Where a URL has the text for the value of a key, `getInt` reads the number. -/
def ReadsInt (n : Int32) (t : List UInt8) : Prop :=
  ∀ url key p, Http.UrlReader.valuePtr url key = some p → p.takeWhile Http.UrlReader.inValue = t →
    Http.UrlReader.getInt url key = some n

def ReadsUInt (n : UInt32) (t : List UInt8) : Prop :=
  ∀ url key p, Http.UrlReader.valuePtr url key = some p → p.takeWhile Http.UrlReader.inValue = t →
    Http.UrlReader.getUInt url key = some n

/-- The buffer begins with the characters, and is as it was behind them. -/
structure Holds (m : Memory) (r : Nat × Memory) (ds : List UInt8) : Prop where
  count : r.1 = ds.length
  chars : ∀ (i : Nat) (hi : i < ds.length), r.2 i = ds[i]
  frame : ∀ i, ds.length ≤ i → r.2 i = m i

variable {m : Memory} {r : Nat × Memory} {ds : List UInt8}

theorem holds_start (m : Memory) : Holds m (0, m) [] :=
  ⟨rfl, fun i hi => absurd hi (Nat.not_lt_zero i), fun _ _ => rfl⟩

theorem Holds.put (h : Holds m r ds) (c : UInt8) : Holds m (put r c) (ds ++ [c]) := by
  have hlen : (ds ++ [c]).length = ds.length + 1 := by rw [List.length_append, List.length_singleton]
  refine ⟨by rw [hlen, ← h.count]; rfl, fun i hi => ?_, fun i hi => ?_⟩
  · by_cases hlast : i = ds.length
    · subst hlast
      show Function.update r.2 r.1 c ds.length = _
      rw [h.count, Function.update_self, List.getElem_concat_length rfl]
    · have hin : i < ds.length := by omega
      show Function.update r.2 r.1 c i = _
      rw [Function.update_of_ne (by rw [h.count]; exact hlast), h.chars i hin,
        List.getElem_append_left hin]
  · show Function.update r.2 r.1 c i = m i
    rw [Function.update_of_ne (by rw [h.count]; omega), h.frame i (by omega)]

theorem Holds.putDigits (base : Int) (fuel : Nat) {n : Int} (h : Holds m r ds) :
    Holds m (putDigits base fuel n r) (ds ++ revDigits base fuel n) := by
  induction fuel generalizing r ds n with
  | zero => rwa [revDigits, List.append_nil]
  | succ fuel ih =>
    have hput := h.put (digitChar (n.tmod base))
    rw [IntegerText.putDigits, revDigits]
    by_cases hpos : n.tdiv base > 0
    · rw [if_pos hpos, if_pos hpos]
      have hrec := ih (n := n.tdiv base) hput
      rwa [List.append_assoc, List.singleton_append] at hrec
    · rwa [if_neg hpos, if_neg hpos]

theorem Holds.putZeros (digit : Int8) (h : Holds m r ds) :
    Holds m (putZeros digit r) (ds ++ List.replicate (digit.toInt - ds.length).toNat chZero) := by
  have hall : ∀ k : Nat, Holds m ((List.range k).foldl (fun r _ => IntegerText.put r chZero) r)
      (ds ++ List.replicate k chZero) := by
    intro k
    induction k with
    | zero => rwa [List.replicate_zero, List.append_nil]
    | succ k ih =>
      rw [List.range_succ, List.foldl_append, List.replicate_succ', ← List.append_assoc]
      exact ih.put chZero
  rw [IntegerText.putZeros, h.count]
  exact hall _

/-- The two ends are exchanged, then what lies between them. -/
theorem reverseLoop_spec (fuel : Nat) {s j : Nat} (m : Memory) (hfuel : j + 1 - s ≤ fuel) (i : Nat) :
    reverseLoop fuel s j m i = if s ≤ i ∧ i ≤ j then m (s + j - i) else m i := by
  induction fuel generalizing s j m with
  | zero => rw [reverseLoop, if_neg (by omega)]
  | succ fuel ih =>
    rw [reverseLoop]
    by_cases hlt : s < j
    · rw [if_pos hlt, ih _ (by omega)]
      by_cases hs : i = s
      · subst hs
        rw [if_neg (by omega), if_pos (by omega), Function.update_of_ne (by omega), Function.update_self]
        congr 1
        omega
      · by_cases hj : i = j
        · subst hj
          rw [if_neg (by omega), if_pos (by omega), Function.update_self]
          congr 1
          omega
        · by_cases hin : s ≤ i ∧ i ≤ j
          · rw [if_pos hin, if_pos (by omega), Function.update_of_ne (by omega),
              Function.update_of_ne (by omega)]
            congr 1
            omega
          · rw [if_neg hin, if_neg (by omega), Function.update_of_ne hj, Function.update_of_ne hs]
    · rw [if_neg hlt]
      split
      · congr 1
        omega
      · rfl

theorem strlenFrom_eq {k o : Nat} (fuel : Nat) (hlt : k < fuel) (hne : ∀ i < k, m (o + i) ≠ 0)
    (hnul : m (o + k) = 0) : WorkArray.strlenFrom m fuel o = k := by
  induction k generalizing fuel o with
  | zero =>
    obtain ⟨fuel, rfl⟩ := Nat.exists_eq_add_of_lt hlt
    have hfirst : m o = 0 := hnul
    rw [WorkArray.strlenFrom, if_pos hfirst]
  | succ k ih =>
    obtain ⟨fuel, rfl⟩ := Nat.exists_eq_add_of_lt (Nat.zero_lt_of_lt hlt)
    have hfirst : m o ≠ 0 := hne 0 (Nat.succ_pos k)
    rw [WorkArray.strlenFrom, if_neg hfirst, ih (0 + fuel) (by omega)]
    · intro i hi
      rw [Nat.add_assoc, Nat.add_comm 1 i]
      exact hne (i + 1) (by omega)
    · rw [Nat.add_assoc, Nat.add_comm 1 k]
      exact hnul

/-- The characters are closed and turned round. -/
theorem Holds.finish (h : Holds m r ds) (hz : (0 : UInt8) ∉ ds) (hlen : ds.length < 129) :
    Writes m (finish r) ds.reverse := by
  have hchar : ∀ (i : Nat) (hi : i < ds.length), Function.update r.2 r.1 0 i = ds[i] := by
    intro i hi
    rw [Function.update_of_ne (by rw [h.count]; omega), h.chars i hi]
  have hnul : Function.update r.2 r.1 0 ds.length = 0 := by rw [h.count, Function.update_self]
  have hstrlen : strlen (Function.update r.2 r.1 0) = ds.length := by
    refine strlenFrom_eq 129 hlen (fun i hi => ?_) (by rwa [Nat.zero_add])
    rw [Nat.zero_add, hchar i hi]
    exact fun hc => hz (hc ▸ List.getElem_mem hi)
  have hspec : ∀ i, (IntegerText.finish r).2 i = if 0 ≤ i ∧ i ≤ ds.length - 1 then
      Function.update r.2 r.1 0 (0 + (ds.length - 1) - i) else Function.update r.2 r.1 0 i := by
    intro i
    show reverse _ i = _
    rw [reverse, hstrlen]
    cases hds : ds.length with
    | zero =>
      rw [reverseLoop]
      split
      · congr 1
        omega
      · rfl
    | succ n => exact reverseLoop_spec _ _ (by omega) i
  have hrev : ds.reverse.length = ds.length := List.length_reverse
  refine ⟨by rw [hrev]; exact h.count, fun i hi => ?_, ?_, fun i hi => ?_⟩
  · rw [hspec, if_pos (by omega), List.getElem_reverse, ← hchar]
    congr 1
    omega
  · rw [hspec, hrev]
    split
    · have hzero : 0 + (ds.length - 1) - ds.length = ds.length := by omega
      rw [hzero, hnul]
    · exact hnul
  · rw [hspec, if_neg (by omega), Function.update_of_ne (by rw [h.count]; omega), h.frame i (by omega)]

theorem digitChar_hex {d : Nat} (h : d < 16) : digitChar d = Hex.digit d := by
  have hall : ∀ d : Fin 16, digitChar (d.1 : Int) = Hex.digit d := by decide
  exact hall ⟨d, h⟩

theorem numeral_lt {base n : Nat} (h : n < base) : numeral base n = [Hex.digit n] := by
  rw [numeral]
  split_ifs with h0
  · subst h0
    rfl
  · rw [Nat.digits_of_lt base n h0 h]
    rfl

theorem numeral_ge {base n : Nat} (hb : 2 ≤ base) (h : base ≤ n) :
    numeral base n = numeral base (n / base) ++ [Hex.digit (n % base)] := by
  have hdiv : 0 < n / base := Nat.div_pos h (by omega)
  rw [numeral, numeral, if_neg (by omega), if_neg (by omega), Nat.digits_def' (by omega) (by omega),
    List.map_cons, List.reverse_cons]

/-- What the loop writes of a number, the last digit first. -/
theorem revDigits_base {base : Nat} (hb : 2 ≤ base) (hb' : base ≤ 16) (fuel n : Nat)
    (h : n < base ^ fuel) (hfuel : 0 < fuel) : revDigits base fuel n = (numeral base n).reverse := by
  induction fuel generalizing n with
  | zero => exact absurd hfuel (lt_irrefl 0)
  | succ fuel ih =>
    have hmod : (n : Int).tmod base = ((n % base : Nat) : Int) := by
      rw [Int.tmod_eq_emod_of_nonneg (Int.natCast_nonneg n), Int.natCast_mod]
    have hdiv : (n : Int).tdiv base = ((n / base : Nat) : Int) := by
      rw [Int.tdiv_eq_ediv_of_nonneg (Int.natCast_nonneg n), Int.natCast_div]
    have hlt : n % base < base := Nat.mod_lt n (by omega)
    rw [revDigits, hmod, hdiv, digitChar_hex (by omega)]
    by_cases hsmall : n < base
    · have hzero : n / base = 0 := Nat.div_eq_of_lt hsmall
      rw [if_neg (by omega), numeral_lt hsmall, Nat.mod_eq_of_lt hsmall]
      rfl
    · have hpos : 0 < n / base := Nat.div_pos (not_lt.mp hsmall) (by omega)
      have hq : n / base < base ^ fuel := by
        rw [Nat.pow_succ] at h
        exact (Nat.div_lt_iff_lt_mul (by omega)).mpr h
      have hf : 0 < fuel := by
        rcases Nat.eq_zero_or_pos fuel with rfl | hf
        · rw [Nat.zero_add, Nat.pow_one] at h
          exact absurd h hsmall
        · exact hf
      rw [if_pos (by omega), ih _ hq hf, numeral_ge hb (not_lt.mp hsmall), List.reverse_append]
      rfl

/-- Every number of 32 bits is within the rounds of the loop. -/
theorem revDigits_word {base : Nat} (hb : 2 ≤ base) (hb' : base ≤ 16) {n : Nat} (hn : n < 2 ^ 32) :
    revDigits base 32 n = (numeral base n).reverse :=
  revDigits_base hb hb' 32 n (hn.trans_le (Nat.pow_le_pow_left hb 32)) (by decide)

theorem toInt_base {base : Int8} (hb : 2 ≤ base.toInt) : base.toInt = (base.toInt.toNat : Int) := by
  omega

theorem zero_notMem_numeral {base : Nat} (hb : 2 ≤ base) (hb' : base ≤ 16) {n : Nat} (hn : n < 2 ^ 32) :
    (0 : UInt8) ∉ numeral base n := by
  have hz := zero_notMem_revDigits base (by omega) (by omega) 32 n
  rwa [revDigits_word hb hb' hn, List.mem_reverse] at hz

theorem length_numeral_le {base : Nat} (hb : 2 ≤ base) (hb' : base ≤ 16) {n : Nat} (hn : n < 2 ^ 32) :
    (numeral base n).length ≤ 32 := by
  have hlen := length_revDigits base 32 n
  rwa [revDigits_word hb hb' hn, List.length_reverse] at hlen

variable {base : Int8}

theorem uitoa_writes (hb : 2 ≤ base.toInt) (hb' : base.toInt ≤ 16) (n : UInt32) (m : Memory) :
    Writes m (uitoa n base m) (numeral base.toInt.toNat n.toNat) := by
  have hn := n.toNat_lt
  have hput := (holds_start m).putDigits base.toInt 32 (n := n.toNat)
  have hlo : 2 ≤ base.toInt.toNat := by omega
  have hhi : base.toInt.toNat ≤ 16 := by omega
  have hlen := length_numeral_le hlo hhi hn
  rw [toInt_base hb, revDigits_word hlo hhi hn, List.nil_append, ← toInt_base hb] at hput
  have hfin := hput.finish (by rw [List.mem_reverse]; exact zero_notMem_numeral hlo hhi hn)
    (by rw [List.length_reverse]; omega)
  rwa [List.reverse_reverse] at hfin

theorem uitoa2_writes (hb : 2 ≤ base.toInt) (hb' : base.toInt ≤ 16) (n : UInt32) (digit : Int8)
    (m : Memory) : Writes m (uitoa2 n base digit m)
      ((numeral base.toInt.toNat n.toNat).leftpad digit.toInt.toNat chZero) := by
  have hn := n.toNat_lt
  have hdigit := digit.toInt_lt
  have hput := (holds_start m).putDigits base.toInt 32 (n := n.toNat)
  have hlo : 2 ≤ base.toInt.toNat := by omega
  have hhi : base.toInt.toNat ≤ 16 := by omega
  have hlen := length_numeral_le hlo hhi hn
  rw [toInt_base hb, revDigits_word hlo hhi hn, List.nil_append, ← toInt_base hb] at hput
  have hzeros := hput.putZeros digit
  have hcount : (digit.toInt - ((numeral base.toInt.toNat n.toNat).reverse.length : Nat)).toNat =
      digit.toInt.toNat - (numeral base.toInt.toNat n.toNat).length := by
    rw [List.length_reverse]
    omega
  rw [hcount] at hzeros
  have hfin := hzeros.finish
    (by
      rw [List.mem_append, List.mem_reverse, not_or]
      refine ⟨zero_notMem_numeral hlo hhi hn, fun hm => ?_⟩
      exact absurd (List.eq_of_mem_replicate hm) (by decide))
    (by
      rw [List.length_append, List.length_reverse, List.length_replicate]
      omega)
  rwa [List.reverse_append, List.reverse_reverse, List.reverse_replicate] at hfin

theorem itoa_writes (hb : 2 ≤ base.toInt) (hb' : base.toInt ≤ 16) {n : Int32}
    (hmin : n ≠ Int32.minValue) (m : Memory) :
    Writes m (itoa n base m) (intText base.toInt.toNat n.toInt) := by
  have hlt := n.toInt_lt
  have hle := n.le_toInt
  have hneg : n < 0 ↔ n.toInt < 0 := Int32.lt_iff_toInt_lt
  have hne : n.toInt ≠ -2147483648 := fun he => hmin (Int32.toInt_inj.mp he)
  have hlo : 2 ≤ base.toInt.toNat := by omega
  have hhi : base.toInt.toNat ≤ 16 := by omega
  have habs : n.toInt.natAbs < 2 ^ 32 := by omega
  have hvalue : (if n < 0 then (-n).toInt else n.toInt) = (n.toInt.natAbs : Int) := by
    split
    · next hn =>
      have hz := hneg.mp hn
      rw [Int32.toInt_neg, Int.bmod_eq_of_le (by omega) (by omega)]
      omega
    · next hn =>
      have hz : ¬ n.toInt < 0 := fun hc => hn (hneg.mpr hc)
      omega
  have hput := (holds_start m).putDigits base.toInt 32 (n := n.toInt.natAbs)
  have hlen := length_numeral_le hlo hhi habs
  have hz := zero_notMem_numeral hlo hhi habs
  rw [toInt_base hb, revDigits_word hlo hhi habs, List.nil_append, ← toInt_base hb] at hput
  unfold itoa intText
  rw [hvalue]
  by_cases hn : n < 0
  · simp only [if_pos hn, if_pos (hneg.mp hn)]
    have hfin := (hput.put chMinus).finish
      (by
        rw [List.mem_append, List.mem_reverse, List.mem_singleton, not_or]
        exact ⟨hz, by decide⟩)
      (by
        rw [List.length_append, List.length_reverse, List.length_singleton]
        omega)
    rwa [List.reverse_append, List.reverse_reverse] at hfin
  · simp only [if_neg hn, if_neg fun hc => hn (hneg.mpr hc)]
    have hfin := hput.finish (by rwa [List.mem_reverse]) (by rw [List.length_reverse]; omega)
    rwa [List.reverse_reverse] at hfin

open Verif.Numeral Http.UrlReader

theorem numeral_ten (n : Nat) : numeral 10 n = Decimal.decimal n := by
  rw [numeral, Decimal.decimal]
  split_ifs
  · rfl
  · congr 1
    refine List.map_congr_left fun d hd => ?_
    rw [Hex.digit, if_pos (Nat.digits_lt_base (by decide) hd)]
    rfl

theorem digits_decimal (n : Nat) : ∀ c ∈ Decimal.decimal n, isDigit c = true := Decimal.isDigit_decimal n

theorem ctoi_digit {c : UInt8} (h : isDigit c = true) : (ctoi c).toNat = c.toNat - 48 := by
  have hall : ∀ c : UInt8, isDigit c = true → (ctoi c).toNat = c.toNat - 48 :=
    forall_char (by decide +kernel)
  exact hall c h

theorem value_digits {t : List UInt8} (h : ∀ c ∈ t, isDigit c = true) :
    value decBase t = Decimal.value t := by
  have hall : ∀ v, valueFrom decBase v t = t.foldl Decimal.push v := by
    induction t with
    | nil => exact fun v => rfl
    | cons c t ih =>
      intro v
      have hstep : v * decBase.base + decBase.digit c = Decimal.push v c := by
        show v * 10 + (ctoi c).toNat = v * 10 + (c.toNat - 48)
        rw [ctoi_digit (h c List.mem_cons_self)]
      rw [valueFrom, List.foldl_cons, List.foldl_cons, hstep]
      exact ih (fun d hd => h d (List.mem_cons_of_mem _ hd)) _
  exact hall 0

theorem value_decimal (n : Nat) : value decBase (Decimal.decimal n) = n := by
  rw [value_digits (digits_decimal n), Decimal.value_decimal]

theorem looseNumeral_decimal {n bound : Nat} (h : n < bound) :
    looseNumeral decBase bound (Decimal.decimal n) = some n := by
  rw [looseNumeral, value_decimal, if_pos ⟨digits_decimal n, h⟩]

/-- A decimal number does not begin like a hexadecimal one. -/
theorem isHexPrefix_decimal (n : Nat) : isHexPrefix (Decimal.decimal n) = false := by
  have hdigit : ∀ c : UInt8, isDigit c = true → (tolower c == chLetterX) = false :=
    forall_char (by decide +kernel)
  have hall := digits_decimal n
  match hds : Decimal.decimal n with
  | [] => rfl
  | [c] =>
    rw [isHexPrefix]
    exact Bool.and_eq_false_imp.mpr fun _ => rfl
  | c :: d :: t =>
    rw [hds] at hall
    rw [isHexPrefix]
    exact Bool.and_eq_false_imp.mpr fun _ =>
      hdigit d (hall d (List.mem_cons_of_mem _ List.mem_cons_self))

theorem getD_decimal (n : Nat) : (Decimal.decimal n).getD 0 0 ≠ chMinus := by
  have hdigit : ∀ c : UInt8, isDigit c = true → c ≠ chMinus := forall_char (by decide +kernel)
  have hall := digits_decimal n
  match hds : Decimal.decimal n with
  | [] => exact absurd hds (Decimal.decimal_ne_nil n)
  | c :: t =>
    rw [hds] at hall
    exact hdigit c (hall c List.mem_cons_self)

theorem readsUInt (n : UInt32) : ReadsUInt n (numeral 10 n.toNat) := by
  intro url key p hp ht
  have hget := getUInt_eq url key
  rw [hp, Option.bind_some, ht, numeral_ten, looseUInt, isHexPrefix_decimal,
    if_neg Bool.false_ne_true, looseNumeral_decimal n.toNat_lt] at hget
  obtain ⟨r, hr, hrn⟩ := Option.map_eq_some_iff.mp hget
  rw [hr, UInt32.toNat_inj.mp hrn]

theorem readsInt {n : Int32} (hmin : n ≠ Int32.minValue) : ReadsInt n (intText 10 n.toInt) := by
  intro url key p hp ht
  have hlt := n.toInt_lt
  have hle := n.le_toInt
  have hne : n.toInt ≠ -2147483648 := fun he => hmin (Int32.toInt_inj.mp he)
  have hget := getInt_eq url key
  have hloose : looseInt (intText 10 n.toInt) = some n.toInt := by
    rw [intText, numeral_ten]
    split
    · next hneg =>
      have hhex : isHexPrefix (chMinus :: Decimal.decimal n.toInt.natAbs) = false := rfl
      have hsign : (chMinus :: Decimal.decimal n.toInt.natAbs).getD 0 0 = chMinus := rfl
      rw [looseInt, hhex, if_neg Bool.false_ne_true, if_neg (not_not.mpr hsign), List.drop_succ_cons,
        List.drop_zero, looseNumeral_decimal (by omega), Option.map_some]
      congr 1
      show -((n.toInt.natAbs : Nat) : Int) = _
      omega
    · next hpos =>
      rw [looseInt, isHexPrefix_decimal, if_neg Bool.false_ne_true, if_pos (getD_decimal _),
        looseNumeral_decimal (by omega), Option.map_some]
      congr 1
      show ((n.toInt.natAbs : Nat) : Int) = _
      omega
  rw [hp, Option.bind_some, ht, hloose] at hget
  obtain ⟨r, hr, hrn⟩ := Option.map_eq_some_iff.mp hget
  rw [hr, Int32.toInt_inj.mp hrn]

/-- Digits taken without a check wrap around. -/
theorem toNat_taken (ds : List UInt8) (t : UInt32) :
    (ds.foldl (fun t c => t * 10 + (ctoi c).toUInt32) t).toNat = valueFrom decBase t.toNat ds % 2 ^ 32 := by
  induction ds generalizing t with
  | nil => exact (Nat.mod_eq_of_lt t.toNat_lt).symm
  | cons c ds ih =>
    have hmod : ∀ v w : Nat, v % 2 ^ 32 = w % 2 ^ 32 →
        valueFrom decBase v ds % 2 ^ 32 = valueFrom decBase w ds % 2 ^ 32 := by
      clear ih
      induction ds with
      | nil => exact fun v w h => h
      | cons d ds ih =>
        intro v w h
        refine ih _ _ ?_
        rw [Nat.add_mod, Nat.mul_mod, h, ← Nat.mul_mod, ← Nat.add_mod]
    rw [List.foldl_cons, ih, toNat_pushed]
    exact hmod _ _ (Nat.mod_mod _ _)

theorem readUInt_decimal (n : UInt32) :
    FormatTextReader.readUInt (numeral 10 n.toNat) = ((numeral 10 n.toNat).length, n) := by
  rw [numeral_ten]
  have hall : (Decimal.decimal n.toNat).takeWhile isDigit = Decimal.decimal n.toNat :=
    List.takeWhile_eq_self_iff.mpr (digits_decimal n.toNat)
  have hvalue : valueFrom decBase (0 : UInt32).toNat (Decimal.decimal n.toNat) = n.toNat :=
    value_decimal n.toNat
  rw [FormatTextReader.readUInt, hall]
  refine Prod.ext rfl (UInt32.toNat_inj.mp ?_)
  rw [toNat_taken, hvalue, Nat.mod_eq_of_lt n.toNat_lt]

/-- Two characters are written where the number has eleven. -/
theorem not_writes_least : ¬Writes (fun _ => 0) (itoa Int32.minValue 10 fun _ => 0)
    (intText (10 : Int8).toInt.toNat Int32.minValue.toInt) := by
  intro h
  have hcount := h.count
  have htwo : (itoa Int32.minValue 10 fun _ => 0).1 = 2 := by decide
  have hten : (intText (10 : Int8).toInt.toNat Int32.minValue.toInt).length = 11 := by
    have hmin : Int32.minValue.toInt = -2147483648 := by decide
    have hbase : (10 : Int8).toInt.toNat = 10 := by decide
    rw [hmin, hbase]
    norm_num [intText, numeral]
  omega

/-- A signed number is written and read back unless it is the least one, whose negation wraps around;
the unsigned conversions have no exception. -/
theorem integer_text (n : Int32) (u : UInt32) :
    ((∀ (base : Int8) (m : Memory), 2 ≤ base.toInt → base.toInt ≤ 16 →
          Writes m (itoa n base m) (intText base.toInt.toNat n.toInt)) ∧
        ReadsInt n (intText 10 n.toInt) ↔ n ≠ Int32.minValue) ∧
      (∀ (base : Int8) (m : Memory), 2 ≤ base.toInt → base.toInt ≤ 16 →
        Writes m (uitoa u base m) (numeral base.toInt.toNat u.toNat) ∧
        ∀ digit : Int8, Writes m (uitoa2 u base digit m)
          ((numeral base.toInt.toNat u.toNat).leftpad digit.toInt.toNat chZero)) ∧
      ReadsUInt u (numeral 10 u.toNat) ∧
        FormatTextReader.readUInt (numeral 10 u.toNat) = ((numeral 10 u.toNat).length, u) := by
  refine ⟨⟨?_, fun hmin => ⟨fun base m hb hb' => itoa_writes hb hb' hmin m, readsInt hmin⟩⟩,
    fun base m hb hb' => ⟨uitoa_writes hb hb' u m, fun digit => uitoa2_writes hb hb' u digit m⟩,
    readsUInt u, readUInt_decimal u⟩
  rintro ⟨hwrites, -⟩ rfl
  exact not_writes_least (hwrites 10 (fun _ => 0) (by decide) (by decide))

/-- The least number is written as a sign and a character that is no digit. -/
theorem not_integer_text : ¬∀ (n : Int32) (base : Int8) (m : Memory), 2 ≤ base.toInt →
    base.toInt ≤ 16 → Writes m (itoa n base m) (intText base.toInt.toNat n.toInt) :=
  fun h => not_writes_least (h Int32.minValue 10 (fun _ => 0) (by decide) (by decide))

end MiMic.IntegerText
