import MiMic.Core.FormatWriter

/-!
# The work buffer of the format writer

`NyLPC_itoa` and its relatives write into an array `wk` of 16 bytes, by index and without a
check. Here the array is memory, of which the end of all stores is kept.
-/
namespace MiMic

/-- `NUM_OF_WORK`. -/
def numOfWork : Nat := 16

/-- `wk`: the memory from its address on, and the end of all that was ever stored there. -/
structure WorkArray where
  mem : Memory
  top : Nat

namespace WorkArray

def set (wk : WorkArray) (i : Nat) (c : UInt8) : WorkArray :=
  ⟨Function.update wk.mem i c, max wk.top (i + 1)⟩

def strlenFrom (m : Memory) : Nat → Nat → Nat
  | 0, _ => 0
  | fuel + 1, o => if m o = 0 then 0 else strlenFrom m fuel (o + 1) + 1

/-- `strlen` of a number, which has no more than 33 characters. -/
def strlen (wk : WorkArray) (o : Nat) : Nat := strlenFrom wk.mem 34 o

def reverseLoop : Nat → Nat → Nat → WorkArray → WorkArray
  | 0, _, _, wk => wk
  | fuel + 1, s, j, wk =>
      if s < j then reverseLoop fuel (s + 1) (j - 1) ((wk.set s (wk.mem j)).set j (wk.mem s)) else wk

/-- `NyLPC_reverse`. -/
def reverse (wk : WorkArray) (s : Nat) : WorkArray :=
  reverseLoop (wk.strlen s) s (s + wk.strlen s - 1) wk

/-- The digits at `o_out[i++]`, the last one first, with the `i` behind them. -/
def putDigits (base : Int) (o : Nat) : Nat → Int → Nat → WorkArray → Nat × WorkArray
  | 0, _, i, wk => (i, wk)
  | fuel + 1, n, i, wk =>
      let wk := wk.set (o + i) (digitChar (n.tmod base))
      if n.tdiv base > 0 then putDigits base o fuel (n.tdiv base) (i + 1) wk else (i + 1, wk)

/-- `o_out[i]='\0'` and the call of `NyLPC_reverse`. -/
def finish (o : Nat) (r : Nat × WorkArray) : WorkArray := (r.2.set (o + r.1) 0).reverse o

/-- `NyLPC_itoa` to `wk+o`. -/
def itoa (n : Int32) (base : Int) (o : Nat) (wk : WorkArray) : WorkArray :=
  let r := putDigits base o 32 (if n < 0 then (-n).toInt else n.toInt) 0 wk
  finish o (if n < 0 then (r.1 + 1, r.2.set (o + r.1) chMinus) else r)

/-- `NyLPC_uitoa`. -/
def uitoa (n : UInt32) (base : Int) (o : Nat) (wk : WorkArray) : WorkArray :=
  finish o (putDigits base o 32 n.toNat 0 wk)

/-- `while(i<i_digit)`. -/
def putZeros (o digit : Nat) (r : Nat × WorkArray) : Nat × WorkArray :=
  (List.range (digit - r.1)).foldl (fun r _ => (r.1 + 1, r.2.set (o + r.1) chZero)) r

/-- `NyLPC_uitoa2`. -/
def uitoa2 (n : UInt32) (base : Int) (digit o : Nat) (wk : WorkArray) : WorkArray :=
  finish o (putZeros o digit (putDigits base o 32 n.toNat 0 wk))

end WorkArray

/-- The array starts with `t`, and nothing was stored behind its end. -/
structure WorkArray.Shows (wk : WorkArray) (t : List UInt8) : Prop where
  window : wk.mem.window 0 t.length = t
  top : wk.top ≤ numOfWork

theorem window_update (m : Memory) (i n : Nat) (c : UInt8) :
    Memory.window (Function.update m i c) 0 n = (m.window 0 n).set i c := by
  apply List.ext_getElem
  · simp
  · intro j hj _
    by_cases hij : i = j
    · subst hij
      simp [Memory.window]
    · have hne : j ≠ i := fun he => hij he.symm
      simp [Memory.window, hij, Function.update_of_ne hne]

theorem window_succ (m : Memory) (n : Nat) : m.window 0 (n + 1) = m.window 0 n ++ [m n] := by
  simp [Memory.window, List.range_succ]

namespace WorkArray.Shows

variable {wk : WorkArray} {t : List UInt8}

theorem set (h : wk.Shows t) {i : Nat} (hi : i < numOfWork) (c : UInt8) :
    (wk.set i c).Shows (t.set i c) := by
  refine ⟨?_, Nat.max_le.mpr ⟨h.top, hi⟩⟩
  show Memory.window (Function.update wk.mem i c) 0 _ = _
  rw [window_update, List.length_set, h.window]

theorem snoc (h : wk.Shows t) (hlt : t.length < numOfWork) (c : UInt8) :
    (wk.set t.length c).Shows (t ++ [c]) := by
  refine ⟨?_, Nat.max_le.mpr ⟨h.top, hlt⟩⟩
  show Memory.window (Function.update wk.mem t.length c) 0 _ = _
  rw [List.length_append, List.length_singleton, window_succ, window_update, h.window,
    Function.update_self, List.set_eq_of_length_le le_rfl]

theorem take {s : List UInt8} (h : wk.Shows (s ++ t)) : wk.Shows s := by
  refine ⟨?_, h.top⟩
  have hlen : s.length ≤ (s ++ t).length := by simp
  have hw : wk.mem.window 0 s.length = (wk.mem.window 0 (s ++ t).length).take s.length := by
    rw [Memory.window, Memory.window, ← List.map_take, List.take_range, Nat.min_eq_left hlen]
  rw [hw, h.window, List.take_left]

theorem get {s : List UInt8} {c : UInt8} (h : wk.Shows (s ++ c :: t)) : wk.mem s.length = c := by
  have hs : wk.Shows (s ++ [c]) := by
    have happ : s ++ c :: t = (s ++ [c]) ++ t := by simp
    exact take (happ ▸ h)
  have hw := hs.window
  rw [List.length_append, List.length_singleton, window_succ] at hw
  exact List.singleton_inj.mp (List.append_inj_right' hw rfl)

end WorkArray.Shows

theorem strlenFrom_shows {wk : WorkArray} {t : List UInt8} (fuel : Nat) {pre : List UInt8}
    (h : wk.Shows (pre ++ (t ++ [0]))) (hz : 0 ∉ t) (hlt : t.length < fuel) :
    WorkArray.strlenFrom wk.mem fuel pre.length = t.length := by
  induction t generalizing pre fuel with
  | nil =>
    obtain ⟨fuel, rfl⟩ := Nat.exists_eq_add_of_lt hlt
    have hget : wk.mem pre.length = 0 := h.get
    rw [WorkArray.strlenFrom, if_pos hget, List.length_nil]
  | cons c t ih =>
    obtain ⟨fuel, rfl⟩ := Nat.exists_eq_add_of_lt (Nat.zero_lt_of_lt hlt)
    obtain ⟨hc, hz⟩ := not_or.mp fun hm => hz (List.mem_cons.mpr hm)
    have hget : wk.mem pre.length = c := h.get
    have hnext : wk.Shows ((pre ++ [c]) ++ (t ++ [0])) := by
      have happ : (pre ++ [c]) ++ (t ++ [0]) = pre ++ (c :: t ++ [0]) := by simp
      exact happ ▸ h
    have hrec := ih (0 + fuel) hnext hz (by rw [List.length_cons] at hlt; omega)
    rw [List.length_append, List.length_singleton] at hrec
    rw [WorkArray.strlenFrom, hget, if_neg (Ne.symm hc), hrec, List.length_cons]

namespace WorkArray.Shows

variable {wk : WorkArray}

/-- A number is too short for the limit of `strlen`. -/
theorem strlen {pre t : List UInt8} (h : wk.Shows (pre ++ (t ++ [0]))) (hz : 0 ∉ t)
    (hlt : t.length < 34) : wk.strlen pre.length = t.length := strlenFrom_shows 34 h hz hlt

/-- The two ends are exchanged, then what lies between them. -/
theorem reverseLoop (fuel : Nat) {pre mid post : List UInt8} (h : wk.Shows (pre ++ mid ++ post))
    (hfuel : mid.length ≤ fuel) (hfit : (pre ++ mid).length ≤ numOfWork) :
    (WorkArray.reverseLoop fuel pre.length (pre.length + mid.length - 1) wk).Shows
      (pre ++ mid.reverse ++ post) := by
  induction fuel generalizing wk pre mid post with
  | zero =>
    obtain rfl := List.length_eq_zero_iff.mp (Nat.le_zero.mp hfuel)
    exact h
  | succ fuel ih =>
    rw [WorkArray.reverseLoop]
    cases mid with
    | nil =>
      rw [if_neg (by simp)]
      exact h
    | cons a mid =>
      obtain rfl | ⟨m, z, rfl⟩ := List.eq_nil_or_concat mid
      · rw [if_neg (by simp)]
        exact h
      · simp only [List.concat_eq_append, List.length_append, List.length_cons,
          List.length_nil] at hfuel hfit h ⊢
        rw [if_pos (by omega)]
        have hfirst : wk.mem pre.length = a := by
          have happ : pre ++ a :: (m ++ [z]) ++ post = pre ++ a :: (m ++ [z] ++ post) := by simp
          exact (happ ▸ h).get
        have hlast : wk.mem (pre.length + (m.length + (0 + 1) + 1) - 1) = z := by
          have happ : pre ++ a :: (m ++ [z]) ++ post = (pre ++ a :: m) ++ z :: post := by simp
          have hz := (happ ▸ h).get
          rw [List.length_append, List.length_cons] at hz
          rw [← hz]
          congr 1
        have hset : ((pre ++ a :: (m ++ [z]) ++ post).set pre.length z).set
            (pre.length + (m.length + (0 + 1) + 1) - 1) a = (pre ++ [z]) ++ m ++ (a :: post) := by
          have hidx : pre.length + (m.length + (0 + 1) + 1) - 1 = pre.length + (m.length + 1) := by
            omega
          rw [hidx]
          simp
        have hswap := (h.set (i := pre.length) (by omega) z).set
          (i := pre.length + (m.length + (0 + 1) + 1) - 1) (by omega) a
        rw [hset] at hswap
        have hrec := ih hswap (by omega) (by
          rw [List.length_append, List.length_append, List.length_singleton]
          omega)
        rw [hfirst, hlast]
        have hs : (pre ++ [z]).length = pre.length + 1 := by simp
        have hj : (pre ++ [z]).length + m.length - 1 =
            pre.length + (m.length + (0 + 1) + 1) - 1 - 1 := by
          rw [hs]
          omega
        rw [hs, ← hs, hj, hs] at hrec
        have hrev : pre ++ (a :: (m ++ [z])).reverse ++ post =
            (pre ++ [z]) ++ m.reverse ++ (a :: post) := by simp
        rw [hrev]
        exact hrec

end WorkArray.Shows

/-- Behind `pre` stand the characters `ds`, and `i` is their number. -/
structure WorkArray.Stores (pre : List UInt8) (r : Nat × WorkArray) (ds : List UInt8) : Prop where
  count : r.1 = ds.length
  shows : r.2.Shows (pre ++ ds)

namespace WorkArray.Stores

variable {pre ds : List UInt8} {r : Nat × WorkArray}

theorem start {wk : WorkArray} (h : wk.Shows pre) : Stores pre (0, wk) [] :=
  ⟨rfl, by simpa using h⟩

/-- `o_out[i++]=c`. -/
theorem snoc (h : Stores pre r ds) (hfit : pre.length + ds.length < numOfWork) (c : UInt8) :
    Stores pre (r.1 + 1, r.2.set (pre.length + r.1) c) (ds ++ [c]) := by
  refine ⟨by simp [h.count], ?_⟩
  rw [h.count, ← List.length_append, ← List.append_assoc]
  exact h.shows.snoc (by rwa [List.length_append]) c

theorem putDigits {base : Int} (fuel : Nat) {n : Int} {i : Nat} {wk : WorkArray}
    (h : Stores pre (i, wk) ds)
    (hfit : pre.length + (ds.length + (revDigits base fuel n).length) ≤ numOfWork) :
    Stores pre (WorkArray.putDigits base pre.length fuel n i wk) (ds ++ revDigits base fuel n) := by
  induction fuel generalizing wk i n ds with
  | zero => simpa [WorkArray.putDigits, revDigits] using h
  | succ fuel ih =>
    rw [revDigits, List.length_cons] at hfit
    have hput := h.snoc (by omega) (digitChar (n.tmod base))
    rw [revDigits]
    simp only [WorkArray.putDigits]
    by_cases hpos : n.tdiv base > 0
    · simp only [if_pos hpos] at hfit ⊢
      have hrec := ih (n := n.tdiv base) hput
        (by rw [List.length_append, List.length_singleton]; omega)
      simpa using hrec
    · simp only [if_neg hpos]
      exact hput

theorem putZeros (digit : Nat) (h : Stores pre r ds)
    (hfit : pre.length + max ds.length digit ≤ numOfWork) :
    Stores pre (WorkArray.putZeros pre.length digit r)
      (ds ++ List.replicate (digit - ds.length) chZero) := by
  have hall : ∀ k : Nat, pre.length + (ds.length + k) ≤ numOfWork →
      Stores pre ((List.range k).foldl (fun (r : Nat × WorkArray) _ =>
        (r.1 + 1, r.2.set (pre.length + r.1) chZero)) r) (ds ++ List.replicate k chZero) := by
    intro k
    induction k with
    | zero =>
      intro _
      simpa using h
    | succ k ih =>
      intro hk
      have hsnoc := (ih (by omega)).snoc (by simp; omega) chZero
      rw [List.range_succ, List.foldl_append, List.replicate_succ', ← List.append_assoc]
      exact hsnoc
  rw [WorkArray.putZeros, h.count]
  exact hall (digit - ds.length) (by omega)

/-- The characters are closed by a terminator and turned round. -/
theorem finish (h : Stores pre r ds) (hz : 0 ∉ ds) (hfit : pre.length + ds.length < numOfWork) :
    (WorkArray.finish pre.length r).Shows (pre ++ (ds.reverse ++ [0])) := by
  have hnul := (h.snoc hfit 0).shows
  have hlen : ds.length < 34 := lt_of_le_of_lt (Nat.le_add_left _ _) (hfit.trans (by decide))
  have hstrlen := WorkArray.Shows.strlen hnul hz hlen
  rw [← List.append_assoc] at hnul
  have hrev := hnul.reverseLoop ds.length le_rfl (by rw [List.length_append]; exact hfit.le)
  rw [List.append_assoc] at hrev
  simp only [WorkArray.finish, WorkArray.reverse, hstrlen]
  exact hrev

end WorkArray.Stores

/-- The digits are characters, also those that `NyLPC_itoa` makes of a negative number. -/
theorem digitChar_ne_zero {v : Int} (hlo : -16 < v) (hhi : v < 16) : digitChar v ≠ 0 := by
  interval_cases v <;> decide

theorem zero_notMem_revDigits (base : Int) (hpos : 0 < base) (hb : base ≤ 16) (fuel : Nat) (n : Int) :
    (0 : UInt8) ∉ revDigits base fuel n := by
  induction fuel generalizing n with
  | zero => exact List.not_mem_nil
  | succ fuel ih =>
    have hhi := Int.tmod_lt_of_pos n hpos
    have hlo := Int.lt_tmod_of_pos n hpos
    have hdigit : digitChar (n.tmod base) ≠ 0 := digitChar_ne_zero (by omega) (by omega)
    rw [revDigits, List.mem_cons, not_or]
    refine ⟨hdigit.symm, ?_⟩
    split
    · exact ih _
    · exact List.not_mem_nil

/-- A number of 32 bits has no more than ten digits. -/
theorem length_revDigits_word {base : Int} (hb : 10 ≤ base) (fuel : Nat) {n : Int} (hlt : n < 2 ^ 32) :
    (revDigits base fuel n).length ≤ 10 := by
  by_cases hn : 0 ≤ n
  · refine length_revDigits_le base (by omega) fuel 9 hn (hlt.trans ?_)
    calc (2 : Int) ^ 32 < 10 ^ (9 + 1) := by norm_num
      _ ≤ base ^ (9 + 1) := pow_le_pow_left₀ (by norm_num) hb _
  · cases fuel with
    | zero => simp [revDigits]
    | succ fuel =>
      have hdiv : ¬ n.tdiv base > 0 := by
        have hneg := Int.tdiv_nonneg (a := -n) (b := base) (by omega) (by omega)
        rw [Int.neg_tdiv] at hneg
        omega
      rw [revDigits, if_neg hdiv]
      simp

/-- What a conversion to the start of `wk` leaves there: a text that ends inside the array. -/
structure WorkArray.Converts (conv : WorkArray → WorkArray) (t : List UInt8) : Prop where
  shows : ∀ wk : WorkArray, wk.Shows [] → (conv wk).Shows (t ++ [0])
  text : 0 ∉ t
  length : t.length < numOfWork

/-- `strlen` finds the end of what was converted. -/
theorem WorkArray.Converts.strlen {conv : WorkArray → WorkArray} {t : List UInt8} {wk : WorkArray}
    (h : WorkArray.Converts conv t) (hwk : wk.Shows []) : (conv wk).strlen 0 = t.length := by
  have hshow : (conv wk).Shows ([] ++ (t ++ [0])) := h.shows wk hwk
  exact hshow.strlen h.text (h.length.trans (by decide))

theorem converts_itoa (n : Int32) {base : Int} (hlo : 10 ≤ base) (hhi : base ≤ 16) :
    WorkArray.Converts (WorkArray.itoa n base 0) (itoa n base) := by
  have hint : (if n < 0 then (-n).toInt else n.toInt) < 2 ^ 32 := by
    have h1 := n.toInt_lt
    have h2 := (-n).toInt_lt
    split <;> omega
  have hten := length_revDigits_word hlo 32 hint
  have hz := zero_notMem_revDigits base (by omega) hhi 32 (if n < 0 then (-n).toInt else n.toInt)
  have hput : ∀ wk : WorkArray, wk.Shows [] →
      WorkArray.Stores [] (WorkArray.putDigits base 0 32 (if n < 0 then (-n).toInt else n.toInt) 0 wk)
        (revDigits base 32 (if n < 0 then (-n).toInt else n.toInt)) := by
    intro wk h
    have hfit : (revDigits base 32 (if n < 0 then (-n).toInt else n.toInt)).length ≤ 16 := by omega
    exact (WorkArray.Stores.start h).putDigits 32 (by simpa [numOfWork] using hfit)
  rw [itoa]
  generalize revDigits base 32 (if n < 0 then (-n).toInt else n.toInt) = ds at hten hz hput
  have hz' : (0 : UInt8) ∉ ds ++ [chMinus] := by simp [hz, chMinus]
  have hlen : ds.length < numOfWork := lt_of_le_of_lt hten (by decide)
  have hlen' : (ds ++ [chMinus]).length < numOfWork := by
    rw [List.length_append, List.length_singleton]
    exact lt_of_le_of_lt (Nat.succ_le_succ hten) (by decide)
  refine ⟨fun wk h => ?_, ?_, ?_⟩
  · have hr := hput wk h
    rw [WorkArray.itoa]
    by_cases hn : n < 0
    · simp only [if_pos hn] at hr ⊢
      exact (hr.snoc (by simpa using hlen) chMinus).finish hz' (by simpa using hlen')
    · simp only [if_neg hn] at hr ⊢
      exact hr.finish hz (by simpa using hlen)
  · split
    · rwa [List.mem_reverse]
    · rwa [List.mem_reverse]
  · rw [List.length_reverse]
    split
    · exact hlen'
    · exact hlen

theorem converts_uitoa (n : UInt32) {base : Int} (hlo : 10 ≤ base) (hhi : base ≤ 16) :
    WorkArray.Converts (WorkArray.uitoa n base 0) (uitoa n base) := by
  have hten := length_revDigits_word hlo 32 (n := n.toNat) (by have := n.toNat_lt; omega)
  have hz := zero_notMem_revDigits base (by omega) hhi 32 n.toNat
  have hlen : (revDigits base 32 n.toNat).length < numOfWork := lt_of_le_of_lt hten (by decide)
  refine ⟨fun wk h => ?_, ?_, ?_⟩
  · exact ((WorkArray.Stores.start h).putDigits 32 (by simpa using hlen.le)).finish hz
      (by simpa using hlen)
  · rwa [uitoa, List.mem_reverse]
  · rwa [uitoa, List.length_reverse]

/-- The two digits of a byte, behind what the buffer holds. -/
theorem shows_uitoa2 (b : UInt8) {wk : WorkArray} {pre : List UInt8} (h : wk.Shows pre)
    (hfit : pre.length + 2 < numOfWork) :
    (wk.uitoa2 b.toUInt32 16 2 pre.length).Shows (pre ++ (uitoa2 b.toUInt32 16 2 ++ [0])) := by
  have htwo := length_uitoa2_byte b
  have hz := zero_notMem_revDigits 16 (by decide) le_rfl 32 b.toUInt32.toNat
  rw [uitoa2, List.length_reverse] at htwo
  rw [uitoa2, WorkArray.uitoa2]
  generalize hds : revDigits 16 32 (b.toUInt32.toNat : Int) = ds at htwo hz
  have hlen : ds.length ≤ 2 := by
    rw [List.length_append] at htwo
    omega
  have hput : WorkArray.Stores pre
      (WorkArray.putDigits 16 pre.length 32 b.toUInt32.toNat 0 wk) ([] ++ revDigits 16 32 b.toUInt32.toNat) :=
    (WorkArray.Stores.start h).putDigits 32 (by rw [hds, List.length_nil]; omega)
  rw [hds, List.nil_append] at hput
  have hz' : (0 : UInt8) ∉ ds ++ List.replicate (2 - ds.length) chZero := by
    simp [hz, chZero]
  exact (hput.putZeros 2 (by rw [Nat.max_eq_right hlen]; exact hfit.le)).finish hz'
    (by rw [htwo]; exact hfit)

end MiMic
