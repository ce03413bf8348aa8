import MiMic.Core.Chars
import MiMic.Lib.Decimal

/-!
# The format writer

`NyLPC_cFormatWriter_print` hands formatted text to a handler in pieces of at most 16 bytes,
`NyLPC_cFormatWriter_length` is the dry run that only counts.
-/
namespace MiMic

def chPercent : UInt8 := 0x25
def chAsterisk : UInt8 := 0x2a

/-- The character of a digit; `v` is negative only behind the negation of `INT_MIN`. -/
def digitChar (v : Int) : UInt8 :=
  if v < 10 then UInt8.ofInt (v + 0x30) else UInt8.ofInt (v + 0x61 - 10)

/-- The loop of the `itoa` functions, the last digit first; 32 rounds are enough for every
base. -/
def revDigits (base : Int) : Nat → Int → List UInt8
  | 0, _ => []
  | fuel + 1, n =>
      digitChar (n.tmod base) :: if n.tdiv base > 0 then revDigits base fuel (n.tdiv base) else []

/-- `NyLPC_itoa`. -/
def itoa (n : Int32) (base : Int) : List UInt8 :=
  let ds := revDigits base 32 (if n < 0 then (-n).toInt else n.toInt)
  (if n < 0 then ds ++ [chMinus] else ds).reverse

/-- `NyLPC_uitoa`. -/
def uitoa (n : UInt32) (base : Int) : List UInt8 := (revDigits base 32 n.toNat).reverse

/-- `NyLPC_uitoa2`. -/
def uitoa2 (n : UInt32) (base : Int) (digit : Nat) : List UInt8 :=
  let ds := revDigits base 32 n.toNat
  (ds ++ List.replicate (digit - ds.length) chZero).reverse

/-- What `va_arg` finds: a word, or a pointer and the memory from there on, a NUL behind it. -/
inductive FormatArg
  | word (w : UInt32)
  | ptr (mem : List UInt8)

/-- The types of the arguments are not checked by the code; `none` stands for a call that
does not pass what its format asks for. -/
def nextWord : List FormatArg → Option (UInt32 × List FormatArg)
  | .word w :: args => some (w, args)
  | _ => none

def nextPtr : List FormatArg → Option (List UInt8 × List FormatArg)
  | .ptr mem :: args => some (mem, args)
  | _ => none

/-- `FTYPE_NOTHING` and `FTYPE_LENGTH`. -/
inductive FType
  | nothing | length

/-- The limit `ut` of a conversion, which stands before its text among the arguments. -/
def nextLimit (dflt : UInt32) : FType → List FormatArg → Option (UInt32 × List FormatArg)
  | .length, args => nextWord args
  | .nothing, args => some (dflt, args)

/-- The text of `%s`. -/
def limited (mem : List UInt8) (ut : UInt32) : List UInt8 := (cString mem).take ut.toNat

/-- Where the loop stands: in the text, or behind a `%`. -/
inductive FormatPos
  | text
  | spec (f : FType)

/-- The work buffer, and what the handler was called with. -/
structure FormatWork where
  wk : List UInt8
  out : List (List UInt8)

namespace FormatWork

def put (w : FormatWork) (c : UInt8) : FormatWork :=
  if (w.wk ++ [c]).length ≥ 16 then ⟨[], w.out ++ [w.wk ++ [c]]⟩ else ⟨w.wk ++ [c], w.out⟩

/-- The buffer is emptied, then a number is handed on at once. -/
def commit (w : FormatWork) (text : List UInt8) : FormatWork :=
  if w.wk.length > 0 then ⟨[], w.out ++ [w.wk] ++ [text]⟩ else ⟨[], w.out ++ [text]⟩

/-- One byte of `%.*B`. -/
def putHex (w : FormatWork) (b : UInt8) : FormatWork :=
  if w.wk.length ≥ 14 then ⟨uitoa2 b.toUInt32 16 2, w.out ++ [w.wk]⟩
  else ⟨w.wk ++ uitoa2 b.toUInt32 16 2, w.out⟩

end FormatWork

def printLoop : FormatPos → List UInt8 → FormatWork → List FormatArg → Option FormatWork
  | .text, [], w, _ => some w
  | .text, c :: cs, w, args =>
      if c = chPercent then printLoop (.spec .nothing) cs w args
      else printLoop .text cs (w.put c) args
  | .spec _, [], w, _ => some w
  | .spec f, c :: cs, w, args =>
      if c = chDot then
        match cs with
        | d :: ds =>
            if d = chAsterisk then printLoop (.spec .length) ds w args
            else printLoop .text (d :: ds) (w.put c) args
        | [] => printLoop .text [] (w.put c) args
      else if c = 0x73 then do
        let (ut, args) ← nextLimit 0x7fffffff f args
        let (mem, args) ← nextPtr args
        printLoop .text cs ((limited mem ut).foldl FormatWork.put w) args
      else if c = 0x63 then do
        let (v, args) ← nextWord args
        printLoop .text cs (w.put v.toUInt8) args
      else if c = 0x64 then do
        let (v, args) ← nextWord args
        printLoop .text cs (w.commit (itoa v.toInt32 10)) args
      else if c = 0x75 then do
        let (v, args) ← nextWord args
        printLoop .text cs (w.commit (uitoa v 10)) args
      else if c = 0x78 then do
        let (v, args) ← nextWord args
        printLoop .text cs (w.commit (uitoa v 16)) args
      else if c = 0x42 then do
        let (ut, args) ← nextLimit 0 f args
        let (mem, args) ← nextPtr args
        if ut.toNat ≤ mem.length then
          printLoop .text cs ((mem.take ut.toNat).foldl FormatWork.putHex w) args
        else none
      else if c = chPercent then printLoop .text cs (w.put c) args
      else
        -- `rp` is not moved on: an unknown character is printed once more as text
        printLoop .text cs ((w.put c).put c) args

/-- `NyLPC_cFormatWriter_print`: the pieces that its handler is called with. -/
def formatPrint (fmt : List UInt8) (args : List FormatArg) : Option (List (List UInt8)) :=
  (printLoop .text fmt ⟨[], []⟩ args).map fun w => w.out ++ [w.wk]

def lengthLoop : FormatPos → List UInt8 → Int16 → List FormatArg → Option Int16
  | .text, [], len, _ => some len
  | .text, c :: cs, len, args =>
      if c = chPercent then lengthLoop (.spec .nothing) cs len args
      else lengthLoop .text cs (len + 1) args
  | .spec _, [], len, _ => some len
  | .spec f, c :: cs, len, args =>
      if c = chDot then
        match cs with
        | d :: ds =>
            if d = chAsterisk then lengthLoop (.spec .length) ds len args
            else lengthLoop .text (d :: ds) (len + 1) args
        | [] => lengthLoop .text [] (len + 1) args
      else if c = 0x73 then do
        let (ut, args) ← nextLimit 0x7fffffff f args
        let (mem, args) ← nextPtr args
        lengthLoop .text cs ((limited mem ut).foldl (fun len _ => len + 1) len) args
      else if c = 0x63 then do
        let (_, args) ← nextWord args
        lengthLoop .text cs (len + 1) args
      else if c = 0x64 then do
        let (v, args) ← nextWord args
        lengthLoop .text cs (len + Int16.ofNat (itoa v.toInt32 10).length) args
      else if c = 0x75 then do
        let (v, args) ← nextWord args
        lengthLoop .text cs (len + Int16.ofNat (uitoa v 10).length) args
      else if c = 0x78 then do
        let (v, args) ← nextWord args
        lengthLoop .text cs (len + Int16.ofNat (uitoa v 16).length) args
      else if c = 0x42 then do
        let (ut, args) ← nextLimit 0 f args
        let (_, args) ← nextPtr args
        lengthLoop .text cs (len + Int16.ofNat ut.toNat * 2) args
      else if c = chPercent then lengthLoop .text cs (len + 1) args
      else lengthLoop .text cs (len + 1 + 1) args

/-- `NyLPC_cFormatWriter_length`, in 16 bits. -/
def formatLength (fmt : List UInt8) (args : List FormatArg) : Option Int16 :=
  lengthLoop .text fmt 0 args

/-- The text of one conversion, with the arguments it leaves. -/
def convText (c : UInt8) (f : FType) (args : List FormatArg) :
    Option (List UInt8 × List FormatArg) :=
  if c = 0x73 then do
    let (ut, args) ← nextLimit 0x7fffffff f args
    let (mem, args) ← nextPtr args
    some (limited mem ut, args)
  else if c = 0x63 then (nextWord args).map fun (v, args) => ([v.toUInt8], args)
  else if c = 0x64 then (nextWord args).map fun (v, args) => (itoa v.toInt32 10, args)
  else if c = 0x75 then (nextWord args).map fun (v, args) => (uitoa v 10, args)
  else if c = 0x78 then (nextWord args).map fun (v, args) => (uitoa v 16, args)
  else if c = 0x42 then do
    let (ut, args) ← nextLimit 0 f args
    let (mem, args) ← nextPtr args
    if ut.toNat ≤ mem.length then
      some ((mem.take ut.toNat).flatMap fun b => uitoa2 b.toUInt32 16 2, args)
    else none
  else if c = chPercent then some ([c], args)
  else some ([c, c], args)

def textLoop : FormatPos → List UInt8 → List FormatArg → Option (List UInt8)
  | .text, [], _ => some []
  | .text, c :: cs, args =>
      if c = chPercent then textLoop (.spec .nothing) cs args
      else (textLoop .text cs args).map (c :: ·)
  | .spec _, [], _ => some []
  | .spec f, c :: cs, args =>
      if c = chDot then
        match cs with
        | d :: ds =>
            if d = chAsterisk then textLoop (.spec .length) ds args
            else (textLoop .text (d :: ds) args).map (c :: ·)
        | [] => some [c]
      else do
        let (t, args) ← convText c f args
        (textLoop .text cs args).map (t ++ ·)

/-- What the format writer writes. -/
def formatText (fmt : List UInt8) (args : List FormatArg) : Option (List UInt8) :=
  textLoop .text fmt args

namespace FormatWork

/-- Everything printed so far. -/
def text (w : FormatWork) : List UInt8 := w.out.flatten ++ w.wk

@[simp] theorem text_put (w : FormatWork) (c : UInt8) : (w.put c).text = w.text ++ [c] := by
  unfold put
  split <;> simp [text]

@[simp] theorem text_commit (w : FormatWork) (t : List UInt8) : (w.commit t).text = w.text ++ t := by
  unfold commit
  split
  · simp [text]
  · next h =>
    have hnil : w.wk = [] := List.length_eq_zero_iff.mp (by omega)
    simp [text, hnil]

@[simp] theorem text_putHex (w : FormatWork) (b : UInt8) :
    (w.putHex b).text = w.text ++ uitoa2 b.toUInt32 16 2 := by
  unfold putHex
  split <;> simp [text]

@[simp] theorem text_putAll (w : FormatWork) (cs : List UInt8) :
    (cs.foldl put w).text = w.text ++ cs := by
  induction cs generalizing w with
  | nil => simp
  | cons c cs ih => simp [ih]

@[simp] theorem text_putHexAll (w : FormatWork) (bs : List UInt8) :
    (bs.foldl putHex w).text = w.text ++ bs.flatMap fun b => uitoa2 b.toUInt32 16 2 := by
  induction bs generalizing w with
  | nil => simp
  | cons b bs ih => simp [ih]

end FormatWork

theorem textLoop_conv {c : UInt8} (f : FType) (cs : List UInt8) (args : List FormatArg)
    (hc : c ≠ chDot) : textLoop (.spec f) (c :: cs) args =
      (convText c f args).bind fun r => (textLoop .text cs r.2).map (r.1 ++ ·) := by
  rw [textLoop.eq_def]
  simp only [if_neg hc]
  rfl

theorem textLoop_dot {d : UInt8} (f : FType) (ds : List UInt8) (args : List FormatArg)
    (hd : d ≠ chAsterisk) : textLoop (.spec f) (chDot :: d :: ds) args =
      (textLoop .text (d :: ds) args).map ([chDot] ++ ·) := by
  rw [textLoop.eq_def]
  simp only [if_true, if_neg hd]
  rfl

theorem map_text_append (o : Option (List UInt8)) (s t : List UInt8) :
    (o.map (s ++ ·)).map (t ++ ·) = o.map (t ++ s ++ ·) := by
  cases o <;> simp

/-- The pieces are the text of the format. -/
theorem printLoop_text (pos : FormatPos) (fmt : List UInt8) (w : FormatWork)
    (args : List FormatArg) :
    (printLoop pos fmt w args).map FormatWork.text = (textLoop pos fmt args).map (w.text ++ ·) := by
  have hcons : ∀ c : UInt8, (c :: · : List UInt8 → List UInt8) = ([c] ++ ·) := fun _ => rfl
  fun_induction printLoop pos fmt w args with
  | case1 w args => simp [textLoop]
  | case2 cs w args ih => simp [textLoop, ih]
  | case3 c cs w args hc ih =>
    rw [textLoop, if_neg hc, ih, hcons, map_text_append, FormatWork.text_put]
  | case4 f w args => simp [textLoop]
  | case5 f w args ds ih => simp [textLoop, ih]
  | case6 f w args d ds hd ih =>
    rw [textLoop_dot f ds args hd, ih, map_text_append, FormatWork.text_put]
  | case7 f w args ih => simp [textLoop, ih]
  | case8 f cs w args hd ih =>
    rw [textLoop_conv f cs args hd, convText, if_pos rfl]
    cases nextLimit 0x7fffffff f args with
    | none => rfl
    | some l =>
      cases hp : nextPtr l.2 with
      | none => simp [hp]
      | some m => simp [hp, ih, Function.comp_def]
  | case9 f cs w args hd _ ih | case10 f cs w args hd _ _ ih | case11 f cs w args hd _ _ _ ih
  | case12 f cs w args hd _ _ _ _ ih =>
    rw [textLoop_conv f cs args hd]
    cases hw : nextWord args with
    | none => simp [convText, hw]
    | some v => simp [convText, hw, ih, Function.comp_def]
  | case13 f cs w args hd _ _ _ _ _ ih =>
    rw [textLoop_conv f cs args hd]
    cases hl : nextLimit 0 f args with
    | none => simp [convText, hl]
    | some l =>
      cases hp : nextPtr l.2 with
      | none => simp [convText, hl, hp]
      | some m =>
        by_cases hle : l.1.toNat ≤ m.1.length
        · simp [convText, hl, hp, hle, ih, Function.comp_def]
        · simp [convText, hl, hp, hle]
  | case14 f cs w args hd h1 h2 h3 h4 h5 h6 ih =>
    rw [textLoop_conv f cs args hd, ih]
    simp [convText, h1, h2, h3, h4, h5, h6, Function.comp_def]
  | case15 f c cs w args hd h1 h2 h3 h4 h5 h6 h7 ih =>
    rw [textLoop_conv f cs args hd, ih]
    simp [convText, h1, h2, h3, h4, h5, h6, h7, Function.comp_def]

theorem formatPrint_text (fmt : List UInt8) (args : List FormatArg) :
    (formatPrint fmt args).map List.flatten = formatText fmt args := by
  have h := printLoop_text .text fmt ⟨[], []⟩ args
  rw [formatPrint, formatText, Option.map_map]
  have hflat : (List.flatten ∘ fun w : FormatWork => w.out ++ [w.wk]) = FormatWork.text := by
    funext w
    simp [FormatWork.text]
  rw [hflat, h]
  cases textLoop .text fmt args <;> simp [FormatWork.text]

theorem length_revDigits (base : Int) (fuel : Nat) (n : Int) :
    (revDigits base fuel n).length ≤ fuel := by
  induction fuel generalizing n with
  | zero => exact le_rfl
  | succ fuel ih =>
    rw [revDigits, List.length_cons]
    split
    · exact Nat.succ_le_succ (ih _)
    · exact Nat.succ_le_succ (Nat.zero_le _)

theorem length_itoa (n : Int32) (base : Int) : (itoa n base).length ≤ 33 := by
  unfold itoa
  dsimp only
  rw [List.length_reverse]
  split
  · rw [List.length_append, List.length_singleton]
    exact Nat.succ_le_succ (length_revDigits base 32 _)
  · exact Nat.le_succ_of_le (length_revDigits base 32 _)

theorem length_uitoa (n : UInt32) (base : Int) : (uitoa n base).length ≤ 33 := by
  simp [uitoa, Nat.le_succ_of_le, length_revDigits]

theorem length_revDigits_le (base : Int) (hb : 1 < base) (fuel k : Nat) {n : Int} (hn : 0 ≤ n)
    (hlt : n < base ^ (k + 1)) : (revDigits base fuel n).length ≤ k + 1 := by
  induction fuel generalizing n k with
  | zero => simp [revDigits]
  | succ fuel ih =>
    rw [revDigits, List.length_cons]
    have hdiv : n.tdiv base = n / base := Int.tdiv_eq_ediv_of_nonneg hn
    rw [hdiv]
    split
    · next hpos =>
      cases k with
      | zero =>
        rw [Int.ediv_eq_zero_of_lt hn (by simpa using hlt)] at hpos
        exact absurd hpos (lt_irrefl 0)
      | succ k =>
        have hq : n / base < base ^ (k + 1) := by
          refine Int.ediv_lt_of_lt_mul (by omega) ?_
          rwa [← pow_succ]
        have := ih k (by omega) hq
        omega
    · simp

theorem length_uitoa2_byte (b : UInt8) : (uitoa2 b.toUInt32 16 2).length = 2 := by
  have hlt : (b.toUInt32.toNat : Int) < 16 ^ (1 + 1) := by
    have := b.toNat_lt
    rw [UInt8.toNat_toUInt32]
    omega
  have hle := length_revDigits_le 16 (by decide) 32 1 (Int.natCast_nonneg _) hlt
  rw [uitoa2, List.length_reverse, List.length_append, List.length_replicate]
  omega

/-- No piece is longer than a number can be. -/
def FormatWork.Short (w : FormatWork) : Prop := w.wk.length < 16 ∧ ∀ p ∈ w.out, p.length ≤ 33

namespace FormatWork.Short

variable {w : FormatWork}

theorem put (h : w.Short) (c : UInt8) : (w.put c).Short := by
  unfold FormatWork.put
  split
  · refine ⟨by simp, fun p hp => ?_⟩
    obtain hp | hp := List.mem_append.mp hp
    · exact h.2 p hp
    · obtain rfl := List.mem_singleton.mp hp
      have := h.1
      rw [List.length_append, List.length_singleton]
      omega
  · next hlt => exact ⟨not_le.mp hlt, h.2⟩

theorem commit (h : w.Short) {t : List UInt8} (ht : t.length ≤ 33) : (w.commit t).Short := by
  have hwk := h.1
  unfold FormatWork.commit
  split
  · refine ⟨by simp, fun p hp => ?_⟩
    simp only [List.mem_append, List.mem_singleton] at hp
    obtain (hp | rfl) | rfl := hp
    · exact h.2 p hp
    · omega
    · exact ht
  · refine ⟨by simp, fun p hp => ?_⟩
    obtain hp | hp := List.mem_append.mp hp
    · exact h.2 p hp
    · exact List.mem_singleton.mp hp ▸ ht

theorem putHex (h : w.Short) (b : UInt8) : (w.putHex b).Short := by
  have hwk := h.1
  have hb := length_uitoa2_byte b
  unfold FormatWork.putHex
  split
  · refine ⟨by simp only; omega, fun p hp => ?_⟩
    obtain hp | hp := List.mem_append.mp hp
    · exact h.2 p hp
    · obtain rfl := List.mem_singleton.mp hp
      omega
  · exact ⟨by rw [List.length_append]; omega, h.2⟩

theorem putAll (h : w.Short) (cs : List UInt8) : (cs.foldl FormatWork.put w).Short := by
  induction cs generalizing w with
  | nil => exact h
  | cons c cs ih => exact ih (h.put c)

theorem putHexAll (h : w.Short) (bs : List UInt8) : (bs.foldl FormatWork.putHex w).Short := by
  induction bs generalizing w with
  | nil => exact h
  | cons b bs ih => exact ih (h.putHex b)

end FormatWork.Short

theorem printLoop_short {pos : FormatPos} {fmt : List UInt8} {w w' : FormatWork}
    {args : List FormatArg} (hw : w.Short) (h : printLoop pos fmt w args = some w') : w'.Short := by
  fun_induction printLoop pos fmt w args with
  | case1 w args => exact Option.some.inj h ▸ hw
  | case2 cs w args ih => exact ih hw h
  | case3 c cs w args _ ih => exact ih (hw.put c) h
  | case4 f w args => exact Option.some.inj h ▸ hw
  | case5 f w args ds ih => exact ih hw h
  | case6 f w args d ds _ ih => exact ih (hw.put chDot) h
  | case7 f w args ih => exact ih (hw.put chDot) h
  | case8 f cs w args _ ih =>
    cases hl : nextLimit 0x7fffffff f args with
    | none => simp [hl] at h
    | some l =>
      cases hp : nextPtr l.2 with
      | none => simp [hl, hp] at h
      | some m =>
        simp only [hl, hp, Option.bind_eq_bind, Option.bind_some] at h
        exact ih _ _ _ (hw.putAll _) h
  | case9 f cs w args _ _ ih =>
    obtain ⟨v, -, h⟩ := Option.bind_eq_some_iff.mp h
    exact ih _ _ (hw.put _) h
  | case10 f cs w args _ _ _ ih =>
    obtain ⟨v, -, h⟩ := Option.bind_eq_some_iff.mp h
    exact ih _ _ (hw.commit (length_itoa _ _)) h
  | case11 f cs w args _ _ _ _ ih =>
    obtain ⟨v, -, h⟩ := Option.bind_eq_some_iff.mp h
    exact ih _ _ (hw.commit (length_uitoa _ _)) h
  | case12 f cs w args _ _ _ _ _ ih =>
    obtain ⟨v, -, h⟩ := Option.bind_eq_some_iff.mp h
    exact ih _ _ (hw.commit (length_uitoa _ _)) h
  | case13 f cs w args _ _ _ _ _ _ ih =>
    obtain ⟨⟨ut, args'⟩, -, h⟩ := Option.bind_eq_some_iff.mp h
    obtain ⟨⟨mem, args''⟩, -, h⟩ := Option.bind_eq_some_iff.mp h
    dsimp only at h
    split at h
    · exact ih _ _ _ (hw.putHexAll _) h
    · cases h
  | case14 f cs w args _ _ _ _ _ _ _ ih => exact ih (hw.put _) h
  | case15 f c cs w args _ _ _ _ _ _ _ _ ih => exact ih ((hw.put _).put _) h

theorem formatPrint_short {fmt : List UInt8} {args : List FormatArg} {pieces : List (List UInt8)}
    (h : formatPrint fmt args = some pieces) : pieces ≠ [] ∧ ∀ p ∈ pieces, p.length ≤ 33 := by
  obtain ⟨w, hw, rfl⟩ := Option.map_eq_some_iff.mp h
  have hshort := printLoop_short ⟨by simp, by simp⟩ hw
  refine ⟨by simp, fun p hp => ?_⟩
  obtain hp | hp := List.mem_append.mp hp
  · exact hshort.2 p hp
  · have := hshort.1
    rw [List.mem_singleton.mp hp]
    omega

theorem count_foldl (len : Int16) (cs : List UInt8) :
    cs.foldl (fun len _ => len + 1) len = len + Int16.ofNat cs.length := by
  induction cs generalizing len with
  | nil => simp
  | cons c cs ih =>
    rw [List.foldl_cons, ih, List.length_cons, Int16.ofNat_add]
    grind

theorem length_hexBytes (bs : List UInt8) :
    (bs.flatMap fun b => uitoa2 b.toUInt32 16 2).length = 2 * bs.length := by
  simp [List.length_flatMap, length_uitoa2_byte, Nat.mul_comm]

/-- What a conversion adds to the count. -/
theorem count_append (len : Int16) {s : List UInt8} {o : Option (List UInt8)} {t : List UInt8}
    (h : o.map (s ++ ·) = some t) : ∃ t', o = some t' ∧
      len + Int16.ofNat t.length = len + Int16.ofNat s.length + Int16.ofNat t'.length := by
  cases o with
  | none => cases h
  | some t' =>
    obtain rfl := Option.some.inj h
    refine ⟨t', rfl, ?_⟩
    rw [List.length_append, Int16.ofNat_add, Int16.add_assoc]

theorem lengthLoop_text {pos : FormatPos} {fmt t : List UInt8} {args : List FormatArg}
    (len : Int16) (h : textLoop pos fmt args = some t) :
    lengthLoop pos fmt len args = some (len + Int16.ofNat t.length) := by
  have hcons : ∀ c : UInt8, (c :: · : List UInt8 → List UInt8) = ([c] ++ ·) := fun _ => rfl
  fun_induction lengthLoop pos fmt len args generalizing t with
  | case1 len args =>
    obtain rfl := Option.some.inj h
    simp
  | case2 cs len args ih =>
    rw [textLoop, if_pos rfl] at h
    exact ih h
  | case3 c cs len args hc ih =>
    rw [textLoop, if_neg hc, hcons] at h
    obtain ⟨t', ht', hlen⟩ := count_append len h
    rw [hlen]
    exact ih ht'
  | case4 f len args =>
    rw [textLoop] at h
    obtain rfl := Option.some.inj h
    simp
  | case5 f len args ds ih =>
    simp only [textLoop, if_true] at h
    exact ih h
  | case6 f len args d ds hd ih =>
    rw [textLoop_dot f ds args hd] at h
    obtain ⟨t', ht', hlen⟩ := count_append len h
    rw [hlen]
    exact ih ht'
  | case7 f len args ih =>
    simp only [textLoop, if_true] at h
    obtain rfl := Option.some.inj h
    rfl
  | case8 f cs len args hd ih =>
    rw [textLoop_conv f cs args hd, convText, if_pos rfl] at h
    cases hl : nextLimit 0x7fffffff f args with
    | none => simp [hl] at h
    | some l =>
      cases hp : nextPtr l.2 with
      | none => simp [hl, hp] at h
      | some m =>
        simp only [hl, hp, Option.bind_eq_bind, Option.bind_some] at h ⊢
        obtain ⟨t', ht', hlen⟩ := count_append len h
        rw [hlen, ← count_foldl len (limited m.1 l.1)]
        exact ih _ _ _ ht'
  | case9 f cs len args hd _ ih =>
    rw [textLoop_conv f cs args hd] at h
    cases hw : nextWord args with
    | none => simp [convText, hw] at h
    | some v =>
      have hconv : convText 0x63 f args = some ([v.1.toUInt8], v.2) := by simp [convText, hw]
      rw [hconv] at h
      obtain ⟨t', ht', hlen⟩ := count_append len h
      simp only [Option.bind_eq_bind, Option.bind_some, hlen]
      exact ih _ ht'
  | case10 f cs len args hd _ _ ih =>
    rw [textLoop_conv f cs args hd] at h
    cases hw : nextWord args with
    | none => simp [convText, hw] at h
    | some v =>
      have hconv : convText 0x64 f args = some (itoa v.1.toInt32 10, v.2) := by simp [convText, hw]
      rw [hconv] at h
      obtain ⟨t', ht', hlen⟩ := count_append len h
      simp only [Option.bind_eq_bind, Option.bind_some, hlen]
      exact ih _ _ ht'
  | case11 f cs len args hd _ _ _ ih =>
    rw [textLoop_conv f cs args hd] at h
    cases hw : nextWord args with
    | none => simp [convText, hw] at h
    | some v =>
      have hconv : convText 0x75 f args = some (uitoa v.1 10, v.2) := by simp [convText, hw]
      rw [hconv] at h
      obtain ⟨t', ht', hlen⟩ := count_append len h
      simp only [Option.bind_eq_bind, Option.bind_some, hlen]
      exact ih _ _ ht'
  | case12 f cs len args hd _ _ _ _ ih =>
    rw [textLoop_conv f cs args hd] at h
    cases hw : nextWord args with
    | none => simp [convText, hw] at h
    | some v =>
      have hconv : convText 0x78 f args = some (uitoa v.1 16, v.2) := by simp [convText, hw]
      rw [hconv] at h
      obtain ⟨t', ht', hlen⟩ := count_append len h
      simp only [Option.bind_eq_bind, Option.bind_some, hlen]
      exact ih _ _ ht'
  | case13 f cs len args hd _ _ _ _ _ ih =>
    rw [textLoop_conv f cs args hd] at h
    cases hl : nextLimit 0 f args with
    | none => simp [convText, hl] at h
    | some l =>
      cases hp : nextPtr l.2 with
      | none => simp [convText, hl, hp] at h
      | some m =>
        by_cases hle : l.1.toNat ≤ m.1.length
        · have hconv : convText 0x42 f args =
              some ((m.1.take l.1.toNat).flatMap fun b => uitoa2 b.toUInt32 16 2, m.2) := by
            simp [convText, hl, hp, hle]
          rw [hconv] at h
          obtain ⟨t', ht', hlen⟩ := count_append len h
          rw [length_hexBytes, List.length_take, Nat.min_eq_left hle, Nat.mul_comm,
            Int16.ofNat_mul] at hlen
          simp only [hp, Option.bind_eq_bind, Option.bind_some, hlen]
          exact ih _ _ ht'
        · simp [convText, hl, hp, hle] at h
  | case14 f cs len args hd h1 h2 h3 h4 h5 h6 ih =>
    have hconv : convText chPercent f args = some ([chPercent], args) := by
      simp [convText, h1, h2, h3, h4, h5, h6]
    rw [textLoop_conv f cs args hd, hconv] at h
    obtain ⟨t', ht', hlen⟩ := count_append len h
    rw [hlen]
    exact ih ht'
  | case15 f c cs len args hd h1 h2 h3 h4 h5 h6 h7 ih =>
    have hconv : convText c f args = some ([c, c], args) := by
      simp [convText, h1, h2, h3, h4, h5, h6, h7]
    rw [textLoop_conv f cs args hd, hconv] at h
    obtain ⟨t', ht', hlen⟩ := count_append len h
    have htwo : len + Int16.ofNat [c, c].length = len + 1 + 1 := (Int16.add_assoc len 1 1).symm
    rw [hlen, htwo]
    exact ih ht'

/-- The dry run counts what is printed, up to its 16 bits. -/
theorem formatLength_text {fmt t : List UInt8} {args : List FormatArg}
    (h : formatText fmt args = some t) : formatLength fmt args = some (Int16.ofNat t.length) := by
  rw [formatLength, lengthLoop_text 0 h, Int16.zero_add]

/-- A call with the arguments that its format asks for. -/
structure FormatCall where
  fmt : List UInt8
  args : List FormatArg
  wellTyped : (formatText fmt args).isSome

def FormatCall.text (call : FormatCall) : List UInt8 := (formatText call.fmt call.args).get call.wellTyped

theorem FormatCall.formatText_eq (call : FormatCall) :
    formatText call.fmt call.args = some call.text := (Option.some_get call.wellTyped).symm

theorem FormatCall.print (call : FormatCall) :
    ∃ pieces, formatPrint call.fmt call.args = some pieces ∧ pieces.flatten = call.text := by
  have h := formatPrint_text call.fmt call.args
  rw [call.formatText_eq] at h
  exact Option.map_eq_some_iff.mp h

section

open Verif.Decimal (decimal decimalInt digit decimal_lt decimal_ge)

theorem digitChar_digit {d : Nat} (h : d < 10) : digitChar (d : Int) = digit d := by
  have hd : ((d : Int) < 10) := by omega
  have hcast : (d : Int) + 0x30 = ((48 + d : Nat) : Int) := by omega
  rw [digitChar, if_pos hd, hcast, digit]
  rw [UInt8.ofInt]
  congr 1
  omega

theorem revDigits_ten (fuel m : Nat) (h : m < 10 ^ fuel) (hm : 0 < fuel) :
    revDigits 10 fuel m = (decimal m).reverse := by
  induction fuel generalizing m with
  | zero => exact absurd hm (lt_irrefl 0)
  | succ fuel ih =>
    have hmod : (m : Int).tmod 10 = ((m % 10 : Nat) : Int) := by
      rw [Int.tmod_eq_emod_of_nonneg (Int.natCast_nonneg m)]
      omega
    have hdiv : (m : Int).tdiv 10 = ((m / 10 : Nat) : Int) := by
      rw [Int.tdiv_eq_ediv_of_nonneg (Int.natCast_nonneg m)]
      omega
    rw [revDigits, hmod, hdiv, digitChar_digit (by omega)]
    by_cases hlt : m < 10
    · rw [if_neg (by omega), decimal_lt hlt, Nat.mod_eq_of_lt hlt]
      rfl
    · have hq : m / 10 < 10 ^ fuel := by
        rw [Nat.pow_succ] at h
        omega
      have hf : 0 < fuel := by
        rcases Nat.eq_zero_or_pos fuel with rfl | hf
        · omega
        · exact hf
      rw [if_pos (by omega), ih _ hq hf, decimal_ge (not_lt.mp hlt), List.reverse_append]
      rfl

theorem itoa_ten {n : Int32} (h : n ≠ Int32.minValue) : itoa n 10 = decimalInt n.toInt := by
  have hlt := n.toInt_lt
  have hle := n.le_toInt
  have hneg : n < 0 ↔ n.toInt < 0 := Int32.lt_iff_toInt_lt
  have hne : n.toInt ≠ -2147483648 := fun he => h (Int32.toInt_inj.mp he)
  rw [itoa, decimalInt]
  by_cases hn : n < 0
  · have hz := hneg.mp hn
    obtain ⟨k, hk⟩ : ∃ k : Nat, (-n).toInt = k := by
      refine ⟨n.toInt.natAbs, ?_⟩
      rw [Int32.toInt_neg, Int.bmod_eq_of_le (by omega) (by omega), Int.ofNat_natAbs_of_nonpos hz.le]
    have habs : n.toInt.natAbs = k := by
      rw [Int32.toInt_neg, Int.bmod_eq_of_le (by omega) (by omega)] at hk
      omega
    simp only [if_pos hn, if_pos hz, hk, habs]
    rw [revDigits_ten 32 k (by omega) (by decide), List.reverse_append, List.reverse_reverse]
    rfl
  · have hz : ¬ n.toInt < 0 := fun hc => hn (hneg.mpr hc)
    obtain ⟨k, hk⟩ : ∃ k : Nat, n.toInt = k := ⟨n.toInt.toNat, by omega⟩
    rw [if_neg hz]
    simp only [if_neg hn, hk, Int.natAbs_natCast]
    rw [revDigits_ten 32 k (by omega) (by decide), List.reverse_reverse]

end

def hexChar (d : Nat) : UInt8 := if d < 10 then UInt8.ofNat (48 + d) else UInt8.ofNat (87 + d)

/-- Two digits for each byte. -/
def hexText (bs : List UInt8) : List UInt8 :=
  bs.flatMap fun b => [hexChar (b.toNat / 16), hexChar (b.toNat % 16)]

theorem textLoop_percent (cs : List UInt8) (args : List FormatArg) :
    textLoop .text (0x25 :: cs) args = textLoop (.spec .nothing) cs args := rfl

theorem textLoop_char {c : UInt8} (hc : c ≠ chPercent) (cs : List UInt8) (args : List FormatArg) :
    textLoop .text (c :: cs) args = (textLoop .text cs args).map (c :: ·) := by
  rw [textLoop, if_neg hc]

/-- Text without conversions. -/
theorem textLoop_lit {l : List UInt8} (hl : chPercent ∉ l) (cs : List UInt8) (args : List FormatArg) :
    textLoop .text (l ++ cs) args = (textLoop .text cs args).map (l ++ ·) := by
  induction l with
  | nil => simp
  | cons c l ih =>
    obtain ⟨hc, hl⟩ := not_or.mp fun h => hl (List.mem_cons.mpr h)
    rw [List.cons_append, textLoop_char (Ne.symm hc), ih hl]
    cases textLoop .text cs args <;> simp

theorem textLoop_all {l : List UInt8} (hl : chPercent ∉ l) (args : List FormatArg) :
    textLoop .text l args = some l := by
  have h := textLoop_lit hl [] args
  rw [List.append_nil] at h
  rw [h]
  simp [textLoop]

theorem textLoop_d (w : UInt32) (cs : List UInt8) (args : List FormatArg) :
    textLoop (.spec .nothing) (0x64 :: cs) (.word w :: args) =
      (textLoop .text cs args).map (itoa w.toInt32 10 ++ ·) := by
  rw [textLoop_conv _ _ _ (by decide)]
  rfl

theorem textLoop_u (w : UInt32) (cs : List UInt8) (args : List FormatArg) :
    textLoop (.spec .nothing) (0x75 :: cs) (.word w :: args) =
      (textLoop .text cs args).map (uitoa w 10 ++ ·) := by
  rw [textLoop_conv _ _ _ (by decide)]
  rfl

theorem textLoop_s (s : List UInt8) (cs : List UInt8) (args : List FormatArg) :
    textLoop (.spec .nothing) (0x73 :: cs) (.ptr s :: args) =
      (textLoop .text cs args).map (limited s 0x7fffffff ++ ·) := by
  rw [textLoop_conv _ _ _ (by decide)]
  rfl

theorem formatPrint_some {fmt text : List UInt8} {args : List FormatArg}
    (h : formatText fmt args = some text) :
    ∃ pieces, formatPrint fmt args = some pieces ∧ pieces.flatten = text := by
  have hp := formatPrint_text fmt args
  rw [h] at hp
  exact Option.map_eq_some_iff.mp hp

end MiMic
