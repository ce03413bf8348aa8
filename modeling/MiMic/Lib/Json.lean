import MiMic.Lib.Decimal
import MiMic.Lib.Scanner

/-!
# JSON texts

The grammar of JSON as a parser over bytes, values between blanks and nothing behind them, and
what it makes of the characters that a string need not escape. A JSON text is in UTF-8.
-/
namespace Verif.Json

open Verif.Decimal

/-- The octets that the character still needs, and the bounds of the next one. -/
structure Utf8State where
  owed : Nat
  lo : UInt8
  hi : UInt8
deriving DecidableEq

namespace Utf8State

def start : Utf8State := ⟨0, 0x80, 0xbf⟩

def lead (c : UInt8) : Option Utf8State :=
  if c < 0x80 then some start
  else if c < 0xc2 then none
  else if c < 0xe0 then some ⟨1, 0x80, 0xbf⟩
  else if c = 0xe0 then some ⟨2, 0xa0, 0xbf⟩
  else if c = 0xed then some ⟨2, 0x80, 0x9f⟩
  else if c < 0xf0 then some ⟨2, 0x80, 0xbf⟩
  else if c = 0xf0 then some ⟨3, 0x90, 0xbf⟩
  else if c < 0xf4 then some ⟨3, 0x80, 0xbf⟩
  else if c = 0xf4 then some ⟨3, 0x80, 0x8f⟩
  else none

def step (s : Utf8State) (c : UInt8) : Option Utf8State :=
  if s.owed = 0 then lead c
  else if s.lo ≤ c ∧ c ≤ s.hi then some ⟨s.owed - 1, 0x80, 0xbf⟩
  else none

def run : Utf8State → List UInt8 → Option Utf8State
  | s, [] => some s
  | s, c :: cs => (s.step c).bind fun s' => run s' cs

end Utf8State

/-- A sequence of whole characters. -/
def Utf8 (bs : List UInt8) : Prop := (Utf8State.run .start bs).map Utf8State.owed = some 0

instance (bs : List UInt8) : Decidable (Utf8 bs) := by
  unfold Utf8
  infer_instance

namespace Utf8State

theorem run_append (s : Utf8State) (as bs : List UInt8) :
    run s (as ++ bs) = (run s as).bind fun s' => run s' bs := by
  induction as generalizing s with
  | nil => rfl
  | cons a as ih =>
    rw [List.cons_append, run, run, Option.bind_assoc]
    cases s.step a with
    | none => rfl
    | some s' => exact ih s'

/-- The bounds that an awaited octet has to meet lie above ASCII. -/
structure Sane (s : Utf8State) : Prop where
  lo : 0x80 ≤ s.lo
  start : s.owed = 0 → s = .start

theorem sane_start : Sane start := ⟨by decide, fun _ => rfl⟩

theorem sane_step {s s' : Utf8State} {c : UInt8} (h : s.step c = some s') : s'.Sane := by
  rw [step] at h
  split_ifs at h with h0 hc
  · rw [lead] at h
    split_ifs at h
    all_goals
      obtain rfl := Option.some.inj h
      exact ⟨by decide, by decide⟩
  · obtain rfl := Option.some.inj h
    refine ⟨UInt8.le_refl _, fun ho => ?_⟩
    change s.owed - 1 = 0 at ho
    rw [start, ho]

theorem sane_run {s s' : Utf8State} {bs : List UInt8} (hs : s.Sane) (h : run s bs = some s') :
    s'.Sane := by
  induction bs generalizing s with
  | nil =>
    obtain rfl := Option.some.inj h
    exact hs
  | cons b bs ih =>
    obtain ⟨s₁, h₁, hrest⟩ := Option.bind_eq_some_iff.mp h
    exact ih (sane_step h₁) hrest

theorem run_ascii {bs : List UInt8} (h : ∀ b ∈ bs, b < 0x80) : run start bs = some start := by
  induction bs with
  | nil => rfl
  | cons b bs ih =>
    have hb : start.step b = some start := by
      change lead b = some start
      rw [lead, if_pos (h b List.mem_cons_self)]
    rw [run, hb]
    exact ih fun c hc => h c (List.mem_cons_of_mem _ hc)

end Utf8State

/-- An ASCII character stands between whole characters. -/
theorem utf8_append_ascii {as bs : List UInt8} {c : UInt8} (hc : c < 0x80) :
    Utf8 (as ++ c :: bs) ↔ Utf8 as ∧ Utf8 bs := by
  rw [Utf8, Utf8, Utf8, Utf8State.run_append]
  cases hr : Utf8State.run .start as with
  | none => simp
  | some s =>
    have hs := Utf8State.sane_run Utf8State.sane_start hr
    rw [Option.bind_some, Utf8State.run, Utf8State.step]
    by_cases h0 : s.owed = 0
    · rw [if_pos h0, Utf8State.lead, if_pos hc, Option.bind_some]
      simp [h0]
    · have hout : ¬ (s.lo ≤ c ∧ c ≤ s.hi) := by
        rintro ⟨hlo, -⟩
        have h1 := UInt8.le_iff_toNat_le.mp hs.lo
        have h2 := UInt8.le_iff_toNat_le.mp hlo
        have h3 := UInt8.lt_iff_toNat_lt.mp hc
        omega
      rw [if_neg h0, if_neg hout]
      simp [h0]

theorem utf8_ascii_append {as bs : List UInt8} (h : ∀ a ∈ as, a < 0x80) :
    Utf8 (as ++ bs) ↔ Utf8 bs := by
  rw [Utf8, Utf8, Utf8State.run_append, Utf8State.run_ascii h, Option.bind_some]

theorem utf8_ascii {bs : List UInt8} (h : ∀ b ∈ bs, b < 0x80) : Utf8 bs := by
  rw [Utf8, Utf8State.run_ascii h]
  rfl

/-- Behind the opening quote: `hex` holds the digits of `\\u` that were read, and the first half
of a pair. -/
inductive StrState
  | plain
  | escape
  | hex (k acc : Nat) (high : Option Nat)
  | lowEscape (high : Nat)
  | lowU (high : Nat)

def simpleEscape (c : UInt8) : Option UInt8 :=
  if c = 0x22 ∨ c = 0x5c ∨ c = 0x2f then some c
  else if c = 0x62 then some 0x08
  else if c = 0x66 then some 0x0c
  else if c = 0x6e then some 0x0a
  else if c = 0x72 then some 0x0d
  else if c = 0x74 then some 0x09
  else none

def hexDigit (c : UInt8) : Option Nat :=
  if 0x30 ≤ c ∧ c ≤ 0x39 then some (c.toNat - 0x30)
  else if 0x41 ≤ c ∧ c ≤ 0x46 then some (c.toNat - 0x37)
  else if 0x61 ≤ c ∧ c ≤ 0x66 then some (c.toNat - 0x57)
  else none

/-- The octets of a character. -/
def encodeUtf8 (n : Nat) : List UInt8 :=
  if n < 0x80 then [UInt8.ofNat n]
  else if n < 0x800 then [UInt8.ofNat (0xc0 + n / 0x40), UInt8.ofNat (0x80 + n % 0x40)]
  else if n < 0x10000 then
    [UInt8.ofNat (0xe0 + n / 0x1000), UInt8.ofNat (0x80 + n / 0x40 % 0x40),
      UInt8.ofNat (0x80 + n % 0x40)]
  else
    [UInt8.ofNat (0xf0 + n / 0x40000), UInt8.ofNat (0x80 + n / 0x1000 % 0x40),
      UInt8.ofNat (0x80 + n / 0x40 % 0x40), UInt8.ofNat (0x80 + n % 0x40)]

/-- The four digits of `\\u` are read. -/
def closeHex (n : Nat) : Option Nat → ScanStep StrState UInt8
  | none =>
      if 0xd800 ≤ n ∧ n < 0xdc00 then .next (.lowEscape n) []
      else if 0xdc00 ≤ n ∧ n < 0xe000 then .fail
      else .next .plain (encodeUtf8 n)
  | some high =>
      if 0xdc00 ≤ n ∧ n < 0xe000 then
        .next .plain (encodeUtf8 (0x10000 + (high - 0xd800) * 0x400 + (n - 0xdc00)))
      else .fail

def strStep : Scanner StrState UInt8 UInt8
  | .plain, c =>
      if c = 0x22 then .done []
      else if c = 0x5c then .next .escape []
      else if c < 0x20 then .fail
      else .next .plain [c]
  | .escape, c =>
      if c = 0x75 then .next (.hex 0 0 none) []
      else
        match simpleEscape c with
        | some v => .next .plain [v]
        | none => .fail
  | .hex k acc high, c =>
      match hexDigit c with
      | none => .fail
      | some d => if k < 3 then .next (.hex (k + 1) (acc * 16 + d) high) [] else closeHex (acc * 16 + d) high
  | .lowEscape high, c => if c = 0x5c then .next (.lowU high) [] else .fail
  | .lowU high, c => if c = 0x75 then .next (.hex 0 0 (some high)) [] else .fail

/-- A string behind its opening quote, and what follows it. -/
def parseString (s : List UInt8) : Option (List UInt8 × List UInt8) :=
  match strStep.run .plain s with
  | .done n out => some (out, s.drop n)
  | _ => none

/-- A character that stands for itself. -/
def PlainChar (c : UInt8) : Prop := 0x20 ≤ c ∧ c ≠ 0x22 ∧ c ≠ 0x5c

instance (c : UInt8) : Decidable (PlainChar c) := by
  unfold PlainChar
  infer_instance

theorem strStep_plain {c : UInt8} (h : PlainChar c) : strStep .plain c = .next .plain [c] := by
  obtain ⟨hge, hq, hb⟩ := h
  rw [strStep, if_neg hq, if_neg hb, if_neg (UInt8.not_lt.mpr hge)]

theorem run_plain {x : List UInt8} (h : ∀ c ∈ x, PlainChar c) :
    strStep.run .plain x = .pending .plain x := by
  induction x with
  | nil => rfl
  | cons c x ih =>
    rw [Scanner.run_next (strStep_plain (h c List.mem_cons_self)),
      ih fun d hd => h d (List.mem_cons_of_mem _ hd)]
    rfl

theorem parseString_plain {x : List UInt8} (h : ∀ c ∈ x, PlainChar c) (z : List UInt8) :
    parseString (x ++ 0x22 :: z) = some (x, z) := by
  have hrun : strStep.run .plain (x ++ 0x22 :: z) = .done (x.length + 1) x := by
    rw [Scanner.run_append_of_pending (run_plain h), Scanner.run_done (rfl : strStep .plain 0x22 = _)]
    simp [Verdict.after]
  have hdrop : (x ++ 0x22 :: z).drop (x.length + 1) = z := by
    rw [← List.drop_drop, List.drop_left]
    rfl
  simp only [parseString, hrun, hdrop]

/-- The characters read since the last one was delivered. -/
def StrState.waiting : StrState → Nat
  | .plain => 0
  | .escape => 1
  | .hex k _ none => 2 + k
  | .hex k _ (some _) => 8 + k
  | .lowEscape _ => 6
  | .lowU _ => 7

def StrState.Fits : StrState → Prop
  | .hex k _ _ => k ≤ 3
  | _ => True

theorem fits_plain : StrState.plain.Fits := trivial

theorem length_encodeUtf8 (n : Nat) : (encodeUtf8 n).length ≤ 4 := by
  rw [encodeUtf8]
  split_ifs <;> simp

/-- A step delivers no more than was read, and as much only for a plain character. -/
theorem strStep_next {s s' : StrState} {c : UInt8} {out : List UInt8} (hs : s.Fits)
    (h : strStep s c = .next s' out) : s'.Fits ∧ out.length + s'.waiting ≤ s.waiting + 1 ∧
      (s = .plain → (s' = .plain ∧ out = [c] ∧ PlainChar c) ∨ (s' = .escape ∧ out = [] ∧ c = 0x5c)) ∧
      (s ≠ .plain → s' = .plain → out.length < s.waiting + 1) ∧ (s' = .escape → c = 0x5c) := by
  cases s with
  | plain =>
    rw [strStep] at h
    split_ifs at h with hq hb hlt
    · obtain ⟨rfl, rfl⟩ := ScanStep.next.inj h
      exact ⟨trivial, by simp [StrState.waiting], fun _ => Or.inr ⟨rfl, rfl, hb⟩, fun hne => absurd rfl hne, fun _ => hb⟩
    · obtain ⟨rfl, rfl⟩ := ScanStep.next.inj h
      exact ⟨trivial, by simp [StrState.waiting], fun _ => Or.inl ⟨rfl, rfl, UInt8.not_lt.mp hlt, hq, hb⟩,
        fun hne => absurd rfl hne, fun he => nomatch he⟩
  | escape =>
    rw [strStep] at h
    split_ifs at h with hu
    · obtain ⟨rfl, rfl⟩ := ScanStep.next.inj h
      exact ⟨Nat.zero_le 3, by simp [StrState.waiting], (fun hp => nomatch hp), (fun _ hp => nomatch hp),
        fun he => nomatch he⟩
    · cases hv : simpleEscape c with
      | none =>
        rw [hv] at h
        cases h
      | some v =>
        rw [hv] at h
        obtain ⟨rfl, rfl⟩ := ScanStep.next.inj h
        exact ⟨trivial, by simp [StrState.waiting], (fun hp => nomatch hp),
          (fun _ _ => by simp [StrState.waiting]),
          fun he => nomatch he⟩
  | hex k acc high =>
    have hk : k ≤ 3 := hs
    rw [strStep] at h
    cases hd : hexDigit c with
    | none =>
      rw [hd] at h
      cases h
    | some d =>
      simp only [hd] at h
      split_ifs at h with h3
      · obtain ⟨rfl, rfl⟩ := ScanStep.next.inj h
        refine ⟨h3, ?_, (fun hp => nomatch hp), (fun _ hp => nomatch hp), fun he => nomatch he⟩
        cases high <;> simp only [StrState.waiting, List.length_nil] <;> omega
      · obtain rfl : k = 3 := by omega
        cases high with
        | none =>
          rw [closeHex] at h
          split_ifs at h
          · obtain ⟨rfl, rfl⟩ := ScanStep.next.inj h
            exact ⟨trivial, by simp [StrState.waiting], (fun hp => nomatch hp), (fun _ hp => nomatch hp),
              fun he => nomatch he⟩
          · obtain ⟨rfl, rfl⟩ := ScanStep.next.inj h
            have hlen := length_encodeUtf8 (acc * 16 + d)
            refine ⟨trivial, ?_, (fun hp => nomatch hp), fun _ _ => ?_, fun he => nomatch he⟩
            all_goals
              simp only [StrState.waiting]
              omega
        | some high =>
          rw [closeHex] at h
          split_ifs at h
          obtain ⟨rfl, rfl⟩ := ScanStep.next.inj h
          have hlen := length_encodeUtf8
            (0x10000 + (high - 0xd800) * 0x400 + (acc * 16 + d - 0xdc00))
          refine ⟨trivial, ?_, (fun hp => nomatch hp), fun _ _ => ?_, fun he => nomatch he⟩
          all_goals
            simp only [StrState.waiting]
            omega
  | lowEscape high =>
    rw [strStep] at h
    split_ifs at h
    obtain ⟨rfl, rfl⟩ := ScanStep.next.inj h
    exact ⟨trivial, by simp [StrState.waiting], (fun hp => nomatch hp), (fun _ hp => nomatch hp), fun he => nomatch he⟩
  | lowU high =>
    rw [strStep] at h
    split_ifs at h
    obtain ⟨rfl, rfl⟩ := ScanStep.next.inj h
    exact ⟨Nat.zero_le 3, by simp [StrState.waiting], (fun hp => nomatch hp), (fun _ hp => nomatch hp),
      fun he => nomatch he⟩

/-- Only a quote ends a string. -/
theorem strStep_done {s : StrState} {c : UInt8} {out : List UInt8} (h : strStep s c = .done out) :
    out = [] := by
  cases s with
  | plain =>
    rw [strStep] at h
    split_ifs at h
    exact (ScanStep.done.inj h).symm
  | escape =>
    rw [strStep] at h
    split_ifs at h
    cases hv : simpleEscape c <;> rw [hv] at h <;> cases h
  | hex k acc high =>
    rw [strStep] at h
    cases hd : hexDigit c with
    | none =>
      rw [hd] at h
      cases h
    | some d =>
      simp only [hd] at h
      split_ifs at h
      cases high <;> rw [closeHex] at h <;> split_ifs at h
  | lowEscape high =>
    rw [strStep] at h
    split_ifs at h
  | lowU high =>
    rw [strStep] at h
    split_ifs at h

/-- Along a run too. -/
theorem run_pending {x out : List UInt8} {s s' : StrState} (hs : s.Fits)
    (h : strStep.run s x = .pending s' out) : out.length + s'.waiting ≤ s.waiting + x.length ∧
      (s ≠ .plain → s' = .plain → out.length < s.waiting + x.length) ∧
      (s' = .escape → s = .escape ∧ x = [] ∨ x.getLast? = some 0x5c) := by
  induction x generalizing s out with
  | nil =>
    obtain ⟨rfl, rfl⟩ := Verdict.pending.inj h
    exact ⟨by simp, fun hne he => absurd he hne, fun he => Or.inl ⟨he, rfl⟩⟩
  | cons c x ih =>
    cases hstep : strStep s c with
    | fail => simp [Scanner.run_fail hstep] at h
    | done o => simp [Scanner.run_done hstep] at h
    | next s₁ o =>
      obtain ⟨hs₁, hlen, -, hlt, hesc⟩ := strStep_next hs hstep
      rw [Scanner.run_next hstep] at h
      cases hrun : strStep.run s₁ x with
      | done n o' => simp [hrun, Verdict.after] at h
      | fail n => simp [hrun, Verdict.after] at h
      | pending s₂ o' =>
        rw [hrun, Verdict.after] at h
        obtain ⟨rfl, rfl⟩ := Verdict.pending.inj h
        obtain ⟨hle, hlt', hlast⟩ := ih hs₁ hrun
        rw [List.length_append, List.length_cons]
        refine ⟨by omega, fun hne he => ?_, fun he => ?_⟩
        · by_cases hp : s₁ = .plain
          · have h₁ := hlt hne hp
            rw [hp] at hle
            simp only [StrState.waiting, he] at hle
            omega
          · have h₁ := hlt' hp he
            omega
        · obtain ⟨h₁, rfl⟩ | hl := hlast he
          · exact Or.inr (by rw [hesc h₁]; rfl)
          · exact Or.inr (by rw [List.getLast?_cons, hl]; rfl)

/-- A string that ends is longer than what it says. -/
theorem length_of_done {x out : List UInt8} {s : StrState} {n : Nat} (hs : s.Fits)
    (h : strStep.run s x = .done n out) : out.length < s.waiting + x.length := by
  induction x generalizing s out n with
  | nil => cases h
  | cons c x ih =>
    cases hstep : strStep s c with
    | fail => simp [Scanner.run_fail hstep] at h
    | done o =>
      rw [Scanner.run_done hstep] at h
      obtain ⟨-, rfl⟩ := Verdict.done.inj h
      rw [strStep_done hstep, List.length_nil, List.length_cons]
      omega
    | next s₁ o =>
      obtain ⟨hs₁, hlen, -⟩ := strStep_next hs hstep
      rw [Scanner.run_next hstep] at h
      cases hrun : strStep.run s₁ x with
      | pending s₂ o' => simp [hrun, Verdict.after] at h
      | fail n => simp [hrun, Verdict.after] at h
      | done m o' =>
        rw [hrun, Verdict.after] at h
        obtain ⟨-, rfl⟩ := Verdict.done.inj h
        have hle := ih hs₁ hrun
        rw [List.length_append, List.length_cons]
        omega

theorem plain_of_run {x out : List UInt8} (h : strStep.run .plain x = .pending .plain out)
    (hle : x.length ≤ out.length) : ∀ c ∈ x, PlainChar c := by
  induction x generalizing out with
  | nil => exact fun c hc => nomatch hc
  | cons c x ih =>
    cases hstep : strStep .plain c with
    | fail => simp [Scanner.run_fail hstep] at h
    | done o => simp [Scanner.run_done hstep] at h
    | next s₁ o =>
      obtain ⟨hs₁, -, hcases, -⟩ := strStep_next fits_plain hstep
      rw [Scanner.run_next hstep] at h
      cases hrun : strStep.run s₁ x with
      | done n o' => simp [hrun, Verdict.after] at h
      | fail n => simp [hrun, Verdict.after] at h
      | pending s₂ o' =>
        rw [hrun, Verdict.after] at h
        obtain ⟨rfl, rfl⟩ := Verdict.pending.inj h
        rw [List.length_append, List.length_cons] at hle
        obtain ⟨rfl, rfl, hc⟩ | ⟨rfl, rfl, -⟩ := hcases rfl
        · rw [List.length_singleton] at hle
          have hall := ih hrun (by omega)
          intro d hd
          rcases List.mem_cons.mp hd with rfl | hd
          · exact hc
          · exact hall d hd
        · -- an escape sequence is longer than its character
          have hlt := (run_pending hs₁ hrun).2.1 (by simp) rfl
          simp only [StrState.waiting, List.length_nil] at hlt hle
          omega

/-- A string whose own characters come first among what it says, with plain characters up to
the next quote, is one that says itself. -/
theorem plain_of_parseString {x w z t rest : List UInt8} (hw : ∀ c ∈ w, PlainChar c)
    (h : parseString (x ++ 0x22 :: (w ++ 0x22 :: z)) = some (x ++ t, rest)) :
    t = [] ∧ ∀ c ∈ x, PlainChar c := by
  rw [parseString] at h
  cases hrun : strStep.run .plain x with
  | fail n =>
    rw [Scanner.run_append_of_fail hrun] at h
    cases h
  | done n out =>
    -- the string ends inside `x`
    rw [Scanner.run_append_of_done hrun] at h
    obtain ⟨rfl, -⟩ := Prod.mk.inj (Option.some.inj h)
    have hlt := length_of_done fits_plain hrun
    simp only [StrState.waiting, List.length_append] at hlt
    omega
  | pending s out =>
    rw [Scanner.run_append_of_pending hrun] at h
    obtain ⟨hlen, -, hlast⟩ := run_pending fits_plain hrun
    simp only [StrState.waiting, Nat.zero_add] at hlen
    cases s with
    | plain =>
      rw [Scanner.run_done (rfl : strStep .plain 0x22 = .done [])] at h
      obtain ⟨hout, -⟩ := Prod.mk.inj (Option.some.inj h)
      rw [List.append_nil] at hout
      have hlen' : (x ++ t).length ≤ x.length := by
        rw [← hout]
        exact hlen
      have ht : t = [] := by
        rw [List.length_append] at hlen'
        exact List.length_eq_zero_iff.mp (by omega)
      refine ⟨ht, plain_of_run hrun ?_⟩
      rw [hout, ht, List.append_nil]
    | escape =>
      -- the quote belongs to the string, and `x` would end in what follows it
      have hstep : strStep .escape 0x22 = .next .plain [0x22] := rfl
      rw [Scanner.run_next hstep, Scanner.run_append_of_pending (run_plain hw),
        Scanner.run_done (rfl : strStep .plain 0x22 = .done [])] at h
      obtain ⟨hout, -⟩ := Prod.mk.inj (Option.some.inj h)
      have hx : x.getLast? = some 0x5c := by
        obtain ⟨he, -⟩ | hl := hlast rfl
        · cases he
        · exact hl
      have hsplit : out ++ 0x22 :: w = x ++ t := by simpa using hout
      have hmem : (0x5c : UInt8) ∈ 0x22 :: w := by
        obtain ⟨y, rfl⟩ := List.getLast?_eq_some_iff.mp hx
        have hle : out.length ≤ y.length := by
          rw [List.length_append, List.length_singleton] at hlen
          simp only at hlen
          omega
        have hget := congrArg (fun l => l[y.length]?) hsplit
        simp only [List.getElem?_append_right hle, List.append_assoc, List.singleton_append,
          List.getElem?_append_right le_rfl, Nat.sub_self, List.getElem?_cons_zero] at hget
        exact List.mem_of_getElem? hget
      rcases List.mem_cons.mp hmem with hm | hm
      · exact absurd hm (by decide)
      · exact absurd rfl (hw 0x5c hm).2.2
    | hex k acc high =>
      rw [Scanner.run_fail (rfl : strStep (.hex k acc high) 0x22 = .fail)] at h
      cases h
    | lowEscape high =>
      rw [Scanner.run_fail (rfl : strStep (.lowEscape high) 0x22 = .fail)] at h
      cases h
    | lowU high =>
      rw [Scanner.run_fail (rfl : strStep (.lowU high) 0x22 = .fail)] at h
      cases h

/-- A number is `m * 10 ^ e`. -/
inductive Value
  | null
  | bool (b : Bool)
  | num (m e : Int)
  | str (s : List UInt8)
  | arr (vs : List Value)
  | obj (ms : List (List UInt8 × Value))

def isBlank (c : UInt8) : Bool := c = 0x20 || c = 0x09 || c = 0x0a || c = 0x0d

def skip (s : List UInt8) : List UInt8 := s.dropWhile isBlank

def expect (c : UInt8) : List UInt8 → Option (List UInt8)
  | d :: s => if d = c then some s else none
  | [] => none

def literal (w : List UInt8) (v : Value) (s : List UInt8) : Option (Value × List UInt8) :=
  if w <+: s then some (v, s.drop w.length) else none

/-- One digit or more. -/
def digits (s : List UInt8) : Option (List UInt8 × List UInt8) :=
  if s.takeWhile isDigit = [] then none else some (s.takeWhile isDigit, s.dropWhile isDigit)

def intPart (s : List UInt8) : Option (List UInt8 × List UInt8) :=
  if s.head? = some 0x30 then some ([0x30], s.tail) else digits s

def fracPart (s : List UInt8) : Option (List UInt8 × List UInt8) :=
  if s.head? = some 0x2e then digits s.tail else some ([], s)

def expPart : List UInt8 → Option (Int × List UInt8)
  | c :: s =>
      if c = 0x65 ∨ c = 0x45 then
        if s.head? = some 0x2d then (digits s.tail).map fun p => (-value p.1, p.2)
        else (digits (if s.head? = some 0x2b then s.tail else s)).map fun p => (value p.1, p.2)
      else some (0, c :: s)
  | [] => some (0, [])

def number (s : List UInt8) : Option (Value × List UInt8) := do
  let (ds, t) ← intPart (if s.head? = some 0x2d then s.tail else s)
  let (fs, t) ← fracPart t
  let (e, t) ← expPart t
  let m : Int := value (ds ++ fs)
  some (.num (if s.head? = some 0x2d then -m else m) (e - fs.length), t)

/-- Behind an element: a comma and more of them, or the end. -/
def listNext {α : Type} (close : UInt8) (more : List UInt8 → Option (List α × List UInt8)) (a : α)
    (s : List UInt8) : Option (List α × List UInt8) :=
  match skip s with
  | c :: s =>
      if c = 0x2c then (more s).map fun p => (a :: p.1, p.2)
      else if c = close then some ([a], s)
      else none
  | [] => none

/-- Behind the opening bracket. -/
def listOpen {α : Type} (close : UInt8) (more : List UInt8 → Option (List α × List UInt8))
    (s : List UInt8) : Option (List α × List UInt8) :=
  if (skip s).head? = some close then some ([], (skip s).tail) else more s

/-- The name of a member and the colon. -/
def memberKey (s : List UInt8) : Option (List UInt8 × List UInt8) := do
  let s ← expect 0x22 (skip s)
  let (k, s) ← parseString s
  let s ← expect 0x3a (skip s)
  some (k, s)

mutual

/-- A value with the blanks before it; the first argument bounds the depth of the calls. -/
def parseValue : Nat → List UInt8 → Option (Value × List UInt8)
  | 0, _ => none
  | n + 1, s =>
      match skip s with
      | [] => none
      | c :: s =>
          if c = 0x22 then (parseString s).map fun p => (.str p.1, p.2)
          else if c = 0x5b then (listOpen 0x5d (elements n) s).map fun p => (.arr p.1, p.2)
          else if c = 0x7b then (listOpen 0x7d (members n) s).map fun p => (.obj p.1, p.2)
          else if c = 0x6e then literal [0x6e, 0x75, 0x6c, 0x6c] .null (c :: s)
          else if c = 0x74 then literal [0x74, 0x72, 0x75, 0x65] (.bool true) (c :: s)
          else if c = 0x66 then literal [0x66, 0x61, 0x6c, 0x73, 0x65] (.bool false) (c :: s)
          else number (c :: s)

def elements : Nat → List UInt8 → Option (List Value × List UInt8)
  | 0, _ => none
  | n + 1, s => (parseValue n s).bind fun p => listNext 0x5d (elements n) p.1 p.2

def members : Nat → List UInt8 → Option (List (List UInt8 × Value) × List UInt8)
  | 0, _ => none
  | n + 1, s =>
      (memberKey s).bind fun k =>
        (parseValue n k.2).bind fun p => listNext 0x7d (members n) (k.1, p.1) p.2

end

/-- A text with nothing but blanks around its value; every second call takes a character. -/
def parse (s : List UInt8) : Option Value :=
  match parseValue (2 * s.length + 2) s with
  | some (v, rest) => if skip rest = [] then some v else none
  | none => none

/-- A JSON text and its value. -/
def IsJson (s : List UInt8) (v : Value) : Prop := Utf8 s ∧ parse s = some v

theorem digits_append {ds s : List UInt8} {c : UInt8} (hne : ds ≠ [])
    (hds : ∀ d ∈ ds, isDigit d = true) (hc : isDigit c = false) :
    digits (ds ++ c :: s) = some (ds, c :: s) := by
  have htake : (ds ++ c :: s).takeWhile isDigit = ds := by
    rw [List.takeWhile_append_of_pos hds, List.takeWhile_cons, hc]
    simp
  have hdrop : (ds ++ c :: s).dropWhile isDigit = c :: s := by
    rw [List.dropWhile_append_of_pos hds, List.dropWhile_cons, hc]
    simp
  rw [digits, htake, hdrop, if_neg hne]

/-- What may follow a value inside another one. -/
def Delimits (c : UInt8) : Prop := c = 0x2c ∨ c = 0x5d ∨ c = 0x7d

theorem Delimits.facts {c : UInt8} (h : Delimits c) :
    isDigit c = false ∧ c ≠ 0x2e ∧ c ≠ 0x65 ∧ c ≠ 0x45 := by
  rcases h with rfl | rfl | rfl <;> decide

theorem intPart_decimal (n : Nat) {c : UInt8} (hc : Delimits c) (s : List UInt8) :
    intPart (decimal n ++ c :: s) = some (decimal n, c :: s) := by
  rw [intPart]
  obtain h | ⟨d, ds, h, hne, -⟩ := decimal_cases n
  · rw [h]
    rfl
  · have hhead : (decimal n ++ c :: s).head? ≠ some 0x30 := by
      rw [h]
      exact fun he => hne (Option.some.inj he)
    rw [if_neg hhead]
    exact digits_append (decimal_ne_nil n) (isDigit_decimal n) hc.facts.1

theorem number_decimalInt (z : Int) {c : UInt8} (hc : Delimits c) (s : List UInt8) :
    number (decimalInt z ++ c :: s) = some (.num z 0, c :: s) := by
  obtain ⟨hd, hdot, he, hE⟩ := hc.facts
  have hfrac : fracPart (c :: s) = some ([], c :: s) := if_neg fun h => hdot (Option.some.inj h)
  have hexp : expPart (c :: s) = some (0, c :: s) := if_neg fun h => h.elim he hE
  by_cases hz : z < 0
  · have hhead : (decimalInt z ++ c :: s).head? = some 0x2d := by
      rw [decimalInt, if_pos hz]
      rfl
    have htail : (decimalInt z ++ c :: s).tail = decimal z.natAbs ++ c :: s := by
      rw [decimalInt, if_pos hz]
      rfl
    simp only [number, hhead, htail, if_true, intPart_decimal z.natAbs hc s, hfrac, hexp,
      Option.bind_eq_bind, Option.bind_some, List.append_nil, value_decimal]
    have hneg : -(z.natAbs : Int) = z := by omega
    rw [hneg]
    rfl
  · have hhead : (decimalInt z ++ c :: s).head? ≠ some 0x2d := by
      rw [decimalInt, if_neg hz]
      obtain h | ⟨d, ds, h, -, hdig⟩ := decimal_cases z.natAbs
      · rw [h]
        exact fun h0 => absurd (Option.some.inj h0) (by decide)
      · rw [h]
        intro h0
        obtain rfl : d = 0x2d := Option.some.inj h0
        exact absurd hdig (by decide)
    have htext : decimalInt z ++ c :: s = decimal z.natAbs ++ c :: s := by
      rw [decimalInt, if_neg hz]
    simp only [number, if_neg hhead]
    simp only [htext, intPart_decimal z.natAbs hc s, hfrac, hexp,
      Option.bind_eq_bind, Option.bind_some, List.append_nil, value_decimal]
    have hpos : (z.natAbs : Int) = z := by omega
    rw [hpos]
    rfl

theorem ne_of_number {c d : UInt8} (hc : isDigit c = true ∨ c = 0x2d) (hd : isDigit d = false)
    (hm : d ≠ 0x2d) : c ≠ d := by
  rintro rfl
  rcases hc with hc | hc
  · exact Bool.noConfusion (hd.symm.trans hc)
  · exact hm hc

theorem blank_of_number {c : UInt8} (hc : isDigit c = true ∨ c = 0x2d) : isBlank c = false := by
  have hne : ∀ d, isDigit d = false → d ≠ 0x2d → c ≠ d := fun d => ne_of_number hc
  simp [isBlank, hne 0x20 rfl (by decide), hne 0x09 rfl (by decide), hne 0x0a rfl (by decide),
    hne 0x0d rfl (by decide)]

/-- A text that begins like a number is one. -/
theorem parseValue_number {n : Nat} {c : UInt8} (hc : isDigit c = true ∨ c = 0x2d) (s : List UInt8) :
    parseValue (n + 1) (c :: s) = number (c :: s) := by
  have hne : ∀ d, isDigit d = false → d ≠ 0x2d → c ≠ d := fun d => ne_of_number hc
  have hskip : skip (c :: s) = c :: s := by
    rw [skip, List.dropWhile_cons, blank_of_number hc]
    rfl
  rw [parseValue, hskip]
  simp only [if_neg (hne 0x22 rfl (by decide)), if_neg (hne 0x5b rfl (by decide)),
    if_neg (hne 0x7b rfl (by decide)), if_neg (hne 0x6e rfl (by decide)),
    if_neg (hne 0x74 rfl (by decide)), if_neg (hne 0x66 rfl (by decide))]

theorem decimalInt_head (z : Int) : ∃ c cs, decimalInt z = c :: cs ∧ (isDigit c = true ∨ c = 0x2d) := by
  rw [decimalInt]
  split_ifs
  · exact ⟨_, _, rfl, Or.inr rfl⟩
  · obtain h | ⟨c, cs, h, -, hdig⟩ := decimal_cases z.natAbs
    · exact ⟨_, _, h, Or.inl rfl⟩
    · exact ⟨c, cs, h, Or.inl hdig⟩

theorem parseValue_decimalInt (n : Nat) (z : Int) {c : UInt8} (hc : Delimits c) (s : List UInt8) :
    parseValue (n + 1) (decimalInt z ++ c :: s) = some (.num z 0, c :: s) := by
  obtain ⟨d, ds, h, hd⟩ := decimalInt_head z
  have hnum := number_decimalInt z hc s
  rw [h] at hnum ⊢
  exact (parseValue_number hd _).trans hnum

theorem parseValue_decimal (n m : Nat) {c : UInt8} (hc : Delimits c) (s : List UInt8) :
    parseValue (n + 1) (decimal m ++ c :: s) = some (.num m 0, c :: s) := by
  have h := parseValue_decimalInt n m hc s
  rwa [decimalInt, if_neg (by omega), Int.natAbs_natCast] at h

theorem listOpen_cons {α : Type} {close c : UInt8}
    (more : List UInt8 → Option (List α × List UInt8)) (hb : isBlank c = false) (hc : c ≠ close)
    (s : List UInt8) : listOpen close more (c :: s) = more (c :: s) := by
  have hskip : skip (c :: s) = c :: s := by
    rw [skip, List.dropWhile_cons, hb]
    rfl
  have hhead : (c :: s).head? ≠ some close := fun h => hc (Option.some.inj h)
  rw [listOpen, hskip, if_neg hhead]

theorem listNext_comma {α : Type} (close : UInt8)
    (more : List UInt8 → Option (List α × List UInt8)) (a : α) (s : List UInt8) :
    listNext close more a (0x2c :: s) = (more s).map fun p => (a :: p.1, p.2) := rfl

theorem parseValue_str (n : Nat) (s : List UInt8) :
    parseValue (n + 1) (0x22 :: s) = (parseString s).map fun p => (.str p.1, p.2) := rfl

theorem parseValue_obj (n : Nat) (s : List UInt8) : parseValue (n + 1) (0x7b :: s) =
    (listOpen 0x7d (members n) s).map fun p => (.obj p.1, p.2) := rfl

theorem memberKey_plain {k : List UInt8} (hk : ∀ c ∈ k, PlainChar c) (s : List UInt8) :
    memberKey (0x22 :: (k ++ 0x22 :: 0x3a :: s)) = some (k, s) := by
  change (do
    let (k, s) ← parseString (k ++ 0x22 :: 0x3a :: s)
    let s ← expect 0x3a (skip s)
    some (k, s)) = _
  rw [parseString_plain hk]
  rfl

theorem parseValue_plain {x : List UInt8} (hx : ∀ c ∈ x, PlainChar c) (n : Nat) (s : List UInt8) :
    parseValue (n + 1) (0x22 :: (x ++ 0x22 :: s)) = some (.str x, s) := by
  rw [parseValue_str, parseString_plain hx]
  rfl

/-- A string that is read as its own characters, with plain characters up to the next quote. -/
theorem plain_of_parseValue {n : Nat} {x w z u : List UInt8} (hw : ∀ c ∈ w, PlainChar c)
    (h : parseValue n (0x22 :: (x ++ 0x22 :: (w ++ 0x22 :: z))) = some (.str x, u)) :
    (∀ c ∈ x, PlainChar c) ∧ u = w ++ 0x22 :: z := by
  cases n with
  | zero => cases h
  | succ n =>
    rw [parseValue_str] at h
    obtain ⟨⟨y, u'⟩, hy, heq⟩ := Option.map_eq_some_iff.mp h
    obtain ⟨hstr, rfl⟩ := Prod.mk.inj heq
    obtain rfl := Value.str.inj hstr
    have hy' : parseString (y ++ 0x22 :: (w ++ 0x22 :: z)) = some (y ++ [], u') := by
      rw [List.append_nil]
      exact hy
    obtain ⟨-, hplain⟩ := plain_of_parseString hw hy'
    refine ⟨hplain, ?_⟩
    rw [parseString_plain hplain] at hy
    exact (Prod.mk.inj (Option.some.inj hy)).2.symm

/-- The value of the first member with a name. -/
def Value.member (key : List UInt8) : Value → Option Value
  | .obj ms => (ms.find? fun m => m.1 == key).map Prod.snd
  | _ => none

theorem listNext_head {α : Type} {close : UInt8} {more : List UInt8 → Option (List α × List UInt8)}
    {a : α} {s u : List UInt8} {l : List α} (h : listNext close more a s = some (l, u)) :
    l.head? = some a := by
  rw [listNext] at h
  split at h
  · split_ifs at h
    · obtain ⟨p, -, hp⟩ := Option.map_eq_some_iff.mp h
      rw [← (Prod.mk.inj hp).1]
      rfl
    · rw [← (Prod.mk.inj (Option.some.inj h)).1]
      rfl
  · cases h

theorem members_plain {k : List UInt8} (hk : ∀ c ∈ k, PlainChar c) (n : Nat) (s : List UInt8) :
    members (n + 1) (0x22 :: (k ++ 0x22 :: 0x3a :: s)) =
      (parseValue n s).bind fun p => listNext 0x7d (members n) (k, p.1) p.2 := by
  rw [members, memberKey_plain hk, Option.bind_some]

/-- The first member of an object is found by its name. -/
theorem member_first {k : List UInt8} (hk : ∀ c ∈ k, PlainChar c) {n : Nat} {s u : List UInt8}
    {v : Value} (h : parseValue n (0x7b :: 0x22 :: (k ++ 0x22 :: 0x3a :: s)) = some (v, u)) :
    ∃ m w t ms, n = m + 2 ∧ parseValue m s = some (w, t) ∧
      listNext 0x7d (members m) (k, w) t = some (ms, u) ∧ v = .obj ms ∧ v.member k = some w := by
  obtain _ | _ | m := n
  · cases h
  · rw [parseValue_obj, listOpen_cons _ (by decide) (by decide)] at h
    cases h
  · rw [parseValue_obj, listOpen_cons _ (by decide) (by decide), members_plain hk] at h
    obtain ⟨⟨ms, u'⟩, hms, heq⟩ := Option.map_eq_some_iff.mp h
    obtain ⟨rfl, rfl⟩ := Prod.mk.inj heq
    obtain ⟨⟨w, t⟩, hw, hnext⟩ := Option.bind_eq_some_iff.mp hms
    refine ⟨m, w, t, ms, rfl, hw, hnext, rfl, ?_⟩
    obtain ⟨ms', rfl⟩ := List.head?_eq_some_iff.mp (listNext_head hnext)
    rw [Value.member, List.find?_cons_of_pos (by simp)]
    rfl

/-- Behind a comma stands the next member. -/
theorem listNext_plain {k : List UInt8} (hk : ∀ c ∈ k, PlainChar c) (n : Nat)
    (m : List UInt8 × Value) (s : List UInt8) :
    listNext 0x7d (members (n + 1)) m (0x2c :: 0x22 :: (k ++ 0x22 :: 0x3a :: s)) =
      ((parseValue n s).bind fun p => listNext 0x7d (members n) (k, p.1) p.2).map fun p =>
        (m :: p.1, p.2) := by
  rw [listNext_comma, members_plain hk]

/-- Texts with commas between them. -/
def commaText : List (List UInt8) → List UInt8
  | [] => []
  | [t] => t
  | t :: ts => t ++ 0x2c :: commaText ts

theorem commaText_cons (t t' : List UInt8) (ts : List (List UInt8)) :
    commaText (t :: t' :: ts) = t ++ 0x2c :: commaText (t' :: ts) := rfl

theorem utf8_commaText (ts : List (List UInt8)) : Utf8 (commaText ts) ↔ ∀ t ∈ ts, Utf8 t := by
  induction ts with
  | nil =>
    refine iff_of_true ?_ fun t ht => nomatch ht
    exact utf8_ascii fun b hb => nomatch hb
  | cons t ts ih =>
    cases ts with
    | nil =>
      rw [List.forall_mem_singleton]
      rfl
    | cons t' ts =>
      rw [commaText_cons, utf8_append_ascii (by decide), ih]
      exact List.forall_mem_cons.symm

theorem length_le_commaText {k : Nat} {ts : List (List UInt8)} (hne : ts ≠ [])
    (h : ∀ t ∈ ts, k < t.length) : k + ts.length ≤ (commaText ts).length := by
  induction ts with
  | nil => exact absurd rfl hne
  | cons t ts ih =>
    have ht := h t List.mem_cons_self
    cases ts with
    | nil => exact ht
    | cons t' ts =>
      have hrec := ih (List.cons_ne_nil _ _) fun x hx => h x (List.mem_cons_of_mem _ hx)
      rw [commaText_cons, List.length_append]
      simp only [List.length_cons] at hrec ⊢
      omega

section

variable {α : Type} {text : α → List UInt8}

/-- Elements that are read as their values, in an array. -/
theorem elements_comma {value : α → Value} {k : Nat} {as : List α} (hne : as ≠ [])
    (h : ∀ a ∈ as, ∀ n c s, k ≤ n → Delimits c →
      parseValue n (text a ++ c :: s) = some (value a, c :: s)) {n : Nat} (hn : k + as.length ≤ n)
    (rest : List UInt8) :
    elements n (commaText (as.map text) ++ 0x5d :: rest) = some (as.map value, rest) := by
  induction as generalizing n with
  | nil => exact absurd rfl hne
  | cons a as ih =>
    obtain ⟨n, rfl⟩ : ∃ m, n = m + 1 := ⟨n - 1, by rw [List.length_cons] at hn; omega⟩
    rw [List.length_cons] at hn
    have ha := h a List.mem_cons_self
    cases as with
    | nil =>
      show (parseValue n (text a ++ 0x5d :: rest)).bind _ = _
      rw [ha n _ _ (by omega) (Or.inr (Or.inl rfl))]
      rfl
    | cons a' as =>
      have hrec := ih (List.cons_ne_nil _ _) (fun i hi => h i (List.mem_cons_of_mem _ hi))
        (n := n) (by omega)
      rw [List.map_cons, List.map_cons, commaText_cons, List.append_assoc, List.cons_append, elements,
        ha n _ _ (by omega) (Or.inl rfl)]
      show (elements n (commaText ((a' :: as).map text) ++ 0x5d :: rest)).map _ = _
      rw [hrec]
      rfl

/-- What is known of the elements of an array that is read. -/
theorem elements_read {R : α → Value → Prop} {P : α → Prop} {as : List α} (hne : as ≠ [])
    (h : ∀ a ∈ as, ∀ n c s v u, Delimits c → parseValue n (text a ++ c :: s) = some (v, u) →
      R a v → P a ∧ u = c :: s) {n : Nat} {rest u : List UInt8} {vs : List Value}
    (hread : elements n (commaText (as.map text) ++ 0x5d :: rest) = some (vs, u))
    (hR : List.Forall₂ R as vs) : ∀ a ∈ as, P a := by
  induction as generalizing n u vs with
  | nil => exact absurd rfl hne
  | cons a as ih =>
    cases n with
    | zero => cases hread
    | succ n =>
      obtain ⟨v, vs', hv, hvs', rfl⟩ := List.forall₂_cons_left_iff.mp hR
      rw [elements] at hread
      obtain ⟨⟨w, t⟩, hw, hnext⟩ := Option.bind_eq_some_iff.mp hread
      obtain rfl : v = w := Option.some.inj (listNext_head hnext)
      cases as with
      | nil =>
        obtain ⟨ha, -⟩ := h a List.mem_cons_self n 0x5d rest v t (Or.inr (Or.inl rfl)) hw hv
        intro i hi
        rwa [List.mem_singleton.mp hi]
      | cons a' as =>
        rw [List.map_cons, List.map_cons, commaText_cons, List.append_assoc, List.cons_append] at hw
        obtain ⟨ha, rfl⟩ := h a List.mem_cons_self n 0x2c _ v t (Or.inl rfl) hw hv
        rw [listNext_comma] at hnext
        obtain ⟨⟨ws, u'⟩, hws, heq⟩ := Option.map_eq_some_iff.mp hnext
        have htail : ws = vs' := (List.cons.inj (Prod.mk.inj heq).1).2
        intro i hi
        rcases List.mem_cons.mp hi with rfl | hi
        · exact ha
        · exact ih (List.cons_ne_nil _ _) (fun i hi => h i (List.mem_cons_of_mem _ hi)) hws
            (htail ▸ hvs') i hi

end

end Verif.Json
