import MiMic.Http.UrlReader
import MiMic.NetIf.IpTypes

/-!
# Reading formatted text

`NyLPC_cFormatTextReader` reads numbers and addresses off the front of a text and returns how many
characters it took, zero for a failure. The readers of addresses take numbers of a byte with a
separator between them.
-/
namespace MiMic

/-- One number of the text, in up to three digits. -/
def octetText (v : UInt8) : List UInt8 :=
  (if v ≥ 100 then [v / 100 + chZero] else []) ++
    ((if v ≥ 10 then [v % 100 / 10 + chZero] else []) ++ [v % 10 + chZero])

/-- The octet that is written at the place `l`. -/
def IPv4Addr.octet (ip : IPv4Addr) (l : UInt32) : UInt8 := ((ntohl ip.v >>> (8 * l)) &&& 0xff).toUInt8

/-- `NyLPC_TIPv4Addr_toString`: the last dot is stored over by the terminator. -/
def IPv4Addr.toString (ip : IPv4Addr) : List UInt8 :=
  ([3, 2, 1, 0].flatMap fun l => octetText (ip.octet l) ++ [chDot]).dropLast

namespace FormatTextReader

open Verif.Numeral Http.UrlReader

/-- `NyLPC_cFormatTextReader_seekSpace`. -/
def seekSpace (s : List UInt8) : Nat := (s.takeWhile isSpace).length

/-- `NyLPC_cFormatTextReader_readUInt`, with what it leaves in `v`. -/
def readUInt (buf : List UInt8) : Nat × UInt32 :=
  let ds := buf.takeWhile isDigit
  (ds.length, ds.foldl (fun t c => t * 10 + (ctoi c).toUInt32) 0)

/-- One more digit of a number that has to fit in a byte. -/
def pushByte (b : Base) (t : Nat) (c : UInt8) : Option Nat :=
  let t := t * b.base + b.digit c
  if t > 255 then none else some t

/-- The numbers that are still to come: what follows them, and what is stored of them. -/
def readBytes (b : Base) (sep : UInt8) : Nat → List UInt8 → Option (List UInt8) × List UInt8
  | 0, p => (some p, [])
  | k + 1, p =>
      match scan b (pushByte b) 0 p with
      | none => (none, [])
      | some (t, p) =>
          if k ≠ 0 then
            if p.getD 0 0 ≠ sep then (none, [UInt8.ofNat t])
            else
              let r := readBytes b sep k (p.drop 1)
              (r.1, UInt8.ofNat t :: r.2)
          else if !isSpace (p.getD 0 0) && p.getD 0 0 != 0 then (none, [UInt8.ofNat t])
          else (some p, [UInt8.ofNat t])

/-- The characters that were taken, and what is stored. -/
def readAddr (b : Base) (sep : UInt8) (k : Nat) (buf : List UInt8) : Nat × List UInt8 :=
  let r := readBytes b sep k buf
  ((r.1.map fun p => buf.length - p.length).getD 0, r.2)

/-- `NyLPC_cFormatTextReader_readIpAddr`. -/
def readIpAddr (buf : List UInt8) : Nat × List UInt8 := readAddr decBase chDot 4 buf

/-- `NyLPC_cFormatTextReader_readMacAddr`. -/
def readMacAddr (buf : List UInt8) : Nat × List UInt8 := readAddr hexBase chColon 6 buf

/-- Numbers of at most 255 with separators between them, up to a space or the end of the text. -/
structure Parts (b : Base) (sep : UInt8) (k : Nat) (s : List UInt8) (parts : List (List UInt8))
    (rest : List UInt8) : Prop where
  text : s = [sep].intercalate parts ++ rest
  count : parts.length = k
  digits : ∀ part ∈ parts, ∀ c ∈ part, b.isDigit c = true
  bytes : ∀ part ∈ parts, value b part ≤ 255
  ended : isSpace (rest.getD 0 0) = true ∨ rest.getD 0 0 = 0

variable {b : Base} {sep : UInt8} {k : Nat} {s rest : List UInt8} {parts : List (List UInt8)}

theorem exact_pushByte : Exact b 256 (· = ·) (pushByte b) := by
  constructor
  · rintro r v c rfl _ _ hlt
    exact ⟨_, if_neg (by omega), rfl⟩
  · rintro r v c rfl _ _ hle
    exact if_pos (by omega)

/-- A part goes as far as there are digits. -/
theorem takeWhile_part {part p : List UInt8} (hpart : ∀ c ∈ part, b.isDigit c = true)
    (hp : b.isDigit (p.getD 0 0) = false) : (part ++ p).takeWhile b.isDigit = part := by
  rw [List.takeWhile_append_of_pos hpart]
  cases p with
  | nil => simp
  | cons c p => rw [List.takeWhile_cons_of_neg (by simpa using hp), List.append_nil]

/-- A number, and what stands behind it. -/
theorem scan_digits {part p : List UInt8} (hpart : ∀ c ∈ part, b.isDigit c = true)
    (hp : b.isDigit (p.getD 0 0) = false) (hv : value b part ≤ 255) :
    scan b (pushByte b) 0 (part ++ p) = some (value b part, p) := by
  have htake := takeWhile_part hpart hp
  have hdrop : (part ++ p).dropWhile b.isDigit = p := by
    rw [List.dropWhile_append_of_pos hpart]
    cases p with
    | nil => rfl
    | cons c p => rw [List.dropWhile_cons_of_neg (by simpa using hp)]
  obtain ⟨r, hscan, hr⟩ := scan_of_lt (exact_pushByte (b := b)) (r := 0) rfl (p := part ++ p)
    (by rw [htake]; exact Nat.lt_succ_of_le hv)
  rw [hdrop] at hscan
  rw [htake] at hr
  rw [hscan, hr]
  rfl

/-- A digit neither separates nor ends. -/
structure Apart (b : Base) (sep : UInt8) : Prop where
  sep_ne : sep ≠ 0
  sep : b.isDigit sep = false
  space : ∀ c, isSpace c = true → b.isDigit c = false
  nul : b.isDigit 0 = false

theorem Apart.ended (h : Apart b sep) {c : UInt8} (hc : isSpace c = true ∨ c = 0) :
    b.isDigit c = false := by
  rcases hc with hc | rfl
  · exact h.space c hc
  · exact h.nul

theorem Parts.tail {part next : List UInt8} (h : Parts b sep (k + 1) s (part :: next :: parts) rest) :
    s = part ++ sep :: ([sep].intercalate (next :: parts) ++ rest) ∧
      Parts b sep k ([sep].intercalate (next :: parts) ++ rest) (next :: parts) rest := by
  refine ⟨?_, rfl, Nat.succ.inj h.count, fun q hq => h.digits q (List.mem_cons_of_mem _ hq),
    fun q hq => h.bytes q (List.mem_cons_of_mem _ hq), h.ended⟩
  rw [h.text, List.intercalate_cons_cons, List.append_assoc, List.append_assoc, List.singleton_append]

/-- The numbers are read, empty ones as zero. -/
theorem Parts.readBytes (hb : Apart b sep) (h : Parts b sep (k + 1) s parts rest) :
    readBytes b sep (k + 1) s = (some rest, parts.map fun part => UInt8.ofNat (value b part)) := by
  induction k generalizing s parts with
  | zero =>
    obtain ⟨part, rfl⟩ := List.length_eq_one_iff.mp h.count
    have hpart := h.digits part List.mem_cons_self
    have hend : (!isSpace (rest.getD 0 0) && rest.getD 0 0 != 0) = false := by
      rcases h.ended with hc | hc
      · rw [hc]
        rfl
      · rw [hc]
        rfl
    rw [h.text, List.intercalate_singleton, FormatTextReader.readBytes,
      scan_digits hpart (hb.ended h.ended) (h.bytes part List.mem_cons_self)]
    simp only [ne_eq, not_true_eq_false, if_false, hend, Bool.false_eq_true, List.map_cons, List.map_nil]
  | succ k ih =>
    obtain ⟨part, next, parts, rfl⟩ : ∃ part next ps, parts = part :: next :: ps := by
      match parts, h.count with
      | part :: next :: ps, _ => exact ⟨part, next, ps, rfl⟩
    obtain ⟨rfl, htail⟩ := h.tail
    have hsep : (sep :: ([sep].intercalate (next :: parts) ++ rest)).getD 0 0 = sep := rfl
    rw [FormatTextReader.readBytes, scan_digits (h.digits part List.mem_cons_self)
      (by rw [hsep]; exact hb.sep) (h.bytes part List.mem_cons_self)]
    simp only [ne_eq, Nat.succ_ne_zero, not_false_eq_true, if_true, hsep, not_true_eq_false, if_false,
      List.drop_succ_cons, List.drop_zero, ih htail, List.map_cons]

/-- A text has its parts in one way. -/
theorem Parts.unique {parts' : List (List UInt8)} {rest' : List UInt8} (hb : Apart b sep)
    (h : Parts b sep (k + 1) s parts rest) (h' : Parts b sep (k + 1) s parts' rest') : parts = parts' := by
  induction k generalizing s parts parts' with
  | zero =>
    obtain ⟨part, rfl⟩ := List.length_eq_one_iff.mp h.count
    obtain ⟨part', rfl⟩ := List.length_eq_one_iff.mp h'.count
    have hfront := takeWhile_part (h.digits part List.mem_cons_self) (hb.ended h.ended)
    have hfront' := takeWhile_part (h'.digits part' List.mem_cons_self) (hb.ended h'.ended)
    have htext := h.text
    have htext' := h'.text
    rw [List.intercalate_singleton] at htext htext'
    rw [← hfront, ← hfront', ← htext, ← htext']
  | succ k ih =>
    match parts, h.count, parts', h'.count with
    | part :: next :: ps, _, part' :: next' :: ps', _ =>
      obtain ⟨htext, htail⟩ := h.tail
      obtain ⟨htext', htail'⟩ := h'.tail
      have hsep : ∀ t : List UInt8, b.isDigit ((sep :: t).getD 0 0) = false := fun _ => hb.sep
      have hfront := takeWhile_part (h.digits part List.mem_cons_self)
        (hsep ([sep].intercalate (next :: ps) ++ rest))
      have hfront' := takeWhile_part (h'.digits part' List.mem_cons_self)
        (hsep ([sep].intercalate (next' :: ps') ++ rest'))
      have hpart : part = part' := by rw [← hfront, ← hfront', ← htext, ← htext']
      subst hpart
      have hrest := (List.cons.inj (List.append_cancel_left (htext.symm.trans htext'))).2
      rw [← hrest] at htail'
      rw [ih htail htail']

/-- What a reader returns for a text with its parts. -/
theorem Parts.readAddr (hb : Apart b sep) (h : Parts b sep (k + 1) s parts rest) :
    readAddr b sep (k + 1) s =
      (s.length - rest.length, parts.map fun part => UInt8.ofNat (value b part)) := by
  rw [FormatTextReader.readAddr, h.readBytes hb]
  rfl

/-- With two numbers or more something is taken. -/
theorem Parts.taken (h : Parts b sep (k + 2) s parts rest) : s.length - rest.length ≠ 0 := by
  match parts, h.count with
  | part :: next :: ps, _ =>
    rw [h.text, List.length_append, List.intercalate_cons_cons, List.length_append,
      List.length_append, List.length_singleton]
    omega

end FormatTextReader

end MiMic
