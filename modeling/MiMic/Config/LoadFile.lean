import MiMic.Config.NetConfig
import MiMic.Core.FormatTextReader
import Mathlib.Data.List.DropRight
import Mathlib.Data.List.GetD

/-!
# Loading the configuration from a file

`NetConfig::loadFromFile` takes up to thirty characters at a time and compares the word in front of
them with every name of a table, over the length of the word. A comma is missing in the table: it
has one name less than its loop counts.

A pointer is the memory from it on. The memory begins with the buffer, and what is left in it from
readings before stands behind the terminator.
-/
namespace MiMic.Config

open Http.UrlReader FormatTextReader
open Verif.Numeral (Base value)
open Http (chEqual)

/-- `NyLPC_strnicmp`, whose difference is kept in a `char`. -/
def strnicmp (s1 s2 : List UInt8) : Nat → UInt8
  | 0 => 0
  | n + 1 =>
      if s1.getD 0 0 ≠ s2.getD 0 0 ∧ tolower (s1.getD 0 0) - tolower (s2.getD 0 0) ≠ 0 then
        tolower (s1.getD 0 0) - tolower (s2.getD 0 0)
      else strnicmp s1.tail s2.tail n

/-- The last two literals are one. -/
def tbl : List (List UInt8) :=
  ["macaddr", "ipaddr", "netmask", "gateway", "srv_http_port", "srv_mdns", "srv_upnp" ++ "host"].map ascii

def numberOfName : Nat := 8

/-- `tbl[i]`, with the string that the word behind the table points to. -/
def nameAt (beyond : List UInt8) (i : Nat) : List UInt8 := tbl.getD i beyond

def skipSpace (p : List UInt8) : List UInt8 := p.drop (seekSpace p)

/-- The answer to yes or no. -/
def answer (f : Bool → Setting) (t : List UInt8) : List Setting :=
  let c := t.getD 0 0
  if c = 0x79 ∨ c = 0x59 then [f true] else if c = 0x6e ∨ c = 0x4e then [f false] else []

/-- The `switch`: the setters that are called, and `l`. -/
def readValue (i l : Nat) (p : List UInt8) : List Setting × Nat :=
  match i with
  | 0 => (if (readMacAddr p).1 ≠ 0 then [.emac (readMacAddr p).2] else [], l)
  | 1 =>
      (if (readIpAddr p).1 ≠ 0 then [.ipAddr (readIpAddr p).2, .zeroconf false]
        else if readWord p = 4 ∧ strnicmp p (ascii "auto") 4 = 0 then [.zeroconf true] else [], l)
  | 2 => (if (readIpAddr p).1 ≠ 0 then [.netMask (readIpAddr p).2] else [], l)
  | 3 => (if (readIpAddr p).1 ≠ 0 then [.gateway (readIpAddr p).2] else [], l)
  | 4 => (if (readUInt p).1 ≠ 0 then [.srvHttpPort (readUInt p).2.toUInt16] else [], l)
  | 5 => (answer .srvMdns p, readWord p)
  | 6 => (answer .srvUPnP p, readWord p)
  | 7 => (if readWord p > 1 then [.hostName (p.take (readWord p))] else [], readWord p)
  | _ => ([], l)

/-- What a reading does: the setters that are called, and the names of the table that are read. -/
structure Reading where
  calls : List Setting
  names : List Nat

/-- The loop over the table, with the rounds that are left. -/
def tableLoop (beyond key : List UInt8) : Nat → Nat → Nat → List UInt8 → Reading
  | 0, _, _, _ => ⟨[], []⟩
  | n + 1, i, l, p =>
      if strnicmp key (nameAt beyond i) l = 0 then
        let p := skipSpace (p.drop l)
        if p.getD 0 0 ≠ chEqual then ⟨[], [i]⟩
        else
          let p := skipSpace (p.drop 1)
          let v := readValue i l p
          let r := tableLoop beyond key n (i + 1) v.2 p
          ⟨v.1 ++ r.calls, i :: r.names⟩
      else
        let r := tableLoop beyond key n (i + 1) l p
        ⟨r.calls, i :: r.names⟩

/-- One round of the loop over the file. -/
def readLine (beyond tmp : List UInt8) : Reading :=
  let p := skipSpace tmp
  tableLoop beyond p numberOfName 0 (readWord p) p

/-- The characters that `fgets` takes when there is room for `n`, and the rest of the file. -/
def fgets : Nat → List UInt8 → List UInt8 × List UInt8
  | 0, file => ([], file)
  | _ + 1, [] => ([], [])
  | n + 1, c :: file => if c = chLf then ([c], file) else (c :: (fgets n file).1, (fgets n file).2)

theorem length_fgets (n : Nat) (file : List UInt8) : (fgets n file).2.length ≤ file.length := by
  induction n generalizing file with
  | zero => exact Nat.le_refl _
  | succ n ih =>
    cases file with
    | nil => exact Nat.le_refl _
    | cons c file =>
      rw [fgets]
      split
      · exact Nat.le_succ _
      · exact (ih file).trans (Nat.le_succ _)

theorem length_fgets_lt (n : Nat) (c : UInt8) (file : List UInt8) :
    (fgets (n + 1) (c :: file)).2.length < (c :: file).length := by
  rw [fgets]
  split
  · exact Nat.lt_succ_self _
  · exact Nat.lt_succ_of_le (length_fgets n file)

/-- The pieces of the file that `fgets(tmp,31,fp)` takes one after the other. -/
def pieces (file : List UInt8) : List (List UInt8) :=
  match _h : file with
  | [] => []
  | _ :: _ => (fgets 30 file).1 :: pieces (fgets 30 file).2
termination_by file.length
decreasing_by
  subst _h
  exact length_fgets_lt 29 _ _

/-- The memory from the buffer on after a piece was put there. -/
def fetch (tmp piece : List UInt8) : List UInt8 := piece ++ 0 :: tmp.drop (piece.length + 1)

/-- The loop over the file: the configuration, and the names of the table that were read. -/
def loadPieces (beyond : List UInt8) : List UInt8 → NetConfig → List (List UInt8) → NetConfig × List Nat
  | _, cfg, [] => (cfg, [])
  | tmp, cfg, piece :: ps =>
      let r := readLine beyond (fetch tmp piece)
      let s := loadPieces beyond (fetch tmp piece) (cfg.setAll r.calls) ps
      (s.1, r.names ++ s.2)

/-- `NetConfig::loadFromFile` for a file that can be opened. -/
def loadFromFile (beyond tmp : List UInt8) (cfg : NetConfig) (file : List UInt8) : NetConfig × List Nat :=
  loadPieces beyond tmp cfg (pieces file)

def names : List (List UInt8) :=
  ["macaddr", "host", "ipaddr", "netmask", "gateway", "srv_http_port", "srv_mdns"].map ascii

/-- Numbers of a byte with separators between them. -/
def address (b : Base) (sep : UInt8) (k : Nat) (v : List UInt8) : Option (List UInt8) :=
  let parts := v.splitOn sep
  if parts.length = k ∧ ∀ part ∈ parts, part ≠ [] ∧ (∀ c ∈ part, b.isDigit c = true) ∧ value b part ≤ 255
  then some (parts.map fun part => UInt8.ofNat (value b part)) else none

/-- What a name and a value set. -/
def settingOf (name v : List UInt8) : List Setting :=
  let name := name.map tolower
  if name = ascii "macaddr" then (address hexBase chColon 6 v).toList.map .emac
  else if name = ascii "host" then
    if v ≠ [] ∧ (∀ c ∈ v, isWord c = true) ∧ v.length < hostnameLen then [.hostName v] else []
  else if name = ascii "ipaddr" then
    if v.map tolower = ascii "auto" then [.zeroconf true]
    else (address decBase chDot 4 v).toList.flatMap fun a => [.ipAddr a, .zeroconf false]
  else if name = ascii "netmask" then (address decBase chDot 4 v).toList.map .netMask
  else if name = ascii "gateway" then (address decBase chDot 4 v).toList.map .gateway
  else if name = ascii "srv_http_port" then
    if v ≠ [] ∧ (∀ c ∈ v, isDigit c = true) ∧ 1 ≤ value decBase v ∧ value decBase v < 2 ^ 16 then
      [.srvHttpPort (UInt16.ofNat (value decBase v))]
    else []
  else if name = ascii "srv_mdns" then
    if v.map tolower = ascii "yes" then [.srvMdns true]
    else if v.map tolower = ascii "no" then [.srvMdns false] else []
  else []

/-- The name and the value of a line `name = value`. The value goes up to a space. -/
def assignment (line : List UInt8) : Option (List UInt8 × List UInt8) :=
  let t := (cString line).dropWhile isSpace
  let a := (t.dropWhile isWord).dropWhile isSpace
  if a.head? = some chEqual then
    some (t.takeWhile isWord, ((a.drop 1).dropWhile isSpace).takeWhile fun c => !isSpace c)
  else none

/-- What the part of a line that fits in the buffer sets. -/
def documented (line : List UInt8) : List Setting :=
  match assignment line with
  | none => []
  | some (name, v) => settingOf name v

/-- A piece in the buffer. The text of a line beyond the buffer does not begin a line. -/
structure Fetched where
  beginsLine : Bool
  piece : List UInt8
  buf : List UInt8

def fetched : Bool → List UInt8 → List (List UInt8) → List Fetched
  | _, _, [] => []
  | beginsLine, tmp, piece :: ps =>
      ⟨beginsLine, piece, fetch tmp piece⟩ :: fetched (piece.getLast? == some chLf) (fetch tmp piece) ps

def Fetched.documented (f : Fetched) : List Setting :=
  if f.beginsLine then Config.documented f.piece else []

/-- A line sets what is documented in every configuration, and a file sets what its lines set. -/
structure LoadsAsDocumented (beyond tmp file : List UInt8) : Prop where
  lines : ∀ f ∈ fetched true tmp (pieces file), ∀ cfg : NetConfig,
    cfg.setAll (readLine beyond f.buf).calls = cfg.setAll f.documented
  config : ∀ cfg, (loadFromFile beyond tmp cfg file).1 =
    cfg.setAll ((fetched true tmp (pieces file)).flatMap Fetched.documented)
  bounds : ∀ cfg, ∀ i ∈ (loadFromFile beyond tmp cfg file).2, i < tbl.length

/-- The word is the front of the name, in any case. -/
def Abbreviates (w name : List UInt8) : Prop := w.map tolower <+: name

/-- An equals sign stands here. -/
def Equals (p : List UInt8) : Prop := p.getD 0 0 = chEqual

instance (p : List UInt8) : Decidable (Equals p) := inferInstanceAs (Decidable (p.getD 0 0 = chEqual))

/-- The text behind the equals sign. -/
def behind (p : List UInt8) : List UInt8 := skipSpace (p.drop 1)

/-- The text behind the first characters. -/
def past (n : Nat) (p : List UInt8) : List UInt8 := skipSpace (p.drop n)

/-- The word in front, as it is found in the buffer. -/
def wordOf (buf : List UInt8) : List UInt8 := (skipSpace buf).takeWhile isWord

/-- The text behind the word. -/
def afterWord (buf : List UInt8) : List UInt8 := past (wordOf buf).length (skipSpace buf)

def Answers (v : List UInt8) : Prop := v.getD 0 0 ∈ ascii "yYnN"

/-- The value of `srv_mdns`, up to a space or the end of the text. -/
def token (v : List UInt8) : List UInt8 := v.takeWhile fun c => !isSpace c && c != 0

def YesOrNo (t : List UInt8) : Prop := t.map tolower = ascii "yes" ∨ t.map tolower = ascii "no"

/-- The word of the value is no longer than what the name and the last name of the table have in
common, and no equals sign follows it. -/
def Settles (w v : List UInt8) : Prop :=
  readWord v ≤ min w.length 4 ∧ ¬Equals (past (readWord v) v)

/-- An entry of the table takes nothing from a text. -/
def Refuses : Nat → List UInt8 → Prop
  | 0, v => (readMacAddr v).1 = 0
  | 1, v => (readIpAddr v).1 = 0 ∧ ¬(readWord v = 4 ∧ strnicmp v (ascii "auto") 4 = 0)
  | 2, v | 3, v => (readIpAddr v).1 = 0
  | 4, v => isDigit (v.getD 0 0) = false
  | _, v => ¬Answers v

/-- There are so many equals signs in front of a text. -/
inductive Signs : Nat → List UInt8 → List UInt8 → Prop
  | zero {p : List UInt8} : Signs 0 p p
  | succ {n : Nat} {p v : List UInt8} : Equals p → Signs n (behind p) v → Signs (n + 1) p v

/-- The reading of a piece ends inside the table and sets what is documented. -/
inductive Fetched.Reads (f : Fetched) : Prop
  /-- The front of a name without an equals sign. -/
  | bare : (∃ name ∈ tbl, Abbreviates (wordOf f.buf) name) →
      ¬Equals (afterWord f.buf) → f.Reads
  /-- `srv_mdns`, or the front of it from the letter `m` on. -/
  | mdns (v : List UInt8) : 4 < (wordOf f.buf).length → Abbreviates (wordOf f.buf) (ascii "srv_mdns") →
      Equals (afterWord f.buf) →
      v = behind (afterWord f.buf) → Settles (wordOf f.buf) v →
      (Answers v → f.beginsLine = true ∧ (wordOf f.buf).length = 8 ∧ YesOrNo (token v)) → f.Reads
  /-- The front of all the names of services. -/
  | service (v : List UInt8) : wordOf f.buf ≠ [] → Abbreviates (wordOf f.buf) (ascii "srv_") →
      Equals (afterWord f.buf) →
      v = behind (afterWord f.buf) → isDigit (v.getD 0 0) = false →
      (Equals (past (wordOf f.buf).length v) → ¬Answers (behind (past (wordOf f.buf).length v)) ∧
        Settles (wordOf f.buf) (behind (past (wordOf f.buf).length v))) → f.Reads
  /-- Equals signs without a name. -/
  | nameless (n : Nat) (v : List UInt8) : wordOf f.buf = [] → Signs (n + 1) (skipSpace f.buf) v →
      ¬Equals v → n ≤ 5 → Refuses n v → (n = 5 → Settles [] v) → f.Reads

variable {beyond tmp file key p v w : List UInt8}

theorem skipSpace_eq (p : List UInt8) : skipSpace p = p.dropWhile isSpace := by
  have h : (p.takeWhile isSpace ++ p.dropWhile isSpace).drop (p.takeWhile isSpace).length =
      p.dropWhile isSpace := List.drop_left
  rwa [List.takeWhile_append_dropWhile] at h

theorem skipSpace_skipSpace (p : List UInt8) : skipSpace (skipSpace p) = skipSpace p := by
  rw [skipSpace_eq, skipSpace_eq, List.dropWhile_idempotent]

theorem getD_tail (s : List UInt8) (k : Nat) : s.tail.getD k 0 = s.getD (k + 1) 0 := by
  cases s <;> rfl

/-- A word is at the front of what it was read from, and ends in front of another character. -/
theorem getD_word (key : List UInt8) {k : Nat} (hk : k < readWord key) :
    key.getD k 0 = (key.takeWhile isWord).getD k 0 := by
  conv_lhs => rw [← List.takeWhile_append_dropWhile (p := isWord) (l := key)]
  exact List.getD_append _ _ _ _ hk

theorem drop_word (key : List UInt8) : key.drop (readWord key) = key.dropWhile isWord := by
  have h : (key.takeWhile isWord ++ key.dropWhile isWord).drop (key.takeWhile isWord).length =
      key.dropWhile isWord := List.drop_left
  rwa [List.takeWhile_append_dropWhile] at h

theorem getD_drop (s : List UInt8) (n : Nat) : s.getD n 0 = (s.drop n).getD 0 0 := by
  rw [List.getD_eq_getElem?_getD, List.getD_eq_getElem?_getD, List.getElem?_drop, Nat.add_zero]

theorem not_isWord_past (key : List UInt8) : isWord (key.getD (readWord key) 0) = false := by
  have hhead := List.head?_dropWhile_not isWord key
  rw [getD_drop, drop_word]
  cases hrest : key.dropWhile isWord with
  | nil => rfl
  | cons c rest =>
    rw [hrest] at hhead
    simpa using hhead

theorem isWord_tolower : ∀ c : UInt8, isWord (tolower c) = isWord c := forall_char (by decide +kernel)

theorem strnicmp_eq_zero {s t : List UInt8} {n : Nat} : strnicmp s t n = 0 ↔
    ∀ k < n, tolower (s.getD k 0) = tolower (t.getD k 0) := by
  induction n generalizing s t with
  | zero => exact ⟨fun _ _ hk => absurd hk (Nat.not_lt_zero _), fun _ => rfl⟩
  | succ n ih =>
    have hsplit : (∀ k < n + 1, tolower (s.getD k 0) = tolower (t.getD k 0)) ↔
        tolower (s.getD 0 0) = tolower (t.getD 0 0) ∧
          ∀ k < n, tolower (s.tail.getD k 0) = tolower (t.tail.getD k 0) := by
      simp only [getD_tail]
      constructor
      · exact fun h => ⟨h 0 (Nat.succ_pos n), fun k hk => h (k + 1) (Nat.succ_lt_succ hk)⟩
      · rintro ⟨h0, h⟩ (_ | k) hk
        · exact h0
        · exact h k (Nat.lt_of_succ_lt_succ hk)
    rw [hsplit, strnicmp, ← ih]
    by_cases hc : tolower (s.getD 0 0) = tolower (t.getD 0 0)
    · rw [if_neg (fun h => h.2 (by rw [hc]; exact UInt8.sub_self _)), and_iff_right hc]
    · have hsub : tolower (s.getD 0 0) - tolower (t.getD 0 0) ≠ 0 := fun h => hc (by
        rw [← UInt8.sub_add_cancel (tolower (s.getD 0 0)) (tolower (t.getD 0 0)), h, UInt8.zero_add])
      have hne : s.getD 0 0 ≠ t.getD 0 0 := fun h => hc (by rw [h])
      rw [if_pos ⟨hne, hsub⟩]
      exact ⟨fun h => absurd h hsub, fun h => absurd h.1 hc⟩

/-- The names of the table are words in small letters. -/
theorem tbl_plain : ∀ name ∈ tbl, ∀ c ∈ name, tolower c = c ∧ isWord c = true := by decide +kernel

theorem strnicmp_word {name : List UInt8} (hname : ∀ c ∈ name, tolower c = c ∧ isWord c = true) :
    strnicmp key name (readWord key) = 0 ↔ Abbreviates (key.takeWhile isWord) name := by
  rw [strnicmp_eq_zero]
  have hlower : ∀ k, tolower (name.getD k 0) = name.getD k 0 := by
    intro k
    rcases Nat.lt_or_ge k name.length with hk | hk
    · rw [List.getD_eq_getElem _ _ hk]
      exact (hname _ (List.getElem_mem hk)).1
    · rw [List.getD_eq_default _ _ hk]
      rfl
  constructor
  · intro h
    have hlen : readWord key ≤ name.length := by
      apply Nat.le_of_not_lt
      intro hlt
      have hk := h name.length hlt
      rw [List.getD_eq_default name _ (Nat.le_refl _), getD_word key hlt, List.getD_eq_getElem _ _ hlt] at hk
      have hword := List.mem_takeWhile_imp (List.getElem_mem hlt)
      rw [← isWord_tolower, hk] at hword
      exact absurd hword (by decide)
    rw [Abbreviates, List.prefix_iff_eq_take, List.length_map]
    apply List.ext_getElem
    · rw [List.length_map, List.length_take]
      exact (Nat.min_eq_left hlen).symm
    · intro k hk hk'
      rw [List.length_map] at hk
      have hkey := h k hk
      rw [hlower, getD_word key hk, List.getD_eq_getElem _ _ hk,
        List.getD_eq_getElem _ _ (Nat.lt_of_lt_of_le hk hlen)] at hkey
      rw [List.getElem_map, List.getElem_take, hkey]
  · rintro ⟨rest, hrest⟩ k hk
    have hk' : k < ((key.takeWhile isWord).map tolower).length := by
      rw [List.length_map]
      exact hk
    rw [getD_word key hk, hlower, ← hrest, List.getD_append _ _ _ _ hk', List.getD_eq_getElem _ _ hk,
      List.getD_eq_getElem _ _ hk', List.getElem_map]
    rfl

/-- No name is read behind the table. -/
def Reading.Inside (r : Reading) : Prop := ∀ i ∈ r.names, i < tbl.length

/-- Nothing is set, and no name is read behind the table. -/
def Reading.Quiet (r : Reading) : Prop := r.Inside ∧ r.calls = []

variable {n i l : Nat}

theorem tableLoop_skip (h : strnicmp key (nameAt beyond i) l ≠ 0) :
    tableLoop beyond key (n + 1) i l p =
      ⟨(tableLoop beyond key n (i + 1) l p).calls, i :: (tableLoop beyond key n (i + 1) l p).names⟩ := by
  rw [tableLoop, if_neg h]

theorem tableLoop_stop (h : strnicmp key (nameAt beyond i) l = 0) (he : ¬Equals (past l p)) :
    tableLoop beyond key (n + 1) i l p = ⟨[], [i]⟩ := by
  rw [tableLoop, if_pos h]
  exact if_pos he

theorem tableLoop_take (h : strnicmp key (nameAt beyond i) l = 0) (he : Equals (past l p)) :
    tableLoop beyond key (n + 1) i l p =
      ⟨(readValue i l (behind (past l p))).1 ++ (tableLoop beyond key n (i + 1)
          (readValue i l (behind (past l p))).2 (behind (past l p))).calls,
        i :: (tableLoop beyond key n (i + 1) (readValue i l (behind (past l p))).2
          (behind (past l p))).names⟩ := by
  rw [tableLoop, if_pos h]
  exact if_neg (not_not.mpr he)

theorem inside_cons {calls : List Setting} {names : List Nat} {i : Nat} (hi : i < 7) :
    Reading.Inside ⟨calls, i :: names⟩ ↔ ∀ k ∈ names, k < tbl.length :=
  List.forall_mem_cons.trans (and_iff_right hi)

theorem mem_names (beyond key p : List UInt8) (n i l : Nat) :
    i ∈ (tableLoop beyond key (n + 1) i l p).names := by
  by_cases h : strnicmp key (nameAt beyond i) l = 0
  · by_cases he : Equals (past l p)
    · rw [tableLoop_take h he]
      exact List.mem_cons_self
    · rw [tableLoop_stop h he]
      exact List.mem_cons_self
  · rw [tableLoop_skip h]
    exact List.mem_cons_self

/-- The name with the number seven is not in the table. -/
theorem not_inside_last : ¬(tableLoop beyond key (n + 1) 7 l p).Inside := fun h =>
  absurd (h 7 (mem_names beyond key p n 7 l)) (by decide)

/-- Entries that do not match are passed over. -/
theorem tableLoop_skips {m d : Nat} (hd : i + d ≤ 7)
    (h : ∀ k, i ≤ k → k < i + d → strnicmp key (nameAt beyond k) l ≠ 0) :
    (tableLoop beyond key (m + d) i l p).calls = (tableLoop beyond key m (i + d) l p).calls ∧
      ((tableLoop beyond key (m + d) i l p).Inside ↔ (tableLoop beyond key m (i + d) l p).Inside) := by
  induction d generalizing i with
  | zero => exact ⟨rfl, Iff.rfl⟩
  | succ d ih =>
    obtain ⟨hcalls, hinside⟩ := ih (i := i + 1) (by omega) fun k hik hk => h k (by omega) (by omega)
    rw [Nat.add_right_comm i 1 d] at hcalls hinside
    rw [← Nat.add_assoc, tableLoop_skip (h i (Nat.le_refl i) (by omega)), inside_cons (by omega)]
    exact ⟨hcalls, hinside⟩

/-- Without an entry that matches, the loop goes on behind the table. -/
theorem not_inside_of_skips {d : Nat} (hd : i + d = 7)
    (h : ∀ k, i ≤ k → k < 7 → strnicmp key (nameAt beyond k) l ≠ 0) :
    ¬(tableLoop beyond key (1 + d) i l p).Inside := by
  rw [(tableLoop_skips (Nat.le_of_eq hd) fun k hik hk => h k hik (by omega)).2, hd]
  exact not_inside_last

theorem nameAt_mem {i : Nat} (hi : i < 7) : nameAt beyond i ∈ tbl := by
  rw [nameAt, List.getD_eq_getElem _ _ hi]
  exact List.getElem_mem hi

theorem match_iff (hi : i < 7) : strnicmp key (nameAt beyond i) (readWord key) = 0 ↔
    Abbreviates (key.takeWhile isWord) (tbl.getD i []) := by
  have hname : nameAt beyond i = tbl.getD i [] := by
    rw [nameAt, List.getD_eq_getElem _ _ hi, List.getD_eq_getElem _ _ hi]
  rw [← hname]
  exact strnicmp_word (tbl_plain _ (nameAt_mem hi))

/-- Two names have no front in common but the names of services their first four characters. -/
theorem common_front : ∀ i < 7, ∀ j < 7, i = j ∨ ∀ n < 14,
    (tbl.getD i []).take n = (tbl.getD j []).take n → n ≤ if 4 ≤ i ∧ 4 ≤ j then 4 else 0 := by
  decide +kernel

theorem Abbreviates.take_eq {name : List UInt8} (h : Abbreviates w name) :
    w.length ≤ name.length ∧ w.map tolower = name.take w.length := by
  have htake := List.prefix_iff_eq_take.mp h
  have hlen := h.length_le
  rw [List.length_map] at htake hlen
  exact ⟨hlen, htake⟩

theorem Abbreviates.both {j : Nat} (hi : i < 7) (hj : j < 7) (hij : i ≠ j)
    (h : Abbreviates w (tbl.getD i [])) (h' : Abbreviates w (tbl.getD j [])) :
    w = [] ∨ 4 ≤ i ∧ 4 ≤ j ∧ w.length ≤ 4 := by
  have hlong : ∀ i < 7, (tbl.getD i []).length < 14 := by decide +kernel
  have hlen := (common_front i hi j hj).resolve_left hij w.length
    (Nat.lt_of_le_of_lt h.take_eq.1 (hlong i hi)) (h.take_eq.2.symm.trans h'.take_eq.2)
  split at hlen
  · next hservice => exact Or.inr ⟨hservice.1, hservice.2, hlen⟩
  · exact Or.inl (List.length_eq_zero_iff.mp (Nat.le_zero.mp hlen))

theorem abbreviates_take {name : List UInt8} (h : Abbreviates w name) {m : Nat} (hm : w.length ≤ m) :
    Abbreviates w (name.take m) := by
  have htake := h.take_eq.2
  rw [Abbreviates, htake, ← Nat.min_eq_left hm, ← List.take_take]
  exact List.take_prefix _ _

/-- A short word that matches a service is the front of all their names. -/
theorem service_iff (hi : 4 ≤ i ∧ i < 7) (hw : w.length ≤ 4) :
    Abbreviates w (tbl.getD i []) ↔ Abbreviates w (ascii "srv_") := by
  have htake : ∀ i < 7, 4 ≤ i → (tbl.getD i []).take 4 = ascii "srv_" := by decide +kernel
  constructor
  · intro h
    rw [← htake i hi.2 hi.1]
    exact abbreviates_take h hw
  · intro h
    rw [← htake i hi.2 hi.1] at h
    exact List.IsPrefix.trans h (List.take_prefix _ _)

/-- A word that the entry of `srv_mdns` matches. -/
structure Front (w : List UInt8) : Prop where
  front : Abbreviates (w.take 4) (ascii "srv_")
  fifth : 4 < w.length → tolower (w.getD 4 0) ≠ 0x75

theorem Abbreviates.getD {name : List UInt8} (h : Abbreviates w name) {k : Nat} (hk : k < w.length) :
    tolower (w.getD k 0) = name.getD k 0 := by
  have hk' : k < (w.map tolower).length := by
    rw [List.length_map]
    exact hk
  obtain ⟨rest, hrest⟩ := h
  rw [← hrest, List.getD_append _ _ _ _ hk', List.getD_eq_getElem _ _ hk,
    List.getD_eq_getElem _ _ hk', List.getElem_map]

theorem front_of_service (h : Abbreviates w (ascii "srv_")) : Front w := by
  have hlen : w.length ≤ 4 := h.take_eq.1
  constructor
  · rwa [List.take_of_length_le hlen]
  · intro hlt
    omega

theorem front_of_mdns (h : Abbreviates w (ascii "srv_mdns")) : Front w := by
  constructor
  · rw [Abbreviates, List.map_take]
    have htake : (ascii "srv_mdns").take 4 = ascii "srv_" := by decide
    rw [← htake]
    exact List.IsPrefix.take h 4
  · intro hlt
    rw [h.getD hlt]
    decide

/-- The last entry matches over a length that is the front of its name as well. -/
theorem match_last (hw : Front (key.takeWhile isWord)) : strnicmp key (nameAt beyond 6) l = 0 ↔
    l ≤ min (readWord key) 4 := by
  have hname : nameAt beyond 6 = ascii "srv_upnphost" := rfl
  have hfront : ∀ k < 4, tolower ((ascii "srv_upnphost").getD k 0) = (ascii "srv_").getD k 0 := by decide
  have hlower : ∀ k ≤ 4, isWord (tolower ((ascii "srv_upnphost").getD k 0)) = true := by decide
  rw [hname, strnicmp_eq_zero]
  constructor
  · intro h
    apply Nat.le_of_not_lt
    intro hlt
    have hk := h _ hlt
    rcases Nat.lt_or_ge 4 (readWord key) with hlong | hshort
    · rw [Nat.min_eq_right (Nat.le_of_lt hlong), getD_word key hlong] at hk
      exact hw.fifth hlong hk
    · rw [Nat.min_eq_left hshort] at hk
      have hend := not_isWord_past key
      rw [← isWord_tolower, hk, hlower _ hshort] at hend
      cases hend
  · intro h k hk
    have hk4 : k < 4 := by omega
    have hkw : k < readWord key := by omega
    have hkw' : k < ((key.takeWhile isWord).take 4).length := by
      rw [List.length_take]
      exact Nat.lt_min.mpr ⟨hk4, hkw⟩
    have htake := hw.front.getD hkw'
    rw [List.getD_eq_getElem _ _ hkw', List.getElem_take] at htake
    rw [getD_word key hkw, List.getD_eq_getElem _ 0 hkw, hfront k hk4]
    exact htake

/-- What follows the answer decides whether the last entry ends the loop. -/
theorem inside_last (hw : Front (key.takeWhile isWord)) :
    (tableLoop beyond key 2 6 (readWord v) v).Inside ↔ Settles (key.takeWhile isWord) v := by
  by_cases hm : readWord v ≤ min (readWord key) 4
  · have hmatch : strnicmp key (nameAt beyond 6) (readWord v) = 0 := (match_last hw).mpr hm
    by_cases he : Equals (past (readWord v) v)
    · rw [tableLoop_take hmatch he, inside_cons (by decide)]
      exact ⟨fun h => absurd h not_inside_last, fun h => absurd he h.2⟩
    · rw [tableLoop_stop hmatch he, inside_cons (by decide)]
      exact ⟨fun _ => ⟨hm, he⟩, fun _ => List.forall_mem_nil _⟩
  · have hskip : strnicmp key (nameAt beyond 6) (readWord v) ≠ 0 := mt (match_last hw).mp hm
    rw [tableLoop_skip hskip, inside_cons (by decide)]
    exact ⟨fun h => absurd h not_inside_last, fun h => absurd h.1 hm⟩

theorem calls_last (hw : Front (key.takeWhile isWord)) (h : Settles (key.takeWhile isWord) v) :
    (tableLoop beyond key 2 6 (readWord v) v).calls = [] := by
  rw [tableLoop_stop ((match_last hw).mpr h.1) h.2]

theorem answers_iff : Answers v ↔
    v.getD 0 0 = 0x79 ∨ v.getD 0 0 = 0x59 ∨ v.getD 0 0 = 0x6e ∨ v.getD 0 0 = 0x4e := by
  have hascii : ascii "yYnN" = [0x79, 0x59, 0x6e, 0x4e] := by decide
  simp only [Answers, hascii, List.mem_cons, List.not_mem_nil, or_false]

theorem answer_eq_nil {f : Bool → Setting} : answer f v = [] ↔ ¬Answers v := by
  rw [answers_iff]
  simp only [answer]
  split
  · next hyes => exact ⟨fun h => absurd h (List.cons_ne_nil _ _), fun h => absurd (by tauto) h⟩
  · next hyes =>
    split
    · next hno => exact ⟨fun h => absurd h (List.cons_ne_nil _ _), fun h => absurd (by tauto) h⟩
    · next hno => exact ⟨fun _ => by tauto, fun _ => rfl⟩

/-- The entry of `srv_mdns`, from its equals sign on. -/
theorem inside_mdns (hw : Front (key.takeWhile isWord))
    (hm : strnicmp key (nameAt beyond 5) l = 0) (he : Equals (past l p)) :
    (tableLoop beyond key 3 5 l p).Inside ↔ Settles (key.takeWhile isWord) (behind (past l p)) := by
  rw [tableLoop_take hm he, inside_cons (by decide)]
  exact inside_last hw

theorem calls_mdns (hw : Front (key.takeWhile isWord))
    (hm : strnicmp key (nameAt beyond 5) l = 0) (he : Equals (past l p))
    (hs : Settles (key.takeWhile isWord) (behind (past l p))) :
    (tableLoop beyond key 3 5 l p).calls = answer .srvMdns (behind (past l p)) := by
  rw [tableLoop_take hm he]
  show answer _ _ ++ (tableLoop beyond key 2 6 (readWord _) _).calls = _
  rw [calls_last hw hs, List.append_nil]

theorem quiet_mdns (hw : Front (key.takeWhile isWord))
    (hm : strnicmp key (nameAt beyond 5) l = 0) (he : Equals (past l p)) :
    (tableLoop beyond key 3 5 l p).Quiet ↔
      ¬Answers (behind (past l p)) ∧ Settles (key.takeWhile isWord) (behind (past l p)) := by
  rw [Reading.Quiet, inside_mdns hw hm he]
  constructor
  · rintro ⟨hs, hcalls⟩
    rw [calls_mdns hw hm he hs] at hcalls
    exact ⟨answer_eq_nil.mp hcalls, hs⟩
  · rintro ⟨ha, hs⟩
    rw [calls_mdns hw hm he hs]
    exact ⟨hs, answer_eq_nil.mpr ha⟩

theorem readUInt_eq_zero : (readUInt v).1 = 0 ↔ isDigit (v.getD 0 0) = false := by
  show (v.takeWhile isDigit).length = 0 ↔ _
  rw [List.length_eq_zero_iff]
  cases v with
  | nil => exact ⟨fun _ => rfl, fun _ => rfl⟩
  | cons c v =>
    rw [List.takeWhile_cons]
    show _ ↔ isDigit c = false
    cases isDigit c with
    | false => exact ⟨fun _ => rfl, fun _ => rfl⟩
    | true => exact ⟨fun h => absurd h (List.cons_ne_nil _ _), fun h => absurd h (by decide)⟩

theorem ite_cons_eq_nil {c : Prop} [Decidable c] {s : Setting} {ss t : List Setting} :
    (if c then s :: ss else t) = [] ↔ ¬c ∧ t = [] := by
  split
  · next h => exact ⟨fun hc => absurd hc (List.cons_ne_nil _ _), fun hc => absurd h hc.1⟩
  · next h => exact ⟨fun hc => ⟨h, hc⟩, fun hc => hc.2⟩

theorem refuses_iff (hi : i ≤ 5) : (readValue i l v).1 = [] ↔ Refuses i v := by
  match i, hi with
  | 0, _ | 2, _ | 3, _ => exact ite_cons_eq_nil.trans ((and_iff_left rfl).trans not_not)
  | 1, _ =>
    refine ite_cons_eq_nil.trans ?_
    rw [ite_cons_eq_nil, and_iff_left rfl, not_not]
    rfl
  | 4, _ => exact ite_cons_eq_nil.trans ((and_iff_left rfl).trans (not_not.trans readUInt_eq_zero))
  | 5, _ => exact answer_eq_nil

theorem length_readValue (hi : i < 5) : (readValue i l v).2 = l := by
  match i, hi with
  | 0, _ | 1, _ | 2, _ | 3, _ | 4, _ => rfl

/-- The entry of the HTTP port, and then the one of `srv_mdns`. -/
theorem quiet_service (hw : Front (key.takeWhile isWord))
    (hm : ∀ k, 4 ≤ k → k < 6 → strnicmp key (nameAt beyond k) l = 0) (he : Equals (past l p)) :
    (tableLoop beyond key 4 4 l p).Quiet ↔ isDigit ((behind (past l p)).getD 0 0) = false ∧
      (Equals (past l (behind (past l p))) →
        ¬Answers (behind (past l (behind (past l p)))) ∧
          Settles (key.takeWhile isWord) (behind (past l (behind (past l p))))) := by
  have hport : (readValue 4 l (behind (past l p))).1 = [] ↔
      isDigit ((behind (past l p)).getD 0 0) = false := refuses_iff (by decide)
  rw [Reading.Quiet, tableLoop_take (hm 4 (by decide) (by decide)) he, inside_cons (by decide),
    List.append_eq_nil_iff, and_left_comm, hport]
  refine and_congr_right fun _ => ?_
  show (tableLoop beyond key 3 5 l (behind (past l p))).Quiet ↔ _
  by_cases he' : Equals (past l (behind (past l p)))
  · rw [quiet_mdns hw (hm 5 (by decide) (by decide)) he']
    exact ⟨fun h _ => h, fun h => h he'⟩
  · rw [tableLoop_stop (hm 5 (by decide) (by decide)) he', Reading.Quiet, inside_cons (by decide)]
    exact ⟨fun _ h => absurd h he', fun _ => ⟨List.forall_mem_nil _, rfl⟩⟩

theorem readAddr_eq_zero {b : Base} {sep : UInt8} {k : Nat} (hd : b.isDigit (v.getD 0 0) = false)
    (hsep : v.getD 0 0 ≠ sep) : (readAddr b sep (k + 2) v).1 = 0 := by
  have hscan : Verif.Numeral.scan b (pushByte b) 0 ([] ++ v) = some (value b [], v) :=
    scan_digits (fun _ h => absurd h List.not_mem_nil) hd (Nat.zero_le _)
  rw [List.nil_append] at hscan
  rw [readAddr, readBytes, hscan]
  simp only [ne_eq, Nat.succ_ne_zero, not_false_eq_true, if_true, hsep]
  rfl

/-- An equals sign is no value. -/
theorem refuses_of_equals (h : Equals v) (hi : i ≤ 5) : Refuses i v := by
  have hip : (readIpAddr v).1 = 0 := readAddr_eq_zero (by rw [h]; decide) (by rw [h]; decide)
  have hmac : (readMacAddr v).1 = 0 := readAddr_eq_zero (by rw [h]; decide) (by rw [h]; decide)
  have hword : ¬readWord v = 4 := by
    intro hlen
    have hc := List.mem_takeWhile_imp (List.getElem_mem (n := 0) (by rw [← readWord, hlen]; decide))
    rw [← List.getD_eq_getElem _ 0, ← getD_word v (by omega), h] at hc
    exact absurd hc (by decide)
  have hdigit : isDigit (v.getD 0 0) = false := by
    rw [h]
    decide
  have hanswers : ¬Answers v := by
    rw [answers_iff, h]
    decide
  interval_cases i
  · exact hmac
  · exact ⟨hip, fun hauto => hword hauto.1⟩
  · exact hip
  · exact hip
  · exact hdigit
  · exact hanswers

theorem past_zero (hp : skipSpace p = p) : past 0 p = p := hp

theorem skipSpace_behind (p : List UInt8) : skipSpace (behind p) = behind p := skipSpace_skipSpace _

theorem front_nil : Front [] := front_of_service List.nil_prefix

/-- What the entries from one on see when there is no name in front of the equals signs. -/
def NamelessFrom (i : Nat) (p : List UInt8) : Prop :=
  ∃ n v, Signs n p v ∧ ¬Equals v ∧ i + n ≤ 6 ∧ (0 < n → Refuses (i + n - 1) v) ∧
    (i + n = 6 → Settles [] v)

theorem namelessFrom_of_not_equals (he : ¬Equals p) (hi : i ≤ 5) : NamelessFrom i p :=
  ⟨0, p, .zero, he, Nat.le_succ_of_le hi, fun h => absurd h (Nat.lt_irrefl 0), fun h => by omega⟩

theorem namelessFrom_last (he : Equals p) :
    NamelessFrom 5 p ↔ ¬Answers (behind p) ∧ Settles [] (behind p) := by
  constructor
  · rintro ⟨n, v, hsigns, hv, hn, hrefuses, hsettles⟩
    cases hsigns with
    | zero => exact absurd he hv
    | @succ m _ _ _ htail =>
      obtain rfl : m = 0 := by omega
      cases htail
      exact ⟨hrefuses Nat.one_pos, hsettles rfl⟩
  · rintro ⟨ha, hs⟩
    have hword : readWord (behind p) = 0 := Nat.le_zero.mp hs.1
    have hv : ¬Equals (behind p) := by
      have hpast := hs.2
      rwa [hword, past_zero (skipSpace_behind p)] at hpast
    exact ⟨1, behind p, .succ he .zero, hv, Nat.le_refl _, fun _ => ha, fun _ => hs⟩

theorem namelessFrom_succ (he : Equals p) (hi : i ≤ 4) :
    NamelessFrom i p ↔ Refuses i (behind p) ∧ NamelessFrom (i + 1) (behind p) := by
  constructor
  · rintro ⟨n, v, hsigns, hv, hn, hrefuses, hsettles⟩
    cases hsigns with
    | zero => exact absurd he hv
    | @succ n _ _ _ htail =>
      rw [Nat.add_comm n 1, ← Nat.add_assoc] at hn hrefuses hsettles
      refine ⟨?_, n, v, htail, hv, hn, fun hpos => hrefuses (by omega), hsettles⟩
      cases htail with
      | zero => exact hrefuses Nat.one_pos
      | succ he' _ => exact refuses_of_equals he' (by omega)
  · rintro ⟨hfirst, n, v, hsigns, hv, hn, hrefuses, hsettles⟩
    rw [Nat.add_right_comm, Nat.add_assoc] at hn hrefuses hsettles
    refine ⟨n + 1, v, .succ he hsigns, hv, hn, fun _ => ?_, hsettles⟩
    cases hsigns with
    | zero => exact hfirst
    | succ _ _ => exact hrefuses (Nat.succ_pos _)

theorem quiet_nameless (hw : key.takeWhile isWord = []) (hp : skipSpace p = p) {d : Nat}
    (hi : i + d = 5) : (tableLoop beyond key (3 + d) i 0 p).Quiet ↔ NamelessFrom i p := by
  have hm : ∀ i, strnicmp key (nameAt beyond i) 0 = 0 := fun _ => rfl
  have hstop : ∀ {i d : Nat} {p : List UInt8}, skipSpace p = p → ¬Equals p → i + d = 5 →
      ((tableLoop beyond key (2 + d + 1) i 0 p).Quiet ↔ NamelessFrom i p) := by
    intro i d p hp he hi
    rw [tableLoop_stop (hm i) (by rwa [past_zero hp])]
    exact ⟨fun _ => namelessFrom_of_not_equals he (by omega),
      fun _ => ⟨(inside_cons (by omega)).mpr (List.forall_mem_nil _), rfl⟩⟩
  rw [Nat.add_right_comm 2 1 d]
  induction d generalizing i p with
  | zero =>
    by_cases he : Equals p
    · have he' : Equals (past 0 p) := by rwa [past_zero hp]
      obtain rfl : i = 5 := hi
      rw [namelessFrom_last he]
      refine (quiet_mdns (hw ▸ front_nil) (hm 5) he').trans ?_
      rw [hw, past_zero hp]
    · exact hstop hp he hi
  | succ d ih =>
    by_cases he : Equals p
    · have hnext : (tableLoop beyond key (2 + d + 1) (i + 1) 0 (behind p)).Quiet ↔
          NamelessFrom (i + 1) (behind p) := ih (skipSpace_behind p) (by omega)
      have he' : Equals (past 0 p) := by rwa [past_zero hp]
      rw [namelessFrom_succ he (by omega), ← hnext,
        tableLoop_take (hm i) he', Reading.Quiet, inside_cons (by omega), List.append_eq_nil_iff,
        and_left_comm, past_zero hp, length_readValue (by omega), refuses_iff (by omega)]
      rfl
    · exact hstop hp he hi

theorem readLine_eq (beyond buf : List UInt8) : readLine beyond buf =
    tableLoop beyond (skipSpace buf) 8 0 (readWord (skipSpace buf)) (skipSpace buf) := rfl

/-- The reading begins at the first name that the word matches. -/
theorem reading_at (beyond : List UInt8) {m : Nat} (hi : m + i = 8) (hpos : 0 < m)
    (h : ∀ k < i, ¬Abbreviates (key.takeWhile isWord) (tbl.getD k [])) :
    (tableLoop beyond key 8 0 (readWord key) key).calls =
        (tableLoop beyond key m i (readWord key) key).calls ∧
      ((tableLoop beyond key 8 0 (readWord key) key).Inside ↔
        (tableLoop beyond key m i (readWord key) key).Inside) := by
  have hskip : ∀ k, 0 ≤ k → k < 0 + i → strnicmp key (nameAt beyond k) (readWord key) ≠ 0 :=
    fun k _ hk => mt (match_iff (by omega)).mp (h k (by omega))
  have hskips := tableLoop_skips (p := key) (m := m) (by omega) hskip
  rwa [hi, Nat.zero_add] at hskips

/-- A word that matches one name only, and not the one of `srv_mdns`, has the rest of the table
compared with it. -/
theorem not_inside_of_one (hi : i < 7) (hne : i ≠ 5)
    (he : Equals (past (readWord key) key))
    (hm : Abbreviates (key.takeWhile isWord) (tbl.getD i []))
    (h : ∀ k < 7, k ≠ i → ¬Abbreviates (key.takeWhile isWord) (tbl.getD k [])) :
    ¬(tableLoop beyond key 8 0 (readWord key) key).Inside := by
  obtain ⟨d, hd⟩ : ∃ d, i + d = 6 := Nat.le.dest (Nat.le_of_lt_succ hi)
  have hreach := reading_at beyond (m := 1 + d + 1) (i := i) (by omega) (by omega)
    fun k hk => h k (by omega) (by omega)
  rw [hreach.2,
    tableLoop_take ((match_iff hi).mpr hm) he, inside_cons hi]
  rcases Nat.lt_or_ge i 5 with hlt | hge
  · rw [length_readValue hlt]
    exact not_inside_of_skips (by omega) fun k hik hk =>
      mt (match_iff hk).mp (h k hk (by omega))
  · obtain rfl : i = 6 := by omega
    obtain rfl : d = 0 := by omega
    exact not_inside_last

theorem not_inside_of_none
    (h : ∀ k < 7, ¬Abbreviates (key.takeWhile isWord) (tbl.getD k [])) :
    ¬(tableLoop beyond key 8 0 (readWord key) key).Inside :=
  not_inside_of_skips (d := 7) rfl fun k _ hk => mt (match_iff hk).mp (h k hk)

theorem exists_entry {name : List UInt8} (h : name ∈ tbl) : ∃ i < 7, tbl.getD i [] = name := by
  obtain ⟨i, hi, rfl⟩ := List.getElem_of_mem h
  exact ⟨i, hi, List.getD_eq_getElem _ _ hi⟩

/-- Without an equals sign behind the word nothing is set. -/
theorem quiet_bare (beyond : List UInt8) (he : ¬Equals (past (readWord key) key)) :
    ((tableLoop beyond key 8 0 (readWord key) key).Inside ↔
        ∃ name ∈ tbl, Abbreviates (key.takeWhile isWord) name) ∧
      ((tableLoop beyond key 8 0 (readWord key) key).Inside →
        (tableLoop beyond key 8 0 (readWord key) key).calls = []) := by
  classical
  by_cases hany : ∃ i, i < 7 ∧ Abbreviates (key.takeWhile isWord) (tbl.getD i [])
  · obtain ⟨hi, hm⟩ := Nat.find_spec hany
    have hfirst : ∀ k < Nat.find hany, ¬Abbreviates (key.takeWhile isWord) (tbl.getD k []) := fun k hk hk' =>
      Nat.find_min hany hk ⟨hk.trans hi, hk'⟩
    obtain ⟨m, hd⟩ : ∃ m, Nat.find hany + m = 7 := Nat.le.dest (Nat.le_of_lt hi)
    obtain ⟨hcalls, hinside⟩ := reading_at beyond (m := m + 1) (by omega) (Nat.succ_pos m) hfirst
    rw [hcalls, hinside, tableLoop_stop ((match_iff hi).mpr hm) he, inside_cons hi]
    refine ⟨⟨fun _ => ⟨_, ?_, hm⟩, fun _ => List.forall_mem_nil _⟩, fun _ => rfl⟩
    rw [List.getD_eq_getElem _ _ hi]
    exact List.getElem_mem hi
  · have hnone : ∀ k < 7, ¬Abbreviates (key.takeWhile isWord) (tbl.getD k []) := fun k hk hm =>
      hany ⟨k, hk, hm⟩
    refine ⟨⟨fun h => absurd h (not_inside_of_none hnone), ?_⟩, fun h => absurd h (not_inside_of_none hnone)⟩
    rintro ⟨name, hname, hm⟩
    obtain ⟨i, hi, rfl⟩ := exists_entry hname
    exact absurd hm (hnone i hi)

theorem cString_append (piece rest : List UInt8) : cString (piece ++ 0 :: rest) = cString piece := by
  induction piece with
  | nil => rfl
  | cons c piece ih =>
    rw [List.cons_append, cString, cString, List.takeWhile_cons, List.takeWhile_cons]
    split
    · exact congrArg _ ih
    · rfl

theorem takeWhile_cString {f : UInt8 → Bool} (hf : f 0 = false) (s : List UInt8) :
    (cString s).takeWhile f = s.takeWhile f := by
  induction s with
  | nil => rfl
  | cons c s ih =>
    rw [cString, List.takeWhile_cons]
    split
    · rw [List.takeWhile_cons, List.takeWhile_cons]
      split
      · exact congrArg _ ih
      · rfl
    · next hc =>
      obtain rfl : c = 0 := by simpa using hc
      rw [List.takeWhile_cons_of_neg (by rw [hf]; decide)]
      rfl

theorem dropWhile_cString {f : UInt8 → Bool} (hf : f 0 = false) (s : List UInt8) :
    (cString s).dropWhile f = cString (s.dropWhile f) := by
  induction s with
  | nil => rfl
  | cons c s ih =>
    by_cases hc : c = 0
    · subst hc
      rw [List.dropWhile_cons_of_neg (by rw [hf]; decide)]
      rfl
    · have hcons : cString (c :: s) = c :: cString s := List.takeWhile_cons_of_pos (by simpa using hc)
      rw [hcons, List.dropWhile_cons, List.dropWhile_cons]
      split
      · exact ih
      · exact hcons.symm

theorem head?_cString {c : UInt8} (hc : c ≠ 0) (s : List UInt8) :
    (cString s).head? = some c ↔ s.getD 0 0 = c := by
  cases s with
  | nil => exact ⟨fun h => (by cases h), fun h => absurd h.symm hc⟩
  | cons d s =>
    rw [cString, List.takeWhile_cons]
    show _ ↔ d = c
    split
    · exact Option.some_inj
    · next hd =>
      obtain rfl : d = 0 := by simpa using hd
      exact ⟨fun h => (by cases h), fun h => absurd h.symm hc⟩

theorem drop_cString {s : List UInt8} (h : s.getD 0 0 ≠ 0) : (cString s).drop 1 = cString (s.drop 1) := by
  cases s with
  | nil => rfl
  | cons c s =>
    have hcons : cString (c :: s) = c :: cString s := List.takeWhile_cons_of_pos (by simpa using h)
    rw [hcons]
    rfl

theorem token_eq (v : List UInt8) : (cString v).takeWhile (fun c => !isSpace c) = token v := by
  rw [cString, List.takeWhile_takeWhile, token]
  exact congrArg (List.takeWhile · v) (by funext c; simp [bne, beq_eq_decide])

theorem assignment_eq (piece rest : List UInt8) {key : List UInt8}
    (hkey : key = skipSpace (piece ++ 0 :: rest)) :
    assignment piece = if Equals (past (readWord key) key) then
      some (key.takeWhile isWord, token (behind (past (readWord key) key))) else none := by
  have hspace : isSpace 0 = false := by decide
  have hline : (cString piece).dropWhile isSpace = cString key := by
    rw [← cString_append piece rest, dropWhile_cString hspace, hkey, skipSpace_eq]
  have hpast : ((cString key).dropWhile isWord).dropWhile isSpace =
      cString (past (readWord key) key) := by
    rw [dropWhile_cString (by decide), dropWhile_cString hspace, past, drop_word, skipSpace_eq]
  have hhead : (cString (past (readWord key) key)).head? = some chEqual ↔
      Equals (past (readWord key) key) := head?_cString (by decide) _
  rw [assignment, hline, hpast]
  by_cases he : Equals (past (readWord key) key)
  · rw [if_pos (hhead.mpr he), if_pos he, takeWhile_cString (by decide), drop_cString (by rw [he]; decide),
      dropWhile_cString hspace, token_eq, behind, skipSpace_eq]
  · rw [if_neg (mt hhead.mp he), if_neg he]

theorem buf_of_fetched {start : Bool} {ps : List (List UInt8)} {f : Fetched}
    (hf : f ∈ fetched start tmp ps) : ∃ rest, f.buf = f.piece ++ 0 :: rest := by
  induction ps generalizing start tmp with
  | nil => exact absurd hf List.not_mem_nil
  | cons piece ps ih =>
    rcases List.mem_cons.mp hf with rfl | hf
    · exact ⟨_, rfl⟩
    · exact ih hf

theorem settingOf_eq_nil (h : w.map tolower ∉ names) : settingOf w v = [] := by
  have hne : ∀ s ∈ ["macaddr", "host", "ipaddr", "netmask", "gateway", "srv_http_port", "srv_mdns"],
      w.map tolower ≠ ascii s := fun s hs heq => h (heq ▸ List.mem_map_of_mem hs)
  simp only [List.forall_mem_cons] at hne
  obtain ⟨hmac, hhost, hip, hmask, hgateway, hport, hmdns, -⟩ := hne
  rw [settingOf]
  simp only [if_neg hmac, if_neg hhost, if_neg hip, if_neg hmask, if_neg hgateway, if_neg hport,
    if_neg hmdns]

theorem settingOf_mdns (h : w.map tolower = ascii "srv_mdns") : settingOf w v =
    if v.map tolower = ascii "yes" then [.srvMdns true]
    else if v.map tolower = ascii "no" then [.srvMdns false] else [] := by
  rw [settingOf, h]
  rfl

/-- The first character of the value decides as the whole value does when that is `yes` or `no`. -/
theorem answer_eq (h : YesOrNo (token v)) : Answers v ∧ answer .srvMdns v =
    if (token v).map tolower = ascii "yes" then [.srvMdns true]
    else if (token v).map tolower = ascii "no" then [.srvMdns false] else [] := by
  have hhead : ∀ {c : UInt8} {t : List UInt8}, (token v).map tolower = c :: t → tolower (v.getD 0 0) = c := by
    intro c t ht
    cases v with
    | nil => cases ht
    | cons d v =>
      rw [token, List.takeWhile_cons] at ht
      split at ht
      · exact (List.cons.inj ht).1
      · cases ht
  have hletters : ∀ c : UInt8, (tolower c = 0x79 → c = 0x79 ∨ c = 0x59) ∧
      (tolower c = 0x6e → c = 0x6e ∨ c = 0x4e) := forall_char (by decide +kernel)
  rcases h with h | h
  · have hc := (hletters _).1 (hhead h)
    rw [if_pos h, answers_iff]
    exact ⟨hc.imp_right Or.inl, if_pos hc⟩
  · have hc := (hletters _).2 (hhead h)
    have hno : ¬(v.getD 0 0 = 0x79 ∨ v.getD 0 0 = 0x59) := by
      rcases hc with hc | hc <;> rw [hc] <;> decide
    rw [if_neg (by rw [h]; decide), if_pos h, answers_iff]
    exact ⟨Or.inr (Or.inr hc), (if_neg hno).trans (if_pos hc)⟩

/-- No name is read behind the table, and what is set is what is documented. -/
def Fetched.Conforms (beyond : List UInt8) (f : Fetched) : Prop :=
  (readLine beyond f.buf).Inside ∧
    ∀ cfg : NetConfig, cfg.setAll (readLine beyond f.buf).calls = cfg.setAll f.documented

theorem conforms_iff_quiet {f : Fetched} (h : f.documented = []) :
    f.Conforms beyond ↔ (readLine beyond f.buf).Quiet := by
  rw [Fetched.Conforms, h]
  exact and_congr_right fun _ => setAll_eq_self_iff

/-- A piece whose name is none of the documented ones sets nothing by the documentation. -/
theorem documented_eq_nil {f : Fetched} {rest : List UInt8} (hbuf : f.buf = f.piece ++ 0 :: rest)
    (h : Equals (afterWord f.buf) → (wordOf f.buf).map tolower ∉ names) :
    f.documented = [] := by
  rw [Fetched.documented]
  split
  · rw [documented, assignment_eq f.piece rest (congrArg skipSpace hbuf)]
    by_cases he : Equals (past (readWord (skipSpace f.buf)) (skipSpace f.buf))
    · rw [if_pos he]
      exact settingOf_eq_nil (h he)
    · rw [if_neg he]
  · rfl

theorem documented_of_equals {f : Fetched} {rest : List UInt8} (hbuf : f.buf = f.piece ++ 0 :: rest)
    (he : Equals (afterWord f.buf)) (hbegins : f.beginsLine = true) :
    f.documented = settingOf (wordOf f.buf)
      (token (behind (afterWord f.buf))) := by
  have he' : Equals (past (readWord (skipSpace f.buf)) (skipSpace f.buf)) := he
  rw [Fetched.documented, if_pos hbegins, documented,
    assignment_eq f.piece rest (congrArg skipSpace hbuf), if_pos he']
  rfl

theorem conforms_bare {f : Fetched} {rest : List UInt8} (hbuf : f.buf = f.piece ++ 0 :: rest)
    (he : ¬Equals (afterWord f.buf)) :
    f.Conforms beyond ↔ ∃ name ∈ tbl, Abbreviates (wordOf f.buf) name := by
  rw [conforms_iff_quiet (documented_eq_nil hbuf fun h => absurd h he)]
  obtain ⟨hinside, hcalls⟩ := quiet_bare beyond he
  exact ⟨fun h => hinside.mp h.1, fun h => ⟨hinside.mpr h, hcalls (hinside.mpr h)⟩⟩

theorem service_not_documented (h : Abbreviates w (ascii "srv_")) : w.map tolower ∉ names := by
  have hnames : ∀ n < 5, (ascii "srv_").take n ∉ names := by decide +kernel
  rw [h.take_eq.2]
  exact hnames w.length (Nat.lt_succ_of_le h.take_eq.1)

theorem conforms_service {f : Fetched} {rest : List UInt8} (hbuf : f.buf = f.piece ++ 0 :: rest)
    (hw : wordOf f.buf ≠ []) (h : Abbreviates (wordOf f.buf) (ascii "srv_"))
    (he : Equals (afterWord f.buf)) {v : List UInt8}
    (hv : v = behind (afterWord f.buf)) :
    f.Conforms beyond ↔ isDigit (v.getD 0 0) = false ∧ (Equals (past (wordOf f.buf).length v) →
      ¬Answers (behind (past (wordOf f.buf).length v)) ∧
        Settles (wordOf f.buf) (behind (past (wordOf f.buf).length v))) := by
  have hentry : ∀ k, 4 ≤ k → k < 7 → Abbreviates (wordOf f.buf) (tbl.getD k []) := fun k hk hk' =>
    (service_iff ⟨hk, hk'⟩ h.take_eq.1).mpr h
  have hfirst : ∀ k < 4, ¬Abbreviates (wordOf f.buf) (tbl.getD k []) := by
    intro k hk hm
    rcases hm.both (by omega) (by decide) (by omega) (hentry 4 (by decide) (by decide)) with hnil | hservice
    · exact hw hnil
    · omega
  obtain ⟨hcalls, hinside⟩ := reading_at beyond (m := 4) (i := 4) rfl (by decide) hfirst
  rw [conforms_iff_quiet (documented_eq_nil hbuf fun _ => service_not_documented h), readLine_eq,
    Reading.Quiet, hcalls, hinside, hv]
  exact quiet_service (front_of_service h) (fun k hk hk' => (match_iff (by omega)).mpr
    (hentry k hk (by omega))) he

/-- What a piece with the name `srv_mdns`, or the front of it, sets by the documentation. -/
theorem documented_mdns {f : Fetched} {rest : List UInt8} (hbuf : f.buf = f.piece ++ 0 :: rest)
    (h : Abbreviates (wordOf f.buf) (ascii "srv_mdns"))
    (he : Equals (afterWord f.buf)) {v : List UInt8}
    (hv : v = behind (afterWord f.buf))
    (hc : f.beginsLine = true ∧ (wordOf f.buf).length = 8 ∧ YesOrNo (token v)) :
    f.documented = answer .srvMdns v := by
  have hname : (wordOf f.buf).map tolower = ascii "srv_mdns" := by
    rw [h.take_eq.2, hc.2.1]
    rfl
  rw [documented_of_equals hbuf he hc.1, ← hv, settingOf_mdns hname]
  exact (answer_eq hc.2.2).2.symm

theorem documented_not_mdns {f : Fetched} {rest : List UInt8} (hbuf : f.buf = f.piece ++ 0 :: rest)
    (h : Abbreviates (wordOf f.buf) (ascii "srv_mdns"))
    (he : Equals (afterWord f.buf)) {v : List UInt8}
    (hv : v = behind (afterWord f.buf))
    (hc : ¬(f.beginsLine = true ∧ (wordOf f.buf).length = 8 ∧ YesOrNo (token v))) :
    f.documented = [] := by
  have hnames : ∀ n < 8, (ascii "srv_mdns").take n ∉ names := by decide +kernel
  by_cases hlen : (wordOf f.buf).length = 8
  · have hname : (wordOf f.buf).map tolower = ascii "srv_mdns" := by
      rw [h.take_eq.2, hlen]
      rfl
    by_cases hbegins : f.beginsLine = true
    · have hno : ¬YesOrNo (token v) := fun hyes => hc ⟨hbegins, hlen, hyes⟩
      rw [YesOrNo, not_or] at hno
      rw [documented_of_equals hbuf he hbegins, ← hv, settingOf_mdns hname, if_neg hno.1, if_neg hno.2]
    · exact if_neg hbegins
  · refine documented_eq_nil hbuf fun _ => ?_
    rw [h.take_eq.2]
    exact hnames _ (Nat.lt_of_le_of_ne h.take_eq.1 hlen)

theorem conforms_mdns {f : Fetched} {rest : List UInt8} (hbuf : f.buf = f.piece ++ 0 :: rest)
    (hlen : 4 < (wordOf f.buf).length) (h : Abbreviates (wordOf f.buf) (ascii "srv_mdns"))
    (he : Equals (afterWord f.buf)) {v : List UInt8}
    (hv : v = behind (afterWord f.buf)) :
    f.Conforms beyond ↔ Settles (wordOf f.buf) v ∧
      (Answers v → f.beginsLine = true ∧ (wordOf f.buf).length = 8 ∧ YesOrNo (token v)) := by
  have hfirst : ∀ k < 5, ¬Abbreviates (wordOf f.buf) (tbl.getD k []) := by
    intro k hk hm
    rcases hm.both (by omega) (by decide : 5 < 7) (by omega) h with hnil | hservice
    · rw [hnil] at hlen
      cases hlen
    · omega
  have hfront : Front (wordOf f.buf) := front_of_mdns h
  have hmatch : strnicmp (skipSpace f.buf) (nameAt beyond 5) (readWord (skipSpace f.buf)) = 0 :=
    (match_iff (by decide)).mpr h
  obtain ⟨hcalls, hinside⟩ := reading_at beyond (m := 3) (i := 5) rfl (by decide) hfirst
  subst hv
  rw [Fetched.Conforms, readLine_eq, hinside, hcalls]
  refine Iff.trans (and_congr_left' (inside_mdns hfront hmatch he)) (and_congr_right fun hs => ?_)
  have hanswer : (tableLoop beyond (skipSpace f.buf) 3 5 (readWord (skipSpace f.buf)) (skipSpace f.buf)).calls =
      answer .srvMdns (behind (afterWord f.buf)) := calls_mdns hfront hmatch he hs
  rw [hanswer]
  by_cases hc : f.beginsLine = true ∧ (wordOf f.buf).length = 8 ∧ YesOrNo (token (behind (afterWord f.buf)))
  · rw [documented_mdns hbuf h he rfl hc]
    exact ⟨fun _ _ => hc, fun _ _ => rfl⟩
  · rw [documented_not_mdns hbuf h he rfl hc]
    refine setAll_eq_self_iff.trans (answer_eq_nil.trans ?_)
    exact ⟨fun h ha => absurd ha h, fun h ha => hc (h ha)⟩

/-- Of the other words with an equals sign behind them, none is read inside the table. -/
theorem not_conforms {f : Fetched} (hw : wordOf f.buf ≠ [])
    (he : Equals (afterWord f.buf))
    (hservice : ¬Abbreviates (wordOf f.buf) (ascii "srv_"))
    (hmdns : 4 < (wordOf f.buf).length → ¬Abbreviates (wordOf f.buf) (ascii "srv_mdns")) :
    ¬(readLine beyond f.buf).Inside := by
  have hlong : ∀ i, 4 ≤ i → i < 7 → Abbreviates (wordOf f.buf) (tbl.getD i []) →
      4 < (wordOf f.buf).length := by
    intro i hi hi' hm
    apply Nat.lt_of_not_le
    intro hle
    exact hservice ((service_iff ⟨hi, hi'⟩ hle).mp hm)
  by_cases hany : ∃ i < 7, Abbreviates (wordOf f.buf) (tbl.getD i [])
  · obtain ⟨i, hi, hm⟩ := hany
    have hne : i ≠ 5 := by
      rintro rfl
      exact hmdns (hlong 5 (by decide) hi hm) hm
    refine not_inside_of_one hi hne he hm fun k hk hki hm' => ?_
    rcases hm.both hi hk (Ne.symm hki) hm' with hnil | ⟨hi4, -, hshort⟩
    · exact hw hnil
    · exact absurd (hlong i hi4 hi hm) (Nat.not_lt.mpr hshort)
  · exact not_inside_of_none fun k hk hm => hany ⟨k, hk, hm⟩

theorem conforms_nameless {f : Fetched} {rest : List UInt8} (hbuf : f.buf = f.piece ++ 0 :: rest)
    (hw : wordOf f.buf = []) : f.Conforms beyond ↔ NamelessFrom 0 (skipSpace f.buf) := by
  have hnames : ([] : List UInt8).map tolower ∉ names := by decide
  have hlen : readWord (skipSpace f.buf) = 0 := List.length_eq_zero_iff.mpr hw
  rw [conforms_iff_quiet (documented_eq_nil hbuf fun _ => by rwa [hw]), readLine_eq, hlen]
  exact quiet_nameless hw (skipSpace_skipSpace _) (d := 5) rfl

/-- A piece is read as documented just when it is one of these. -/
theorem conforms_iff {f : Fetched} {rest : List UInt8} (hbuf : f.buf = f.piece ++ 0 :: rest) :
    f.Conforms beyond ↔ f.Reads := by
  by_cases he : Equals (afterWord f.buf)
  · by_cases hw : wordOf f.buf = []
    · have hstart : afterWord f.buf = skipSpace f.buf := by
        rw [afterWord, hw]
        exact past_zero (skipSpace_skipSpace _)
      rw [conforms_nameless hbuf hw]
      constructor
      · rintro ⟨n, v, hsigns, hv, hn, hrefuses, hsettles⟩
        cases hsigns with
        | zero => exact absurd (hstart ▸ he) hv
        | succ he' htail =>
          rw [Nat.zero_add] at hn hrefuses hsettles
          exact .nameless _ v hw (.succ he' htail) hv (by omega) (hrefuses (Nat.succ_pos _))
            fun h => hsettles (congrArg (· + 1) h)
      · intro h
        cases h with
        | bare _ hno => exact absurd he hno
        | mdns v hlen =>
          rw [hw] at hlen
          cases hlen
        | service v hne => exact absurd hw hne
        | nameless n v _ hsigns hv hn hrefuses hsettles =>
          exact ⟨n + 1, v, hsigns, hv, by omega, fun _ => by rwa [Nat.zero_add, Nat.add_sub_cancel],
            fun h => hsettles (by omega)⟩
    · by_cases hservice : Abbreviates (wordOf f.buf) (ascii "srv_")
      · rw [conforms_service hbuf hw hservice he rfl]
        constructor
        · rintro ⟨hdigit, hthen⟩
          exact .service _ hw hservice he rfl hdigit hthen
        · intro h
          cases h with
          | bare _ hno => exact absurd he hno
          | mdns v hlen =>
            have hshort := hservice.take_eq.1
            exact absurd hlen (Nat.not_lt.mpr hshort)
          | service v _ _ _ hv hdigit hthen => exact hv ▸ ⟨hdigit, hthen⟩
          | nameless n v hnil => exact absurd hnil hw
      · by_cases hmdns : 4 < (wordOf f.buf).length ∧ Abbreviates (wordOf f.buf) (ascii "srv_mdns")
        · rw [conforms_mdns hbuf hmdns.1 hmdns.2 he rfl]
          constructor
          · rintro ⟨hsettles, hanswers⟩
            exact .mdns _ hmdns.1 hmdns.2 he rfl hsettles hanswers
          · intro h
            cases h with
            | bare _ hno => exact absurd he hno
            | mdns v _ _ _ hv hsettles hanswers => exact hv ▸ ⟨hsettles, hanswers⟩
            | service v _ hyes => exact absurd hyes hservice
            | nameless n v hnil => exact absurd hnil hw
        · refine ⟨fun h => absurd h.1 (not_conforms hw he hservice fun hlen h => hmdns ⟨hlen, h⟩), ?_⟩
          intro h
          cases h with
          | bare _ hno => exact absurd he hno
          | mdns v hlen hyes => exact absurd ⟨hlen, hyes⟩ hmdns
          | service v _ hyes => exact absurd hyes hservice
          | nameless n v hnil => exact absurd hnil hw
  · rw [conforms_bare hbuf he]
    constructor
    · exact fun h => .bare h he
    · intro h
      cases h with
      | bare hname _ => exact hname
      | mdns v _ _ hyes => exact absurd hyes he
      | service v _ _ hyes => exact absurd hyes he
      | nameless n v hnil hsigns =>
        exact ⟨_, List.mem_cons_self, hnil ▸ List.nil_prefix⟩

theorem loadPieces_eq (cfg : NetConfig) (start : Bool) (ps : List (List UInt8)) :
    loadPieces beyond tmp cfg ps =
      (cfg.setAll ((fetched start tmp ps).flatMap fun f => (readLine beyond f.buf).calls),
        (fetched start tmp ps).flatMap fun f => (readLine beyond f.buf).names) := by
  induction ps generalizing start tmp cfg with
  | nil => rfl
  | cons piece ps ih =>
    rw [loadPieces, ih _ (piece.getLast? == some chLf), fetched, List.flatMap_cons, List.flatMap_cons,
      NetConfig.setAll_append]

/-- Pieces that set what is documented do so one after the other. -/
theorem setAll_flatMap {fs : List Fetched} (h : ∀ f ∈ fs, ∀ cfg : NetConfig,
    cfg.setAll (readLine beyond f.buf).calls = cfg.setAll f.documented) (cfg : NetConfig) :
    cfg.setAll (fs.flatMap fun f => (readLine beyond f.buf).calls) =
      cfg.setAll (fs.flatMap Fetched.documented) := by
  induction fs generalizing cfg with
  | nil => rfl
  | cons f fs ih =>
    rw [List.flatMap_cons, List.flatMap_cons, NetConfig.setAll_append, NetConfig.setAll_append,
      h f List.mem_cons_self, ih fun f hf => h f (List.mem_cons_of_mem _ hf)]

theorem loadsAsDocumented_iff : LoadsAsDocumented beyond tmp file ↔
    ∀ f ∈ fetched true tmp (pieces file), f.Conforms beyond := by
  constructor
  · intro h f hf
    refine ⟨fun i hi => ?_, h.lines f hf⟩
    apply h.bounds ⟨⟨⟨⟨⟨0⟩, 0⟩, EthAddr.set [], ⟨0⟩, ⟨0⟩⟩, [], 0, 0, 0⟩, 0, []⟩
    rw [loadFromFile, loadPieces_eq _ true]
    exact List.mem_flatMap.mpr ⟨f, hf, hi⟩
  · intro h
    have hlines := fun f hf => (h f hf).2
    refine ⟨hlines, fun cfg => ?_, fun cfg i hi => ?_⟩
    · rw [loadFromFile, loadPieces_eq _ true]
      exact setAll_flatMap hlines cfg
    · rw [loadFromFile, loadPieces_eq _ true] at hi
      obtain ⟨f, hf, hi⟩ := List.mem_flatMap.mp hi
      exact (h f hf).1 i hi

/-- A file is loaded as documented just when each piece of it is read inside the table and sets
what its line should: of the documented lines only those of `srv_mdns` are such pieces. -/
theorem loadFromFile_iff (beyond tmp file : List UInt8) : LoadsAsDocumented beyond tmp file ↔
    ∀ f ∈ fetched true tmp (pieces file), f.Reads := by
  rw [loadsAsDocumented_iff]
  refine forall_congr' fun f => forall_congr' fun hf => ?_
  obtain ⟨rest, hbuf⟩ := buf_of_fetched hf
  exact conforms_iff hbuf

/-- A documented line has the name behind the table read. -/
theorem not_loadFromFile : ¬∀ beyond tmp file, LoadsAsDocumented beyond tmp file := by
  intro h
  have hpieces : pieces (ascii "gateway=10.0.0.1") = [ascii "gateway=10.0.0.1"] := by
    have hcons : ascii "gateway=10.0.0.1" = 0x67 :: ascii "ateway=10.0.0.1" := by decide
    have hfgets : fgets 30 (0x67 :: ascii "ateway=10.0.0.1") =
        (0x67 :: ascii "ateway=10.0.0.1", []) := by decide
    rw [hcons, pieces, hfgets, pieces]
  have hload := loadsAsDocumented_iff.mp (h [] [] (ascii "gateway=10.0.0.1"))
  rw [hpieces] at hload
  have hinside := (hload _ List.mem_cons_self).1 7 (by decide +kernel)
  exact absurd hinside (by decide)

end MiMic.Config
