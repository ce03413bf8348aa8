import MiMic.Core.Text
import MiMic.Lib.Numeral

/-!
# Values from the query of a URL

`NyLPC_cUrlReader`. A pointer into the URL is the text from it on. The search compares as many
characters as the key has with what stands there, and goes from one ampersand to the next up to
the end of the string.
-/
namespace MiMic.Http

open Verif Verif.Numeral

def chQuestion : UInt8 := 0x3f
def chAmpersand : UInt8 := 0x26
def chHash : UInt8 := 0x23
def chEqual : UInt8 := 0x3d
def chUnderscore : UInt8 := 0x5f
def chSlash : UInt8 := 0x2f

namespace UrlReader

def isAlnum (c : UInt8) : Bool :=
  isDigit c || (0x61 ≤ c && c ≤ 0x7a) || (0x41 ≤ c && c ≤ 0x5a)

def isWord (c : UInt8) : Bool := isAlnum c || c == chUnderscore || c == chMinus

/-- `NyLPC_cFormatTextReader_readWord` -/
def readWord (buf : List UInt8) : Nat := (buf.takeWhile isWord).length

/-- The loop of `findKeyValue` behind the question mark. -/
def searchKey (keyName p : List UInt8) : Option (List UInt8) :=
  if keyName.isPrefixOf p then some (p.drop (readWord p))
  else
    match _h : (p.drop (readWord p)).dropWhile (· != chAmpersand) with
    | [] => none
    | _ :: rest => searchKey keyName rest
termination_by p.length
decreasing_by
  have hlen := ((p.drop (readWord p)).dropWhile_suffix (· != chAmpersand)).length_le
  rw [_h, List.length_cons, List.length_drop] at hlen
  omega

/-- `NyLPC_cUrlReader_findKeyValue` -/
def findKeyValue (src keyName : List UInt8) : Option (List UInt8) :=
  match src.dropWhile (· != chQuestion) with
  | [] => none
  | _ :: p => searchKey keyName p

/-- `strchr("&#\0",c)==NULL` -/
def inValue (c : UInt8) : Bool := !(c == chAmpersand || c == chHash)

/-- What stands behind the equals sign at the pointer that `findKeyValue` gives. -/
def valuePtr (src keyName : List UInt8) : Option (List UInt8) :=
  match findKeyValue src keyName with
  | none => none
  | some [] => none
  | some (c :: p) => if c = chEqual then some p else none

/-- `NyLPC_cUrlReader_getStr`: the value and its length, for TRUE. -/
def getStr (src keyName : List UInt8) : Option (List UInt8 × Nat) :=
  (valuePtr src keyName).map fun p => (p, (p.takeWhile inValue).length)

def pushHexUInt (r : UInt32) (c : UInt8) : Option UInt32 :=
  let l := r
  let r := r * 16 + (ctox c).toUInt32
  if l ≠ r >>> 4 then none else some r

/-- `NyLPC_ctoi` -/
def ctoi (c : UInt8) : UInt8 := if isDigit c then c - chZero else 0

def pushUInt (r : UInt32) (c : UInt8) : Option UInt32 :=
  let l := r
  let r := r * 10 + (ctoi c).toUInt32
  if l ≠ r / 10 then none else some r

def pushHexInt (r : Int32) (c : UInt8) : Option Int32 :=
  let l := r
  let r := r * 16 + (ctox c).toUInt32.toInt32
  if l ≠ r >>> 4 then none else some r

def pushInt (r : Int32) (c : UInt8) : Option Int32 :=
  let l := r
  let r := r * 10 + (ctoi c).toUInt32.toInt32
  if l ≠ r / 10 then none else some r

def hexBase : Base where
  base := 16
  isDigit := isXDigit
  digit := fun c => (ctox c).toNat
  base_pos := by decide

def decBase : Base where
  base := 10
  isDigit := isDigit
  digit := fun c => (ctoi c).toNat
  base_pos := by decide

/-- The prefix `0x`. -/
def isHexPrefix (p : List UInt8) : Bool :=
  p.getD 0 0 == chZero && tolower (p.getD 1 0) == chLetterX

/-- The digits up to the terminator of a value. -/
def readNumber {α : Type} (b : Base) (push : α → UInt8 → Option α) (r : α) (p : List UInt8) :
    Option α :=
  (scan b push r p).bind fun n => if inValue (n.2.getD 0 chAmpersand) then none else some n.1

/-- `NyLPC_cUrlReader_getUInt` -/
def getUInt (buf keyName : List UInt8) : Option UInt32 :=
  (valuePtr buf keyName).bind fun p =>
    if isHexPrefix p then readNumber hexBase pushHexUInt 0 (p.drop 2)
    else readNumber decBase pushUInt 0 p

/-- `NyLPC_cUrlReader_getInt` on a `long` of 32 bits that wraps around. -/
def getInt (buf keyName : List UInt8) : Option Int32 :=
  (valuePtr buf keyName).bind fun p =>
    if isHexPrefix p then readNumber hexBase pushHexInt 0 (p.drop 2)
    else if p.getD 0 0 ≠ chMinus then readNumber decBase pushInt 0 p
    else (readNumber decBase pushInt 0 (p.drop 1)).map fun r => r * -1

/-- The beginnings of the items behind an ampersand; `stop` ends the query. -/
def laterItems (stop : UInt8 → Bool) : List UInt8 → List (List UInt8)
  | [] => []
  | c :: p =>
      if stop c then [] else if c = chAmpersand then p :: laterItems stop p else laterItems stop p

/-- The items of the query, between the first question mark and any hash sign. -/
def queryItems (url : List UInt8) : List (List UInt8) :=
  match url.dropWhile fun c => !(c == chQuestion || c == chHash) with
  | [] => []
  | c :: q => if c = chQuestion then q :: laterItems (· == chHash) q else []

/-- The key of the item that begins here. -/
def itemKey (p : List UInt8) : List UInt8 := p.takeWhile fun c => inValue c && c != chEqual

/-- Its value, up to the end of the item. -/
def itemValue (p : List UInt8) : Option (List UInt8 × Nat) :=
  match p.drop (itemKey p).length with
  | [] => none
  | c :: v => if c = chEqual then some (v, (v.takeWhile inValue).length) else none

/-- The first item with the key. -/
def firstItem (url key : List UInt8) : Option (List UInt8) :=
  (queryItems url).find? fun p => itemKey p == key

/-- A numeral of at least one digit below the bound. -/
def numeral (b : Base) (bound : Nat) (ds : List UInt8) : Option Nat :=
  if ds ≠ [] ∧ (∀ c ∈ ds, b.isDigit c = true) ∧ value b ds < bound then some (value b ds) else none

def uintLiteral (t : List UInt8) : Option Nat :=
  if isHexPrefix t then numeral hexBase (2 ^ 32) (t.drop 2) else numeral decBase (2 ^ 32) t

def intLiteral (t : List UInt8) : Option Int :=
  if isHexPrefix t then (numeral hexBase (2 ^ 31) (t.drop 2)).map Int.ofNat
  else if t.getD 0 0 ≠ chMinus then (numeral decBase (2 ^ 31) t).map Int.ofNat
  else (numeral decBase (2 ^ 31 + 1) (t.drop 1)).map fun v => -Int.ofNat v

/-- The value of the first item with the key. -/
def firstValue (url key : List UInt8) : Option (List UInt8 × Nat) :=
  (firstItem url key).bind itemValue

/-- The reader finds the first item with the key, and reads its value. -/
structure ReadsQuery (url key : List UInt8) : Prop where
  found : findKeyValue url key = (firstItem url key).map fun p => p.drop key.length
  str : getStr url key = firstValue url key
  uint : (getUInt url key).map UInt32.toNat =
    (firstValue url key).bind fun v => uintLiteral (v.1.take v.2)
  int : (getInt url key).map Int32.toInt =
    (firstValue url key).bind fun v => intLiteral (v.1.take v.2)

/-- The places where the search compares, hash sign or not. -/
def comparedItems (url : List UInt8) : List (List UInt8) :=
  match url.dropWhile (· != chQuestion) with
  | [] => []
  | _ :: q => q :: laterItems (fun _ => false) q

/-- The first place where the URL goes on with the key, if there is one, is an item of the query
whose key it is. -/
def KeyStands (url key : List UInt8) : Prop :=
  ∀ p, ((comparedItems url).find? fun p => key.isPrefixOf p) = some p →
    p ∈ queryItems url ∧ itemKey p = key ∧ ∀ c ∈ key, isWord c = true

/-- What is left of a value without a sign and without the prefix `0x`. -/
def digitsOf (t : List UInt8) : List UInt8 :=
  if isHexPrefix t then t.drop 2 else if t.getD 0 0 ≠ chMinus then t else t.drop 1

/-- The numeral of the smallest integer. -/
def IsIntMin (t : List UInt8) : Prop :=
  isHexPrefix t = false ∧ t.getD 0 0 = chMinus ∧
    (∀ c ∈ t.drop 1, isDigit c = true) ∧ value decBase (t.drop 1) = 2 ^ 31

/-- A value has a digit where one is due, and is not the smallest integer. -/
def NumberStands (url key : List UInt8) : Prop :=
  ∀ v, firstValue url key = some v →
    digitsOf (v.1.take v.2) ≠ [] ∧ ¬ IsIntMin (v.1.take v.2)

/-- The places behind an ampersand, one at a time. -/
theorem laterItems_false (p : List UInt8) :
    laterItems (fun _ => false) p =
      match p.dropWhile (· != chAmpersand) with
      | [] => []
      | _ :: rest => rest :: laterItems (fun _ => false) rest := by
  induction p with
  | nil => rfl
  | cons c p ih =>
    by_cases hc : c = chAmpersand
    · subst hc
      rfl
    · have hne : (c != chAmpersand) = true := by simpa using hc
      rw [laterItems, if_neg (by decide), if_neg hc,
        List.dropWhile_cons_of_pos (p := (· != chAmpersand)) hne, ih]

/-- A word holds no ampersand. -/
theorem dropWhile_drop_word (p : List UInt8) :
    (p.drop (readWord p)).dropWhile (· != chAmpersand) = p.dropWhile (· != chAmpersand) := by
  rw [readWord]
  induction p with
  | nil => rfl
  | cons c p ih =>
    by_cases hc : isWord c = true
    · have hne : (c != chAmpersand) = true := by
        rw [bne_iff_ne]
        intro h
        subst h
        exact absurd hc (by decide)
      rw [List.takeWhile_cons_of_pos hc, List.length_cons, List.drop_succ_cons, ih,
        List.dropWhile_cons_of_pos (p := (· != chAmpersand)) hne]
    · rw [List.takeWhile_cons_of_neg hc]
      rfl

/-- The loop looks at one place after the other. -/
theorem searchKey_eq (key p : List UInt8) : searchKey key p =
    ((p :: laterItems (fun _ => false) p).find? fun p => key.isPrefixOf p).map fun p =>
      p.drop (readWord p) := by
  induction hn : p.length using Nat.strongRecOn generalizing p with
  | ind n ih =>
    subst hn
    rw [searchKey]
    by_cases hkey : key.isPrefixOf p = true
    · rw [if_pos hkey, List.find?_cons_of_pos hkey]
      rfl
    · rw [if_neg hkey, List.find?_cons_of_neg hkey, laterItems_false]
      split
      · next hrest =>
        rw [dropWhile_drop_word] at hrest
        rw [hrest]
        rfl
      · next rest hrest =>
        rw [dropWhile_drop_word] at hrest
        have hlen := (p.dropWhile_suffix (· != chAmpersand)).length_le
        rw [hrest, List.length_cons] at hlen
        rw [hrest]
        exact ih rest.length (by omega) rest rfl

theorem findKeyValue_eq (url key : List UInt8) : findKeyValue url key =
    ((comparedItems url).find? fun p => key.isPrefixOf p).map fun p => p.drop (readWord p) := by
  rw [findKeyValue, comparedItems]
  split
  · rfl
  · exact searchKey_eq key _

/-- The query is what is compared, up to a hash sign. -/
theorem laterItems_begins (stop : UInt8 → Bool) (p : List UInt8) :
    laterItems stop p <+: laterItems (fun _ => false) p := by
  induction p with
  | nil => exact List.prefix_rfl
  | cons c p ih =>
    rw [laterItems, laterItems, if_neg (show ¬ false = true by decide)]
    split
    · exact List.nil_prefix
    · split
      · exact List.cons_prefix_cons.mpr ⟨rfl, ih⟩
      · exact ih

theorem queryItems_begin (url : List UInt8) : queryItems url <+: comparedItems url := by
  induction url with
  | nil => exact List.prefix_rfl
  | cons c url ih =>
    unfold queryItems comparedItems at *
    by_cases hq : c = chQuestion
    · subst hq
      exact List.cons_prefix_cons.mpr ⟨rfl, laterItems_begins _ url⟩
    · by_cases hh : c = chHash
      · subst hh
        exact List.nil_prefix
      · have h1 : (c != chQuestion) = true := by simpa using hq
        have h2 : (!(c == chQuestion || c == chHash)) = true := by simp [hq, hh]
        rw [List.dropWhile_cons_of_pos (p := fun c => !(c == chQuestion || c == chHash)) h2,
          List.dropWhile_cons_of_pos (p := (· != chQuestion)) h1]
        exact ih

/-- The characters of words stand in keys. -/
theorem word_in_key {c : UInt8} (h : isWord c = true) : (inValue c && c != chEqual) = true := by
  have hno : ∀ d : UInt8, isWord d = false → c ≠ d := by
    intro d hd heq
    rw [heq, hd] at h
    exact absurd h (by decide)
  have h1 := hno chAmpersand (by decide)
  have h2 := hno chHash (by decide)
  have h3 := hno chEqual (by decide)
  simp [inValue, h1, h2, h3]

theorem itemKey_begins (p : List UInt8) : itemKey p <+: p := List.takeWhile_prefix _

theorem isPrefixOf_of_itemKey {p key : List UInt8} (h : (itemKey p == key) = true) :
    key.isPrefixOf p = true := by
  rw [← beq_iff_eq.mp h]
  exact List.isPrefixOf_iff_prefix.mpr (itemKey_begins p)

/-- A later place is shorter than what is left of an earlier one at the next ampersand. -/
theorem length_lt_of_mem_laterItems {stop : UInt8 → Bool} {p p' : List UInt8}
    (h : p' ∈ laterItems stop p) : p'.length < (p.dropWhile (· != chAmpersand)).length := by
  induction p with
  | nil => exact absurd h List.not_mem_nil
  | cons c p ih =>
    rw [laterItems] at h
    split at h
    · exact absurd h List.not_mem_nil
    · split at h
      · next hc =>
        subst hc
        rw [List.dropWhile_cons_of_neg (by simp), List.length_cons]
        rcases List.mem_cons.mp h with rfl | hmem
        · exact Nat.lt_succ_self _
        · exact (ih hmem).trans_le ((p.dropWhile_suffix _).length_le.trans (Nat.le_succ _))
      · next hc =>
        rw [List.dropWhile_cons_of_pos (p := (· != chAmpersand)) (by simpa using hc)]
        exact ih h

/-- What is compared behind a place. -/
theorem laterItems_of_append {q p : List UInt8} {as bs : List (List UInt8)}
    (h : laterItems (fun _ => false) q = as ++ p :: bs) :
    bs = laterItems (fun _ => false) p := by
  induction q generalizing as with
  | nil => exact absurd h.symm (by simp [laterItems])
  | cons c q ih =>
    rw [laterItems, if_neg (show ¬ false = true by decide)] at h
    split at h
    · cases as with
      | nil =>
        obtain ⟨rfl, rfl⟩ := List.cons.inj h
        rfl
      | cons a as => exact ih (List.cons.inj h).2
    · exact ih h

theorem comparedItems_of_append {url p : List UInt8} {as bs : List (List UInt8)}
    (h : comparedItems url = as ++ p :: bs) : bs = laterItems (fun _ => false) p := by
  unfold comparedItems at h
  split at h
  · exact absurd h.symm (by simp)
  · cases as with
    | nil =>
      obtain ⟨rfl, rfl⟩ := List.cons.inj h
      rfl
    | cons a as => exact laterItems_of_append (List.cons.inj h).2

section

variable {url key p : List UInt8}

/-- Without a place where the key is, no item has it. -/
theorem firstItem_eq_none (h : ((comparedItems url).find? fun p => key.isPrefixOf p) = none) :
    firstItem url key = none := by
  rw [firstItem, List.find?_eq_none]
  intro p hp hkey
  have hmem := (queryItems_begin url).subset hp
  exact List.find?_eq_none.mp h p hmem (isPrefixOf_of_itemKey hkey)

/-- An item of the query at the first such place is the first one with its key. -/
theorem firstItem_eq_some (h : ((comparedItems url).find? fun p => key.isPrefixOf p) = some p)
    (hmem : p ∈ queryItems url) (hkey : itemKey p = key) : firstItem url key = some p := by
  obtain ⟨as, bs, hsplit, hnot⟩ := List.eq_append_cons_of_mem hmem
  rw [firstItem, List.find?_eq_some_iff_append]
  refine ⟨beq_iff_eq.mpr hkey, as, bs, hsplit, fun a ha => ?_⟩
  rw [Bool.not_eq_true', ← Bool.not_eq_true]
  intro hitem
  obtain ⟨rest, hrest⟩ := queryItems_begin url
  have hfound : (as.find? fun p => key.isPrefixOf p).isSome = true :=
    List.find?_isSome.mpr ⟨a, ha, isPrefixOf_of_itemKey hitem⟩
  obtain ⟨x, hx⟩ := Option.isSome_iff_exists.mp hfound
  rw [← hrest, hsplit, List.append_assoc, List.find?_append, hx] at h
  obtain rfl := Option.some.inj h
  exact hnot (List.mem_of_find?_eq_some hx)

/-- A word goes on to the end of the key when the key is one. -/
theorem takeWhile_word_eq (h : ∀ c ∈ itemKey p, isWord c = true) :
    p.takeWhile isWord = itemKey p := by
  induction p with
  | nil => rfl
  | cons c p ih =>
    unfold itemKey at *
    by_cases hc : (inValue c && c != chEqual) = true
    · rw [List.takeWhile_cons_of_pos (p := fun c => inValue c && c != chEqual) hc] at h ⊢
      rw [List.takeWhile_cons_of_pos (h c List.mem_cons_self),
        ih fun d hd => h d (List.mem_cons_of_mem _ hd)]
    · have hword : ¬ isWord c = true := fun hw => hc (word_in_key hw)
      rw [List.takeWhile_cons_of_neg hword,
        List.takeWhile_cons_of_neg (p := fun c => inValue c && c != chEqual) hc]

/-- A word of the length of the key, where the key stands, is the key. -/
theorem readWord_eq_iff (hkey : itemKey p = key) :
    readWord p = key.length ↔ ∀ c ∈ key, isWord c = true := by
  subst hkey
  constructor
  · intro h
    have hpre : p.takeWhile isWord <+: p := List.takeWhile_prefix _
    have heq : p.takeWhile isWord = itemKey p :=
      calc p.takeWhile isWord = p.take (readWord p) := List.prefix_iff_eq_take.mp hpre
        _ = p.take (itemKey p).length := by rw [h]
        _ = itemKey p := (List.prefix_iff_eq_take.mp (itemKey_begins p)).symm
    rw [← heq]
    exact fun c hc => List.mem_takeWhile_imp hc
  · intro h
    exact congrArg List.length (takeWhile_word_eq h)

theorem keyStands_of_found
    (h : findKeyValue url key = (firstItem url key).map fun p => p.drop key.length) :
    KeyStands url key := by
  intro p hp
  rw [findKeyValue_eq, hp, Option.map_some] at h
  obtain ⟨p', hfirst, hdrop⟩ := Option.map_eq_some_iff.mp h.symm
  have hkey' := List.find?_some hfirst
  have hmem' := List.mem_of_find?_eq_some hfirst
  obtain ⟨hpre, as, bs, hsplit, hnot⟩ := List.find?_eq_some_iff_append.mp hp
  have hsame : p' = p := by
    have hmem := (queryItems_begin url).subset hmem'
    rw [hsplit, List.mem_append, List.mem_cons] at hmem
    rcases hmem with has | heq | hbs
    · have hno := hnot p' has
      rw [isPrefixOf_of_itemKey hkey'] at hno
      exact absurd hno (by decide)
    · exact heq
    · rw [comparedItems_of_append hsplit] at hbs
      have hlt := length_lt_of_mem_laterItems hbs
      rw [← dropWhile_drop_word] at hlt
      have hle := ((p.drop (readWord p)).dropWhile_suffix (· != chAmpersand)).length_le
      have hlen := congrArg List.length hdrop
      rw [List.length_drop] at hlen
      omega
  subst hsame
  have hitem := beq_iff_eq.mp hkey'
  refine ⟨hmem', hitem, (readWord_eq_iff hitem).mp ?_⟩
  have hword : readWord p' ≤ p'.length := (List.takeWhile_prefix _).length_le
  have hlen := congrArg List.length hdrop
  have hle := (List.isPrefixOf_iff_prefix.mp hpre).length_le
  rw [List.length_drop, List.length_drop] at hlen
  omega

theorem found_of_keyStands (h : KeyStands url key) :
    findKeyValue url key = (firstItem url key).map fun p => p.drop key.length := by
  rw [findKeyValue_eq]
  cases hp : (comparedItems url).find? fun p => key.isPrefixOf p with
  | none => rw [firstItem_eq_none hp]; rfl
  | some p =>
    obtain ⟨hmem, hitem, hword⟩ := h p hp
    rw [firstItem_eq_some hp hmem hitem, Option.map_some, Option.map_some,
      (readWord_eq_iff hitem).mpr hword]

end

/-- What one parser makes of a text, when it takes the empty numeral for zero. -/
def looseNumeral (b : Base) (bound : Nat) (ds : List UInt8) : Option Nat :=
  if (∀ c ∈ ds, b.isDigit c = true) ∧ value b ds < bound then some (value b ds) else none

section

variable {b : Base} (hdigits : ∀ c, b.isDigit c = true → inValue c = true)

include hdigits

/-- The digits go up to the end of the value, or end before it. -/
theorem digits_cases (p : List UInt8) :
    (∀ c ∈ p.takeWhile inValue, b.isDigit c = true) ∧
        p.takeWhile b.isDigit = p.takeWhile inValue ∧
        inValue ((p.dropWhile b.isDigit).getD 0 chAmpersand) = false ∨
      ¬ (∀ c ∈ p.takeWhile inValue, b.isDigit c = true) ∧
        inValue ((p.dropWhile b.isDigit).getD 0 chAmpersand) = true := by
  induction p with
  | nil => exact .inl ⟨fun c hc => absurd hc List.not_mem_nil, rfl, rfl⟩
  | cons c p ih =>
    by_cases hdigit : b.isDigit c = true
    · have hin := hdigits c hdigit
      rw [List.takeWhile_cons_of_pos hin, List.takeWhile_cons_of_pos hdigit,
        List.dropWhile_cons_of_pos hdigit, List.forall_mem_cons]
      rcases ih with ⟨hall, htake, hend⟩ | ⟨hnot, hend⟩
      · exact .inl ⟨⟨hdigit, hall⟩, by rw [htake], hend⟩
      · exact .inr ⟨fun h => hnot h.2, hend⟩
    · rw [List.takeWhile_cons_of_neg hdigit, List.dropWhile_cons_of_neg hdigit]
      by_cases hin : inValue c = true
      · rw [List.takeWhile_cons_of_pos hin]
        exact .inr ⟨fun h => hdigit (h c List.mem_cons_self), hin⟩
      · rw [List.takeWhile_cons_of_neg hin]
        exact .inl ⟨fun d hd => absurd hd List.not_mem_nil, rfl, Bool.not_eq_true _ ▸ hin⟩

theorem readNumber_eq {α β : Type} {bound : Nat} {den : α → β} {cast : Nat → β}
    {push : α → UInt8 → Option α} (hpush : Exact b bound (fun r v => den r = cast v) push)
    (hbound : 0 < bound) {r : α} (hr : den r = cast 0) (p : List UInt8) :
    (readNumber b push r p).map den =
      (looseNumeral b bound (p.takeWhile inValue)).map cast := by
  rw [readNumber, looseNumeral]
  rcases digits_cases hdigits p with ⟨hall, htake, hend⟩ | ⟨hnot, hend⟩
  · rcases Nat.lt_or_ge (value b (p.takeWhile inValue)) bound with hlt | hge
    · obtain ⟨r', hscan, hr'⟩ := scan_of_lt hpush hr (p := p) (by rw [htake]; exact hlt)
      rw [hscan, if_pos ⟨hall, hlt⟩, Option.bind_some, if_neg (by rw [hend]; decide),
        Option.map_some, Option.map_some, hr', htake]
      rfl
    · rw [scan_of_le hpush hr hbound (by rw [htake]; exact hge),
        if_neg fun h => absurd h.2 (Nat.not_lt.mpr hge)]
      rfl
  · rw [if_neg fun h => hnot h.1]
    rcases Nat.lt_or_ge (valueFrom b 0 (p.takeWhile b.isDigit)) bound with hlt | hge
    · obtain ⟨r', hscan, -⟩ := scan_of_lt hpush hr hlt
      rw [hscan, Option.bind_some, if_pos hend]
      rfl
    · rw [scan_of_le hpush hr hbound hge]
      rfl

end

theorem ctox_lt (c : UInt8) : (ctox c).toNat < 16 := by
  have hall : ∀ k : Fin 256, (ctox (UInt8.ofNat k)).toNat < 16 := by decide +kernel
  have h := hall ⟨c.toNat, c.toNat_lt⟩
  rwa [UInt8.ofNat_toNat] at h

theorem ctoi_lt (c : UInt8) : (ctoi c).toNat < 10 := by
  have hall : ∀ k : Fin 256, (ctoi (UInt8.ofNat k)).toNat < 10 := by decide +kernel
  have h := hall ⟨c.toNat, c.toNat_lt⟩
  rwa [UInt8.ofNat_toNat] at h

/-- The word after one more digit. -/
theorem toNat_pushed (r : UInt32) (d : UInt8) {k : UInt32} :
    (r * k + d.toUInt32).toNat = (r.toNat * k.toNat + d.toNat) % 2 ^ 32 := by
  rw [UInt32.toNat_add, UInt32.toNat_mul, UInt8.toNat_toUInt32, Nat.mod_add_mod]

/-- Divided back after each digit, a word takes the digits that it can hold. -/
theorem exact_unsigned {b : Base} (k : UInt32) (back : UInt32 → UInt32) {digit : UInt8 → UInt8}
    {push : UInt32 → UInt8 → Option UInt32}
    (hpush : ∀ r c, push r c =
      if r ≠ back (r * k + (digit c).toUInt32) then none else some (r * k + (digit c).toUInt32))
    (hback : ∀ x, (back x).toNat = x.toNat / b.base) (hbase : k.toNat = b.base)
    (hdigit : ∀ c, (digit c).toNat = b.digit c) (hlt : ∀ c, b.digit c < b.base) :
    Exact b (2 ^ 32) (fun (r : UInt32) v => r.toNat = v) push := by
  have hk := k.toNat_lt
  constructor
  · intro r v c hv _ _ hstep
    subst hv
    have hr := toNat_pushed r (digit c) (k := k)
    rw [hbase, hdigit, Nat.mod_eq_of_lt hstep] at hr
    refine ⟨r * k + (digit c).toUInt32, (hpush r c).trans (if_neg ?_), hr⟩
    rw [not_not, ← UInt32.toNat_inj, hback, hr, Nat.mul_comm, Nat.mul_add_div b.base_pos,
      Nat.div_eq_of_lt (hlt c), Nat.add_zero]
  · intro r v c hv _ _ hle
    subst hv
    have hd := hlt c
    have hr := toNat_pushed r (digit c) (k := k)
    rw [hbase, hdigit] at hr
    refine (hpush r c).trans (if_pos fun h => ?_)
    have hword := congrArg UInt32.toNat h
    rw [hback, hr] at hword
    have hmul := Nat.div_mul_le_self ((r.toNat * b.base + b.digit c) % 2 ^ 32) b.base
    rw [← hword] at hmul
    omega

theorem exact_pushHexUInt :
    Exact hexBase (2 ^ 32) (fun (r : UInt32) v => r.toNat = v) pushHexUInt := by
  refine exact_unsigned 16 (· >>> 4) (fun _ _ => rfl) (fun x => ?_) rfl (fun _ => rfl) ctox_lt
  rw [UInt32.toNat_shiftRight, Nat.shiftRight_eq_div_pow]
  rfl

theorem exact_pushUInt : Exact decBase (2 ^ 32) (fun (r : UInt32) v => r.toNat = v) pushUInt :=
  exact_unsigned 10 (· / 10) (fun _ _ => rfl) (fun x => UInt32.toNat_div x 10) rfl (fun _ => rfl) ctoi_lt

/-- The same on words with a sign. -/
theorem toInt_pushed (r : Int32) (d : UInt8) (k : Int32) :
    (r * k + d.toUInt32.toInt32).toInt = (r.toInt * k.toInt + d.toNat).bmod (2 ^ 32) := by
  have hd : d.toUInt32.toInt32.toInt = d.toNat := by
    have hlt : d.toNat < 2 ^ 31 := d.toNat_lt.trans (by decide)
    have hword : d.toUInt32 = UInt32.ofNat d.toNat := by
      rw [← UInt32.toNat_inj, UInt8.toNat_toUInt32,
        UInt32.toNat_ofNat_of_lt' (hlt.trans (by decide))]
    rw [hword, UInt32.toInt32_ofNat', Int32.toInt_ofNat_of_lt hlt]
  rw [Int32.toInt_add, Int32.toInt_mul, hd, Int.bmod_add_bmod]

theorem toInt_shiftRight_four (x : Int32) : (x >>> 4).toInt = x.toInt / 16 := by
  have hshift : (x >>> 4).toInt = x.toInt >>> (4 : Nat) := BitVec.toInt_sshiftRight
  rw [hshift, Int.shiftRight_eq_div_pow]
  rfl

/-- The division of the language rounds to zero. -/
theorem toInt_div_ten (x : Int32) :
    (x / 10).toInt = if 0 ≤ x.toInt then x.toInt / 10 else -(-x.toInt / 10) := by
  have hdiv : (x / 10).toInt = x.toInt.tdiv 10 := Int32.toInt_div_of_ne_right x 10 (by decide)
  rw [hdiv]
  split
  · next hpos => exact Int.tdiv_eq_ediv_of_nonneg hpos
  · rw [← Int.tdiv_eq_ediv_of_nonneg (show 0 ≤ -x.toInt by omega), Int.neg_tdiv, Int.neg_neg]

/-- A number that is wrapped around goes far away. -/
theorem bmod_cases (w : Int) : w.bmod (2 ^ 32) = w ∨
    w.bmod (2 ^ 32) + 2 ^ 32 ≤ w ∨ w + 2 ^ 32 ≤ w.bmod (2 ^ 32) := by
  have h := Int.bmod_emod (x := w) (m := 2 ^ 32)
  omega

/-- A division that rounds to zero or downwards does the same for a word with a sign. -/
theorem exact_signed {b : Base} (k : Int32) (back : Int32 → Int32) {digit : UInt8 → UInt8}
    {push : Int32 → UInt8 → Option Int32}
    (hpush : ∀ r c, push r c = if r ≠ back (r * k + (digit c).toUInt32.toInt32) then none
      else some (r * k + (digit c).toUInt32.toInt32))
    (hback : ∀ x, (back x).toInt = x.toInt / b.base ∨ x.toInt < 0 ∧ (back x).toInt ≤ 0)
    (hbase : k.toInt = b.base) (hdigit : ∀ c, (digit c).toNat = b.digit c)
    (hlt : ∀ c, b.digit c < b.base) :
    Exact b (2 ^ 31) (fun (r : Int32) v => r.toInt = (v : Int)) push := by
  have hk := k.toInt_lt
  have hpos := b.base_pos
  constructor
  · intro r v c hv _ _ hstep
    have hd := hlt c
    have hr := toInt_pushed r (digit c) k
    rw [hbase, hdigit, hv, ← Nat.cast_mul, ← Nat.cast_add,
      Int.bmod_eq_of_le (by omega) (by omega)] at hr
    refine ⟨r * k + (digit c).toUInt32.toInt32, (hpush r c).trans (if_neg ?_), hr⟩
    rw [not_not, ← Int32.toInt_inj, hv]
    rcases hback (r * k + (digit c).toUInt32.toInt32) with hdiv | hneg
    · rw [hdiv, hr, ← Int.natCast_div, Nat.mul_comm, Nat.mul_add_div hpos,
        Nat.div_eq_of_lt hd, Nat.add_zero]
    · omega
  · intro r v c hv _ _ hle
    have hd := hlt c
    have hr := toInt_pushed r (digit c) k
    rw [hbase, hdigit, hv] at hr
    refine (hpush r c).trans (if_pos fun h => ?_)
    have hword := congrArg Int32.toInt h
    have htop := (r * k + (digit c).toUInt32.toInt32).toInt_lt
    have hwrap := bmod_cases (v * b.base + b.digit c : Int)
    rw [hv] at hword
    rw [hr] at htop
    have hcast : ((v * b.base + b.digit c : Nat) : Int) = v * b.base + b.digit c := by
      rw [Nat.cast_add, Nat.cast_mul]
    rcases hback (r * k + (digit c).toUInt32.toInt32) with hdiv | hneg
    · rw [hdiv, hr] at hword
      have hmul := Int.ediv_mul_le ((v * b.base + b.digit c : Int).bmod (2 ^ 32))
        (show (b.base : Int) ≠ 0 by omega)
      rw [← hword] at hmul
      omega
    · have hzero : v = 0 := by omega
      rw [hzero, Nat.zero_mul, Nat.zero_add] at hle
      omega

theorem exact_pushHexInt :
    Exact hexBase (2 ^ 31) (fun (r : Int32) v => r.toInt = (v : Int)) pushHexInt :=
  exact_signed 16 (· >>> 4) (fun _ _ => rfl) (fun x => .inl (toInt_shiftRight_four x)) rfl
    (fun _ => rfl) ctox_lt

theorem exact_pushInt :
    Exact decBase (2 ^ 31) (fun (r : Int32) v => r.toInt = (v : Int)) pushInt := by
  refine exact_signed 10 (· / 10) (fun _ _ => rfl) (fun x => ?_) rfl (fun _ => rfl) ctoi_lt
  rw [toInt_div_ten]
  split
  · exact .inl rfl
  · have hneg : 0 ≤ -x.toInt / 10 := Int.ediv_nonneg (by omega) (by decide)
    exact .inr ⟨by omega, by omega⟩

theorem isHexPrefix_iff {p : List UInt8} :
    isHexPrefix p = true ↔ ∃ c q, p = chZero :: c :: q ∧ tolower c = chLetterX := by
  rw [isHexPrefix, Bool.and_eq_true, beq_iff_eq, beq_iff_eq]
  constructor
  · intro h
    cases p with
    | nil => exact absurd h.1 (by decide)
    | cons d p =>
      cases p with
      | nil => exact absurd (show tolower 0 = chLetterX from h.2) (by decide)
      | cons c q =>
        obtain ⟨h0, hc⟩ := h
        exact ⟨c, q, congrArg (· :: c :: q) h0, hc⟩
  · intro h
    obtain ⟨c, q, hp, hc⟩ := h
    subst hp
    exact ⟨rfl, hc⟩

theorem inValue_of_ne {c : UInt8} (h : c ≠ chAmpersand) (h' : c ≠ chHash) : inValue c = true := by
  rw [inValue, beq_false_of_ne h, beq_false_of_ne h']
  rfl

/-- What neither ends a value nor its address belongs to it. -/
theorem inValue_of {P : UInt8 → Prop} {c : UInt8} (hamp : ¬ P chAmpersand) (hhash : ¬ P chHash)
    (h : P c) : inValue c = true :=
  inValue_of_ne (fun hc => hamp (hc ▸ h)) (fun hc => hhash (hc ▸ h))

/-- The letter of the prefix belongs to the value. -/
theorem inValue_of_letter {c : UInt8} (h : tolower c = chLetterX) : inValue c = true :=
  inValue_of (P := fun c => tolower c = chLetterX) (by decide) (by decide) h

/-- The prefix is that of the value. -/
theorem isHexPrefix_takeWhile (p : List UInt8) :
    isHexPrefix (p.takeWhile inValue) = isHexPrefix p := by
  rw [Bool.eq_iff_iff, isHexPrefix_iff, isHexPrefix_iff]
  constructor
  · intro h
    obtain ⟨c, q, hp, hc⟩ := h
    obtain ⟨rest, hrest⟩ := p.takeWhile_prefix inValue
    rw [hp] at hrest
    exact ⟨c, q ++ rest, hrest.symm, hc⟩
  · intro h
    obtain ⟨c, q, hp, hc⟩ := h
    subst hp
    rw [List.takeWhile_cons_of_pos (by decide), List.takeWhile_cons_of_pos (inValue_of_letter hc)]
    exact ⟨c, _, rfl, hc⟩

theorem drop_two_takeWhile {p : List UInt8} (h : isHexPrefix p = true) :
    (p.takeWhile inValue).drop 2 = (p.drop 2).takeWhile inValue := by
  obtain ⟨c, q, hp, hc⟩ := isHexPrefix_iff.mp h
  subst hp
  rw [List.takeWhile_cons_of_pos (by decide), List.takeWhile_cons_of_pos (inValue_of_letter hc)]
  rfl

/-- So is the sign. -/
theorem minus_takeWhile (p : List UInt8) :
    (p.takeWhile inValue).getD 0 0 = chMinus ↔ p.getD 0 0 = chMinus := by
  cases p with
  | nil => exact Iff.rfl
  | cons c p =>
    by_cases hc : inValue c = true
    · rw [List.takeWhile_cons_of_pos hc]
      exact Iff.rfl
    · rw [List.takeWhile_cons_of_neg hc]
      refine iff_of_false (by decide) fun h => hc ?_
      rw [show c = chMinus from h]
      decide

theorem drop_one_takeWhile {p : List UInt8} (h : p.getD 0 0 = chMinus) :
    (p.takeWhile inValue).drop 1 = (p.drop 1).takeWhile inValue := by
  cases p with
  | nil => rfl
  | cons c p =>
    rw [List.takeWhile_cons_of_pos (by rw [show c = chMinus from h]; decide)]
    rfl

theorem inValue_of_isXDigit (c : UInt8) (h : isXDigit c = true) : inValue c = true :=
  inValue_of (P := fun c => isXDigit c = true) (by decide) (by decide) h

theorem inValue_of_isDigit (c : UInt8) (h : isDigit c = true) : inValue c = true :=
  inValue_of_isXDigit c (by rw [isXDigit, h]; rfl)

/-- What the reader makes of a value as a number without a sign. -/
def looseUInt (t : List UInt8) : Option Nat :=
  if isHexPrefix t then looseNumeral hexBase (2 ^ 32) (t.drop 2)
  else looseNumeral decBase (2 ^ 32) t

def looseInt (t : List UInt8) : Option Int :=
  if isHexPrefix t then (looseNumeral hexBase (2 ^ 31) (t.drop 2)).map Int.ofNat
  else if t.getD 0 0 ≠ chMinus then (looseNumeral decBase (2 ^ 31) t).map Int.ofNat
  else (looseNumeral decBase (2 ^ 31) (t.drop 1)).map fun v => -Int.ofNat v

theorem readHexUInt_eq (p : List UInt8) : (readNumber hexBase pushHexUInt 0 p).map UInt32.toNat =
    (looseNumeral hexBase (2 ^ 32) (p.takeWhile inValue)).map id :=
  readNumber_eq inValue_of_isXDigit exact_pushHexUInt (by decide) rfl p

theorem readUInt_eq (p : List UInt8) : (readNumber decBase pushUInt 0 p).map UInt32.toNat =
    (looseNumeral decBase (2 ^ 32) (p.takeWhile inValue)).map id :=
  readNumber_eq inValue_of_isDigit exact_pushUInt (by decide) rfl p

theorem getUInt_eq (url key : List UInt8) : (getUInt url key).map UInt32.toNat =
    (valuePtr url key).bind fun p => looseUInt (p.takeWhile inValue) := by
  rw [getUInt, Option.map_bind]
  refine congrArg (valuePtr url key).bind (funext fun p => ?_)
  rw [Function.comp_apply, looseUInt, isHexPrefix_takeWhile]
  by_cases hhex : isHexPrefix p = true
  · rw [if_pos hhex, if_pos hhex, drop_two_takeWhile hhex, readHexUInt_eq, Option.map_id, id]
  · rw [if_neg hhex, if_neg hhex, readUInt_eq, Option.map_id, id]

/-- The sign of a number that fits is turned without wrapping around. -/
theorem toInt_negated {r : Int32} (h : 0 ≤ r.toInt) : (r * -1).toInt = -r.toInt := by
  have htop := r.toInt_lt
  have hone : (-1 : Int32).toInt = -1 := by decide
  rw [Int32.toInt_mul, hone, Int.mul_neg_one, Int.bmod_eq_of_le (by omega) (by omega)]

theorem readHexInt_eq (p : List UInt8) : (readNumber hexBase pushHexInt 0 p).map Int32.toInt =
    (looseNumeral hexBase (2 ^ 31) (p.takeWhile inValue)).map Int.ofNat :=
  readNumber_eq inValue_of_isXDigit exact_pushHexInt (by decide) Int32.toInt_zero p

theorem readInt_eq (p : List UInt8) : (readNumber decBase pushInt 0 p).map Int32.toInt =
    (looseNumeral decBase (2 ^ 31) (p.takeWhile inValue)).map Int.ofNat :=
  readNumber_eq inValue_of_isDigit exact_pushInt (by decide) Int32.toInt_zero p

theorem readNegInt_eq (p : List UInt8) :
    ((readNumber decBase pushInt 0 p).map fun r => r * -1).map Int32.toInt =
      (looseNumeral decBase (2 ^ 31) (p.takeWhile inValue)).map fun v => -Int.ofNat v := by
  have hread := readInt_eq p
  cases hr : readNumber decBase pushInt 0 p with
  | none =>
    rw [hr, Option.map_none, eq_comm, Option.map_eq_none_iff] at hread
    rw [hread]
    rfl
  | some r =>
    rw [hr, Option.map_some, eq_comm, Option.map_eq_some_iff] at hread
    obtain ⟨v, hv, hrv⟩ := hread
    have hpos : 0 ≤ r.toInt := by
      rw [← hrv]
      exact Int.natCast_nonneg v
    rw [hv, Option.map_some, Option.map_some, Option.map_some, toInt_negated hpos, hrv]

theorem getInt_eq (url key : List UInt8) : (getInt url key).map Int32.toInt =
    (valuePtr url key).bind fun p => looseInt (p.takeWhile inValue) := by
  rw [getInt, Option.map_bind]
  refine congrArg (valuePtr url key).bind (funext fun p => ?_)
  rw [Function.comp_apply, looseInt, isHexPrefix_takeWhile]
  by_cases hhex : isHexPrefix p = true
  · rw [if_pos hhex, if_pos hhex, drop_two_takeWhile hhex, readHexInt_eq]
  · rw [if_neg hhex, if_neg hhex]
    by_cases hminus : p.getD 0 0 = chMinus
    · have hminus' := (minus_takeWhile p).mpr hminus
      rw [if_neg (not_not.mpr hminus), if_neg (not_not.mpr hminus'), drop_one_takeWhile hminus,
        readNegInt_eq]
    · rw [if_pos hminus, if_pos (mt (minus_takeWhile p).mp hminus), readInt_eq]

/-- The two readings differ on the empty numeral. -/
theorem looseNumeral_eq_iff {b : Base} {bound : Nat} (hbound : 0 < bound) (ds : List UInt8) :
    looseNumeral b bound ds = numeral b bound ds ↔ ds ≠ [] := by
  rw [looseNumeral, numeral]
  constructor
  · intro h hnil
    subst hnil
    rw [if_pos ⟨fun c hc => absurd hc List.not_mem_nil, hbound⟩, if_neg fun h => h.1 rfl] at h
    exact absurd h (Option.some_ne_none _)
  · intro h
    simp only [h, ne_eq, not_false_eq_true, true_and]

/-- With a sign they differ on the smallest integer, too. -/
theorem looseNumeral_eq_succ_iff {b : Base} {bound : Nat} (hbound : 0 < bound) (ds : List UInt8) :
    looseNumeral b bound ds = numeral b (bound + 1) ds ↔
      ds ≠ [] ∧ ¬ ((∀ c ∈ ds, b.isDigit c = true) ∧ value b ds = bound) := by
  rw [looseNumeral, numeral]
  constructor
  · intro h
    constructor
    · intro hnil
      subst hnil
      rw [if_pos ⟨fun c hc => absurd hc List.not_mem_nil, hbound⟩, if_neg fun h => h.1 rfl] at h
      exact absurd h (Option.some_ne_none _)
    · intro hmin
      obtain ⟨hall, hmin⟩ := hmin
      have hne : ds ≠ [] := by
        intro hnil
        subst hnil
        exact absurd hmin (Nat.ne_of_lt hbound)
      rw [if_neg fun h => absurd h.2 (by omega), if_pos ⟨hne, hall, by omega⟩] at h
      exact absurd h.symm (Option.some_ne_none _)
  · intro h
    obtain ⟨hne, hmin⟩ := h
    refine if_congr ⟨fun h => ⟨hne, h.1, by omega⟩, fun h => ⟨h.2.1, ?_⟩⟩ rfl rfl
    have hno : value b ds ≠ bound := fun hv => hmin ⟨h.2.1, hv⟩
    omega

theorem map_ofNat_inj {a b : Option Nat} : a.map Int.ofNat = b.map Int.ofNat ↔ a = b :=
  (Option.map_injective fun _ _ => Int.ofNat.inj).eq_iff

theorem map_neg_ofNat_inj {a b : Option Nat} :
    (a.map fun v => -Int.ofNat v) = (b.map fun v => -Int.ofNat v) ↔ a = b :=
  (Option.map_injective fun _ _ h => Int.ofNat.inj (Int.neg_inj.mp h)).eq_iff

theorem looseInt_eq_iff (t : List UInt8) :
    looseInt t = intLiteral t ↔ digitsOf t ≠ [] ∧ ¬ IsIntMin t := by
  rw [looseInt, intLiteral, digitsOf]
  by_cases hhex : isHexPrefix t = true
  · have hnot : ¬ IsIntMin t := fun h => absurd (hhex.symm.trans h.1) (by decide)
    rw [if_pos hhex, if_pos hhex, if_pos hhex, map_ofNat_inj, looseNumeral_eq_iff (by decide),
      and_iff_left hnot]
  · rw [if_neg hhex, if_neg hhex, if_neg hhex]
    by_cases hminus : t.getD 0 0 = chMinus
    · rw [if_neg (not_not.mpr hminus), if_neg (not_not.mpr hminus), if_neg (not_not.mpr hminus),
        map_neg_ofNat_inj, looseNumeral_eq_succ_iff (by decide)]
      have hfalse : isHexPrefix t = false := Bool.not_eq_true _ ▸ hhex
      exact and_congr_right fun _ => not_congr ⟨fun h => ⟨hfalse, hminus, h⟩, fun h => h.2.2⟩
    · have hnot : ¬ IsIntMin t := fun h => hminus h.2.1
      rw [if_pos hminus, if_pos hminus, if_pos hminus, map_ofNat_inj,
        looseNumeral_eq_iff (by decide), and_iff_left hnot]

theorem looseUInt_eq {t : List UInt8} (h : digitsOf t ≠ []) : looseUInt t = uintLiteral t := by
  rw [looseUInt, uintLiteral]
  rw [digitsOf] at h
  by_cases hhex : isHexPrefix t = true
  · rw [if_pos hhex] at h
    rw [if_pos hhex, if_pos hhex, looseNumeral_eq_iff (by decide)]
    exact h
  · rw [if_neg hhex] at h
    rw [if_neg hhex, if_neg hhex, looseNumeral_eq_iff (by decide)]
    intro hnil
    subst hnil
    exact h rfl

section

variable {url key : List UInt8}

/-- Once the key is found, the value stands where the query has it. -/
theorem firstValue_eq
    (h : findKeyValue url key = (firstItem url key).map fun p => p.drop key.length) :
    firstValue url key =
      (valuePtr url key).map fun p => (p, (p.takeWhile inValue).length) := by
  rw [firstValue, valuePtr, h]
  cases hitem : firstItem url key with
  | none => rfl
  | some p =>
    have hkey : itemKey p = key :=
      beq_iff_eq.mp (List.find?_some (p := fun p => itemKey p == key) hitem)
    rw [Option.bind_some, Option.map_some, itemValue, hkey]
    cases p.drop key.length with
    | nil => rfl
    | cons c v =>
      by_cases hc : c = chEqual
      · simp only [hc, if_true, Option.map_some]
      · simp only [hc, if_false, Option.map_none]

/-- The text of a value is what stands before its end. -/
theorem take_length_takeWhile (p : List UInt8) :
    p.take (p.takeWhile inValue).length = p.takeWhile inValue :=
  (List.prefix_iff_eq_take.mp (p.takeWhile_prefix inValue)).symm

theorem numberStands_iff
    (h : findKeyValue url key = (firstItem url key).map fun p => p.drop key.length) :
    NumberStands url key ↔ ∀ p, valuePtr url key = some p →
      looseInt (p.takeWhile inValue) = intLiteral (p.takeWhile inValue) := by
  rw [NumberStands, firstValue_eq h]
  constructor
  · intro hnumber p hp
    have hvalue := hnumber (p, (p.takeWhile inValue).length) (by rw [hp, Option.map_some])
    rw [take_length_takeWhile] at hvalue
    exact (looseInt_eq_iff _).mpr hvalue
  · intro hnumber v hv
    obtain ⟨p, hp, hpv⟩ := Option.map_eq_some_iff.mp hv
    subst hpv
    rw [take_length_takeWhile]
    exact (looseInt_eq_iff _).mp (hnumber p hp)

/-- The reader agrees with the query exactly where the first place that goes on with the key is an
item with this key, and its value is no numeral without digits and not the smallest integer. -/
theorem urlReader_reads_query (url key : List UInt8) :
    ReadsQuery url key ↔ KeyStands url key ∧ NumberStands url key := by
  constructor
  · intro h
    refine ⟨keyStands_of_found h.found, (numberStands_iff h.found).mpr fun p hp => ?_⟩
    have hint := h.int
    rw [getInt_eq, firstValue_eq h.found, hp, Option.map_some, Option.bind_some, Option.bind_some,
      take_length_takeWhile] at hint
    exact hint
  · intro h
    obtain ⟨hkey, hnumber⟩ := h
    have hfound := found_of_keyStands hkey
    have hvalue := firstValue_eq hfound
    have hint := (numberStands_iff hfound).mp hnumber
    refine ⟨hfound, ?_, ?_, ?_⟩
    · rw [getStr, hvalue]
    · rw [getUInt_eq, hvalue, Option.bind_map]
      refine Option.bind_congr fun p hp => ?_
      rw [Function.comp_apply, take_length_takeWhile]
      exact looseUInt_eq ((looseInt_eq_iff _).mp (hint p hp)).1
    · rw [getInt_eq, hvalue, Option.bind_map]
      refine Option.bind_congr fun p hp => ?_
      rw [Function.comp_apply, take_length_takeWhile]
      exact hint p hp

end

/-- A key that begins like the one that is asked for is taken for it. -/
theorem not_urlReader_reads_query : ¬ ∀ url key, ReadsQuery url key := by
  intro h
  have hfound := (h (ascii "/a?ab=1&a=2") (ascii "a")).found
  rw [findKeyValue_eq] at hfound
  exact absurd hfound (by decide +kernel)

end UrlReader

end MiMic.Http
