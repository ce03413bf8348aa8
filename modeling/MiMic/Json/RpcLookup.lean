import MiMic.Json.RpcParser

/-!
# The lookup of a method

`findFunction` compares the namespace and the class of a table entry over the length of the
request's text, so an entry may begin with the text and go on; and it looks for the function in the
first entry that begins so. `firstBegins` is that entry, and the lookup is exact when nothing but
the entry that is meant can be it.
-/
namespace MiMic.Json

/-- The complete name of a function of an entry. -/
def fullName (d : JsonRpcClassDef) (f : JsonRpcMethodDef) : List UInt8 :=
  d.namesPace ++ chColon :: (d.className ++ chColon :: f.name)

/-- The function of that index in the entry `d` of the table has the name `path`. -/
def Names (tbl : List JsonRpcClassDef) (path : List UInt8) (d : JsonRpcClassDef) (i : Nat) : Prop :=
  d ∈ tbl ∧ ∃ f, d.functions[i]? = some f ∧ fullName d f = path

/-- An entry that is returned has the name, and an entry with the name is not missed. -/
structure LookupOk (tbl : List JsonRpcClassDef) (path : List UInt8)
    (r : Option (JsonRpcClassDef × UInt8)) : Prop where
  found : ∀ d i, r = some (d, i) → Names tbl path d i.toNat
  missed : r = none → ∀ d i, ¬ Names tbl path d i

/-- The lookup returns, and returns what the name says. -/
def FindsExactly (tbl : List JsonRpcClassDef) (path : List UInt8) : Prop :=
  ∃ r, findFunction tbl path = some r ∧ LookupOk tbl path r

/-- The name begins with the text. -/
def beginsWith (name text : List UInt8) : Bool := strncmpEq name text text.length

/-- The first entry whose namespace and class begin with the texts of the request. -/
def firstBegins (tbl : List JsonRpcClassDef) (ns class_ : List UInt8) : Option JsonRpcClassDef :=
  tbl.find? fun d => beginsWith d.namesPace ns && beginsWith d.className class_

/-- The parts of a method string, up to its first and its second colon and behind them. -/
structure Splits (path ns class_ method : List UInt8) : Prop where
  path_eq : path = ns ++ chColon :: (class_ ++ chColon :: method)
  ns_plain : chColon ∉ ns
  class_plain : chColon ∉ class_

/-- The first entry that begins with the request's namespace and class either has the function, in
its first 256, and then its two names are those of the request; or it lacks the function, has fewer
than 256, and no other entry has the name. -/
def Unambiguous (tbl : List JsonRpcClassDef) (path : List UInt8) : Prop :=
  ∀ ns class_ method, Splits path ns class_ method →
    match firstBegins tbl ns class_ with
    | none => ∀ d i, ¬ Names tbl path d i
    | some d =>
        if (d.functions.take 256).any (·.name == method) = true then
          d.namesPace ++ chColon :: d.className = ns ++ chColon :: class_
        else d.functions.length < 256 ∧ ∀ d' i, ¬ Names tbl path d' i

theorem findInClasses_eq (ns class_ method : List UInt8) (tbl : List JsonRpcClassDef) :
    findInClasses ns class_ method tbl =
      match firstBegins tbl ns class_ with
      | none => some none
      | some d => (findMethod d.functions method).map fun r => r.map fun i => (d, i) := by
  induction tbl with
  | nil => rfl
  | cons d tbl ih =>
    unfold firstBegins at ih ⊢
    rw [findInClasses, List.find?_cons]
    by_cases h : (beginsWith d.namesPace ns && beginsWith d.className class_) = true
    · have h' := h
      unfold beginsWith at h'
      rw [if_pos h', h]
    · have h' := h
      unfold beginsWith at h'
      rw [if_neg h', Bool.eq_false_iff.mpr h, ih]

theorem ne_colon {a : List UInt8} (h : chColon ∉ a) : ∀ c ∈ a, (c != chColon) = true := by
  intro c hc
  rw [bne_iff_ne]
  rintro rfl
  exact h hc

theorem takeWhile_colon {a rest : List UInt8} (h : chColon ∉ a) :
    (a ++ chColon :: rest).takeWhile (· != chColon) = a := by
  rw [List.takeWhile_append_of_pos (ne_colon h)]
  simp

theorem dropWhile_colon {a rest : List UInt8} (h : chColon ∉ a) :
    (a ++ chColon :: rest).dropWhile (· != chColon) = chColon :: rest := by
  rw [List.dropWhile_append_of_pos (ne_colon h)]
  simp

theorem dropWhile_no_colon {a : List UInt8} (h : chColon ∉ a) :
    a.dropWhile (· != chColon) = [] := by
  rw [← List.append_nil a, List.dropWhile_append_of_pos (ne_colon h)]
  rfl

theorem findFunction_of_splits {path ns class_ method : List UInt8}
    (h : Splits path ns class_ method) (tbl : List JsonRpcClassDef) :
    findFunction tbl path = findInClasses ns class_ method tbl := by
  rw [h.path_eq]
  unfold findFunction
  simp only [takeWhile_colon h.ns_plain, dropWhile_colon h.ns_plain, takeWhile_colon h.class_plain,
    dropWhile_colon h.class_plain]

/-- A string without two colons finds nothing. -/
theorem findFunction_of_not_splits {path : List UInt8}
    (h : ∀ ns class_ method, ¬ Splits path ns class_ method) (tbl : List JsonRpcClassDef) :
    findFunction tbl path = some none := by
  unfold findFunction
  by_cases hc : chColon ∈ path
  · obtain ⟨ns, rest, rfl, hns⟩ := List.eq_append_cons_of_mem hc
    have hrest : chColon ∉ rest := by
      intro hr
      obtain ⟨class_, method, rfl, hclass⟩ := List.eq_append_cons_of_mem hr
      exact h ns class_ method ⟨rfl, hns, hclass⟩
    simp only [dropWhile_colon hns, dropWhile_no_colon hrest]
  · simp only [dropWhile_no_colon hc]

/-- A complete name has two colons. -/
theorem exists_splits (a b c : List UInt8) :
    ∃ ns class_ method, Splits (a ++ chColon :: (b ++ chColon :: c)) ns class_ method := by
  have hsecond (ns rest : List UInt8) (hns : chColon ∉ ns) (hrest : chColon ∈ rest) :
      ∃ class_ method, Splits (ns ++ chColon :: rest) ns class_ method := by
    obtain ⟨class_, method, rfl, hclass⟩ := List.eq_append_cons_of_mem hrest
    exact ⟨class_, method, rfl, hns, hclass⟩
  have hmem : chColon ∈ b ++ chColon :: c := List.mem_append_right b List.mem_cons_self
  by_cases ha : chColon ∈ a
  · obtain ⟨ns, a', rfl, hns⟩ := List.eq_append_cons_of_mem ha
    have hrest : chColon ∈ a' ++ chColon :: (b ++ chColon :: c) :=
      List.mem_append_right a' List.mem_cons_self
    rw [List.append_assoc, List.cons_append]
    exact ⟨ns, hsecond ns _ hns hrest⟩
  · exact ⟨a, hsecond a _ ha hmem⟩

theorem findMethod_some {functions : List JsonRpcMethodDef} {name : List UInt8} {i : UInt8}
    (h : findMethod functions name = some (some i)) :
    ∃ f, functions[i.toNat]? = some f ∧ f.name = name := by
  unfold findMethod at h
  split at h
  · next j hj =>
    obtain rfl := Option.some.inj (Option.some.inj h)
    obtain ⟨hlt, hname, -⟩ := List.findIdx?_eq_some_iff_getElem.mp hj
    rw [List.length_take] at hlt
    have hj256 : j < 256 := by omega
    rw [UInt8.toNat_ofNat', Nat.mod_eq_of_lt hj256]
    refine ⟨functions[j], List.getElem?_eq_getElem (by omega), ?_⟩
    rw [List.getElem_take] at hname
    exact beq_iff_eq.mp hname
  · split at h
    · cases h
    · cases h

/-- The three outcomes of the search in a function table. -/
theorem findMethod_cases (functions : List JsonRpcMethodDef) (name : List UInt8) :
    if (functions.take 256).any (·.name == name) = true then
      ∃ i, findMethod functions name = some (some i)
    else findMethod functions name = if functions.length < 256 then some none else none := by
  unfold findMethod
  cases hf : (functions.take 256).findIdx? (·.name == name) with
  | some j =>
    obtain ⟨hlt, hname, -⟩ := List.findIdx?_eq_some_iff_getElem.mp hf
    rw [if_pos (List.any_eq_true.mpr ⟨_, List.getElem_mem hlt, hname⟩)]
    exact ⟨_, rfl⟩
  | none =>
    have hnone := List.findIdx?_eq_none_iff.mp hf
    have hany : ¬ (functions.take 256).any (·.name == name) = true := by
      intro h
      obtain ⟨f, hmem, hname⟩ := List.any_eq_true.mp h
      rw [hnone f hmem] at hname
      cases hname
    rw [if_neg hany]

theorem lookupOk_none {tbl : List JsonRpcClassDef} {path : List UInt8}
    (h : ∀ d i, ¬ Names tbl path d i) : LookupOk tbl path none where
  found _ _ hd := nomatch hd
  missed _ := h

/-- The lookup of a string with two colons, by the first entry that begins with its parts. -/
theorem findsExactly_of_splits {tbl : List JsonRpcClassDef} {path ns class_ method : List UInt8}
    (h : Splits path ns class_ method) :
    FindsExactly tbl path ↔
      match firstBegins tbl ns class_ with
      | none => ∀ d i, ¬ Names tbl path d i
      | some d =>
          if (d.functions.take 256).any (·.name == method) = true then
            d.namesPace ++ chColon :: d.className = ns ++ chColon :: class_
          else d.functions.length < 256 ∧ ∀ d' i, ¬ Names tbl path d' i := by
  have hmiss : (∃ r, some none = some r ∧ LookupOk tbl path r) ↔ ∀ d i, ¬ Names tbl path d i := by
    constructor
    · rintro ⟨r, hr, hok⟩
      exact hok.missed (Option.some.inj hr).symm
    · exact fun hnone => ⟨none, rfl, lookupOk_none hnone⟩
  unfold FindsExactly
  rw [findFunction_of_splits h, findInClasses_eq]
  cases hfirst : firstBegins tbl ns class_ with
  | none => exact hmiss
  | some d =>
    have hmem : d ∈ tbl := List.mem_of_find?_eq_some hfirst
    have hcases := findMethod_cases d.functions method
    dsimp only
    split at hcases
    · next hany =>
      obtain ⟨i, hi⟩ := hcases
      obtain ⟨f, hf, hname⟩ := findMethod_some hi
      have hfull : fullName d f = path ↔
          d.namesPace ++ chColon :: d.className = ns ++ chColon :: class_ := by
        have hassoc (a b c : List UInt8) :
            a ++ chColon :: (b ++ chColon :: c) = (a ++ chColon :: b) ++ chColon :: c := by
          rw [List.append_assoc, List.cons_append]
        rw [h.path_eq, fullName, hname, hassoc, hassoc]
        exact List.append_left_inj _
      rw [if_pos hany, hi]
      constructor
      · rintro ⟨r, hr, hok⟩
        obtain rfl := Option.some.inj hr
        obtain ⟨-, g, hg, hpath⟩ := hok.found d i rfl
        obtain rfl := Option.some.inj (hf.symm.trans hg)
        exact hfull.mp hpath
      · intro heq
        refine ⟨some (d, i), rfl, ?_, fun hno => by cases hno⟩
        intro d' i' hd
        obtain ⟨rfl, rfl⟩ := Prod.mk.inj (Option.some.inj hd)
        exact ⟨hmem, f, hf, hfull.mpr heq⟩
    · next hany =>
      rw [if_neg hany, hcases]
      by_cases hlen : d.functions.length < 256
      · rw [if_pos hlen, and_iff_right hlen]
        exact hmiss
      · rw [if_neg hlen]
        refine iff_of_false ?_ fun hc => hlen hc.1
        rintro ⟨r, hr, -⟩
        cases hr

/-- The lookup of a method string is exact if and only if the first entry that begins with its
namespace and class is the one that has the name, or none has it and that entry lacks the
function. -/
theorem findFunction_exact_iff (tbl : List JsonRpcClassDef) (path : List UInt8) :
    FindsExactly tbl path ↔ Unambiguous tbl path := by
  by_cases hs : ∃ ns class_ method, Splits path ns class_ method
  · constructor
    · exact fun h ns class_ method hsplit => (findsExactly_of_splits hsplit).mp h
    · intro h
      obtain ⟨ns, class_, method, hsplit⟩ := hs
      exact (findsExactly_of_splits hsplit).mpr (h ns class_ method hsplit)
  · have hnot : ∀ ns class_ method, ¬ Splits path ns class_ method :=
      fun ns class_ method h => hs ⟨ns, class_, method, h⟩
    refine iff_of_true ⟨none, findFunction_of_not_splits hnot tbl, lookupOk_none ?_⟩
      fun ns class_ method h => absurd h (hnot ns class_ method)
    rintro d i ⟨-, f, -, rfl⟩
    exact hs (exists_splits _ _ _)

/-- One entry `mbed:Pwm` with the function `read`. -/
def pwmTable : List JsonRpcClassDef :=
  [⟨[0x6d, 0x62, 0x65, 0x64], [0x50, 0x77, 0x6d], [⟨[0x72, 0x65, 0x61, 0x64], []⟩]⟩]

/-- `m:P:read` is answered with the function `mbed:Pwm:read`. -/
theorem not_findFunction_exact : ¬ ∀ tbl path, FindsExactly tbl path := by
  intro h
  obtain ⟨r, hr, hok⟩ := h pwmTable [0x6d, 0x3a, 0x50, 0x3a, 0x72, 0x65, 0x61, 0x64]
  obtain rfl : some (pwmTable.head (by decide), 0) = r := Option.some.inj hr
  obtain ⟨-, f, hf, hname⟩ := hok.found _ _ rfl
  obtain rfl : (⟨[0x72, 0x65, 0x61, 0x64], []⟩ : JsonRpcMethodDef) = f := Option.some.inj hf
  revert hname
  decide

end MiMic.Json
