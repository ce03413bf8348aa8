import MiMic.Vm.TxtCompiler

/-!
# The compiler of the DB part on whole texts

`compileFragment` converts a word straight from its input when it can, and collects the
characters of a word that is cut. Over it `compile` is to fill an array.
-/
namespace MiMic.Vm

namespace DbCompiler

/-- What a call leaves behind: the word stored to `o_val`, and `o_parsed_bc`, which an error does
not set. -/
structure Converted where
  d : DbCompiler
  val : Option UInt32
  ret : DbRet
  parsed : Nat

/-- The loop behind the cache. -/
def collect (d : DbCompiler) : List UInt8 → Converted
  | [] => ⟨d, none, .continue, 0⟩
  | ch :: bc =>
    let tmp := d.tmp ++ [ch]
    if tmp.length = 8 then
      match txt2UInt tmp with
      | some v => ⟨⟨[]⟩, some v, .ok, 1⟩
      | none => ⟨⟨[]⟩, none, .error, 0⟩
    else
      let r := collect ⟨tmp⟩ bc
      { r with parsed := r.parsed + 1 }

/-- `NyLPC_cMiMicDbCompiler_compileFragment` -/
def compileFragment (d : DbCompiler) (bc : List UInt8) : Converted :=
  if d.tmp.length = 0 ∧ 8 ≤ bc.length then
    match txt2UInt (bc.take 8) with
    | some v => ⟨d, some v, .ok, 8⟩
    | none => ⟨d, none, .error, 0⟩
  else d.collect bc

/-- What `compile` has in its hands: the rest of the input, and the words left in `wp`. -/
structure CompileState where
  d : DbCompiler
  rp : List UInt8
  wpLen : Nat
  out : UInt32ArrayPtr

/-- The loop of `NyLPC_cMiMicDbCompiler_compile`; `none` is fuel that is spent. It asks for the
length of the input, and stores where the output begins. -/
def compileLoop (bc : List UInt8) (out : UInt32ArrayPtr) :
    Nat → CompileState → Option (CompileState × Nat)
  | 0, _ => none
  | fuel + 1, s =>
    if 0 < bc.length then
      if s.wpLen = 0 then some (s, 0)
      else
        let r := s.d.compileFragment s.rp
        let s := { s with
          d := r.d
          out := r.val.elim s.out fun v => s.out.store out.ptr (Word.ofUInt32 v) }
        match r.ret with
        | .ok =>
          if s.rp.length < r.parsed then some (s, 0)
          else if s.wpLen < 1 then some ({ s with rp := s.rp.drop r.parsed }, 0)
          else compileLoop bc out fuel { s with rp := s.rp.drop r.parsed, wpLen := s.wpLen - 1 }
        | .continue => some (s, 0)
        | .error => some (s, 0)
    else some (s, out.len - s.wpLen)

/-- `NyLPC_cMiMicDbCompiler_compile`: what has been stored, and the return value. -/
def compile (d : DbCompiler) (bc : List UInt8) (out : UInt32ArrayPtr) :
    Option (UInt32ArrayPtr × Nat) :=
  (compileLoop bc out (out.len + 1) ⟨d, bc, out.len, out⟩).map fun r => (r.1.out, r.2)

/-- Call `compileFragment` until a fragment is used up; `none` is an error, or fuel that is
spent. -/
def feedFragment : Nat → DbCompiler → List UInt8 → Option (List UInt32 × DbCompiler)
  | 0, _, _ => none
  | fuel + 1, d, bc =>
    let r := d.compileFragment bc
    match r.ret with
    | .ok => (feedFragment fuel r.d (bc.drop r.parsed)).map fun f => (r.val.toList ++ f.1, f.2)
    | .continue => some ([], r.d)
    | .error => none

/-- All fragments of a text. -/
def feed (d : DbCompiler) : List (List UInt8) → Option (List UInt32 × DbCompiler)
  | [] => some ([], d)
  | bc :: bcs =>
    (feedFragment (bc.length + 1) d bc).bind fun f =>
      (feed f.2 bcs).map fun g => (f.1 ++ g.1, g.2)

end DbCompiler

/-- Eight digits for each word. -/
def hexText (ws : List UInt32) : List UInt8 := ws.flatMap fun w => Verif.Hex.text 8 w.toNat

/-- The words of a text and the characters behind the last whole one. -/
def wordsOf (txt : List UInt8) : Option (List UInt32 × List UInt8) :=
  if txt.length < 8 then some ([], txt)
  else
    (txt2UInt (txt.take 8)).bind fun v =>
      (wordsOf (txt.drop 8)).map fun q => (v :: q.1, q.2)
termination_by txt.length

theorem wordsOf_short {txt : List UInt8} (h : txt.length < 8) : wordsOf txt = some ([], txt) := by
  rw [wordsOf, if_pos h]

theorem wordsOf_long {txt : List UInt8} (h : 8 ≤ txt.length) : wordsOf txt =
    (txt2UInt (txt.take 8)).bind fun v =>
      (wordsOf (txt.drop 8)).map fun q => (v :: q.1, q.2) := by
  rw [wordsOf, if_neg (Nat.not_lt.mpr h)]

theorem wordsOf_hexText (ws : List UInt32) : wordsOf (hexText ws) = some (ws, []) := by
  induction ws with
  | nil => exact wordsOf_short (by decide)
  | cons w ws ih =>
    have hlen : (Verif.Hex.text 8 w.toNat).length = 8 := Verif.Hex.length_text 8 _
    have hw : txt2UInt (Verif.Hex.text 8 w.toNat) = some w := by
      rw [txt2UInt_text (by have := w.toNat_lt; omega), UInt32.ofNat_toNat]
    have hcons : hexText (w :: ws) = Verif.Hex.text 8 w.toNat ++ hexText ws := List.flatMap_cons
    rw [hcons, wordsOf_long (by rw [List.length_append, hlen]; omega), List.take_left' hlen,
      List.drop_left' hlen, hw, Option.bind_some, ih]
    rfl

theorem hexText_ne_nil {ws : List UInt32} (h : ws ≠ []) : hexText ws ≠ [] := by
  cases ws with
  | nil => exact absurd rfl h
  | cons w ws =>
    intro hnil
    have hlen := congrArg List.length hnil
    simp [hexText] at hlen

/-- What is behind the last whole word is read on with what follows. -/
theorem wordsOf_append (a b : List UInt8) : wordsOf (a ++ b) =
    (wordsOf a).bind fun p => (wordsOf (p.2 ++ b)).map fun q => (p.1 ++ q.1, q.2) := by
  induction hn : a.length using Nat.strongRecOn generalizing a with
  | ind n ih =>
    subst hn
    rcases Nat.lt_or_ge a.length 8 with hshort | hlong
    · rw [wordsOf_short hshort, Option.bind_some]
      simp only [List.nil_append, Prod.mk.eta, Option.map_id']
    · have htake : (a ++ b).take 8 = a.take 8 := List.take_append_of_le_length hlong
      have hdrop : (a ++ b).drop 8 = a.drop 8 ++ b := List.drop_append_of_le_length hlong
      have hrest := ih (a.drop 8).length (by rw [List.length_drop]; omega) (a.drop 8) rfl
      rw [wordsOf_long (by rw [List.length_append]; omega), wordsOf_long hlong, htake, hdrop]
      cases txt2UInt (a.take 8) with
      | none => rfl
      | some v =>
        simp only [Option.bind_some, hrest]
        cases wordsOf (a.drop 8) with
        | none => rfl
        | some p =>
          simp only [Option.bind_some, Option.map_some, Option.map_map]
          rfl

theorem length_rest_of_wordsOf {txt : List UInt8} {p : List UInt32 × List UInt8}
    (h : wordsOf txt = some p) : p.2.length < 8 := by
  induction hn : txt.length using Nat.strongRecOn generalizing txt p with
  | ind n ih =>
    subst hn
    rcases Nat.lt_or_ge txt.length 8 with hshort | hlong
    · rw [wordsOf_short hshort] at h
      obtain rfl := Option.some.inj h
      exact hshort
    · rw [wordsOf_long hlong] at h
      obtain ⟨v, -, hv⟩ := Option.bind_eq_some_iff.mp h
      obtain ⟨q, hq, rfl⟩ := Option.map_eq_some_iff.mp hv
      have hrest : q.2.length < 8 :=
        ih (txt.drop 8).length (by rw [List.length_drop]; omega) hq rfl
      exact hrest

theorem length_of_wordsOf {txt : List UInt8} {p : List UInt32 × List UInt8}
    (h : wordsOf txt = some p) : txt.length = 8 * p.1.length + p.2.length := by
  induction hn : txt.length using Nat.strongRecOn generalizing txt p with
  | ind n ih =>
    subst hn
    rcases Nat.lt_or_ge txt.length 8 with hshort | hlong
    · rw [wordsOf_short hshort] at h
      obtain rfl := Option.some.inj h
      rw [List.length_nil, Nat.mul_zero, Nat.zero_add]
    · rw [wordsOf_long hlong] at h
      obtain ⟨v, -, hv⟩ := Option.bind_eq_some_iff.mp h
      obtain ⟨q, hq, rfl⟩ := Option.map_eq_some_iff.mp hv
      have hrest := ih (txt.drop 8).length (by rw [List.length_drop]; omega) hq rfl
      rw [List.length_drop] at hrest
      show txt.length = 8 * (v :: q.1).length + q.2.length
      rw [List.length_cons]
      omega

namespace DbCompiler

/-- Characters that do not fill a word go to the cache. -/
theorem collect_short {d : DbCompiler} {bc : List UInt8} (h : d.tmp.length + bc.length < 8) :
    d.collect bc = ⟨⟨d.tmp ++ bc⟩, none, .continue, bc.length⟩ := by
  induction bc generalizing d with
  | nil =>
    rw [collect, List.append_nil]
    rfl
  | cons ch bc ih =>
    rw [List.length_cons] at h
    have hlen : (d.tmp ++ [ch]).length = d.tmp.length + 1 := by simp
    rw [collect, if_neg (by omega), ih (show (d.tmp ++ [ch]).length + bc.length < 8 by omega)]
    simp

/-- A word that is filled is converted, and the characters behind it are left. -/
theorem collect_long {d : DbCompiler} {bc : List UInt8} (hd : d.tmp.length < 8)
    (h : 8 ≤ d.tmp.length + bc.length) :
    (∀ v, txt2UInt ((d.tmp ++ bc).take 8) = some v →
      d.collect bc = ⟨⟨[]⟩, some v, .ok, 8 - d.tmp.length⟩) ∧
    (txt2UInt ((d.tmp ++ bc).take 8) = none → (d.collect bc).ret = .error) := by
  induction bc generalizing d with
  | nil =>
    rw [List.length_nil] at h
    omega
  | cons ch bc ih =>
    rw [List.length_cons] at h
    have hlen : (d.tmp ++ [ch]).length = d.tmp.length + 1 := by simp
    have happ : d.tmp ++ ch :: bc = (d.tmp ++ [ch]) ++ bc := by simp
    rw [happ, collect]
    rcases Nat.lt_or_ge (d.tmp.length + 1) 8 with hlt | hge
    · obtain ⟨hok, herr⟩ := ih (d := ⟨d.tmp ++ [ch]⟩) (by rw [hlen]; omega) (by rw [hlen]; omega)
      rw [if_neg (by omega)]
      refine ⟨fun v hv => ?_, herr⟩
      rw [hok v hv]
      simp
      omega
    · have hfull : (d.tmp ++ [ch]).length = 8 := by omega
      have hparsed : 8 - d.tmp.length = 1 := by omega
      rw [if_pos hfull, List.take_left' hfull, hparsed]
      refine ⟨fun v hv => ?_, fun hnone => ?_⟩
      · rw [hv]
      · rw [hnone]

/-- The direct path and the path through the cache give the same. -/
theorem compileFragment_short {d : DbCompiler} {bc : List UInt8}
    (h : d.tmp.length + bc.length < 8) :
    d.compileFragment bc = ⟨⟨d.tmp ++ bc⟩, none, .continue, bc.length⟩ := by
  rw [compileFragment, if_neg (by omega), collect_short h]

theorem compileFragment_long {d : DbCompiler} {bc : List UInt8} (hd : d.tmp.length < 8)
    (h : 8 ≤ d.tmp.length + bc.length) :
    (∀ v, txt2UInt ((d.tmp ++ bc).take 8) = some v →
      d.compileFragment bc = ⟨⟨[]⟩, some v, .ok, 8 - d.tmp.length⟩) ∧
    (txt2UInt ((d.tmp ++ bc).take 8) = none → (d.compileFragment bc).ret = .error) := by
  by_cases hdirect : d.tmp.length = 0 ∧ 8 ≤ bc.length
  · have hnil : d.tmp = [] := List.length_eq_zero_iff.mp hdirect.1
    have hd : d = ⟨[]⟩ := by cases d; exact congrArg DbCompiler.mk hnil
    subst hd
    rw [compileFragment, if_pos hdirect, List.nil_append]
    refine ⟨fun v hv => ?_, fun hnone => ?_⟩
    · rw [hv]
      rfl
    · rw [hnone]
  · rw [compileFragment, if_neg hdirect]
    exact collect_long hd h

/-- The model of `compileFragment2` is a fragment of one character. -/
theorem compileFragment2_eq (d : DbCompiler) (ch : UInt8) (bin : UInt32ArrayPtr) :
    d.compileFragment2 ch bin =
      ((d.compileFragment [ch]).d,
        (d.compileFragment [ch]).val.elim bin fun v => bin.store bin.ptr (Word.ofUInt32 v),
        (d.compileFragment [ch]).ret) := by
  have hcollect : d.compileFragment [ch] = d.collect [ch] := if_neg (by simp)
  rw [hcollect, compileFragment2, collect]
  by_cases hfull : (d.tmp ++ [ch]).length = 8
  · simp only [if_pos hfull]
    cases txt2UInt (d.tmp ++ [ch]) <;> rfl
  · simp only [if_neg hfull, collect]
    rfl

theorem feedFragment_eq {fuel : Nat} {d : DbCompiler} {bc : List UInt8} (hd : d.tmp.length < 8)
    (hfuel : bc.length < fuel) :
    feedFragment fuel d bc = (wordsOf (d.tmp ++ bc)).map fun p => (p.1, ⟨p.2⟩) := by
  induction fuel generalizing d bc with
  | zero => exact absurd hfuel (Nat.not_lt_zero _)
  | succ fuel ih =>
    rw [feedFragment]
    rcases Nat.lt_or_ge (d.tmp.length + bc.length) 8 with hshort | hlong
    · rw [compileFragment_short hshort, wordsOf_short (by rw [List.length_append]; omega)]
      rfl
    · obtain ⟨hok, herr⟩ := compileFragment_long hd hlong
      have hdrop : (d.tmp ++ bc).drop 8 = bc.drop (8 - d.tmp.length) := by
        rw [List.drop_append, List.drop_eq_nil_of_le (by omega), List.nil_append]
      rw [wordsOf_long (by rw [List.length_append]; omega), hdrop]
      cases hw : txt2UInt ((d.tmp ++ bc).take 8) with
      | none =>
        simp only [herr hw]
        rfl
      | some v =>
        have hrest : feedFragment fuel ⟨[]⟩ (bc.drop (8 - d.tmp.length)) =
            (wordsOf (bc.drop (8 - d.tmp.length))).map fun p => (p.1, ⟨p.2⟩) :=
          ih (by decide) (by rw [List.length_drop]; omega)
        rw [hok v hw]
        simp only [hrest, Option.bind_some, Option.map_map]
        rfl

/-- Whatever the cut, the fragments give the words of the whole text. -/
theorem feed_eq {frags : List (List UInt8)} {d : DbCompiler} (hd : d.tmp.length < 8) :
    d.feed frags = (wordsOf (d.tmp ++ frags.flatten)).map fun p => (p.1, ⟨p.2⟩) := by
  induction frags generalizing d with
  | nil =>
    rw [feed, List.flatten_nil, List.append_nil, wordsOf_short hd]
    rfl
  | cons bc bcs ih =>
    rw [feed, feedFragment_eq hd (Nat.lt_succ_self _), List.flatten_cons, ← List.append_assoc,
      wordsOf_append (d.tmp ++ bc)]
    cases hw : wordsOf (d.tmp ++ bc) with
    | none => rfl
    | some p =>
      have hp := length_rest_of_wordsOf hw
      simp only [Option.map_some, Option.bind_some]
      rw [ih (d := ⟨p.2⟩) hp, Option.map_map, Option.map_map]
      rfl

/-- The loop of `compile` is left through one of its errors, with nothing stored but where the
output begins. -/
theorem compileLoop_eq_zero {bc : List UInt8} (hbc : bc ≠ []) (out : UInt32ArrayPtr) {fuel : Nat}
    {s : CompileState} (hfuel : s.wpLen < fuel) :
    ∃ s', compileLoop bc out fuel s = some (s', 0) ∧
      ∀ a ∈ s'.out.written, a ∈ s.out.written ∨ a = out.ptr ∧ 0 < s.wpLen := by
  induction fuel generalizing s with
  | zero => exact absurd hfuel (Nat.not_lt_zero _)
  | succ fuel ih =>
    rw [compileLoop, if_pos (List.length_pos_of_ne_nil hbc)]
    by_cases hwp : s.wpLen = 0
    · exact ⟨s, if_pos hwp, fun a ha => .inl ha⟩
    · rw [if_neg hwp]
      obtain ⟨d, val, ret, parsed⟩ := s.d.compileFragment s.rp
      have hstore : ∀ a ∈ (val.elim s.out fun v =>
          s.out.store out.ptr (Word.ofUInt32 v)).written,
          a ∈ s.out.written ∨ a = out.ptr ∧ 0 < s.wpLen := by
        intro a ha
        cases val with
        | none => exact .inl ha
        | some v =>
          rcases List.mem_cons.mp ha with rfl | ha
          · exact .inr ⟨rfl, Nat.pos_of_ne_zero hwp⟩
          · exact .inl ha
      simp only
      generalize (val.elim s.out fun v => s.out.store out.ptr (Word.ofUInt32 v)) = o at hstore
      cases ret with
      | ok =>
        by_cases hrp : s.rp.length < parsed
        · exact ⟨_, if_pos hrp, hstore⟩
        · rw [if_neg hrp]
          have hwp1 : ¬ s.wpLen < 1 := by omega
          obtain ⟨s', hs, hwritten⟩ := ih (s := ⟨d, s.rp.drop parsed, s.wpLen - 1, o⟩)
            (show s.wpLen - 1 < fuel by omega)
          refine ⟨s', (if_neg hwp1).trans hs, fun a ha => ?_⟩
          rcases hwritten a ha with hold | hnew
          · exact hstore a hold
          · exact .inr ⟨hnew.1, Nat.pos_of_ne_zero hwp⟩
      | «continue» => exact ⟨_, rfl, hstore⟩
      | error => exact ⟨_, rfl, hstore⟩

theorem compile_eq_zero {bc : List UInt8} (hbc : bc ≠ []) (d : DbCompiler) (out : UInt32ArrayPtr) :
    ∃ out', d.compile bc out = some (out', 0) ∧
      ∀ a ∈ out'.written, a ∈ out.written ∨ a = out.ptr ∧ 0 < out.len := by
  obtain ⟨s, hs, hwritten⟩ :=
    compileLoop_eq_zero hbc out (s := ⟨d, bc, out.len, out⟩) (Nat.lt_succ_self _)
  exact ⟨s.out, by rw [compile, hs]; rfl, hwritten⟩

end DbCompiler

/-- `compile` stores the words one behind the other and returns how many they are. -/
def CompilesTo (ws : List UInt32) (out : UInt32ArrayPtr) : Prop :=
  ∃ out', DbCompiler.init.compile (hexText ws) out = some (out', ws.length) ∧
    ∀ (i : Nat) (hi : i < ws.length), out'.mem (out.ptr + i) = Word.ofUInt32 ws[i]

/-- `compile` ends, and stores inside of the array alone. -/
def StoresInside (ws : List UInt32) (out : UInt32ArrayPtr) : Prop :=
  ∃ out' n, DbCompiler.init.compile (hexText ws) out = some (out', n) ∧
    ∀ a ∈ out'.written, a ∈ out.written ∨ out.ptr ≤ a ∧ a < out.ptr + out.len

/-- The fragments give the words, and nothing is left in the cache. -/
def FragmentsGive (ws : List UInt32) (frags : List (List UInt8)) : Prop :=
  DbCompiler.init.feed frags = some (ws, .init)

theorem not_compilesTo {ws : List UInt32} (hws : ws ≠ []) (out : UInt32ArrayPtr) :
    ¬ CompilesTo ws out := by
  intro h
  obtain ⟨out', hcompile, -⟩ := h
  obtain ⟨stored, hzero, -⟩ := DbCompiler.compile_eq_zero (hexText_ne_nil hws) .init out
  rw [hzero] at hcompile
  have hlen := congrArg Prod.snd (Option.some.inj hcompile)
  exact hws (List.length_eq_zero_iff.mp hlen.symm)

/-- Every cut of a text compiles to its words; `compile` returns 0 for every text. -/
theorem dbCompiler_words (ws : List UInt32) (out : UInt32ArrayPtr) (frags : List (List UInt8))
    (hws : ws ≠ []) (hfrags : frags.flatten = hexText ws) :
    ¬ CompilesTo ws out ∧ StoresInside ws out ∧ FragmentsGive ws frags := by
  refine ⟨not_compilesTo hws out, ?_, ?_⟩
  · obtain ⟨out', hzero, hwritten⟩ := DbCompiler.compile_eq_zero (hexText_ne_nil hws) .init out
    refine ⟨out', 0, hzero, fun a ha => ?_⟩
    rcases hwritten a ha with hold | ⟨rfl, hlen⟩
    · exact .inl hold
    · exact .inr (by omega)
  · rw [FragmentsGive, DbCompiler.feed_eq (by decide), hfrags]
    show (wordsOf (hexText ws)).map _ = _
    rw [wordsOf_hexText]
    rfl

/-- Two words in three pieces, the second of which ends the first word and begins the other. -/
theorem dbCompiler_words_cut :
    ¬ CompilesTo [0xcafe0001, 2] (.setBuf (fun _ => .zero) 4 []) ∧
      StoresInside [0xcafe0001, 2] (.setBuf (fun _ => .zero) 4 []) ∧
      FragmentsGive [0xcafe0001, 2]
        [(hexText [0xcafe0001, 2]).take 3, ((hexText [0xcafe0001, 2]).drop 3).take 9,
          (hexText [0xcafe0001, 2]).drop 12] :=
  dbCompiler_words [0xcafe0001, 2] (.setBuf (fun _ => .zero) 4 [])
    [(hexText [0xcafe0001, 2]).take 3, ((hexText [0xcafe0001, 2]).drop 3).take 9,
      (hexText [0xcafe0001, 2]).drop 12] (by decide) (by decide)

/-- For the text `0000000100000002` and room for four words. -/
theorem not_dbCompiler_words : ¬ CompilesTo [1, 2] (.setBuf (fun _ => .zero) 4 []) :=
  not_compilesTo (by decide) _

end MiMic.Vm
