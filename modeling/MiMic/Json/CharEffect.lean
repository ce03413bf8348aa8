import MiMic.Json.RpcParser

/-!
# What a character can do

The outcomes of `putcharParams` and those of the other states of `putChar`, read off
once. `roomNeeded` is how many bytes behind the fill level the code can use for what the
character stores.
-/
namespace MiMic.Json

def ParamSt.inString : ParamSt → Bool
  | .str => true
  | .strEscapeHex => true
  | .strEscape => true
  | .bstr => true
  | _ => false

def ParamSt.inNumber : ParamSt → Bool
  | .int => true
  | .uint => true
  | .byte => true
  | _ => false

/-- The character begins a value in `PARAM_ST_VAL`. -/
def beginsValue (p : Parser) (c : UInt8) : Bool :=
  p.pst == .val && decide (p.pcounter.toNat < numberOfParamIndex) && !strchr [chSpace] c &&
    !strchr [chRightBracket] c

/-- The bytes that the character claims. A number must leave one more byte free, as its
end is computed before the number is stored. -/
def roomNeeded (p : Parser) (r : RpcResult) (c : UInt8) : Nat :=
  match p.pst with
  | .val =>
      if beginsValue p c ∧ c = chQuote ∧ (r.paramType p.pcounter.toNat = some 0x73 ∨
        r.paramType p.pcounter.toNat = some 0x42) then 1 else 0
  | .int => if (numberEnd p c).isSome then 5 else 0
  | .uint => if (numberEnd p c).isSome then 5 else 0
  | .byte => if (numberEnd p c).isSome then 2 else 0
  | .str => if c = chBackslash then 0 else 1
  | .strEscape => if c ≠ chLetterX ∧ (convertSingleCharEscape c).isSome then 1 else 0
  | .strEscapeHex => if isXDigit c ∧ p.strSt + 1 ≥ 2 then 1 else 0
  | .bstr => if c ≠ chQuote ∧ isXDigit c ∧ p.strSt = 1 then 1 else 0
  | _ => 0

/-- The parser inside the parameters, behind them, or in error. -/
structure StaysWith (p p' : Parser) : Prop where
  st : p'.st = .params ∨ p'.st = .next ∨ p'.st = .error
  pcounter : p'.pcounter = p.pcounter

inductive ParamEffect (p : Parser) (r : RpcResult) (c : UInt8) : Effect → Prop
  | fail {p'} : p'.st = .error → p'.n = p.n → p'.pcounter = p.pcounter → ParamEffect p r c ⟨p', []⟩
  | blank : p.pst.inString = false → ParamEffect p r c ⟨p, []⟩
  | enter {p'} : p.pst = .start → StaysWith p p' → p'.pst = .val → p'.n = 0 →
      ParamEffect p r c ⟨p', []⟩
  | leave {p'} : p.pst = .val → p.pcounter.toNat < numberOfParamIndex → p'.st = .next →
      p'.n = p.n → p'.pcounter = 0xff → ParamEffect p r c ⟨p', []⟩
  | number {p'} : beginsValue p c = true → p'.st = p.st → p'.pst.inNumber = true →
      p'.n = p.n ∨ p'.n = align4 p.n → p'.pcounter = p.pcounter + 1 →
      ParamEffect p r c ⟨p', [.index p.pcounter.toNat p'.n]⟩
  | string {p'} : beginsValue p c = true → p'.st = p.st → p'.pst.inString = true →
      roomNeeded p r c = 1 → p'.n = p.n + 1 → p'.pcounter = p.pcounter + 1 →
      ParamEffect p r c ⟨p', [.index p.pcounter.toNat p.n]⟩
  | quiet {p'} : p.pst ≠ .start → p.pst ≠ .val → StaysWith p p' → p'.pst ≠ .start →
      (p'.pst.inString = true → p.pst.inString = true) → p'.n = p.n → ParamEffect p r c ⟨p', []⟩
  | byte {p' v} : p.pst.inString = true → StaysWith p p' → p'.pst.inString = true →
      roomNeeded p r c = 1 → p'.n = p.n + 1 → ParamEffect p r c ⟨p', [.param p.n.toNat [v]]⟩
  | numberEnd {p' size data} : p.pst.inNumber = true → StaysWith p p' → p'.pst ≠ .start →
      p'.pst.inString = false → data.length = size.toNat → roomNeeded p r c = size.toNat + 1 →
      p'.n = p.n + size →
      ParamEffect p r c ⟨p', [.param (((p.n + size).toNat : Int) - size.toNat) data]⟩
  | strEnd {p' len} : p.pst.inString = true → StaysWith p p' → p'.pst = .next →
      roomNeeded p r c = 1 → p'.n = p.n + 1 →
      ParamEffect p r c
        ⟨p', [.param p.n.toNat [0], .param (stringIndex p r).toNat [len]]⟩
  | bstrEnd {p' len} : p.pst.inString = true → StaysWith p p' → p'.pst = .next → p'.n = p.n →
      ParamEffect p r c ⟨p', [.param (stringIndex p r).toNat [len]]⟩

theorem staysWith_of_eq {p p' : Parser} (hst : p.st = .params) (h1 : p'.st = p.st)
    (h2 : p'.pcounter = p.pcounter) : StaysWith p p' := ⟨Or.inl (h1.trans hst), h2⟩

theorem numberEnd_spec {p p' : Parser} {c : UInt8} (hst : p.st = .params)
    (hp : p.pst.inNumber = true) (h : numberEnd p c = some p') :
    StaysWith p p' ∧ p'.pst ≠ .start ∧ p'.pst.inString = false ∧ p'.n = p.n := by
  have hkeep : p.pst ≠ .start ∧ p.pst.inString = false := by
    constructor
    · intro hs
      rw [hs] at hp
      cases hp
    · cases hs : p.pst <;> rw [hs] at hp <;> first | rfl | cases hp
  unfold numberEnd at h
  split at h
  · obtain rfl := Option.some.inj h
    exact ⟨staysWith_of_eq hst rfl rfl, ParamSt.noConfusion, rfl, rfl⟩
  · split at h
    · obtain rfl := Option.some.inj h
      exact ⟨staysWith_of_eq hst rfl rfl, ParamSt.noConfusion, rfl, rfl⟩
    · split at h
      · obtain rfl := Option.some.inj h
        exact ⟨⟨Or.inr (Or.inl rfl), rfl⟩, hkeep.1, hkeep.2, rfl⟩
      · cases h

theorem lt_paramBufSize (n : UInt8) : ¬ n.toNat ≥ paramBufSize := Nat.not_le.mpr n.toNat_lt

theorem not_gt_paramBufSize (n : UInt8) : ¬ n.toNat > paramBufSize :=
  Nat.not_lt.mpr n.toNat_lt.le

/-- The test of an index of eight bits against 256 never fails. -/
theorem putByte_eq (p : Parser) (v : UInt8) :
    putByte p v = ⟨{ p with n := p.n + 1 }, [.param p.n.toNat [v]]⟩ := if_neg (lt_paramBufSize p.n)

theorem paramNumber_effect {p : Parser} {r : RpcResult} {c size : UInt8} {data : List UInt8}
    (hst : p.st = .params) (hp : p.pst.inNumber = true) (hlen : data.length = size.toNat)
    (hroom : (numberEnd p c).isSome = true → roomNeeded p r c = size.toNat + 1) :
    ParamEffect p r c (paramNumber p c size data) := by
  unfold paramNumber
  split
  · exact .fail rfl rfl rfl
  · next p' h =>
    obtain ⟨hstay, hne, hstr, -⟩ := numberEnd_spec hst hp h
    rw [if_neg (not_gt_paramBufSize _)]
    have hroom' : roomNeeded p r c = size.toNat + 1 := hroom (by rw [h]; rfl)
    exact .numberEnd hp ⟨hstay.st, hstay.pcounter⟩ hne hstr hlen hroom' rfl

theorem paramBeginQuoted_effect {p p' : Parser} {r : RpcResult} {c : UInt8}
    (hb : beginsValue p c = true) (hroom : c = chQuote → roomNeeded p r c = 1)
    (hst : p'.st = p.st) (hp' : p'.pst.inString = true) (hcount : p'.pcounter = p.pcounter + 1) :
    ParamEffect p r c (paramBeginQuoted p c p') := by
  unfold paramBeginQuoted
  split
  · next hc =>
    rw [if_neg (lt_paramBufSize p.n)]
    exact .string hb hst hp' (hroom hc) rfl hcount
  · exact .fail rfl rfl rfl

theorem paramBegin_effect {p : Parser} {r : RpcResult} {c patt : UInt8}
    (hb : beginsValue p c = true) (ht : r.paramType p.pcounter.toNat = some patt) :
    ParamEffect p r c (paramBegin p patt c) := by
  have hv : p.pst = .val := by
    simp only [beginsValue, Bool.and_eq_true, beq_iff_eq] at hb
    exact hb.1.1.1
  have hquote : patt = 0x73 ∨ patt = 0x42 → c = chQuote → roomNeeded p r c = 1 := by
    intro hpatt hc
    unfold roomNeeded
    rw [hv, ht]
    exact if_pos ⟨hb, hc, hpatt.imp (fun h => by rw [h]) fun h => by rw [h]⟩
  unfold paramBegin
  dsimp only
  split
  · split
    · exact .number hb rfl rfl (Or.inr rfl) rfl
    · exact .fail rfl rfl rfl
  · split
    · split
      · exact .number hb rfl rfl (Or.inr rfl) rfl
      · exact .fail rfl rfl rfl
    · split
      · split
        · exact .number hb rfl rfl (Or.inl rfl) rfl
        · exact .fail rfl rfl rfl
      · split
        · next hpatt =>
          exact paramBeginQuoted_effect hb (hquote (Or.inl hpatt)) rfl rfl rfl
        · split
          · next hpatt =>
            exact paramBeginQuoted_effect hb (hquote (Or.inr hpatt)) rfl rfl rfl
          · exact .fail rfl rfl rfl

theorem paramVal_effect {p : Parser} {r : RpcResult} {c : UInt8} {eff : Effect}
    (hv : p.pst = .val) (h : paramVal p r c = some eff) : ParamEffect p r c eff := by
  unfold paramVal at h
  split at h
  · obtain rfl := Option.some.inj h
    exact .fail rfl rfl rfl
  · next hlt =>
    split at h
    · obtain rfl := Option.some.inj h
      exact .blank (by rw [hv]; rfl)
    · next hsp =>
      split at h
      · obtain rfl := Option.some.inj h
        exact .leave hv (Nat.lt_of_not_le hlt) rfl rfl rfl
      · next hbr =>
        obtain ⟨patt, ht, rfl⟩ := Option.map_eq_some_iff.mp h
        have hb : beginsValue p c = true := by
          simp only [beginsValue, Bool.and_eq_true, beq_iff_eq, decide_eq_true_eq,
            Bool.not_eq_true']
          exact ⟨⟨⟨hv, Nat.lt_of_not_le hlt⟩, by simpa using hsp⟩, by simpa using hbr⟩
        exact paramBegin_effect hb ht

/-- One more digit, or the end of the number. -/
theorem number_effect {p p' : Parser} {r : RpcResult} {c size : UInt8} {data : List UInt8}
    {q : Prop} [Decidable q] (hst : p.st = .params) (hp : p.pst.inNumber = true)
    (hlen : data.length = size.toNat)
    (hroom : (numberEnd p c).isSome = true → roomNeeded p r c = size.toNat + 1)
    (h1 : p'.st = p.st) (h2 : p'.pst = p.pst) (h3 : p'.pcounter = p.pcounter) (h4 : p'.n = p.n) :
    ParamEffect p r c (if q then p'.keep else paramNumber p c size data) := by
  split
  · refine .quiet ?_ ?_ (staysWith_of_eq hst h1 h3) ?_ (by rw [h2]; exact id) h4
    · intro hs
      rw [hs] at hp
      cases hp
    · intro hs
      rw [hs] at hp
      cases hp
    · intro hs
      rw [h2.symm.trans hs] at hp
      cases hp
  · exact paramNumber_effect hst hp hlen hroom

theorem roomNeeded_int {p : Parser} {r : RpcResult} {c : UInt8} (hp : p.pst = .int)
    (h : (numberEnd p c).isSome = true) : roomNeeded p r c = 5 := by
  unfold roomNeeded
  rw [hp]
  exact if_pos h

theorem roomNeeded_uint {p : Parser} {r : RpcResult} {c : UInt8} (hp : p.pst = .uint)
    (h : (numberEnd p c).isSome = true) : roomNeeded p r c = 5 := by
  unfold roomNeeded
  rw [hp]
  exact if_pos h

theorem roomNeeded_byte {p : Parser} {r : RpcResult} {c : UInt8} (hp : p.pst = .byte)
    (h : (numberEnd p c).isSome = true) : roomNeeded p r c = 2 := by
  unfold roomNeeded
  rw [hp]
  exact if_pos h

theorem paramStr_effect {p : Parser} {r : RpcResult} {c : UInt8} (hst : p.st = .params)
    (hp : p.pst = .str) : ParamEffect p r c (paramStr p r c) := by
  have hin : p.pst.inString = true := by rw [hp]; rfl
  have hroom : c ≠ chBackslash → roomNeeded p r c = 1 := by
    intro hc
    unfold roomNeeded
    rw [hp]
    exact if_neg hc
  unfold paramStr
  split
  · next hc =>
    rw [if_neg (lt_paramBufSize p.n)]
    exact .strEnd hin (staysWith_of_eq hst rfl rfl) rfl (hroom (by rw [hc]; decide)) rfl
  · split
    · exact .quiet (by simp [hp]) (by simp [hp]) (staysWith_of_eq hst rfl rfl) ParamSt.noConfusion
        (fun _ => hin) rfl
    · next hc =>
      rw [putByte_eq]
      exact .byte hin (staysWith_of_eq hst rfl rfl) hin (hroom hc) rfl

theorem paramStrEscape_effect {p : Parser} {r : RpcResult} {c : UInt8} (hst : p.st = .params)
    (hp : p.pst = .strEscape) : ParamEffect p r c (paramStrEscape p c) := by
  have hin : p.pst.inString = true := by rw [hp]; rfl
  unfold paramStrEscape
  split
  · exact .quiet (by simp [hp]) (by simp [hp]) (staysWith_of_eq hst rfl rfl) ParamSt.noConfusion
      (fun _ => hin) rfl
  · next hx =>
    rw [if_neg (lt_paramBufSize p.n)]
    split
    · exact .fail rfl rfl rfl
    · next v hv =>
      rw [putByte_eq]
      refine .byte hin (staysWith_of_eq hst rfl rfl) rfl ?_ rfl
      unfold roomNeeded
      rw [hp]
      exact if_pos ⟨hx, by rw [hv]; rfl⟩

theorem paramStrEscapeHex_effect {p : Parser} {r : RpcResult} {c : UInt8} (hst : p.st = .params)
    (hp : p.pst = .strEscapeHex) : ParamEffect p r c (paramStrEscapeHex p c) := by
  have hin : p.pst.inString = true := by rw [hp]; rfl
  unfold paramStrEscapeHex
  split
  · next hx =>
    dsimp only
    split
    · next hs =>
      rw [putByte_eq]
      refine .byte hin (staysWith_of_eq hst rfl rfl) rfl ?_ rfl
      unfold roomNeeded
      rw [hp]
      exact if_pos ⟨hx, hs⟩
    · exact .quiet (by simp [hp]) (by simp [hp]) (staysWith_of_eq hst rfl rfl)
        (by simp [hp]) (fun _ => hin) rfl
  · exact .fail rfl rfl rfl

theorem paramBstr_effect {p : Parser} {r : RpcResult} {c : UInt8} (hst : p.st = .params)
    (hp : p.pst = .bstr) : ParamEffect p r c (paramBstr p r c) := by
  have hin : p.pst.inString = true := by rw [hp]; rfl
  have hquiet : ∀ {p' : Parser}, p'.st = p.st → p'.pst = p.pst → p'.pcounter = p.pcounter →
      p'.n = p.n → ParamEffect p r c ⟨p', []⟩ := fun h1 h2 h3 h4 =>
    .quiet (by simp [hp]) (by simp [hp]) (staysWith_of_eq hst h1 h3) (by simp [h2, hp])
      (fun _ => hin) h4
  unfold paramBstr
  split
  · split
    · exact .fail rfl rfl rfl
    · exact .bstrEnd hin (staysWith_of_eq hst rfl rfl) rfl rfl
  · next hq =>
    split
    · next hx =>
      split
      · exact hquiet rfl rfl rfl rfl
      · split
        · next hs =>
          rw [putByte_eq]
          refine .byte hin (staysWith_of_eq hst rfl rfl) hin ?_ rfl
          unfold roomNeeded
          rw [hp]
          exact if_pos ⟨hq, hx, hs⟩
        · exact hquiet rfl rfl rfl rfl
    · exact .fail rfl rfl rfl

/-- Every character of the parameters has one of the listed outcomes. -/
theorem putcharParams_effect {p : Parser} {r : RpcResult} {c : UInt8} {eff : Effect}
    (hst : p.st = .params) (h : putcharParams p r c = some eff) : ParamEffect p r c eff := by
  unfold putcharParams at h
  split at h
  · next hp =>
    split at h
    · obtain rfl := Option.some.inj h
      exact .enter hp (staysWith_of_eq hst rfl rfl) rfl rfl
    · split at h
      · obtain rfl := Option.some.inj h
        exact .blank (by rw [hp]; rfl)
      · obtain rfl := Option.some.inj h
        exact .fail rfl rfl rfl
  · next hp => exact paramVal_effect hp h
  · next hp =>
    exact Option.some.inj h ▸
      number_effect hst (by rw [hp]; rfl) rfl (roomNeeded_int hp) rfl rfl rfl rfl
  · next hp =>
    exact Option.some.inj h ▸
      number_effect hst (by rw [hp]; rfl) rfl (roomNeeded_uint hp) rfl rfl rfl rfl
  · next hp =>
    exact Option.some.inj h ▸
      number_effect hst (by rw [hp]; rfl) rfl (roomNeeded_byte hp) rfl rfl rfl rfl
  · next hp => exact Option.some.inj h ▸ paramStr_effect hst hp
  · next hp => exact Option.some.inj h ▸ paramStrEscape_effect hst hp
  · next hp => exact Option.some.inj h ▸ paramStrEscapeHex_effect hst hp
  · next hp => exact Option.some.inj h ▸ paramBstr_effect hst hp
  · next hp =>
    have hleave : ∀ {p' : Parser}, StaysWith p p' → p'.pst ≠ .start → p'.pst.inString = false →
        p'.n = p.n → ParamEffect p r c ⟨p', []⟩ := fun h1 h2 h3 h4 =>
      .quiet (by simp [hp]) (by simp [hp]) h1 h2 (by simp [h3]) h4
    have hnext : p.pst ≠ .start ∧ p.pst.inString = false := by
      rw [hp]
      exact ⟨ParamSt.noConfusion, rfl⟩
    split at h
    · obtain rfl := Option.some.inj h
      exact .blank hnext.2
    · split at h
      · obtain rfl := Option.some.inj h
        exact hleave (staysWith_of_eq hst rfl rfl) ParamSt.noConfusion rfl rfl
      · split at h
        · obtain rfl := Option.some.inj h
          exact hleave ⟨Or.inr (Or.inl rfl), rfl⟩ hnext.1 hnext.2 rfl
        · obtain rfl := Option.some.inj h
          exact .fail rfl rfl rfl

def ParserSt.awaitsValue : ParserSt → Bool
  | .nvSep => true
  | .val => true
  | .valStr => true
  | .valUint => true
  | _ => false

/-- The value of the member with this name comes next. -/
def Parser.expects (p : Parser) (name : NameId) : Bool := p.nameId == name && p.st.awaitsValue

theorem Parser.expects_of_idle {p : Parser} {name : NameId} (h : p.st.awaitsValue = false) :
    p.expects name = false := by
  rw [expects, h, Bool.and_false]

theorem Parser.expects_of_name {p : Parser} {name : NameId} (h : p.st.awaitsValue = true)
    (hn : p.nameId = name) : p.expects name = true := by
  rw [expects, h, hn, beq_self_eq_true, Bool.and_true]

/-- The character that ends a number outside of the parameters. -/
def endsUint (c : UInt8) : Bool := !isDigit c && strchr [chSpace, chComma, chRightBrace] c

inductive MemberEffect (p : Parser) (r : RpcResult) (c : UInt8) : Effect → Prop
  | silent {p'} : p'.st ≠ .params → p'.pcounter = p.pcounter → (p.st = .error → p'.st = .error) →
      (p'.expects .method = true → p.expects .method = true ∨ r.type = .unknown) →
      (p'.expects .params = true → p.expects .params = true ∨ p.pcounter = 0) →
      MemberEffect p r c ⟨p', []⟩
  | enter {p'} : p.expects .params = true → p'.st = .params → p'.pst = .start →
      p'.pcounter = p.pcounter → MemberEffect p r c ⟨p', []⟩
  | id {p' v} : p.st = .valUint → p.nameId = .id → endsUint c = true → p'.st ≠ .params →
      p'.st.awaitsValue = false → p'.pcounter = p.pcounter → MemberEffect p r c ⟨p', [.id v]⟩
  | method {p' d i} : p.expects .method = true → p'.st = .next → p'.pcounter = p.pcounter →
      MemberEffect p r c ⟨p', [.method d i]⟩
  | badMethod {p'} : p.expects .method = true → p'.st = .error → p'.pcounter = p.pcounter →
      MemberEffect p r c ⟨p', [.badMethod]⟩

section

variable {p p' : Parser} {r : RpcResult} {c : UInt8}

theorem MemberEffect.idle (hst : p'.st ≠ .params) (h : p'.st.awaitsValue = false)
    (hc : p'.pcounter = p.pcounter) (herr : p.st = .error → p'.st = .error) :
    MemberEffect p r c ⟨p', []⟩ := by
  refine .silent hst hc herr ?_ ?_
  · intro he
    rw [Parser.expects_of_idle h] at he
    cases he
  · intro he
    rw [Parser.expects_of_idle h] at he
    cases he

theorem MemberEffect.fail (hc : p'.pcounter = p.pcounter) : MemberEffect p r c p'.fail :=
  .idle ParserSt.noConfusion rfl hc fun _ => rfl

/-- Between the name and the end of its value. -/
theorem MemberEffect.stay (hst : p'.st ≠ .params) (h : p.st.awaitsValue = true)
    (hn : p'.nameId = p.nameId) (hc : p'.pcounter = p.pcounter) :
    MemberEffect p r c ⟨p', []⟩ := by
  have hkeep : ∀ name, p'.expects name = true → p.expects name = true := by
    intro name he
    simp only [Parser.expects, Bool.and_eq_true, beq_iff_eq] at he ⊢
    exact ⟨hn ▸ he.1, h⟩
  refine .silent hst hc ?_ (fun he => Or.inl (hkeep _ he)) fun he => Or.inl (hkeep _ he)
  intro hs
  rw [hs] at h
  cases h

end

theorem putNameStr_effect {p : Parser} {r : RpcResult} {c : UInt8} (hst : p.st = .nameStr) :
    MemberEffect p r c (putNameStr p r c) := by
  have herr : ∀ {q : Prop}, p.st = .error → q := fun hs => by rw [hst] at hs; cases hs
  unfold putNameStr
  split
  · dsimp only
    split
    · next hn =>
      split
      · exact .fail rfl
      · next ht =>
        refine .silent ParserSt.noConfusion rfl herr (fun _ => Or.inr (not_not.mp ht)) ?_
        intro he
        simp [Parser.expects, hn] at he
    · next hn =>
      split
      · exact .fail rfl
      · next hc =>
        refine .silent ParserSt.noConfusion rfl herr ?_ fun _ => Or.inr (not_not.mp hc)
        intro he
        simp [Parser.expects, hn] at he
    · next hm hp =>
      refine .silent ParserSt.noConfusion rfl herr ?_ ?_
      · intro he
        simp only [Parser.expects, Bool.and_eq_true, beq_iff_eq] at he
        exact absurd he.1 hm
      · intro he
        simp only [Parser.expects, Bool.and_eq_true, beq_iff_eq] at he
        exact absurd he.1 hp
  · unfold bufferChar
    dsimp only
    split
    · exact .fail rfl
    · exact .idle (by simp [hst]) (by simp [hst]; rfl) rfl herr

theorem putNvSep_effect {p : Parser} {r : RpcResult} {c : UInt8} (hst : p.st = .nvSep) :
    MemberEffect p r c (putNvSep p c) := by
  have hw : p.st.awaitsValue = true := by rw [hst]; rfl
  unfold putNvSep
  split
  · split
    · next hn => exact .enter (Parser.expects_of_name hw hn) rfl rfl rfl
    · exact .stay ParserSt.noConfusion hw rfl rfl
  · split
    · exact .stay (by simp [hst]) hw rfl rfl
    · exact .fail rfl

theorem putVal_effect {p : Parser} {r : RpcResult} {c : UInt8} (hst : p.st = .val) :
    MemberEffect p r c (putVal p c) := by
  have hw : p.st.awaitsValue = true := by rw [hst]; rfl
  unfold putVal
  split
  · exact .stay ParserSt.noConfusion hw rfl rfl
  · split
    · exact .stay (by simp [hst]) hw rfl rfl
    · split
      · exact .stay ParserSt.noConfusion hw rfl rfl
      · exact .fail rfl

theorem valTerminator2St_idle (c : UInt8) :
    valTerminator2St c ≠ .params ∧ (valTerminator2St c).awaitsValue = false := by
  unfold valTerminator2St
  split
  · decide
  · split
    · decide
    · split <;> decide

theorem putValUint_effect {p : Parser} {r : RpcResult} {c : UInt8} (hst : p.st = .valUint) :
    MemberEffect p r c (putValUint p c) := by
  have hw : p.st.awaitsValue = true := by rw [hst]; rfl
  obtain ⟨hne, hidle⟩ := valTerminator2St_idle c
  unfold putValUint
  split
  · exact .stay (by simp [hst]) hw rfl rfl
  · next hd =>
    split
    · next ht =>
      split
      · next hn =>
        have hend : endsUint c = true := by simp [endsUint, hd, ht]
        exact .id hst hn hend hne hidle rfl
      · exact .idle hne hidle rfl fun hs => by rw [hst] at hs; cases hs
      · exact .fail rfl
    · exact .fail rfl

theorem putValStr_effect {tbl : List JsonRpcClassDef} {p : Parser} {r : RpcResult} {c : UInt8}
    {eff : Effect} (hst : p.st = .valStr) (h : putValStr tbl p c = some eff) :
    MemberEffect p r c eff := by
  have hw : p.st.awaitsValue = true := by rw [hst]; rfl
  have hnext : MemberEffect p r c { p with st := .next }.keep :=
    .idle ParserSt.noConfusion rfl rfl fun hs => by rw [hst] at hs; cases hs
  unfold putValStr at h
  split at h
  · split at h
    · obtain rfl := Option.some.inj h
      split
      · exact hnext
      · exact .fail rfl
    · next hn =>
      obtain ⟨found, -, rfl⟩ := Option.map_eq_some_iff.mp h
      have he := Parser.expects_of_name hw hn
      split
      · exact .badMethod he rfl rfl
      · exact .method he rfl rfl
    · obtain rfl := Option.some.inj h
      exact hnext
    · obtain rfl := Option.some.inj h
      exact .fail rfl
  · obtain rfl := Option.some.inj h
    unfold bufferChar
    dsimp only
    split
    · exact .fail rfl
    · exact .stay (by simp [hst]) hw rfl rfl

/-- Every other character has one of the listed outcomes. -/
theorem putChar_effect {tbl : List JsonRpcClassDef} {p : Parser} {r : RpcResult} {c : UInt8}
    {eff : Effect} (hst : p.st ≠ .params) (h : putChar tbl p r c = some eff) :
    MemberEffect p r c eff := by
  unfold putChar at h
  have hidle : ∀ {p' : Parser}, p'.st ≠ .params → p'.st.awaitsValue = false →
      p'.pcounter = p.pcounter → p.st ≠ .error → MemberEffect p r c ⟨p', []⟩ :=
    fun h1 h2 h3 h4 => .idle h1 h2 h3 fun hs => absurd hs h4
  split at h
  · next hs => exact absurd hs hst
  · next hs =>
    obtain rfl := Option.some.inj h
    split
    · exact hidle ParserSt.noConfusion rfl rfl (by simp [hs])
    · split
      · exact hidle hst (by rw [hs]; rfl) rfl (by simp [hs])
      · exact .fail rfl
  · next hs =>
    obtain rfl := Option.some.inj h
    split
    · exact hidle ParserSt.noConfusion rfl rfl (by simp [hs])
    · split
      · exact hidle hst (by rw [hs]; rfl) rfl (by simp [hs])
      · exact .fail rfl
  · next hs => exact Option.some.inj h ▸ putNameStr_effect hs
  · next hs => exact Option.some.inj h ▸ putNvSep_effect hs
  · next hs => exact Option.some.inj h ▸ putVal_effect hs
  · next hs => exact Option.some.inj h ▸ putValUint_effect hs
  · next hs => exact putValStr_effect hs h
  · next hs =>
    obtain rfl := Option.some.inj h
    split
    · exact hidle ParserSt.noConfusion rfl rfl (by simp [hs])
    · split
      · exact hidle ParserSt.noConfusion rfl rfl (by simp [hs])
      · split
        · exact hidle hst (by rw [hs]; rfl) rfl (by simp [hs])
        · exact .fail rfl
  · exact Option.some.inj h ▸ .fail rfl
  · exact Option.some.inj h ▸ .fail rfl

end MiMic.Json
