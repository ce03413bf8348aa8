import MiMic.Http.UrlCalls
import MiMic.Http.UrlReader

/-!
# The items of a query

Two modules read the query of their URL a character at a time: a key up to an equals sign or the
end of the item, and then always a value up to the end of an item. An item without an equals sign
so takes the next item for its value.
-/
namespace MiMic.Http

/-- `NyLPC_TTextIdTbl_getMatchId`, with the id at the end of the table. -/
def getMatchId (str : List UInt8) (tbl : List (List UInt8 × UInt8)) (unknown : UInt8) : UInt8 :=
  ((tbl.find? fun e => e.1 == str).map Prod.snd).getD unknown

namespace UrlQuery

/-- An ampersand, or the terminator behind the URL. -/
def endsItem (c : UInt8) : Bool := c == 0 || c == chAmpersand

def endsKey (c : UInt8) : Bool := endsItem c || c == chEqual

def endsPath (c : UInt8) : Bool := c == 0 || c == chQuestion

/-- The items of a query. -/
def items (query : List UInt8) : List (List UInt8) := query.splitOnP endsItem

def keyOf (item : List UInt8) : List UInt8 := item.takeWhile (· != chEqual)

/-- What stands behind the equals sign. -/
def valueOf (item : List UInt8) : Option (List UInt8) :=
  match item.dropWhile (· != chEqual) with
  | [] => none
  | _ :: v => some v

/-- The path of what follows the root. -/
def pathOf (rest : List UInt8) : List UInt8 := rest.takeWhile fun c => !endsPath c

/-- The items behind the question mark. -/
def itemsOf (rest : List UInt8) : List (List UInt8) :=
  match rest.dropWhile fun c => !endsPath c with
  | [] => []
  | _ :: query => items query

/-- The value of the last item with a key, if it has one. -/
def lastItem (key : List UInt8) (its : List (List UInt8)) : Option (List UInt8) :=
  (its.reverse.find? fun it => keyOf it == key).bind valueOf

/-- Keys and values as the modules read them. -/
def pairs : List (List UInt8) → List (List UInt8 × Option (List UInt8))
  | [] => []
  | [it] => [(keyOf it, valueOf it)]
  | it :: next :: its =>
      match valueOf it with
      | some v => (keyOf it, some v) :: pairs (next :: its)
      | none => (it, some next) :: pairs its

theorem items_singleton {it : List UInt8} (h : ∀ c ∈ it, endsItem c = false) : items it = [it] :=
  List.splitOnP_eq_singleton h

theorem items_cons {it : List UInt8} (h : ∀ c ∈ it, endsItem c = false) {e : UInt8}
    (he : endsItem e = true) (rest : List UInt8) : items (it ++ e :: rest) = it :: items rest :=
  List.splitOnP_append_cons_of_forall_mem h e he rest

/-- A query is one item, or an item and a shorter query. -/
theorem query_cases (q : List UInt8) : (∀ c ∈ q, endsItem c = false) ∨
    ∃ it e rest, q = it ++ e :: rest ∧ (∀ c ∈ it, endsItem c = false) ∧ endsItem e = true := by
  have hfront : ∀ c ∈ q.takeWhile (fun c => !endsItem c), endsItem c = false := fun c hc => by
    simpa using List.mem_takeWhile_imp hc
  cases hrest : q.dropWhile fun c => !endsItem c with
  | nil =>
    refine Or.inl fun c hc => ?_
    rw [← List.takeWhile_append_dropWhile (p := fun c => !endsItem c) (l := q), hrest,
      List.append_nil] at hc
    exact hfront c hc
  | cons e rest =>
    refine Or.inr ⟨_, e, rest, ?_, hfront, ?_⟩
    · rw [← hrest, List.takeWhile_append_dropWhile]
    · have hhead := List.head?_dropWhile_not (fun c => !endsItem c) q
      rw [hrest] at hhead
      simpa using hhead

/-- The items of a query hold no character that ends one. -/
theorem endsItem_of_mem_items {q it : List UInt8} (h : it ∈ items q) : ∀ c ∈ it, endsItem c = false := by
  induction hn : q.length using Nat.strongRecOn generalizing q with
  | ind n ih =>
    subst hn
    obtain hq | ⟨front, e, rest, rfl, hfront, he⟩ := query_cases q
    · rw [items_singleton hq, List.mem_singleton] at h
      rwa [h]
    · rw [items_cons hfront he] at h
      rcases List.mem_cons.mp h with rfl | hrest
      · exact hfront
      · exact ih rest.length (by rw [List.length_append, List.length_cons]; omega) hrest rfl

theorem lastItem_of_tail {key it v : List UInt8} {its : List (List UInt8)}
    (h : lastItem key its = some v) : lastItem key (it :: its) = some v := by
  obtain ⟨it', hfind, hv⟩ := Option.bind_eq_some_iff.mp h
  rw [lastItem, List.reverse_cons, List.find?_append, hfind]
  exact hv

theorem lastItem_of_head {key it v : List UInt8} {its : List (List UInt8)}
    (h : ∀ it ∈ its, keyOf it ≠ key) (hkey : keyOf it = key) (hv : valueOf it = some v) :
    lastItem key (it :: its) = some v := by
  have hnone : its.reverse.find? (fun it => keyOf it == key) = none :=
    List.find?_eq_none.mpr fun it hit => by simpa using h it (List.mem_reverse.mp hit)
  rw [lastItem, List.reverse_cons, List.find?_append, hnone, Option.none_or,
    List.find?_cons_of_pos (by simpa using hkey)]
  exact hv

/-- An item has an equals sign, or it has no value. -/
theorem valueOf_spec (it : List UInt8) : (valueOf it = none ∧ chEqual ∉ it) ∨
    ∃ v, valueOf it = some v ∧ it = keyOf it ++ chEqual :: v := by
  unfold valueOf
  split
  · next hnil =>
    exact Or.inl ⟨rfl, fun hmem => absurd (List.dropWhile_eq_nil_iff.mp hnil chEqual hmem) (by decide)⟩
  · next c w hdrop =>
    have hhead := List.head?_dropWhile_not (· != chEqual) it
    rw [hdrop] at hhead
    have hc : c = chEqual := by simpa using hhead
    subst hc
    refine Or.inr ⟨w, rfl, ?_⟩
    rw [keyOf, ← hdrop, List.takeWhile_append_dropWhile]

theorem valueOf_none {it : List UInt8} : valueOf it = none ↔ chEqual ∉ it := by
  obtain ⟨hnone, hmem⟩ | ⟨v, hv, heq⟩ := valueOf_spec it
  · exact iff_of_true hnone hmem
  · refine iff_of_false (hv ▸ Option.some_ne_none v) fun hmem => hmem ?_
    rw [heq]
    exact List.mem_append_right _ List.mem_cons_self

theorem keyOf_of_valueOf {it v : List UInt8} (h : valueOf it = some v) :
    it = keyOf it ++ chEqual :: v := by
  obtain ⟨hnone, -⟩ | ⟨w, hw, heq⟩ := valueOf_spec it
  · rw [hnone] at h
    cases h
  · obtain rfl := Option.some.inj (hw.symm.trans h)
    exact heq

theorem keyOf_of_none {it : List UInt8} (h : valueOf it = none) : keyOf it = it := by
  have hno := valueOf_none.mp h
  rw [keyOf, List.takeWhile_eq_self_iff]
  exact fun c hc => bne_iff_ne.mpr fun heq => hno (heq ▸ hc)

/-- No character of a key ends it. -/
theorem endsKey_keyOf {it : List UInt8} (h : ∀ c ∈ it, endsItem c = false) :
    ∀ c ∈ keyOf it, endsKey c = false := by
  intro c hc
  have hne : (c != chEqual) = true := List.mem_takeWhile_imp (p := (· != chEqual)) hc
  rw [endsKey, h c ((List.takeWhile_prefix _).subset hc), Bool.false_or]
  simpa using hne

/-- An item without a value takes the next one. -/
theorem pairs_cons (it next : List UInt8) (its : List (List UInt8)) :
    (∀ v, valueOf it = some v → pairs (it :: next :: its) = (keyOf it, some v) :: pairs (next :: its)) ∧
      (valueOf it = none → pairs (it :: next :: its) = (it, some next) :: pairs its) := by
  rw [pairs]
  exact ⟨fun v h => by rw [h], fun h => by rw [h]⟩

theorem pairs_singleton (it : List UInt8) : pairs [it] = [(keyOf it, valueOf it)] := rfl

theorem pairs_value {it v : List UInt8} (h : valueOf it = some v) (its : List (List UInt8)) :
    pairs (it :: its) = (keyOf it, some v) :: pairs its := by
  cases its with
  | nil =>
    rw [pairs_singleton, h]
    rfl
  | cons next its => exact (pairs_cons it next its).1 v h

theorem pairs_bare {it : List UInt8} (h : valueOf it = none) (next : List UInt8)
    (its : List (List UInt8)) : pairs (it :: next :: its) = (it, some next) :: pairs its :=
  (pairs_cons it next its).2 h

theorem pairs_last {it : List UInt8} (h : valueOf it = none) : pairs [it] = [(it, none)] := by
  rw [pairs_singleton, h, keyOf_of_none h]

theorem endsPath_pathOf (rest : List UInt8) : ∀ c ∈ pathOf rest, endsPath c = false := fun c hc => by
  simpa using List.mem_takeWhile_imp (p := fun c => !endsPath c) hc

/-- What follows the root is a path alone, or a path and a query. -/
theorem rest_cases (rest : List UInt8) : (pathOf rest = rest ∧ itemsOf rest = []) ∨
    ∃ c query, endsPath c = true ∧ rest = pathOf rest ++ c :: query ∧ itemsOf rest = items query := by
  have hwhole := List.takeWhile_append_dropWhile (p := fun c => !endsPath c) (l := rest)
  unfold itemsOf
  cases hdrop : rest.dropWhile fun c => !endsPath c with
  | nil =>
    rw [hdrop, List.append_nil] at hwhole
    exact Or.inl ⟨hwhole, rfl⟩
  | cons c query =>
    rw [hdrop] at hwhole
    have hhead := List.head?_dropWhile_not (fun c => !endsPath c) rest
    rw [hdrop] at hhead
    exact Or.inr ⟨c, query, by simpa using hhead, hwhole.symm, rfl⟩

variable {σ α : Type} {f : σ → UInt8 → Bool × σ}

/-- The calls for a text come to a state that stands in a relation to a result, or are refused. -/
def Goes (f : σ → UInt8 → Bool × σ) (R : σ → α → Prop) (s : σ) (cs : List UInt8) : Option α → Prop
  | some a => ∃ s', runUrl f s cs = (true, s') ∧ R s' a
  | none => (runUrl f s cs).1 = false

theorem Goes.append {β : Type} {R : σ → α → Prop} {Q : σ → β → Prop} {s : σ} {cs ds : List UInt8}
    {o : Option α} {g : α → Option β} (h : Goes f R s cs o)
    (hg : ∀ a s', R s' a → Goes f Q s' ds (g a)) : Goes f Q s (cs ++ ds) (o.bind g) := by
  cases o with
  | none =>
    have hno : (runUrl f s cs).1 = false := h
    show (runUrl f s (cs ++ ds)).1 = false
    rw [runUrl_append, hno, if_neg Bool.false_ne_true]
    exact hno
  | some a =>
    obtain ⟨s', hrun, hR⟩ := h
    have hnext := hg a s' hR
    rw [Option.bind_some]
    cases hga : g a with
    | none =>
      rw [hga] at hnext
      show (runUrl f s (cs ++ ds)).1 = false
      rw [runUrl_append, hrun, if_pos rfl]
      exact hnext
    | some b =>
      rw [hga] at hnext
      obtain ⟨s'', hrun', hQ⟩ := hnext
      refine ⟨s'', ?_, hQ⟩
      rw [runUrl_append, hrun, if_pos rfl, hrun']

theorem Goes.mono {R Q : σ → α → Prop} {s : σ} {cs : List UInt8} {o : Option α}
    (h : Goes f R s cs o) (hRQ : ∀ s a, R s a → Q s a) : Goes f Q s cs o := by
  cases o with
  | none => exact h
  | some a =>
    obtain ⟨s', hrun, hR⟩ := h
    exact ⟨s', hrun, hRQ s' a hR⟩

theorem Goes.map {β : Type} {R : σ → α → Prop} {Q : σ → β → Prop} {s : σ} {cs : List UInt8}
    {o : Option α} (h : Goes f R s cs o) {g : α → β} (hRQ : ∀ s a, R s a → Q s (g a)) :
    Goes f Q s cs (o.map g) := by
  cases o with
  | none => exact h
  | some a =>
    obtain ⟨s', hrun, hR⟩ := h
    exact ⟨s', hrun, hRQ s' a hR⟩

/-- Calls that are accepted come to the result. -/
theorem Goes.of_accepted {R : σ → α → Prop} {s s' : σ} {cs : List UInt8} {o : Option α}
    (h : Goes f R s cs o) (hrun : runUrl f s cs = (true, s')) : ∃ a, o = some a ∧ R s' a := by
  cases o with
  | none =>
    have hno : (runUrl f s cs).1 = false := h
    rw [hrun] at hno
    cases hno
  | some a =>
    obtain ⟨s'', hrun', hR⟩ := h
    obtain rfl := (Prod.mk.inj (hrun'.symm.trans hrun)).2
    exact ⟨a, rfl, hR⟩

/-- One call. -/
theorem goes_call {R : σ → α → Prop} {s s' : σ} {a : α} {c : UInt8} (h : f s c = (true, s'))
    (hR : R s' a) : Goes f R s [c] (some a) := ⟨s', runUrl_cons h [], hR⟩

theorem goes_refused {R : σ → α → Prop} {s s' : σ} {c : UInt8} (h : f s c = (false, s'))
    (cs : List UInt8) : Goes f R s (c :: cs) none := by
  show (runUrl f s (c :: cs)).1 = false
  rw [runUrl_refused h]

theorem goes_cons {R : σ → α → Prop} {s s' : σ} {o : Option α} {c : UInt8} {cs : List UInt8}
    (h : f s c = (true, s')) (hgoes : Goes f R s' cs o) : Goes f R s (c :: cs) o := by
  cases o with
  | none =>
    show (runUrl f s (c :: cs)).1 = false
    rw [runUrl_cons h]
    exact hgoes
  | some a =>
    obtain ⟨s'', hrun, hR⟩ := hgoes
    exact ⟨s'', (runUrl_cons h cs).trans hrun, hR⟩

/-- A handler that reads one pair after the other reads a whole query. `R` holds in front of a
key, and `Q` at the end. -/
theorem goes_pairs {R Q : σ → α → Prop} {step : α → List UInt8 × Option (List UInt8) → Option α}
    (hRQ : ∀ s a, R s a → Q s a)
    (hvalue : ∀ s a k c v e, R s a → (∀ x ∈ k, endsKey x = false) → endsKey c = true →
      (∀ x ∈ v, endsItem x = false) → endsItem e = true →
      Goes f R s (k ++ c :: (v ++ [e])) (step a (k, some v)))
    (hbare : ∀ s a k, R s a → (∀ x ∈ k, endsKey x = false) →
      Goes f Q s (k ++ [0]) (step a (k, none)))
    {s : σ} {a : α} (h : R s a) (q : List UInt8) :
    Goes f Q s (q ++ [0]) ((pairs (items q)).foldlM step a) := by
  induction hn : q.length using Nat.strongRecOn generalizing q s a with
  | ind n ih =>
    subst hn
    have hkey : ∀ {it : List UInt8}, valueOf it = none → (∀ c ∈ it, endsItem c = false) →
        ∀ c ∈ it, endsKey c = false := by
      intro it hnone hit
      have hkeys := endsKey_keyOf hit
      rwa [keyOf_of_none hnone] at hkeys
    have hpair : ∀ {it v : List UInt8} {e : UInt8}, valueOf it = some v →
        (∀ c ∈ it, endsItem c = false) → endsItem e = true →
        Goes f R s (it ++ [e]) (step a (keyOf it, some v)) := by
      intro it v e hv hit he
      have hsplit := keyOf_of_valueOf hv
      have hmem : ∀ x ∈ v, endsItem x = false := fun x hx =>
        hit x (by rw [hsplit]; exact List.mem_append_right _ (List.mem_cons_of_mem _ hx))
      have hgoes := hvalue s a (keyOf it) chEqual v e h (endsKey_keyOf hit) rfl hmem he
      rwa [← List.cons_append, ← List.append_assoc, ← hsplit] at hgoes
    obtain hit | ⟨it, e, rest, rfl, hit, he⟩ := query_cases q
    · rw [items_singleton hit]
      cases hv : valueOf q with
      | none =>
        rw [pairs_last hv, List.foldlM_cons]
        simp only [List.foldlM_nil, Option.pure_def, Option.bind_eq_bind, Option.bind_fun_some]
        exact hbare s a q h (hkey hv hit)
      | some v =>
        rw [pairs_value hv, List.foldlM_cons]
        simp only [pairs, List.foldlM_nil, Option.pure_def, Option.bind_eq_bind, Option.bind_fun_some]
        exact (hpair hv hit rfl).mono hRQ
    · rw [items_cons hit he]
      have hlen : (it ++ e :: rest).length = it.length + (rest.length + 1) := by
        rw [List.length_append, List.length_cons]
      cases hv : valueOf it with
      | some v =>
        have hsplit : it ++ e :: rest ++ [0] = (it ++ [e]) ++ (rest ++ [0]) := by simp
        rw [pairs_value hv, List.foldlM_cons, hsplit]
        exact (hpair hv hit he).append fun a' s' h' => ih rest.length (by omega) h' rest rfl
      | none =>
        -- the next item is the value
        have hends : endsKey e = true := by rw [endsKey, he, Bool.true_or]
        obtain hnext | ⟨next, e', rest', rfl, hnext, he'⟩ := query_cases rest
        · rw [items_singleton hnext, pairs_bare hv, List.foldlM_cons, List.append_assoc]
          simp only [pairs, List.foldlM_nil, Option.pure_def, Option.bind_eq_bind, Option.bind_fun_some]
          exact (hvalue s a it e rest 0 h (hkey hv hit) hends hnext rfl).mono hRQ
        · have hsplit : it ++ e :: (next ++ e' :: rest') ++ [0] =
              (it ++ e :: (next ++ [e'])) ++ (rest' ++ [0]) := by simp
          rw [items_cons hnext he', pairs_bare hv, List.foldlM_cons, hsplit]
          have hlen' : (next ++ e' :: rest').length = next.length + (rest'.length + 1) := by
            rw [List.length_append, List.length_cons]
          exact (hvalue s a it e next e' h (hkey hv hit) hends hnext he').append fun a' s' h' =>
            ih rest'.length (by omega) h' rest' rfl

end UrlQuery

end MiMic.Http

namespace MiMic.CStr

open Http

/-- The text that the next characters are put behind; of an empty one the old bytes are left. -/
structure Shows (t : CStr) (n : Nat) (x : List UInt8) : Prop where
  size : t.s = n
  length : t.l = x.length
  fits : x.length ≤ n
  front : t.buf.take t.l = x
  whole : x ≠ [] → t.buf = x

variable {t : CStr} {n : Nat} {x : List UInt8}

theorem shows_ofSize (n : Nat) : (ofSize (n + 1)).Shows n [] :=
  ⟨rfl, rfl, Nat.zero_le n, rfl, fun h => absurd rfl h⟩

theorem Shows.clear (h : t.Shows n x) : t.clear.Shows n [] :=
  ⟨h.size, rfl, Nat.zero_le n, rfl, fun h => absurd rfl h⟩

theorem Shows.put (h : t.Shows n x) (c : UInt8) :
    (n ≤ x.length ∧ t.put c = none) ∨
      x.length < n ∧ ∃ t', t.put c = some t' ∧ t'.Shows n (x ++ [c]) := by
  have hlen := h.length
  have hsize := h.size
  by_cases hfull : n ≤ x.length
  · refine Or.inl ⟨hfull, ?_⟩
    rw [CStr.put, if_neg (by omega)]
  · have hnext : t.l + 1 = (x ++ [c]).length := by
      rw [hlen, List.length_append, List.length_singleton]
    have hput : t.put c = some { t with buf := x ++ [c], l := t.l + 1 } := by
      rw [CStr.put, if_pos (by omega), h.front]
    refine Or.inr ⟨by omega, _, hput, hsize, hnext, by omega, ?_, fun _ => rfl⟩
    exact List.take_of_length_le (le_of_eq hnext.symm)

theorem Shows.str_eq (h : t.Shows n x) (hne : x ≠ []) : t.str = cString x := by
  rw [CStr.str, h.whole hne]

/-- A handler that puts its characters puts a whole text. -/
theorem Shows.run {σ : Type} {f : σ → UInt8 → Bool × σ} (set : CStr → σ) {P : UInt8 → Prop}
    (hf : ∀ t c, P c → f (set t) c =
      match t.put c with
      | none => (false, set t)
      | some t' => (true, set t'))
    (h : t.Shows n x) (k : List UInt8) (hk : ∀ c ∈ k, P c) :
    (n < x.length + k.length ∧ (runUrl f (set t) k).1 = false) ∨
      x.length + k.length ≤ n ∧ ∃ t', runUrl f (set t) k = (true, set t') ∧ t'.Shows n (x ++ k) ∧
        (k = [] → t' = t) := by
  induction k generalizing t x with
  | nil => exact Or.inr ⟨h.fits, t, rfl, by rwa [List.append_nil], fun _ => rfl⟩
  | cons c k ih =>
    have hcall := hf t c (hk c List.mem_cons_self)
    obtain ⟨hfull, hput⟩ | ⟨hlt, t', hput, ht'⟩ := h.put c
    · rw [hput] at hcall
      exact Or.inl ⟨by rw [List.length_cons]; omega, by rw [runUrl_refused hcall]⟩
    · rw [hput] at hcall
      rw [runUrl_cons hcall, List.length_cons]
      obtain ⟨hlong, hrun⟩ | ⟨hfits, t'', hrun, ht'', -⟩ :=
        ih ht' fun d hd => hk d (List.mem_cons_of_mem _ hd)
      · refine Or.inl ⟨?_, hrun⟩
        rw [List.length_append, List.length_singleton] at hlong
        omega
      · rw [List.append_assoc, List.singleton_append] at ht''
        rw [List.length_append, List.length_singleton] at hfits
        exact Or.inr ⟨by omega, t'', hrun, ht'', fun hnil => nomatch hnil⟩

/-- What the handler comes to behind a text. -/
theorem Shows.goes {σ α : Type} {f : σ → UInt8 → Bool × σ} (set : CStr → σ) {P : UInt8 → Prop}
    (hf : ∀ t c, P c → f (set t) c =
      match t.put c with
      | none => (false, set t)
      | some t' => (true, set t'))
    (h : t.Shows n x) {k : List UInt8} (hk : ∀ c ∈ k, P c) {R : σ → α → Prop} {ds : List UInt8}
    {o : Option α} (hlong : n < x.length + k.length → o = none)
    (hend : x.length + k.length ≤ n → ∀ t', t'.Shows n (x ++ k) → (k = [] → t' = t) →
      UrlQuery.Goes f R (set t') ds o) : UrlQuery.Goes f R (set t) (k ++ ds) o := by
  obtain ⟨hfull, hrun⟩ | ⟨hfits, t', hrun, ht', hnil⟩ := h.run set hf k hk
  · rw [hlong hfull]
    show (runUrl f (set t) (k ++ ds)).1 = false
    rw [runUrl_append, hrun, if_neg Bool.false_ne_true, hrun]
  · have hfirst : UrlQuery.Goes f (fun s _ => s = set t') (set t) k (some ()) := ⟨_, hrun, rfl⟩
    exact hfirst.append (g := fun _ => o) fun _ s hs => hs ▸ hend hfits t' ht' hnil

end MiMic.CStr
