import MiMic.Fat.FileRead

/-!
# Files that grow

A position behind the last cluster of a file gets a cluster that was free. The volume stays in order,
and so does whatever else is read.
-/
namespace MiMic.Fat

open Verif Verif.Prog Verif.WriteBack

/-- A volume in order, on a card that works: no entry is damaged, and the count of the free clusters,
where it is kept, is right. -/
structure Fs.Good (v : Volume) (fs : Fs) : Prop where
  ok : fs.Ok v
  healthy : Healthy fs
  sound : ∀ c, v.Cluster c → v.entry fs.view c ≠ 1
  count : fs.freeClust = unknownCount ∨ fs.freeClust = (v.freeSet fs.view).card

/-- A file whose clusters were `cl` has got `cl'`. Its sectors may have new contents, and nothing else
that is read has changed. -/
structure Rewrites (v : Volume) (cl cl' : List Nat) (fs fs' : Fs) : Prop where
  good : fs'.Good v
  chain : FileChain v fs'.view cl'
  fresh : ∀ c ∈ cl', c ∈ cl ∨ v.entry fs.view c = 0
  entries : ∀ d, v.Cluster d → d ∉ cl → d ∉ cl' → v.entry fs'.view d = v.entry fs.view d
  other : ∀ s, v.Primary s → v.fatbase + v.fsize ≤ s → s < v.database ∨ clusterOf v s ∉ cl' →
    fs'.view s = fs.view s
  later : Later fs.disk fs'.disk

variable {v : Volume} {fs fs' fs'' : Fs} {fp : Fil} {cl cl' cl'' : List Nat} {wbuff : Bytes} {bw btw sect : Nat}

theorem Still.freeSet (h : Still v fs fs') : v.freeSet fs'.view = v.freeSet fs.view := by
  ext c
  rw [Volume.mem_freeSet, Volume.mem_freeSet]
  exact and_congr_right fun hc => by rw [h.entry hc.2]

theorem Fs.Good.still (h : fs.Good v) (hs : Still v fs fs') : fs'.Good v where
  ok := hs.ok
  healthy := h.healthy.later hs.later
  sound c hc := by
    rw [hs.entry hc.2]
    exact h.sound c hc
  count := by
    rw [hs.freeClust, hs.freeSet]
    exact h.count

theorem Rewrites.of_still (h : fs.Good v) (hc : FileChain v fs.view cl) (hs : Still v fs fs') :
    Rewrites v cl cl fs fs' :=
  ⟨h.still hs, hc.still hs, fun _ => Or.inl, fun _ hd _ _ => hs.entry hd.2, fun s hp _ _ => hs.view s hp, hs.later⟩

theorem Rewrites.trans (h : Rewrites v cl cl' fs fs') (h' : Rewrites v cl' cl'' fs' fs'') (hsub : cl' ⊆ cl'') :
    Rewrites v cl cl'' fs fs'' where
  good := h'.good
  chain := h'.chain
  fresh c hc := by
    by_cases hin : c ∈ cl ∨ c ∈ cl'
    · rcases hin with hin | hin
      · exact Or.inl hin
      · exact h.fresh c hin
    · obtain ⟨hcl, hcl'⟩ := not_or.mp hin
      refine Or.inr ?_
      rw [← h.entries c (h'.chain.cluster c hc) hcl hcl']
      exact (h'.fresh c hc).resolve_left hcl'
  entries d hd hcl hcl'' :=
    (h'.entries d hd (fun hc => hcl'' (hsub hc)) hcl'').trans (h.entries d hd hcl fun hc => hcl'' (hsub hc))
  other s hs hlo hout :=
    (h'.other s hs hlo hout).trans (h.other s hs hlo (hout.imp_right fun hc hm => hc (hsub hm)))
  later := h.later.trans h'.later

/-- The clusters a fresh one leaves free. -/
theorem Created.freeSet_erase {c clst : Nat} (hedit : Edits v {c, clst} fs fs')
    (hfull : v.nFatent ≤ v.entry fs'.view c) (hclst : clst = 0 ∨ v.entry fs.view clst ≠ 0 ∧ v.entry fs'.view clst ≠ 0) :
    v.freeSet fs'.view = (v.freeSet fs.view).erase c := by
  have htwo := v.two_lt
  ext d
  rw [Finset.mem_erase, Volume.mem_freeSet, Volume.mem_freeSet]
  by_cases hd : d = c
  · refine iff_of_false (fun hm => ?_) fun hm => hm.1 hd
    rw [hd] at hm
    omega
  · by_cases hd' : d = clst
    · rcases hclst with h0 | hused
      · refine iff_of_false (fun hm => ?_) fun hm => ?_
        · have hlo := hm.1.1
          omega
        · have hlo := hm.2.1.1
          omega
      · rw [hd']
        exact iff_of_false (fun hm => hused.2 hm.2) fun hm => hused.1 hm.2.2
    · constructor
      · intro hm
        refine ⟨hd, hm.1, ?_⟩
        rw [← hedit.entries d hm.1.2 fun hin => hin.elim hd hd']
        exact hm.2
      · intro hm
        refine ⟨hm.2.1, ?_⟩
        rw [hedit.entries d hm.2.1.2 fun hin => hin.elim hd hd']
        exact hm.2.2

theorem Volume.freeSet_card_lt (view : Nat → Bytes) : (v.freeSet view).card < 268435456 := by
  have hle := Finset.card_filter_le (Finset.Ico 2 v.nFatent) fun c => v.entry view c = 0
  have htwo := v.two_lt
  have hmax : v.nFatent - 1 < 268435456 := Volume.cluster_lt (v := v) (by omega)
  rw [Nat.card_Ico] at hle
  rw [Volume.freeSet]
  omega

/-- The volume stays in order when a free cluster is taken. -/
theorem Fs.Good.fresh {c clst : Nat} (h : fs.Good v) (hc : v.Cluster c) (hfree : v.entry fs.view c = 0)
    (hedit : Edits v {c, clst} fs fs') (hfull : v.nFatent ≤ v.entry fs'.view c)
    (hlink : clst ≠ 0 → v.entry fs'.view clst = c) (hclst : clst = 0 ∨ v.Cluster clst ∧ v.entry fs.view clst ≠ 0)
    (hcount : fs'.freeClust = taken fs.freeClust) : fs'.Good v where
  ok := hedit.ok
  healthy := h.healthy.later hedit.later
  sound d hd := by
    have htwo := v.two_lt
    by_cases hdc : d = c
    · rw [hdc]
      omega
    · by_cases hdl : d = clst
      · have hlo := hd.1
        have hlo' := hc.1
        rw [hdl, hlink (by omega)]
        omega
      · rw [hedit.entries d hd.2 fun hin => hin.elim hdc hdl]
        exact h.sound d hd
  count := by
    rw [hcount, taken]
    by_cases hu : fs.freeClust = unknownCount
    · rw [if_pos hu]
      exact Or.inl hu
    · have hcard := h.count.resolve_left hu
      have hmem : c ∈ v.freeSet fs.view := Volume.mem_freeSet.mpr ⟨hc, hfree⟩
      have hpos := Finset.card_pos.mpr ⟨c, hmem⟩
      have hmax := Volume.freeSet_card_lt (v := v) fs.view
      have hlo := hc.1
      rw [if_neg hu, Created.freeSet_erase hedit hfull (hclst.imp_right fun hcl => ⟨hcl.2, ?_⟩),
        Finset.card_erase_of_mem hmem]
      · omega
      · have hlo' := hcl.1.1
        rw [hlink (by omega)]
        omega

theorem Rewrites.grow {c clst : Nat} (h : fs.Good v) (hchain : FileChain v fs.view cl) (hc : v.Cluster c)
    (hfree : v.entry fs.view c = 0) (hedit : Edits v {c, clst} fs fs') (hfull : v.nFatent ≤ v.entry fs'.view c)
    (hlink : clst ≠ 0 → v.entry fs'.view clst = c) (hend : cl = [] ∧ clst = 0 ∨ ∃ l, cl = l ++ [clst])
    (hcount : fs'.freeClust = taken fs.freeClust) : Rewrites v cl (cl ++ [c]) fs fs' where
  good := by
    refine h.fresh hc hfree hedit hfull hlink ?_ hcount
    rcases hend with ⟨-, h0⟩ | ⟨l, rfl⟩
    · exact Or.inl h0
    · exact Or.inr ⟨hchain.cluster clst (by simp), hchain.entry_ne_zero (by simp)⟩
  chain := hchain.grow hc hfree hedit hfull hlink hend
  fresh d hd := by
    rcases List.mem_append.mp hd with hd | hd
    · exact Or.inl hd
    · obtain rfl := List.mem_singleton.mp hd
      exact Or.inr hfree
  entries d hd hcl hcl' := by
    refine hedit.entries d hd.2 fun hin => ?_
    rcases hin with he | he
    · exact hcl' (by simp [he])
    · rcases hend with ⟨-, h0⟩ | ⟨l, rfl⟩
      · have hlo := hd.1
        have he' : d = clst := he
        omega
      · exact hcl (by simp [Set.mem_singleton_iff.mp he])
  other s hs hlo _ := hedit.other s hs hlo
  later := hedit.later

/-- No cluster is free. -/
def Volume.Full (v : Volume) (view : Nat → Bytes) : Prop := ∀ c, v.Cluster c → v.entry view c ≠ 0

theorem Volume.Full.still (h : v.Full fs.view) (hs : Still v fs fs') : v.Full fs'.view := fun c hc => by
  rw [hs.entry hc.2]
  exact h c hc

/-- On a card that works, what follows a cluster that is not the last of its chain is the next one. -/
theorem createChain_followed {clst : Nat} (h : fs.Ok v) (hh : Healthy fs) (hcl : v.Cluster clst)
    (hnext : v.Cluster (v.entry fs.view clst)) : wp (createChain v clst)
    (fun r fs' => Still v fs fs' ∧ r = v.entry fs.view clst) (fun _ _ => False) fs := by
  have hlo := hcl.1
  rw [createChain, if_neg (by omega), wp_bind]
  refine (getFat_fine h hh hcl).mono (fun r fs' hr => ?_) fun _ _ => id
  obtain ⟨hstill, rfl⟩ := hr
  rw [if_neg (Nat.not_lt.mpr hnext.1), if_pos hnext.2, wp_pure]
  exact ⟨hstill, rfl⟩

/-- A chain is made longer where there is a free cluster, on a volume in order. -/
theorem createChain_fresh {clst : Nat} (h : fs.Good v) (hchain : FileChain v fs.view cl)
    (hend : cl = [] ∧ clst = 0 ∨ ∃ l, cl = l ++ [clst]) : wp (createChain v clst)
    (fun r fs' => r = 0 ∧ Still v fs fs' ∧ v.Full fs.view ∨
      v.Cluster r ∧ Rewrites v cl (cl ++ [r]) fs fs' ∧
        ∀ s, v.Primary s → v.fatbase + v.fsize ≤ s → fs'.view s = fs.view s) (fun _ _ => False) fs := by
  have hlast : clst ≠ 0 → v.nFatent ≤ v.entry fs.view clst := by
    intro h0
    rcases hend with ⟨-, hzero⟩ | ⟨l, rfl⟩
    · exact absurd hzero h0
    · exact Volume.link_last.mp (hchain.chain.last clst (by simp))
  have hclst : clst = 0 ∨ v.Cluster clst ∧ v.entry fs.view clst ≠ 0 := by
    rcases hend with ⟨-, hzero⟩ | ⟨l, rfl⟩
    · exact Or.inl hzero
    · exact Or.inr ⟨hchain.cluster clst (by simp), hchain.entry_ne_zero (by simp)⟩
  refine (createChain_spec h.ok hclst).mono (fun r fs' hr => ?_) fun _ _ => id
  cases hr with
  | full hstill hall => exact Or.inl ⟨rfl, hstill, hall⟩
  | followed hstill h0 hc hentry =>
    have hlt := hlast h0
    have hhi := hc.2
    omega
  | fresh hc hfree hedit hfull hlink _ _ hcount =>
    exact Or.inr ⟨hc, .grow h hchain hc hfree hedit hfull hlink hend hcount, hedit.other⟩
  | damaged hstill hc hone => exact absurd hone (h.sound _ hc)
  | failed hc hfree hedit hf => exact absurd hf h.healthy.not_failed
  | unread hstill hf => exact absurd hf h.healthy.not_failed

/-- A file has got clusters behind its last one, and no sector has new contents. -/
structure Grows (v : Volume) (cl cl' : List Nat) (fs fs' : Fs) : Prop where
  grown : Rewrites v cl cl' fs fs'
  same : ∀ k, v.Primary k → v.fatbase + v.fsize ≤ k → fs'.view k = fs.view k
  longer : cl <+: cl'

theorem Grows.of_still (h : fs.Good v) (hc : FileChain v fs.view cl) (hs : Still v fs fs') : Grows v cl cl fs fs' :=
  ⟨.of_still h hc hs, fun k hk _ => hs.view k hk, List.prefix_rfl⟩

theorem Grows.trans (h : Grows v cl cl' fs fs') (h' : Grows v cl' cl'' fs' fs'') : Grows v cl cl'' fs fs'' where
  grown := h.grown.trans h'.grown h'.longer.subset
  same k hk hlo := (h'.same k hk hlo).trans (h.same k hk hlo)
  longer := h.longer.trans h'.longer

theorem Grows.head (h : Grows v cl cl' fs fs') (hne : cl ≠ []) : cl.headD 0 = cl'.headD 0 := by
  obtain ⟨r, rfl⟩ := h.longer
  cases cl with
  | nil => exact absurd rfl hne
  | cons c l => rfl

/-- The cluster behind one of a file, a fresh one behind the last. -/
theorem createChain_at {i clst : Nat} (h : fs.Good v) (hchain : FileChain v fs.view cl) (hc : cl[i]? = some clst) :
    wp (createChain v clst) (fun r fs' => r = 0 ∧ i + 1 = cl.length ∧ Still v fs fs' ∧ v.Full fs.view ∨
      v.Cluster r ∧ ∃ cl', Grows v cl cl' fs fs' ∧ cl'[i + 1]? = some r) (fun _ _ => False) fs := by
  obtain ⟨hi, rfl⟩ := List.getElem?_eq_some_iff.mp hc
  have hclust := hchain.cluster _ (List.getElem_mem hi)
  by_cases hlt : i + 1 < cl.length
  · obtain ⟨hentry, -, -⟩ := Volume.link_next.mp (hchain.chain.next_getElem hlt)
    have hcluster := hchain.cluster _ (List.getElem_mem hlt)
    refine (createChain_followed h.ok h.healthy hclust (hentry ▸ hcluster)).mono (fun r fs' hr => ?_) fun _ _ => id
    obtain ⟨hstill, rfl⟩ := hr
    rw [hentry]
    exact Or.inr ⟨hcluster, cl, .of_still h hchain hstill, List.getElem?_eq_getElem hlt⟩
  · have hlast : i + 1 = cl.length := by omega
    have hsplit : cl = cl.take i ++ [cl[i]] := by
      rw [List.take_append_getElem hi, hlast, List.take_length]
    refine (createChain_fresh h hchain (Or.inr ⟨cl.take i, hsplit⟩)).mono (fun r fs' hr => ?_) fun _ _ => id
    rcases hr with ⟨rfl, hstill, hall⟩ | ⟨hcluster, hgrown, hsame⟩
    · exact Or.inl ⟨rfl, hlast, hstill, hall⟩
    · refine Or.inr ⟨hcluster, cl ++ [r], ⟨hgrown, hsame, List.prefix_append ..⟩, ?_⟩
      rw [hlast]
      exact List.getElem?_concat_length

theorem tiny_good : (tinyFs fun _ => false).Good tinyVolume where
  ok := tiny_ok _
  healthy _ := rfl
  sound c hc := by
    rw [tiny_entry _ hc]
    exact Nat.zero_ne_one
  count := Or.inl rfl

end MiMic.Fat
