import MiMic.Fat.Entry
import MiMic.Lib.Chains
import Mathlib.Data.Finset.Card
import Mathlib.Order.Interval.Finset.Nat

/-!
# Chains of clusters

A file owns a chain of clusters that the table links. `create_chain` looks for a free cluster from
the last one on, around the table, and links it; `remove_chain` frees a chain link by link.
-/
namespace MiMic.Fat

open Verif Verif.Prog

/-- `FSInfo` keeps no count. -/
abbrev unknownCount : Nat := 0xffffffff

/-- The loop of `remove_chain`, at most `fuel` times round. -/
def removeLoop (v : Volume) : Nat → Nat → FatM Unit
  | 0, _ => return
  | fuel + 1, clst =>
    if v.nFatent ≤ clst then return
    else do
      let nxt ← getFat v clst
      if nxt = 0 then return
      else if nxt = 1 then throw .intErr
      else if nxt = 0xffffffff then throw .diskErr
      else do
        putFat v clst 0
        modify fun fs =>
          if fs.freeClust = unknownCount then fs
          else { fs with freeClust := (fs.freeClust + 1) % 2 ^ 32, fsiFlag := true }
        removeLoop v fuel nxt

/-- Every turn but the last frees a cluster, so that there are as many as clusters at most. -/
def removeChain (v : Volume) (clst : Nat) : FatM Unit :=
  if clst < 2 ∨ v.nFatent ≤ clst then throw .intErr
  else removeLoop v v.nFatent clst

/-- The search of `create_chain`: the free cluster that is found, or what the function returns. -/
def scanFree (v : Volume) (scl : Nat) : Nat → Nat → FatM (Except Nat Nat)
  | 0, _ => return .error 0
  | fuel + 1, ncl =>
    let next := if v.nFatent ≤ ncl + 1 then 2 else ncl + 1
    if v.nFatent ≤ ncl + 1 ∧ scl < 2 then return .error 0
    else do
      let cs ← getFat v next
      if cs = 0 then return .ok next
      else if cs = 0xffffffff ∨ cs = 1 then return .error cs
      else if next = scl then return .error 0
      else scanFree v scl fuel next

/-- The cluster that was found becomes the last of the chain of `clst`. -/
def linkCluster (v : Volume) (clst ncl : Nat) : FatM Nat := do
  let res ← attempt (do
    putFat v ncl 0x0fffffff
    if clst = 0 then return
    else putFat v clst ncl)
  match res with
  | .ok _ => do
    modify fun fs => { fs with lastClust := ncl }
    modify fun fs =>
      if fs.freeClust = unknownCount then fs
      else { fs with freeClust := (fs.freeClust + (2 ^ 32 - 1)) % 2 ^ 32, fsiFlag := true }
    return ncl
  | .error e => return if e = .diskErr then 0xffffffff else 1

def allocate (v : Volume) (clst scl : Nat) : FatM Nat := do
  let found ← scanFree v scl v.nFatent scl
  match found with
  | .ok ncl => linkCluster v clst ncl
  | .error r => return r

/-- 0: no cluster is free, 1: the table is damaged, `0xFFFFFFFF`: a command failed, else the cluster
behind `clst`. The entry of `clst` is not checked for a failed read. -/
def createChain (v : Volume) (clst : Nat) : FatM Nat :=
  if clst = 0 then do
    let fs ← get
    allocate v clst (if fs.lastClust = 0 ∨ v.nFatent ≤ fs.lastClust then 1 else fs.lastClust)
  else do
    let cs ← getFat v clst
    if cs < 2 then return 1
    else if cs < v.nFatent then return cs
    else allocate v clst clst

namespace Volume

variable (v : Volume)

/-- A number that may be a cluster of a file. -/
def Cluster (c : Nat) : Prop := 2 ≤ c ∧ c < v.nFatent

instance (c : Nat) : Decidable (v.Cluster c) := inferInstanceAs (Decidable (_ ∧ _))

def link (view : Nat → Bytes) (c : Nat) : Link Nat :=
  if v.entry view c = 0 then .free else if v.entry view c < v.nFatent then .next (v.entry view c) else .last

/-- The clusters that are free. -/
def freeSet (view : Nat → Bytes) : Finset Nat := (Finset.Ico 2 v.nFatent).filter fun c => v.entry view c = 0

end Volume

variable {v : Volume} {fs fs' fs'' : Fs} {clst : Nat}

theorem Volume.link_free {view : Nat → Bytes} {c : Nat} : v.link view c = .free ↔ v.entry view c = 0 := by
  rw [Volume.link]
  by_cases h : v.entry view c = 0
  · rw [if_pos h]
    exact iff_of_true rfl h
  · rw [if_neg h]
    refine iff_of_false (fun hc => ?_) h
    split at hc <;> cases hc

theorem Volume.link_next {view : Nat → Bytes} {c d : Nat} :
    v.link view c = .next d ↔ v.entry view c = d ∧ d ≠ 0 ∧ d < v.nFatent := by
  rw [Volume.link]
  by_cases h : v.entry view c = 0
  · rw [if_pos h]
    refine iff_of_false (fun hc => by cases hc) fun hc => hc.2.1 (hc.1.symm.trans h)
  · rw [if_neg h]
    by_cases hlt : v.entry view c < v.nFatent
    · rw [if_pos hlt, Link.next.injEq]
      constructor
      · intro hd
        exact ⟨hd, hd ▸ h, hd ▸ hlt⟩
      · exact fun hd => hd.1
    · rw [if_neg hlt]
      refine iff_of_false (fun hc => by cases hc) fun hc => hlt (hc.1 ▸ hc.2.2)

theorem Volume.link_last {view : Nat → Bytes} {c : Nat} :
    v.link view c = .last ↔ v.nFatent ≤ v.entry view c := by
  have htwo := v.two_lt
  rw [Volume.link]
  by_cases h : v.entry view c = 0
  · rw [if_pos h]
    refine iff_of_false (fun hc => by cases hc) (by omega)
  · rw [if_neg h]
    by_cases hlt : v.entry view c < v.nFatent
    · rw [if_pos hlt]
      refine iff_of_false (fun hc => by cases hc) (by omega)
    · rw [if_neg hlt]
      exact iff_of_true rfl (by omega)

theorem Volume.mem_freeSet {view : Nat → Bytes} {c : Nat} :
    c ∈ v.freeSet view ↔ v.Cluster c ∧ v.entry view c = 0 := by
  rw [Volume.freeSet, Finset.mem_filter, Finset.mem_Ico, Volume.Cluster]

/-- The mark that is stored for the end of a chain reads as one. -/
theorem Volume.le_trim_eoc : v.nFatent ≤ v.trim 0x0fffffff := by
  have hle := v.le_eoc
  rw [Volume.trim]
  cases ht : v.fsType with
  | fat12 => rw [ht] at hle; exact hle
  | fat16 => rw [ht] at hle; exact hle
  | fat32 => rw [ht] at hle; exact hle

/-- Cluster numbers fit into an entry. -/
theorem Volume.trim_cluster {c : Nat} (hc : c < v.nFatent) : v.trim c = c := by
  refine Nat.mod_eq_of_lt (Nat.lt_of_lt_of_le hc (Nat.le_of_lt_succ (Nat.lt_succ_of_le ?_)))
  have hle := v.le_eoc
  cases ht : v.fsType with
  | fat12 => rw [ht] at hle; exact Nat.le_trans hle (by decide)
  | fat16 => rw [ht] at hle; exact Nat.le_trans hle (by decide)
  | fat32 => rw [ht] at hle; exact Nat.le_trans hle (by decide)

theorem Volume.cluster_lt {c : Nat} (hc : c < v.nFatent) : c < 268435456 := by
  have hle := v.le_eoc
  cases ht : v.fsType with
  | fat12 => rw [ht] at hle; simp only [eocMark] at hle; omega
  | fat16 => rw [ht] at hle; simp only [eocMark] at hle; omega
  | fat32 => rw [ht] at hle; simp only [eocMark] at hle; omega

/-- Entries of `S` may have changed, and nothing else that is read. -/
structure Edits (v : Volume) (S : Set Nat) (fs fs' : Fs) : Prop where
  ok : fs'.Ok v
  other : ∀ s, v.Primary s → v.fatbase + v.fsize ≤ s → fs'.view s = fs.view s
  entries : ∀ d, d < v.nFatent → d ∉ S → v.entry fs'.view d = v.entry fs.view d
  later : Later fs.disk fs'.disk

theorem Edits.trans {S : Set Nat} (h : Edits v S fs fs') (h' : Edits v S fs' fs'') : Edits v S fs fs'' where
  ok := h'.ok
  other s hs hlo := (h'.other s hs hlo).trans (h.other s hs hlo)
  entries d hd hn := (h'.entries d hd hn).trans (h.entries d hd hn)
  later := h.later.trans h'.later

theorem Edits.mono {S T : Set Nat} (h : Edits v S fs fs') (hST : S ⊆ T) : Edits v T fs fs' where
  ok := h.ok
  other := h.other
  entries d hd hn := h.entries d hd fun hs => hn (hST hs)
  later := h.later

theorem Still.edits (h : Still v fs fs') (S : Set Nat) : Edits v S fs fs' where
  ok := h.ok
  other s hs _ := h.view s hs
  entries _ hd _ := h.entry hd
  later := h.later

theorem Puts.edits (h : Puts v clst fs fs') {S : Set Nat} (hS : clst ∈ S) : Edits v S fs fs' where
  ok := h.ok
  other := h.other
  entries _ hd hn := h.entry_ne hd fun he => hn (he ▸ hS)
  later := h.later

/-- The counts are no part of what is read. -/
theorem Edits.counts {S : Set Nat} (h : Edits v S fs fs') (last free : Nat) (flag : Bool) :
    Edits v S fs { fs' with lastClust := last, freeClust := free, fsiFlag := flag } :=
  ⟨⟨h.ok.current, h.ok.place, h.ok.dirty⟩, h.other, h.entries, h.later⟩

/-- The clusters the search has seen when it stands at `ncl`. -/
def Passed (scl ncl c : Nat) : Prop := scl < c ∧ c ≤ ncl ∨ ncl < scl ∧ (scl < c ∨ c ≤ ncl)

/-- Clusters the search has still to see. -/
def toSee (v : Volume) (scl ncl : Nat) : Nat :=
  if scl ≤ ncl then v.nFatent - 1 - ncl + (scl - 1) else scl - ncl

/-- What comes of the search. -/
inductive Found (v : Volume) (fs fs' : Fs) : Except Nat Nat → Prop
  | cluster {c : Nat} : v.Cluster c → v.entry fs.view c = 0 → fs'.winsect ≠ 0 → Found v fs fs' (.ok c)
  | full : (∀ c, v.Cluster c → v.entry fs.view c ≠ 0) → Found v fs fs' (.error 0)
  | damaged {c : Nat} : v.Cluster c → v.entry fs.view c = 1 → Found v fs fs' (.error 1)
  | failed : Failed fs.disk fs'.disk → Found v fs fs' (.error 0xffffffff)

theorem Found.of_still {r : Except Nat Nat} (hs : Still v fs fs') (h : Found v fs' fs'' r) : Found v fs fs'' r := by
  cases h with
  | cluster hc h0 hw => exact .cluster hc ((hs.entry hc.2).symm.trans h0) hw
  | full hall => exact .full fun c hc => (hs.entry hc.2).symm ▸ hall c hc
  | damaged hc h1 => exact .damaged hc ((hs.entry hc.2).symm.trans h1)
  | failed hf => exact .failed (hf.of_later hs.later)

theorem scanFree_spec {scl fuel ncl : Nat} (h : fs.Ok v) (hscl : 1 ≤ scl ∧ scl < v.nFatent)
    (hncl : 1 ≤ ncl ∧ ncl < v.nFatent)
    (hpassed : ∀ c, v.Cluster c → Passed scl ncl c → v.entry fs.view c ≠ 0) (hfuel : toSee v scl ncl ≤ fuel) :
    wp (scanFree v scl fuel ncl) (fun r fs' => Still v fs fs' ∧ Found v fs fs' r) (fun _ _ => False) fs := by
  have hwrapped : v.nFatent ≤ ncl + 1 → scl < 2 → ∀ c, v.Cluster c → v.entry fs.view c ≠ 0 := by
    intro hend hone c hc
    have hc1 := hc.1
    have hc2 := hc.2
    exact hpassed c hc (Or.inl ⟨by omega, by omega⟩)
  induction fuel generalizing fs ncl with
  | zero =>
    rw [scanFree, wp_pure]
    refine ⟨Still.refl h, .full (hwrapped ?_ ?_)⟩
    · rw [toSee] at hfuel
      split at hfuel <;> omega
    · rw [toSee] at hfuel
      split at hfuel <;> omega
  | succ fuel ih =>
    rw [scanFree]
    generalize hnext : (if v.nFatent ≤ ncl + 1 then 2 else ncl + 1) = next
    have htwo := v.two_lt
    refine wp_ite (fun hend => ?_) fun hend => ?_
    · rw [wp_pure]
      exact ⟨Still.refl h, .full (hwrapped hend.1 hend.2)⟩
    have hcluster : v.Cluster next := by
      rw [← hnext, Volume.Cluster]
      split <;> omega
    rw [wp_bind]
    refine (getFat_spec h hcluster.1 hcluster.2).mono (fun cs fs1 hget => ?_) fun _ _ => id
    obtain ⟨hstill, hcs, -⟩ := hget
    refine wp_ite (fun hzero => ?_) fun hzero => ?_
    · rw [wp_pure]
      rcases hcs with hcs | hcs
      · exact ⟨hstill, .cluster hcluster (hcs.1.symm.trans hzero) hcs.2⟩
      · rw [hcs.1] at hzero
        exact absurd hzero (by decide)
    refine wp_ite (fun hbad => ?_) fun hbad => ?_
    · rw [wp_pure]
      refine ⟨hstill, ?_⟩
      rcases hcs with hcs | hcs
      · have hlt := v.entry_lt fs.view next
        have hone : v.entry fs.view next = 1 := by
          rcases hbad with hbad | hbad
          · have hmax : (16 : Nat) ^ v.fsType.width ≤ 16 ^ 7 := by
              cases v.fsType <;> decide
            omega
          · exact hcs.1.symm.trans hbad
        rw [hcs.1, hone]
        exact .damaged hcluster hone
      · rw [hcs.1]
        exact .failed hcs.2
    have hne : v.entry fs.view next ≠ 0 := by
      rcases hcs with hcs | hcs
      · exact hcs.1 ▸ hzero
      · exact absurd (Or.inl hcs.1) hbad
    refine wp_ite (fun hback => ?_) fun hback => ?_
    · rw [wp_pure]
      refine ⟨hstill, .full fun c hc => ?_⟩
      by_cases hself : c = next
      · exact hself ▸ hne
      · refine hpassed c hc ?_
        have hc1 := hc.1
        have hc2 := hc.2
        rw [Passed]
        split at hnext <;> omega
    · have hseen : ∀ c, v.Cluster c → Passed scl next c → v.entry fs1.view c ≠ 0 := by
        intro c hc hp
        rw [hstill.entry hc.2]
        by_cases hself : c = next
        · exact hself ▸ hne
        · refine hpassed c hc ?_
          have hc1 := hc.1
          have hc2 := hc.2
          rw [Passed] at hp ⊢
          split at hnext <;> omega
      have hless : toSee v scl next ≤ fuel := by
        rw [toSee] at hfuel ⊢
        split at hnext <;> split at hfuel <;> split <;> omega
      have hnext1 := hcluster.1
      have hrest := ih hstill.ok ⟨by omega, hcluster.2⟩ hseen hless fun hend' hone c hc => by
        have hc1 := hc.1
        have hc2 := hc.2
        exact hseen c hc (Or.inl ⟨by omega, by omega⟩)
      exact hrest.mono (fun r fs2 hr => ⟨hstill.trans hr.1, .of_still hstill hr.2⟩) fun _ _ => id

/-- The count after a cluster was taken, or given back. -/
def taken (free : Nat) : Nat := if free = unknownCount then free else (free + (2 ^ 32 - 1)) % 2 ^ 32

def givenBack (free : Nat) : Nat := if free = unknownCount then free else (free + 1) % 2 ^ 32

/-- What comes of `create_chain`, with what it returns. -/
inductive Created (v : Volume) (clst : Nat) (fs fs' : Fs) : Nat → Prop
  | full : Still v fs fs' → (∀ c, v.Cluster c → v.entry fs.view c ≠ 0) → Created v clst fs fs' 0
  | followed {c : Nat} : Still v fs fs' → clst ≠ 0 → v.Cluster c → v.entry fs.view clst = c →
      Created v clst fs fs' c
  | fresh {c : Nat} : v.Cluster c → v.entry fs.view c = 0 → Edits v {c, clst} fs fs' →
      v.nFatent ≤ v.entry fs'.view c → (clst ≠ 0 → v.entry fs'.view clst = c) →
      (clst ≠ 0 → v.nFatent ≤ v.entry fs.view clst ∨ Failed fs.disk fs'.disk) → fs'.lastClust = c →
      fs'.freeClust = taken fs.freeClust → Created v clst fs fs' c
  | damaged {c : Nat} : Still v fs fs' → v.Cluster c → v.entry fs.view c = 1 → Created v clst fs fs' 1
  | failed {c : Nat} : v.Cluster c → v.entry fs.view c = 0 → Edits v {c, clst} fs fs' → Failed fs.disk fs'.disk →
      Created v clst fs fs' 0xffffffff
  | unread : Still v fs fs' → Failed fs.disk fs'.disk → Created v clst fs fs' 0xffffffff

theorem Still.edits_trans {S : Set Nat} (h : Still v fs fs') (h' : Edits v S fs' fs'') : Edits v S fs fs'' :=
  (h.edits S).trans h'

/-- What is linked is told against the state the search began in. -/
theorem linkCluster_spec {ncl : Nat} (h : Still v fs fs') (h0 : fs'.winsect ≠ 0) (hncl : v.Cluster ncl)
    (hfree : v.entry fs.view ncl = 0) (hclst : clst = 0 ∨ v.Cluster clst ∧ clst ≠ ncl)
    (hends : clst ≠ 0 → v.nFatent ≤ v.entry fs.view clst ∨ Failed fs.disk fs'.disk) :
    wp (linkCluster v clst ncl) (fun r fs'' => Created v clst fs fs'' r) (fun _ _ => False) fs' := by
  have hmark : ∀ fs2 : Fs, Edits v {ncl, clst} fs' fs2 → v.nFatent ≤ v.entry fs2.view ncl →
      (clst ≠ 0 → v.entry fs2.view clst = ncl) → fs2.freeClust = fs'.freeClust →
      Created v clst fs (if fs2.freeClust = unknownCount then { fs2 with lastClust := ncl }
        else { fs2 with lastClust := ncl, freeClust := (fs2.freeClust + (2 ^ 32 - 1)) % 2 ^ 32, fsiFlag := true })
        ncl := by
    intro fs2 hedit' hlast hlink hcount'
    have hedit := h.edits_trans hedit'
    have hcount := hcount'.trans h.freeClust
    have hends2 := fun hne => (hends hne).imp_right fun hf => hf.mono hedit'.later
    by_cases hu : fs2.freeClust = unknownCount
    · rw [if_pos hu]
      refine .fresh hncl hfree (hedit.counts ncl fs2.freeClust fs2.fsiFlag) hlast hlink hends2 rfl ?_
      rw [taken, if_pos (hcount ▸ hu)]
      exact hcount
    · rw [if_neg hu]
      refine .fresh hncl hfree (hedit.counts ncl _ true) hlast hlink hends2 rfl ?_
      rw [taken, if_neg (hcount ▸ hu), hcount]
  rw [linkCluster, wp_bind, wp_attempt, wp_bind]
  refine (putFat_spec h.ok h0 hncl.1 hncl.2 (by decide)).mono (fun _ fs1 hput => ?_) fun e fs1 hput => ?_
  · obtain ⟨hput, heoc⟩ := hput
    have hlast : v.nFatent ≤ v.entry fs1.view ncl := heoc ▸ Volume.le_trim_eoc
    have hedit1 : Edits v {ncl, clst} fs' fs1 := hput.edits (Set.mem_insert ..)
    refine wp_ite (fun hzero => ?_) fun hzero => ?_
    · simp only [wp_pure, wp_bind, wp_modify]
      exact hmark fs1 hedit1 hlast (fun hc => absurd hzero hc) hput.freeClust
    · obtain ⟨hcl, hne⟩ := hclst.resolve_left hzero
      refine (putFat_spec hput.ok hput.shown hcl.1 hcl.2 (Volume.cluster_lt hncl.2)).mono
        (fun _ fs2 hput2 => ?_) fun e fs2 hput2 => ?_
      · obtain ⟨hput2, hlink⟩ := hput2
        simp only [wp_pure, wp_bind, wp_modify]
        refine hmark fs2 (hedit1.trans (hput2.edits (Set.mem_insert_of_mem _ rfl))) ?_ (fun _ => ?_) ?_
        · rw [hput2.entry_ne hncl.2 hne.symm]
          exact hlast
        · rw [hlink, Volume.trim_cluster hncl.2]
        · rw [hput2.freeClust, hput.freeClust]
      · obtain ⟨rfl, hf, hput2⟩ := hput2
        simp only [wp_pure, if_true]
        exact .failed hncl hfree (h.edits_trans (hedit1.trans (hput2.edits (Set.mem_insert_of_mem _ rfl))))
          (hf.of_later (h.later.trans hput.later))
  · obtain ⟨rfl, hf, hput⟩ := hput
    simp only [wp_pure, if_true]
    exact .failed hncl hfree (h.edits_trans (hput.edits (Set.mem_insert ..))) (hf.of_later h.later)

theorem allocate_spec {scl : Nat} (h : Still v fs fs') (hscl : 1 ≤ scl ∧ scl < v.nFatent)
    (hclst : clst = 0 ∨ v.Cluster clst ∧ v.entry fs.view clst ≠ 0)
    (hends : clst ≠ 0 → v.nFatent ≤ v.entry fs.view clst ∨ Failed fs.disk fs'.disk) :
    wp (allocate v clst scl) (fun r fs'' => Created v clst fs fs'' r) (fun _ _ => False) fs' := by
  have hfuel : toSee v scl scl ≤ v.nFatent := by
    rw [toSee, if_pos le_rfl]
    omega
  rw [allocate, wp_bind]
  refine (scanFree_spec h.ok hscl hscl (fun c _ hp => ?_) hfuel).mono (fun r fs1 hr => ?_) fun _ _ => id
  · rw [Passed] at hp
    omega
  · obtain ⟨hstill, hfound⟩ := hr
    cases Found.of_still h hfound with
    | @cluster ncl hc hfree hw =>
      refine linkCluster_spec (h.trans hstill) hw hc hfree ?_ fun hne =>
        (hends hne).imp_right fun hf => hf.mono hstill.later
      refine hclst.imp_right fun hcl => ⟨hcl.1, fun he => hcl.2 ?_⟩
      rw [he]
      exact hfree
    | full hall =>
      rw [wp_pure]
      exact .full (h.trans hstill) hall
    | damaged hc hone =>
      rw [wp_pure]
      exact .damaged (h.trans hstill) hc hone
    | failed hf =>
      rw [wp_pure]
      exact .unread (h.trans hstill) hf

/-- `create_chain` never fails otherwise than by what it returns; it takes a cluster that is free, and
says that there is none only when there is none. -/
theorem createChain_spec (h : fs.Ok v) (hclst : clst = 0 ∨ v.Cluster clst ∧ v.entry fs.view clst ≠ 0) :
    wp (createChain v clst) (fun r fs' => Created v clst fs fs' r) (fun _ _ => False) fs := by
  have htwo := v.two_lt
  rw [createChain]
  refine wp_ite (fun hzero => ?_) fun hzero => ?_
  · rw [wp_bind, wp_get]
    refine allocate_spec (Still.refl h) ?_ (Or.inl hzero) fun hc => absurd hzero hc
    split <;> omega
  · obtain ⟨hcl, hused⟩ := hclst.resolve_left hzero
    rw [wp_bind]
    refine (getFat_spec h hcl.1 hcl.2).mono (fun cs fs1 hget => ?_) fun _ _ => id
    obtain ⟨hstill, hcs, -⟩ := hget
    refine wp_ite (fun hlow => ?_) fun hlow => wp_ite (fun hlt => ?_) fun hge => ?_
    · rw [wp_pure]
      rcases hcs with hcs | hcs
      · refine .damaged hstill hcl ?_
        have hent := hcs.1
        omega
      · have hent := hcs.1
        omega
    · rw [wp_pure]
      rcases hcs with hcs | hcs
      · exact .followed hstill hzero ⟨by omega, hlt⟩ hcs.1.symm
      · have hmax := Volume.cluster_lt hlt
        have hent := hcs.1
        omega
    · refine allocate_spec hstill ⟨by have hpos := hcl.1; omega, hcl.2⟩ hclst fun _ => ?_
      rcases hcs with hcs | hcs
      · left
        rw [← hcs.1]
        omega
      · exact Or.inr hcs.2

/-- A chain whose cells all are clusters. -/
structure FileChain (v : Volume) (view : Nat → Bytes) (l : List Nat) : Prop where
  chain : Chain (v.link view) l
  cluster : ∀ c ∈ l, v.Cluster c

namespace FileChain

variable {view view' : Nat → Bytes} {l : List Nat} {c d : Nat}

theorem congr (h : FileChain v view l) (hsame : ∀ c ∈ l, v.entry view' c = v.entry view c) :
    FileChain v view' l :=
  ⟨h.chain.congr fun c hc => by rw [Volume.link, Volume.link, hsame c hc], h.cluster⟩

theorem tail (h : FileChain v view (c :: l)) : FileChain v view l :=
  ⟨h.chain.cons, fun d hd => h.cluster d (List.mem_cons_of_mem _ hd)⟩

theorem entry_ne_zero (h : FileChain v view l) (hc : c ∈ l) : v.entry view c ≠ 0 := fun h0 =>
  h.chain.ne_free hc (Volume.link_free.mpr h0)

/-- The clusters of a chain are few enough. -/
theorem length_lt (h : FileChain v view l) : l.length < v.nFatent := by
  have hsub : l.toFinset ⊆ Finset.Ico 2 v.nFatent := by
    intro c hc
    have hcl := h.cluster c (List.mem_toFinset.mp hc)
    exact Finset.mem_Ico.mpr hcl
  have hcard := Finset.card_le_card hsub
  rw [List.toFinset_card_of_nodup h.chain.nodup, Nat.card_Ico] at hcard
  have htwo := v.two_lt
  omega

end FileChain

theorem FileChain.nil (v : Volume) (view : Nat → Bytes) : FileChain v view [] :=
  ⟨.nil, fun _ hc => absurd hc List.not_mem_nil⟩

/-- One turn of the loop frees the cluster and goes on with what its entry said. -/
theorem wp_removeLoop {fuel : Nat} {Q : PUnit → Fs → Prop} {E : FResult → Fs → Prop} (h : fs.Ok v)
    (hcl : v.Cluster clst) (hused : 2 ≤ v.entry fs.view clst)
    (hrest : ∀ fs', Edits v {clst} fs fs' → v.entry fs'.view clst = 0 →
      fs'.freeClust = givenBack fs.freeClust → fs'.lastClust = fs.lastClust →
      wp (removeLoop v fuel (v.entry fs.view clst)) Q E fs')
    (herr : ∀ fs', Failed fs.disk fs'.disk → Edits v {clst} fs fs' → E .diskErr fs') :
    wp (removeLoop v (fuel + 1) clst) Q E fs := by
  rw [removeLoop, if_neg (Nat.not_le.mpr hcl.2), wp_bind]
  refine (getFat_spec h hcl.1 hcl.2).mono (fun nxt fs1 hget => ?_) fun _ _ => False.elim
  obtain ⟨hstill, hnxt, -⟩ := hget
  rcases hnxt with ⟨rfl, hw⟩ | ⟨rfl, hf⟩
  · have hlt := v.entry_lt fs.view clst
    have hmax : (16 : Nat) ^ v.fsType.width ≤ 16 ^ 7 := by
      cases v.fsType <;> decide
    rw [if_neg (by omega), if_neg (by omega), if_neg (by omega), wp_bind]
    refine (putFat_spec hstill.ok hw hcl.1 hcl.2 (by decide)).mono (fun _ fs2 hput => ?_) fun e fs2 hput => ?_
    · obtain ⟨hput, hzero⟩ := hput
      have hedit : Edits v {clst} fs fs2 := hstill.edits_trans (hput.edits rfl)
      have hfree : fs2.freeClust = fs.freeClust := hput.freeClust.trans hstill.freeClust
      have hlast : fs2.lastClust = fs.lastClust := hput.lastClust.trans hstill.lastClust
      have hzero' : v.entry fs2.view clst = 0 := hzero.trans (Nat.zero_mod _)
      rw [wp_bind, wp_modify]
      by_cases hu : fs2.freeClust = unknownCount
      · rw [if_pos hu]
        refine hrest fs2 hedit hzero' ?_ hlast
        rw [givenBack, if_pos (hfree ▸ hu), hfree]
      · rw [if_neg hu]
        refine hrest _ (hedit.counts fs2.lastClust _ true) hzero' ?_ hlast
        rw [givenBack, if_neg (hfree ▸ hu), hfree]
    · obtain ⟨rfl, hf, hput⟩ := hput
      exact herr fs2 (hf.of_later hstill.later) (hstill.edits_trans (hput.edits rfl))
  · rw [if_neg (by decide), if_neg (by decide), if_pos rfl, wp_throw]
    exact herr fs1 hf (hstill.edits _)

theorem removeLoop_spec {l : List Nat} {fuel : Nat} (h : fs.Ok v) (hchain : FileChain v fs.view (clst :: l))
    (hfuel : l.length < fuel) : wp (removeLoop v fuel clst)
    (fun _ fs' => Edits v {c | c ∈ clst :: l} fs fs' ∧ (∀ c ∈ clst :: l, v.entry fs'.view c = 0) ∧
      fs'.freeClust = givenBack^[l.length + 1] fs.freeClust ∧ fs'.lastClust = fs.lastClust)
    (fun e fs' => e = .diskErr ∧ Failed fs.disk fs'.disk ∧ Edits v {c | c ∈ clst :: l} fs fs') fs := by
  obtain ⟨fuel, rfl⟩ : ∃ n, fuel = n + 1 := ⟨fuel - 1, by omega⟩
  have hcl := hchain.cluster clst List.mem_cons_self
  have htwo := v.two_lt
  have hsub : ({clst} : Set Nat) ⊆ {c | c ∈ clst :: l} := fun c hc => List.mem_cons.mpr (Or.inl hc)
  induction l generalizing fs clst fuel with
  | nil =>
    have hend := Volume.link_last.mp (hchain.chain.last clst rfl)
    refine wp_removeLoop h hcl (by omega) (fun fs1 hedit hzero hcount hlast => ?_) fun fs1 hf hedit =>
      ⟨rfl, hf, hedit.mono hsub⟩
    have hstop : removeLoop v fuel (v.entry fs.view clst) = pure ⟨⟩ := by
      cases fuel with
      | zero => rfl
      | succ n => rw [removeLoop, if_pos hend]
    rw [hstop, wp_pure]
    refine ⟨hedit.mono hsub, fun c hc => ?_, hcount, hlast⟩
    obtain rfl := List.mem_singleton.mp hc
    exact hzero
  | cons d l ih =>
    have hlink := Volume.link_next.mp (Chain.cons_cons.mp hchain.chain).1
    have hd := hchain.cluster d (List.mem_cons_of_mem _ List.mem_cons_self)
    have hd2 := hd.1
    refine wp_removeLoop h hcl (by omega) (fun fs1 hedit hzero hcount hlast => ?_) fun fs1 hf hedit =>
      ⟨rfl, hf, hedit.mono hsub⟩
    have hnot : clst ∉ d :: l := (List.nodup_cons.mp hchain.chain.nodup).1
    have hchain1 : FileChain v fs1.view (d :: l) := hchain.tail.congr fun c hc =>
      hedit.entries c (hchain.cluster c (List.mem_cons_of_mem _ hc)).2 fun he => hnot (he ▸ hc)
    have hsub1 : ({c | c ∈ d :: l} : Set Nat) ⊆ {c | c ∈ clst :: d :: l} := fun c hc => List.mem_cons_of_mem _ hc
    obtain ⟨fuel, rfl⟩ : ∃ n, fuel = n + 1 := ⟨fuel - 1, by rw [List.length_cons] at hfuel; omega⟩
    rw [hlink.1]
    refine (ih hedit.ok hchain1 fuel (by rw [List.length_cons] at hfuel; omega) hd
      fun c hc => List.mem_cons.mpr (Or.inl hc)).mono (fun _ fs2 hrest => ?_) fun e fs2 herr => ?_
    · obtain ⟨hedit2, hzero2, hcount2, hlast2⟩ := hrest
      refine ⟨(hedit.mono hsub).trans (hedit2.mono hsub1), fun c hc => ?_, ?_, hlast2.trans hlast⟩
      · rcases List.mem_cons.mp hc with rfl | hc
        · rw [hedit2.entries c hcl.2 hnot, hzero]
        · exact hzero2 c hc
      · rw [hcount2, hcount, List.length_cons]
        exact (Function.iterate_succ_apply givenBack _ _).symm
    · obtain ⟨rfl, hf, hedit2⟩ := herr
      exact ⟨rfl, hf.of_later hedit.later, (hedit.mono hsub).trans (hedit2.mono hsub1)⟩

/-- `remove_chain` frees a chain and nothing else; what a failure leaves is limited to its cells. -/
theorem removeChain_spec {l : List Nat} (h : fs.Ok v) (hchain : FileChain v fs.view (clst :: l)) :
    wp (removeChain v clst)
    (fun _ fs' => Edits v {c | c ∈ clst :: l} fs fs' ∧ (∀ c ∈ clst :: l, v.entry fs'.view c = 0) ∧
      fs'.freeClust = givenBack^[l.length + 1] fs.freeClust ∧ fs'.lastClust = fs.lastClust)
    (fun e fs' => e = .diskErr ∧ Failed fs.disk fs'.disk ∧ Edits v {c | c ∈ clst :: l} fs fs') fs := by
  have hcl := hchain.cluster clst List.mem_cons_self
  have hlen := hchain.length_lt
  rw [List.length_cons] at hlen
  rw [removeChain, if_neg (not_or.mpr ⟨Nat.not_lt.mpr hcl.1, Nat.not_le.mpr hcl.2⟩)]
  exact removeLoop_spec h hchain (by omega)

/-- A fresh cluster makes the chain longer. -/
theorem FileChain.grow {cl : List Nat} {c clst : Nat} (h : FileChain v fs.view cl) (hc : v.Cluster c) (hfree : v.entry fs.view c = 0)
    (hedit : Edits v {c, clst} fs fs') (hfull : v.nFatent ≤ v.entry fs'.view c)
    (hlink : clst ≠ 0 → v.entry fs'.view clst = c) (hend : cl = [] ∧ clst = 0 ∨ ∃ l, cl = l ++ [clst]) :
    FileChain v fs'.view (cl ++ [c]) := by
  have hlast : v.link fs'.view c = .last := Volume.link_last.mpr hfull
  rcases hend with ⟨rfl, -⟩ | ⟨l, rfl⟩
  · refine ⟨.singleton hlast, fun d hd => ?_⟩
    obtain rfl := List.mem_singleton.mp hd
    exact hc
  · have hcl := h.cluster clst (by simp)
    have hlo := hcl.1
    have hlo' := hc.1
    have hnext : v.link fs'.view clst = .next c := Volume.link_next.mpr ⟨hlink (by omega), by omega, hc.2⟩
    constructor
    · rw [List.append_assoc]
      refine h.chain.extend hnext hlast fun d hd => ?_
      have hused := h.entry_ne_zero (List.mem_append_left _ hd)
      have hne : d ≠ clst := fun he => by
        have hnodup := h.chain.nodup
        rw [List.nodup_append] at hnodup
        exact hnodup.2.2 d hd clst (List.mem_singleton_self _) he
      have hsame := hedit.entries d (h.cluster d (List.mem_append_left _ hd)).2 fun hin =>
        hin.elim (fun he => hused (he ▸ hfree)) hne
      rw [Volume.link, Volume.link, hsame]
    · intro d hd
      rcases List.mem_append.mp hd with hd | hd
      · exact h.cluster d hd
      · obtain rfl := List.mem_singleton.mp hd
        exact hc

theorem tiny_entry (fails : Nat → Bool) {c : Nat} (hc : tinyVolume.Cluster c) :
    tinyVolume.entry (tinyFs fails).view c = 0 := by
  have hview : (tinyFs fails).view = fun _ _ => 0 := Fs.sectors_of_clean rfl
  have hall : ∀ c : Fin 5, tinyVolume.entry (fun _ _ => 0) c.val = 0 := by decide +kernel
  rw [hview]
  exact hall ⟨c, hc.2⟩

end MiMic.Fat
