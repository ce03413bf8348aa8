import MiMic.Fat.Clusters

/-!
# Files that share a table

Files take clusters and give them back while commands to the card may fail. A call that fails may leave
the clusters of its file in disorder; the chains of the others stay whole and apart.
-/
namespace MiMic.Fat

open Verif Verif.Prog

/-- The volume, and the chains of the files whose calls have not failed. -/
structure Shared (ι : Type) where
  fs : Fs
  chains : ι → List Nat

/-- What a file asks of the table. -/
inductive Demand
  | stretch
  | remove
deriving DecidableEq, Repr

/-- The last cluster of a file, 0 when there is none. -/
def lastCluster (l : List Nat) : Nat := l.getLast?.getD 0

/-- The chain of a file after a call that came back with `r`; nothing is kept of one whose call failed. -/
def stretched (l : List Nat) (r : Nat) : List Nat :=
  if r = 0xffffffff then [] else if r < 2 then l else l ++ [r]

/-- A call for one of the files. -/
def Shared.call {ι : Type} [DecidableEq ι] (v : Volume) (m : Shared ι) (i : ι) : Demand → Shared ι
  | .stretch =>
    let t := exec (createChain v (lastCluster (m.chains i))) m.fs
    ⟨t.2, Function.update m.chains i (stretched (m.chains i) (t.1.toOption.getD 0xffffffff))⟩
  | .remove =>
    if m.chains i = [] then m
    else ⟨(exec (removeChain v ((m.chains i).headD 0)) m.fs).2, Function.update m.chains i []⟩

/-- Calls for the files, one after the other. -/
def Shared.calls {ι : Type} [DecidableEq ι] (v : Volume) (m : Shared ι) (ds : List (ι × Demand)) : Shared ι :=
  ds.foldl (fun m d => m.call v d.1 d.2) m

/-- The chains are whole, and no two of them share a cluster. -/
structure Shared.Fine {ι : Type} (v : Volume) (m : Shared ι) : Prop where
  ok : m.fs.Ok v
  layout : Layout (v.link m.fs.view) m.chains
  cluster : ∀ i, ∀ c ∈ m.chains i, v.Cluster c

variable {ι : Type} [DecidableEq ι] {v : Volume} {m : Shared ι}

/-- One chain is replaced by one over its own clusters and free ones, where nothing else has changed. -/
theorem Shared.Fine.update (h : m.Fine v) {fs' : Fs} {i : ι} {l : List Nat} {S : Set Nat} (hl : FileChain v fs'.view l)
    (hedit : Edits v S m.fs fs') (hS : ∀ c ∈ S, v.Cluster c → c ∈ m.chains i ∨ v.entry m.fs.view c = 0)
    (hcells : ∀ c ∈ l, c ∈ m.chains i ∨ v.entry m.fs.view c = 0) :
    Shared.Fine v ⟨fs', Function.update m.chains i l⟩ := by
  refine ⟨hedit.ok, h.layout.update hl.chain (fun j hj c hc => ?_) fun c hc =>
    (hcells c hc).imp_right Volume.link_free.mpr, fun j c hc => ?_⟩
  · have hcluster := h.cluster j c hc
    have hkeep := hedit.entries c hcluster.2 fun hin => by
      rcases hS c hin hcluster with hown | hfree
      · exact h.layout.disjoint hj.symm hown hc
      · exact (h.layout.chain j).ne_free hc (Volume.link_free.mpr hfree)
    rw [Volume.link, Volume.link, hkeep]
  · change c ∈ Function.update m.chains i l j at hc
    by_cases hj : j = i
    · rw [hj, Function.update_self] at hc
      exact hl.cluster c hc
    · rw [Function.update_of_ne hj] at hc
      exact h.cluster j c hc

theorem lastCluster_concat {l : List Nat} {c : Nat} : lastCluster (l ++ [c]) = c := by
  rw [lastCluster, List.getLast?_concat]
  rfl

theorem Shared.Fine.call (h : m.Fine v) (i : ι) (d : Demand) : (m.call v i d).Fine v := by
  have hchain : FileChain v m.fs.view (m.chains i) := ⟨h.layout.chain i, h.cluster i⟩
  cases d with
  | remove =>
    rw [Shared.call]
    split
    · exact h
    · next hne =>
      generalize hexec : exec (removeChain v ((m.chains i).headD 0)) m.fs = t
      obtain ⟨r, fs'⟩ := t
      cases hcl : m.chains i with
      | nil => exact absurd hcl hne
      | cons c l =>
        rw [hcl] at hchain hexec
        have hedit : Edits v {d | d ∈ c :: l} m.fs fs' := by
          have hall := removeChain_spec h.ok hchain
          cases r with
          | ok a => exact (hall.exec_ok hexec).1
          | error e => exact (hall.exec_error hexec).2.2
        refine h.update (.nil v fs'.view) hedit (fun d hd _ => Or.inl ?_) fun d hd => absurd hd List.not_mem_nil
        rw [hcl]
        exact hd
  | stretch =>
    rw [Shared.call]
    generalize hexec : exec (createChain v (lastCluster (m.chains i))) m.fs = t
    obtain ⟨r, fs'⟩ := t
    have hend : m.chains i = [] ∧ lastCluster (m.chains i) = 0 ∨ ∃ l, m.chains i = l ++ [lastCluster (m.chains i)] := by
      rcases List.eq_nil_or_concat (m.chains i) with hnil | ⟨l, c, hl⟩
      · exact Or.inl ⟨hnil, by rw [hnil]; rfl⟩
      · rw [List.concat_eq_append] at hl
        exact Or.inr ⟨l, by rw [hl, lastCluster_concat]⟩
    have hlast : lastCluster (m.chains i) ≠ 0 → lastCluster (m.chains i) ∈ m.chains i ∧
        v.nFatent ≤ v.entry m.fs.view (lastCluster (m.chains i)) := by
      intro h0
      obtain ⟨l, hl⟩ := hend.resolve_left fun hc => h0 hc.2
      have hmem : lastCluster (m.chains i) ∈ (m.chains i).getLast? := by
        rw [Option.mem_def, hl, lastCluster_concat, List.getLast?_concat]
      exact ⟨List.mem_of_getLast? hmem, Volume.link_last.mp (hchain.chain.last _ hmem)⟩
    have hclst : lastCluster (m.chains i) = 0 ∨ v.Cluster (lastCluster (m.chains i)) ∧
        v.entry m.fs.view (lastCluster (m.chains i)) ≠ 0 := by
      by_cases h0 : lastCluster (m.chains i) = 0
      · exact Or.inl h0
      · exact Or.inr ⟨hchain.cluster _ (hlast h0).1, hchain.entry_ne_zero (hlast h0).1⟩
    have hsame : ∀ {l : List Nat}, Still v m.fs fs' → FileChain v fs'.view l → (∀ c ∈ l, c ∈ m.chains i) →
        Shared.Fine v ⟨fs', Function.update m.chains i l⟩ := fun hstill hl hsub =>
      h.update hl (hstill.edits ∅) (fun c hc => absurd hc (Set.notMem_empty c)) fun c hc => Or.inl (hsub c hc)
    have hkept : Still v m.fs fs' → FileChain v fs'.view (m.chains i) := fun hstill =>
      hchain.congr fun c hc => hstill.entry (hchain.cluster c hc).2
    have htouched : ∀ {c : Nat}, v.entry m.fs.view c = 0 → ∀ d ∈ ({c, lastCluster (m.chains i)} : Set Nat),
        v.Cluster d → d ∈ m.chains i ∨ v.entry m.fs.view d = 0 := by
      intro c hfree d hd hdc
      rcases hd with hd | hd
      · exact Or.inr (hd ▸ hfree)
      · have hdl : d = lastCluster (m.chains i) := hd
        have hlo := hdc.1
        rw [hdl]
        exact Or.inl (hlast (by omega)).1
    cases r with
    | error e => exact ((createChain_spec h.ok hclst).exec_error hexec).elim
    | ok r =>
    have hcreated := (createChain_spec h.ok hclst).exec_ok hexec
    change Shared.Fine v ⟨fs', Function.update m.chains i (stretched (m.chains i) r)⟩
    rw [stretched]
    cases hcreated with
    | full hstill => exact hsame hstill (hkept hstill) fun _ => id
    | damaged hstill => exact hsame hstill (hkept hstill) fun _ => id
    | unread hstill => exact hsame hstill (.nil v fs'.view) fun c hc => absurd hc List.not_mem_nil
    | followed hstill h0 hc hentry =>
      have hge := (hlast h0).2
      have hlt := hc.2
      omega
    | failed hc hfree hedit => exact h.update (.nil v fs'.view) hedit (htouched hfree) fun c hc => absurd hc List.not_mem_nil
    | fresh hc hfree hedit hfull hlink =>
      have hlo := hc.1
      have hmax := Volume.cluster_lt hc.2
      rw [if_neg (by omega), if_neg (by omega)]
      refine h.update (hchain.grow hc hfree hedit hfull hlink hend) hedit (htouched hfree) fun d hd => ?_
      rcases List.mem_append.mp hd with hd | hd
      · exact Or.inl hd
      · rw [List.mem_singleton.mp hd]
        exact Or.inr hfree

end MiMic.Fat
