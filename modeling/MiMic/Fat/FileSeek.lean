import MiMic.Fat.FileWrite

/-!
# Positions and ends

`f_lseek` walks along the chain, from the current cluster where that is not behind the new position,
and makes a file longer that may be written. `f_truncate` gives the clusters behind the position back.
-/
namespace MiMic.Fat

open Verif Verif.Prog

variable {v : Volume} {fs fs' : Fs} {fp : Fil} {cl cl' : List Nat}

/-- The cluster behind one of the chain, where the file reaches it or may grow. -/
theorem seekNext_spec {i clst : Nat} (h : fs.Good v) (hchain : FileChain v fs.view cl) (hc : cl[i]? = some clst)
    (hread : fp.write = false → i + 1 < cl.length) :
    wp (if fp.write = true then createChain v clst else getFat v clst) (fun r fs' =>
      r = 0 ∧ fp.write = true ∧ i + 1 = cl.length ∧ Still v fs fs' ∧ v.Full fs.view ∨
      v.Cluster r ∧ ∃ cl', Grows v cl cl' fs fs' ∧ cl'[i + 1]? = some r) (fun _ _ => False) fs := by
  refine wp_ite (fun hw => ?_) fun hw => ?_
  · refine (createChain_at h hchain hc).mono (fun r fs' hr => ?_) fun _ _ => id
    exact hr.imp_left fun hr => ⟨hr.1, hw, hr.2⟩
  · have hlt := hread (Bool.eq_false_iff.mpr hw)
    obtain ⟨hi, rfl⟩ := List.getElem?_eq_some_iff.mp hc
    obtain ⟨hentry, -, -⟩ := Volume.link_next.mp (hchain.chain.next_getElem hlt)
    have hcluster := hchain.cluster _ (List.getElem_mem hlt)
    refine (getFat_fine h.ok h.healthy (hchain.cluster _ (List.getElem_mem hi))).mono (fun r fs' hr => ?_)
      fun _ _ => id
    obtain ⟨hstill, rfl⟩ := hr
    rw [hentry]
    exact Or.inr ⟨hcluster, cl, .of_still h hchain hstill, List.getElem?_eq_getElem hlt⟩

/-- Where the walk ends: in the cluster of the position, or at the end of a file that cannot grow. -/
structure Walked (v : Volume) (cl cl' : List Nat) (fs : Fs) (fp : Fil) (ofs i : Nat) (r : Nat × Nat) (s : Fs × Fil) :
    Prop where
  grows : Grows v cl cl' fs s.1
  cell : cl'[i]? = some s.2.clust
  fields : s.2 = { fp with fptr := i * (v.csize * 512), clust := s.2.clust }
  inside : 0 < r.2 ∧ r.2 ≤ v.csize * 512
  reached : r.1 = s.2.clust ∧ i * (v.csize * 512) + r.2 = fp.fptr + ofs ∨
    r.1 = 0 ∧ r.2 = v.csize * 512 ∧ i * (v.csize * 512) + r.2 < fp.fptr + ofs ∧ i + 1 = cl'.length ∧ fp.write = true ∧
      v.Full s.1.view

theorem seekLoop_spec {fuel i clst ofs : Nat} (h : fs.Good v) (hchain : FileChain v fs.view cl)
    (hc : cl[i]? = some clst) (hclust : fp.clust = clst) (hptr : fp.fptr = i * (v.csize * 512)) (hofs : 0 < ofs)
    (hfuel : ofs ≤ fuel) (hread : fp.write = false → fp.fptr + ofs ≤ cl.length * (v.csize * 512)) :
    wp (seekLoop v fuel clst ofs) (fun r s => ∃ cl' j, Walked v cl cl' fs fp ofs j r s) (fun _ _ => False)
      (fs, fp) := by
  have hpos : 0 < v.csize * 512 := Nat.mul_pos v.csize_pos (by decide)
  induction fuel generalizing fs fp cl i clst ofs with
  | zero => omega
  | succ fuel ih =>
    rw [seekLoop]
    refine wp_ite (fun hle => ?_) fun hle => ?_
    · rw [wp_pure]
      refine ⟨cl, i, .of_still h hchain (Still.refl h.ok), hclust ▸ hc, ?_, ⟨hofs, hle⟩, Or.inl ⟨hclust.symm, ?_⟩⟩
      · rw [← hptr]
      · rw [hptr]
    have hmore : fp.write = false → i + 1 < cl.length := by
      intro hw
      have hin := hread hw
      rw [hptr] at hin
      by_contra hnot
      have hmul := Nat.mul_le_mul_right (v.csize * 512) (Nat.not_lt.mp hnot)
      rw [Nat.add_mul, Nat.one_mul] at hmul
      omega
    rw [wp_bind, wp_fil, wp_bind, wp_onFst]
    refine (seekNext_spec h hchain hc hmore).mono (fun r fs1 hr => ?_) fun _ _ => id
    rcases hr with ⟨rfl, hw, hlast, hstill, hfull⟩ | ⟨hcluster, cl', hgrows, hnext⟩
    · rw [if_pos ⟨hw, rfl⟩, wp_pure]
      refine ⟨cl, i, .of_still h hchain hstill, hclust ▸ hc, ?_, ⟨hpos, le_rfl⟩,
        Or.inr ⟨rfl, rfl, ?_, hlast, hw, hfull.still hstill⟩⟩
      · rw [← hptr]
      · rw [← hptr]
        change fp.fptr + v.csize * 512 < fp.fptr + ofs
        omega
    · have hlo := hcluster.1
      have hhi := hcluster.2
      have hmax := Volume.cluster_lt hhi
      have hstep : (i + 1) * (v.csize * 512) = i * (v.csize * 512) + v.csize * 512 := by
        rw [Nat.add_mul, Nat.one_mul]
      rw [if_neg (by omega), if_neg (by omega), if_neg (by omega), wp_bind, wp_modifyFil]
      refine wp.mono (ih hgrows.grown.good hgrows.grown.chain hnext rfl ?_ (by omega) (by omega) fun hw => ?_)
        (fun r' s' hr' => ?_) fun _ _ => id
      · change fp.fptr + v.csize * 512 = _
        rw [hstep, hptr]
      · change fp.fptr + v.csize * 512 + (ofs - v.csize * 512) ≤ _
        have hin := hread hw
        have hlen := Nat.mul_le_mul_right (v.csize * 512) hgrows.longer.length_le
        omega
      · obtain ⟨cl'', j, hgrows', hcell, hfields, hin, hreached⟩ := hr'
        have hsum : fp.fptr + v.csize * 512 + (ofs - v.csize * 512) = fp.fptr + ofs := by omega
        change _ ∧ _ = fp.fptr + v.csize * 512 + (ofs - v.csize * 512) ∨
          _ ∧ _ ∧ _ < fp.fptr + v.csize * 512 + (ofs - v.csize * 512) ∧ _ at hreached
        rw [hsum] at hreached
        exact ⟨cl'', j, hgrows.trans hgrows', hcell, hfields, hin, hreached⟩

/-- Where a seek comes to stand, with the sector of the position. -/
structure Sought (v : Volume) (cl cl' : List Nat) (fs : Fs) (fp : Fil) (target pos : Nat) (r : Nat) (s : Fs × Fil) :
    Prop where
  grows : Grows v cl cl' fs s.1
  fields : ∃ c, s.2 = { fp with fptr := pos, sclust := cl'.headD 0, clust := c }
  reached : pos = target ∨
    pos < target ∧ pos = cl'.length * (v.csize * 512) ∧ fp.write = true ∧ v.Full s.1.view
  inside : pos ≤ cl'.length * (v.csize * 512)
  current : 0 < pos → cl'[(pos - 1) / (v.csize * 512)]? = some s.2.clust
  sector : pos % 512 ≠ 0 → r = sectorAt v cl' (pos / 512)

theorem seekFrom_spec {i clst ofs : Nat} (h : fs.Good v) (hchain : FileChain v fs.view cl) (hc : cl[i]? = some clst)
    (hclust : fp.clust = clst) (hstart : fp.sclust = cl.headD 0) (hptr : fp.fptr = i * (v.csize * 512))
    (hofs : 0 < ofs) (hread : fp.write = false → fp.fptr + ofs ≤ cl.length * (v.csize * 512)) :
    wp (seekFrom v clst ofs) (fun r s => ∃ cl' pos, Sought v cl cl' fs fp (fp.fptr + ofs) pos r s) (fun _ _ => False)
      (fs, fp) := by
  have hpos : 0 < v.csize * 512 := Nat.mul_pos v.csize_pos (by decide)
  have hcluster := hchain.cluster clst (List.mem_of_getElem? hc)
  have hlo := hcluster.1
  rw [seekFrom, if_neg (by omega), wp_bind]
  refine (seekLoop_spec h hchain hc hclust hptr hofs le_rfl hread).mono (fun r s hr => ?_) fun _ _ => id
  obtain ⟨cl', j, hw⟩ := hr
  obtain ⟨fs1, fp1⟩ := s
  obtain ⟨clst', n⟩ := r
  obtain ⟨hgrows, hcell, hfields, ⟨hn, hle⟩, hreached⟩ := hw
  have hfields' : fp1 = { fp with fptr := j * (v.csize * 512), clust := fp1.clust } := hfields
  have hptr1 : fp1.fptr = j * (v.csize * 512) := congrArg Fil.fptr hfields'
  have hhead := hgrows.head (List.ne_nil_of_mem (List.mem_of_getElem? hc))
  have hdiv : j * (v.csize * 512) / (v.csize * 512) = j := Nat.mul_div_cancel _ hpos
  have hzero : j * (v.csize * 512) % (v.csize * 512) = 0 := Nat.mul_mod_left ..
  have hstep := cluster_step (v := v) (i := j * (v.csize * 512)) (hdiv.symm ▸ hcell) hn (by omega)
  have hdone : ∀ r, ((j * (v.csize * 512) + n) % 512 ≠ 0 → r = sectorAt v cl' ((j * (v.csize * 512) + n) / 512)) →
      ∃ cl' pos, Sought v cl cl' fs fp (fp.fptr + ofs) pos r (fs1, { fp1 with fptr := fp1.fptr + n }) := by
    intro r hr
    refine ⟨cl', j * (v.csize * 512) + n, hgrows, ⟨fp1.clust, ?_⟩, ?_, hstep.1, fun _ => hstep.2, hr⟩
    · rw [← hhead, ← hstart, ← hptr1]
      exact congrArg (fun f : Fil => { f with fptr := fp1.fptr + n }) hfields'
    · refine hreached.imp And.right fun hf => ⟨hf.2.2.1, ?_, hf.2.2.2.2⟩
      rw [← hf.2.2.2.1, Nat.add_mul, Nat.one_mul]
      exact congrArg _ hf.2.1
  have hassoc : j * (v.csize * 512) = j * v.csize * 512 := (Nat.mul_assoc ..).symm
  rw [wp_bind, wp_modifyFil]
  refine wp_ite (fun hmod => ?_) fun hmod => ?_
  · rw [wp_pure]
    exact hdone 0 fun hne => absurd (by omega) hne
  · rcases hreached with ⟨rfl, -⟩ | ⟨-, hfull, -⟩
    · have hlt : n < v.csize * 512 := by omega
      have hsame : (j * (v.csize * 512) + n) / (v.csize * 512) = j := by
        rw [Nat.mul_comm j, Nat.mul_add_div hpos, Nat.div_eq_of_lt hlt, Nat.add_zero]
      have hoff : (j * (v.csize * 512) + n) / 512 % v.csize = n / 512 := by
        have hsplit : (j * (v.csize * 512) + n) / 512 = v.csize * j + n / 512 := by
          rw [hassoc, Nat.mul_comm v.csize]
          omega
        rw [hsplit, Nat.mul_add_mod, Nat.mod_eq_of_lt (by omega)]
      obtain ⟨hsect, hne⟩ := sector_eq (i := j * (v.csize * 512) + n) (hsame.symm ▸ hcell)
        (hgrows.grown.chain.cluster _ (List.mem_of_getElem? hcell))
      rw [hoff] at hsect
      rw [if_neg hne, wp_pure]
      exact hdone _ fun _ => hsect
    · exact absurd (show n = v.csize * 512 from hfull) (by omega)

/-- The mask that leaves the start of a cluster. -/
theorem and_mask {m x : Nat} (hx : x < 2 ^ 32) : x &&& ((2 ^ m - 1) ^^^ (2 ^ 32 - 1)) = x / 2 ^ m * 2 ^ m := by
  rw [← Nat.shiftRight_eq_div_pow, ← Nat.shiftLeft_eq]
  refine Nat.eq_of_testBit_eq fun i => ?_
  rw [Nat.testBit_and, Nat.testBit_xor, Nat.testBit_two_pow_sub_one, Nat.testBit_two_pow_sub_one,
    Nat.testBit_shiftLeft]
  by_cases hi : i < 32
  · rw [decide_eq_true hi, Bool.xor_true]
    by_cases hm : m ≤ i
    · rw [Nat.testBit_shiftRight, Nat.add_sub_cancel' hm, decide_eq_false (Nat.not_lt.mpr hm), decide_eq_true hm,
        Bool.not_false, Bool.and_true, Bool.true_and]
    · rw [decide_eq_true (Nat.not_le.mp hm), decide_eq_false hm, Bool.not_true, Bool.and_false, Bool.false_and]
  · have hbit : x.testBit i = false :=
      Nat.testBit_lt_two_pow (Nat.lt_of_lt_of_le hx (Nat.pow_le_pow_right (by decide) (Nat.not_lt.mp hi)))
    rw [hbit, Bool.false_and]
    by_cases hm : m ≤ i
    · rw [Nat.testBit_shiftRight, Nat.add_sub_cancel' hm, hbit, Bool.and_false]
    · rw [decide_eq_false hm, Bool.false_and]

/-- The start of the cluster a byte lies in. -/
theorem cluster_start (v : Volume) {x : Nat} (hx : x < 2 ^ 32) :
    x &&& ((v.csize * 512 - 1) ^^^ 0xffffffff) = x / (v.csize * 512) * (v.csize * 512) := by
  obtain ⟨k, -, hk⟩ := v.csize_pow
  have hbytes : v.csize * 512 = 2 ^ (k + 9) := by rw [hk, Nat.pow_add]
  rw [hbytes]
  exact and_mask hx

theorem seekTo_spec {ofs : Nat} (h : fs.Good v) (hp : Placed v fs.view cl fp) (hptr : fp.fptr < 2 ^ 32)
    (hread : fp.write = false → ofs ≤ cl.length * (v.csize * 512)) :
    wp (seekTo v fp ofs) (fun r s => ∃ cl' pos, Sought v cl cl' fs fp ofs pos r s) (fun _ _ => False)
      (fs, { fp with fptr := 0 }) := by
  have hpos : 0 < v.csize * 512 := Nat.mul_pos v.csize_pos (by decide)
  have hrest : ∀ {cl1 : List Nat} {fs1 : Fs} {start clst : Nat}, Grows v cl cl1 fs fs1 → cl1[start]? = some clst →
      start * (v.csize * 512) < ofs → wp (seekFrom v clst (ofs - start * (v.csize * 512)))
      (fun r s => ∃ cl' pos, Sought v cl cl' fs fp ofs pos r s) (fun _ _ => False)
      (fs1, { fp with fptr := start * (v.csize * 512), sclust := cl1.headD 0, clust := clst }) := by
    intro cl1 fs1 start clst hgrows hc hlt
    have hsum : start * (v.csize * 512) + (ofs - start * (v.csize * 512)) = ofs := by omega
    refine wp.mono (seekFrom_spec hgrows.grown.good hgrows.grown.chain hc rfl rfl rfl (by omega) fun hw => ?_)
      (fun r s hr => ?_) fun _ _ => id
    · change start * (v.csize * 512) + (ofs - start * (v.csize * 512)) ≤ _
      have hin := hread hw
      have hlen := Nat.mul_le_mul_right (v.csize * 512) hgrows.longer.length_le
      omega
    · obtain ⟨cl', pos, hs⟩ := hr
      have hreached := hs.reached
      change pos = start * (v.csize * 512) + (ofs - start * (v.csize * 512)) ∨
        pos < start * (v.csize * 512) + (ofs - start * (v.csize * 512)) ∧ _ at hreached
      rw [hsum] at hreached
      exact ⟨cl', pos, hgrows.trans hs.grows, hs.fields, hreached, hs.inside, hs.current, hs.sector⟩
  have hnone : ∀ {cl1 : List Nat} {fs1 : Fs} {c : Nat}, Grows v cl cl1 fs fs1 →
      (0 = ofs ∨ 0 < ofs ∧ 0 = cl1.length * (v.csize * 512) ∧ fp.write = true ∧ v.Full fs1.view) →
      ∃ cl' pos, Sought v cl cl' fs fp ofs pos 0 (fs1, { fp with fptr := 0, sclust := cl1.headD 0, clust := c }) := by
    intro cl1 fs1 c hgrows hreached
    exact ⟨cl1, 0, hgrows, ⟨c, rfl⟩, hreached, Nat.zero_le _, fun hc => absurd hc (Nat.lt_irrefl 0),
      fun hc => absurd (Nat.zero_mod 512) hc⟩
  have hhere : Grows v cl cl fs fs := .of_still h hp.chain (Still.refl h.ok)
  have hfirst : 0 < ofs → ∀ {cl1 : List Nat} {fs1 : Fs} {clst : Nat}, Grows v cl cl1 fs fs1 → cl1[0]? = some clst →
      wp (seekFrom v clst ofs) (fun r s => ∃ cl' pos, Sought v cl cl' fs fp ofs pos r s) (fun _ _ => False)
      (fs1, { fp with fptr := 0, sclust := cl1.headD 0, clust := clst }) := by
    intro hofs cl1 fs1 clst hgrows hc
    have hres := hrest hgrows hc (by omega)
    rwa [Nat.zero_mul, Nat.sub_zero] at hres
  rw [seekTo]
  refine wp_ite (fun hzero => ?_) fun hzero => ?_
  · rw [wp_pure]
    have hres := hnone (c := fp.clust) hhere (Or.inl hzero.symm)
    rw [← hp.start] at hres
    exact hres
  refine wp_ite (fun hsame => ?_) fun hsame => wp_ite (fun hempty => ?_) fun hne => ?_
  · obtain ⟨hpos', hle⟩ := hsame
    rw [cluster_start v (show fp.fptr - 1 < 2 ^ 32 by omega), wp_bind, wp_modifyFil]
    have hlt : (fp.fptr - 1) / (v.csize * 512) * (v.csize * 512) < ofs := by
      have hmul := Nat.mul_le_mul_right (v.csize * 512) hle
      have hback := Nat.div_mul_le_self (ofs - 1) (v.csize * 512)
      omega
    have hres := hrest hhere (hp.current hpos') hlt
    rw [← hp.start] at hres
    exact hres
  · obtain rfl : cl = [] := by
      cases cl with
      | nil => rfl
      | cons c l =>
        have hlo := (hp.chain.cluster c List.mem_cons_self).1
        have hstart : fp.sclust = c := hp.start
        omega
    rw [wp_bind, wp_onFst]
    refine (createChain_fresh h hp.chain (Or.inl ⟨rfl, rfl⟩)).mono (fun r fs1 hr => ?_) fun _ _ => id
    rcases hr with ⟨rfl, hstill, hfull⟩ | ⟨hc, hgrown, hsame'⟩
    · have hwrite : fp.write = true := by
        by_contra hw
        have hin := hread (Bool.eq_false_iff.mpr hw)
        rw [List.length_nil, Nat.zero_mul] at hin
        omega
      rw [if_neg (by decide), if_neg (by decide), wp_bind, wp_modifyFil, seekFrom, if_pos rfl, wp_pure]
      exact hnone (.of_still h hp.chain hstill) (Or.inr ⟨Nat.pos_of_ne_zero hzero, (Nat.zero_mul _).symm, hwrite,
        hfull.still hstill⟩)
    · have hlo := hc.1
      have hmax := Volume.cluster_lt hc.2
      rw [if_neg (by omega), if_neg (by omega), wp_bind, wp_modifyFil]
      exact hfirst (Nat.pos_of_ne_zero hzero) ⟨hgrown, hsame', List.nil_prefix⟩ rfl
  · cases cl with
    | nil => exact absurd hp.start hne
    | cons c l =>
      have hstart : fp.sclust = c := hp.start
      rw [wp_bind, wp_modifyFil]
      change wp (seekFrom v fp.sclust ofs) _ _ (fs, { fp with fptr := 0, sclust := fp.sclust, clust := fp.sclust })
      rw [hstart]
      exact hfirst (Nat.pos_of_ne_zero hzero) hhere rfl

/-- What `f_lseek` comes to when the position is `pos` then. -/
structure Moved (v : Volume) (cl cl' : List Nat) (fs : Fs) (fp : Fil) (pos : Nat) (s : Fs × Fil) : Prop where
  grows : Grows v cl cl' fs s.1
  placed : Placed v s.1.view cl' s.2
  fields : ∃ c d w, s.2 = { fp with
    fptr := pos, fsize := max fp.fsize pos, sclust := cl'.headD 0, clust := c, dsect := d, written := w }

/-- `f_lseek` reaches the position; it stops short of it at the end of a file that may only be read, and when a
file that would have to grow finds no cluster. -/
theorem fLseek_spec {ofs : Nat} (h : fs.Good v) (hp : Placed v fs.view cl fp)
    (hsize : fp.fsize ≤ cl.length * (v.csize * 512)) (hle : fp.fptr ≤ fp.fsize) (hlt : fp.fsize < 2 ^ 32)
    (herr : fp.error = false) : wp (fLseek v ofs) (fun _ s => ∃ cl' pos,
      (pos = (if fp.write = true then ofs else min ofs fp.fsize) ∨
        pos < ofs ∧ pos = cl'.length * (v.csize * 512) ∧ fp.write = true ∧ v.Full s.1.view) ∧
      Moved v cl cl' fs fp pos s) (fun _ _ => False) (fs, fp) := by
  have hopen : ¬fp.error = true := herr ▸ Bool.false_ne_true
  have htarget : (if fp.fsize < ofs ∧ fp.write = false then fp.fsize else ofs) =
      if fp.write = true then ofs else min ofs fp.fsize := by
    by_cases hw : fp.write = true
    · rw [if_pos hw, if_neg fun hc => Bool.false_ne_true (hc.2.symm.trans hw)]
    · by_cases hbig : fp.fsize < ofs
      · rw [if_neg hw, if_pos ⟨hbig, Bool.eq_false_iff.mpr hw⟩, Nat.min_eq_right (Nat.le_of_lt hbig)]
      · rw [if_neg hw, if_neg fun hc => hbig hc.1, Nat.min_eq_left (Nat.not_lt.mp hbig)]
  rw [fLseek, wp_bind, wp_fil, if_neg hopen, wp_bind, wp_modifyFil, wp_bind, htarget]
  refine (seekTo_spec h hp (by omega) fun hw => ?_).mono (fun r s hr => ?_) fun _ _ => id
  · rw [if_neg (Bool.eq_false_iff.mp hw)]
    omega
  obtain ⟨cl', pos, hs⟩ := hr
  obtain ⟨fs1, fp1⟩ := s
  obtain ⟨c, hfp1⟩ := hs.fields
  have hfp1' : fp1 = { fp with fptr := pos, sclust := cl'.headD 0, clust := c } := hfp1
  subst hfp1'
  obtain ⟨d, hd, hsector⟩ : ∃ d, (if pos % 512 ≠ 0 ∧ r ≠ fp.dsect
      then { fp with fptr := pos, sclust := cl'.headD 0, clust := c, dsect := r }
      else { fp with fptr := pos, sclust := cl'.headD 0, clust := c }) =
      { fp with fptr := pos, sclust := cl'.headD 0, clust := c, dsect := d } ∧
      (pos % 512 ≠ 0 → d = sectorAt v cl' (pos / 512)) := by
    by_cases hnew : pos % 512 ≠ 0 ∧ r ≠ fp.dsect
    · exact ⟨r, if_pos hnew, hs.sector⟩
    · refine ⟨fp.dsect, if_neg hnew, fun hne => ?_⟩
      by_contra hdiff
      exact hnew ⟨hne, fun he => hdiff (he.symm.trans (hs.sector hne))⟩
  rw [wp_bind, wp_modifyFil, wp_modifyFil]
  refine ⟨cl', pos, hs.reached.imp_right fun hf => ⟨?_, hf.2⟩, ?_⟩
  · have hshort := hf.1
    rw [if_pos hf.2.2.1] at hshort
    exact hshort
  · change Moved v cl cl' fs fp pos (fs1, if (if pos % 512 ≠ 0 ∧ r ≠ fp.dsect then _ else _ : Fil).fsize <
      (if pos % 512 ≠ 0 ∧ r ≠ fp.dsect then _ else _ : Fil).fptr then _ else _)
    rw [hd]
    change Moved v cl cl' fs fp pos (fs1, if fp.fsize < pos
      then { fp with fptr := pos, fsize := pos, sclust := cl'.headD 0, clust := c, dsect := d, written := true }
      else { fp with fptr := pos, sclust := cl'.headD 0, clust := c, dsect := d })
    have hchain := hs.grows.grown.chain
    by_cases hgrow : fp.fsize < pos
    · rw [if_pos hgrow]
      refine ⟨hs.grows, ⟨hchain, rfl, hs.inside, hs.current, hsector⟩, c, d, true, ?_⟩
      rw [Nat.max_eq_right (Nat.le_of_lt hgrow)]
    · rw [if_neg hgrow]
      refine ⟨hs.grows, ⟨hchain, rfl, hs.inside, hs.current, hsector⟩, c, d, fp.written, ?_⟩
      rw [Nat.max_eq_left (Nat.not_lt.mp hgrow)]

theorem givenBack_iterate {n free : Nat} (h : free + n < 0xffffffff) : givenBack^[n] free = free + n := by
  induction n with
  | zero => rfl
  | succ n ih =>
    have hlt : free + n < 0xffffffff := by omega
    have hfit : free + n + 1 < 2 ^ 32 := by omega
    rw [Function.iterate_succ_apply', ih hlt, givenBack, if_neg (Nat.ne_of_lt hlt), Nat.mod_eq_of_lt hfit]
    rfl

theorem givenBack_unknown (n : Nat) : givenBack^[n] unknownCount = unknownCount := by
  induction n with
  | zero => rfl
  | succ n ih => rw [Function.iterate_succ_apply', ih, givenBack, if_pos rfl]

/-- What stands in the entries of a chain is no sign of damage. -/
theorem FileChain.entry_ne_one {view : Nat → Bytes} {c : Nat} (h : FileChain v view cl) (hc : c ∈ cl) :
    v.entry view c ≠ 1 := by
  have htwo := v.two_lt
  rcases h.chain.next_of_mem hc with hlast | ⟨d, hd, hnext⟩
  · have hend := Volume.link_last.mp hlast
    omega
  · have hlo := (h.cluster d hd).1
    have hentry := (Volume.link_next.mp hnext).1
    omega

/-- The clusters at the end of a chain are free then, and are counted. -/
theorem Rewrites.shrink {keep gone : List Nat} (h : fs.Good v) (hchain : FileChain v fs.view (keep ++ gone))
    (hkeep : FileChain v fs'.view keep) (hedit : Edits v {c | c ∈ keep ++ gone} fs fs')
    (hzero : ∀ c ∈ gone, v.entry fs'.view c = 0) (hcount : fs'.freeClust = givenBack^[gone.length] fs.freeClust) :
    Rewrites v (keep ++ gone) keep fs fs' := by
  have hfree : v.freeSet fs'.view = v.freeSet fs.view ∪ gone.toFinset := by
    ext c
    rw [Finset.mem_union, Volume.mem_freeSet, Volume.mem_freeSet, List.mem_toFinset]
    by_cases hg : c ∈ gone
    · exact iff_of_true ⟨hchain.cluster c (List.mem_append_right _ hg), hzero c hg⟩ (Or.inr hg)
    · by_cases hk : c ∈ keep
      · refine iff_of_false (fun hf => hkeep.entry_ne_zero hk hf.2) ?_
        rintro (hf | hf)
        · exact hchain.entry_ne_zero (List.mem_append_left _ hk) hf.2
        · exact hg hf
      · have hsame : v.Cluster c → v.entry fs'.view c = v.entry fs.view c := fun hc =>
          hedit.entries c hc.2 fun hm => (List.mem_append.mp hm).elim hk hg
        constructor
        · intro hf
          exact Or.inl ⟨hf.1, hsame hf.1 ▸ hf.2⟩
        · intro hf
          have hf' := hf.resolve_right hg
          exact ⟨hf'.1, (hsame hf'.1).trans hf'.2⟩
  refine ⟨⟨hedit.ok, h.healthy.later hedit.later, fun c hc => ?_, ?_⟩, hkeep,
    fun c hc => Or.inl (List.mem_append_left _ hc), fun d hd hcl _ => hedit.entries d hd.2 hcl,
    fun s hs hlo _ => hedit.other s hs hlo, hedit.later⟩
  · by_cases hg : c ∈ gone
    · rw [hzero c hg]
      exact Nat.zero_ne_one
    · by_cases hk : c ∈ keep
      · exact hkeep.entry_ne_one hk
      · rw [hedit.entries c hc.2 fun hm => (List.mem_append.mp hm).elim hk hg]
        exact h.sound c hc
  · rw [hcount]
    rcases h.count with hu | hcard
    · rw [hu]
      exact Or.inl (givenBack_unknown _)
    · have hdisj : Disjoint (v.freeSet fs.view) gone.toFinset := by
        refine Finset.disjoint_left.mpr fun c hf hg => ?_
        exact hchain.entry_ne_zero (List.mem_append_right _ (List.mem_toFinset.mp hg)) (Volume.mem_freeSet.mp hf).2
      have hlen : gone.toFinset.card = gone.length :=
        List.toFinset_card_of_nodup (List.nodup_append.mp hchain.chain.nodup).2.1
      have hsum := Finset.card_union_of_disjoint hdisj
      have hmax := Volume.freeSet_card_lt (v := v) fs'.view
      rw [hfree, hsum, hlen] at hmax
      rw [hcard, hfree, hsum, hlen, givenBack_iterate (Nat.lt_trans hmax (by decide))]
      exact Or.inr rfl

/-- What `f_truncate` keeps of the chain. -/
structure Dropped (v : Volume) (cl keep : List Nat) (fs : Fs) (fp : Fil) (fs' : Fs) : Prop where
  grown : Rewrites v cl keep fs fs'
  same : ∀ k, v.Primary k → v.fatbase + v.fsize ≤ k → fs'.view k = fs.view k
  shorter : keep <+: cl
  inside : fp.fptr ≤ keep.length * (v.csize * 512)
  start : fp.fptr = 0 → keep = []

theorem dropClusters_spec (h : fs.Good v) (hp : Placed v fs.view cl fp) (hne : cl ≠ []) :
    wp (dropClusters v fp) (fun _ fs' => ∃ keep, Dropped v cl keep fs fp fs') (fun _ _ => False) fs := by
  have hpos : 0 < v.csize * 512 := Nat.mul_pos v.csize_pos (by decide)
  rw [dropClusters]
  refine wp_ite (fun hzero => ?_) fun hzero => ?_
  · cases cl with
    | nil => exact absurd rfl hne
    | cons c l =>
      have hstart : fp.sclust = c := hp.start
      rw [hstart]
      refine (removeChain_spec h.ok hp.chain).mono (fun _ fs' hr => ?_) fun e fs' he => h.healthy.not_failed he.2.1
      obtain ⟨hedit, hgone, hcount, -⟩ := hr
      refine ⟨[], ?_, hedit.other, List.nil_prefix, ?_, fun _ => rfl⟩
      · have hall : Rewrites v ([] ++ c :: l) [] fs fs' := .shrink h hp.chain (.nil v fs'.view) hedit hgone hcount
        exact hall
      · rw [hzero]
        exact Nat.zero_le _
  · have hpos' := Nat.pos_of_ne_zero hzero
    have hcur := hp.current hpos'
    obtain ⟨hi, hclust⟩ := List.getElem?_eq_some_iff.mp hcur
    obtain ⟨l, r, hcl, hlen⟩ : ∃ l r, cl = l ++ fp.clust :: r ∧ l.length = (fp.fptr - 1) / (v.csize * 512) := by
      refine ⟨cl.take ((fp.fptr - 1) / (v.csize * 512)), cl.drop ((fp.fptr - 1) / (v.csize * 512) + 1), ?_, ?_⟩
      · rw [← hclust, List.getElem_cons_drop, List.take_append_drop]
      · rw [List.length_take, Nat.min_eq_left (Nat.le_of_lt hi)]
    have hinside : fp.fptr ≤ (l ++ [fp.clust]).length * (v.csize * 512) := by
      have hlt := Nat.lt_div_mul_add (a := fp.fptr - 1) hpos
      rw [List.length_append, List.length_singleton, hlen, Nat.add_mul, Nat.one_mul]
      omega
    have hstart : fp.fptr = 0 → l ++ [fp.clust] = [] := fun h0 => absurd h0 hzero
    have hchain := hp.chain
    subst hcl
    have hcluster := hchain.cluster fp.clust (by simp)
    rw [wp_bind]
    refine (getFat_spec h.ok hcluster.1 hcluster.2).mono (fun ncl fs1 hget => ?_) fun _ _ => id
    obtain ⟨hstill, hncl, -⟩ := hget
    obtain ⟨rfl, hw⟩ := hncl.resolve_right fun hf => h.healthy.not_failed hf.2
    have hgood := h.still hstill
    have hchain1 := hchain.still hstill
    have hmax := v.entry_lt fs.view fp.clust
    have hpow : (16 : Nat) ^ v.fsType.width ≤ 16 ^ 7 := by
      cases v.fsType <;> decide
    rw [if_neg (by omega), if_neg (hchain.entry_ne_one (by simp))]
    cases r with
    | nil =>
      have hend := Volume.link_last.mp (hchain.chain.last fp.clust (by simp))
      rw [if_neg (Nat.not_lt.mpr hend), wp_pure]
      exact ⟨l ++ [fp.clust], .of_still h hchain hstill, fun k hk _ => hstill.view k hk, List.prefix_rfl, hinside,
        hstart⟩
    | cons d r =>
      have hsplit := Chain.append_cons.mp hchain.chain
      obtain ⟨hentry, -, hlt⟩ := Volume.link_next.mp (Chain.cons_cons.mp hsplit.1).1
      rw [hentry, if_pos hlt, wp_bind]
      refine (putFat_spec hgood.ok hw hcluster.1 hcluster.2 (by decide)).mono (fun _ fs2 hput => ?_)
        fun e fs2 hput => h.healthy.not_failed (hput.2.1.of_later hstill.later)
      obtain ⟨hput, hmark⟩ := hput
      have hnodup := List.nodup_append.mp hchain.chain.nodup
      have hnot : fp.clust ∉ d :: r := (List.nodup_cons.mp hnodup.2.1).1
      have hfront : ∀ k ∈ l, k ≠ fp.clust ∧ k ∉ d :: r := fun k hk =>
        ⟨hnodup.2.2 k hk _ List.mem_cons_self, fun hm => hnodup.2.2 k hk k (List.mem_cons_of_mem _ hm) rfl⟩
      have hput' : ∀ k, v.Cluster k → k ≠ fp.clust → v.entry fs2.view k = v.entry fs.view k := fun k hk hne =>
        (hput.entry_ne hk.2 hne).trans (hstill.entry hk.2)
      have htail : FileChain v fs.view (d :: r) :=
        ⟨hsplit.1.cons, fun k hk => hchain.cluster k (List.mem_append_right _ (List.mem_cons_of_mem _ hk))⟩
      have hrest : FileChain v fs2.view (d :: r) := htail.congr fun k hk =>
        hput' k (htail.cluster k hk) fun he => hnot (he ▸ hk)
      refine (removeChain_spec hput.ok hrest).mono (fun _ fs3 hr => ?_)
        fun e fs3 he => h.healthy.not_failed (he.2.1.of_later (hstill.later.trans hput.later))
      obtain ⟨hedit, hgone, hcount, -⟩ := hr
      have hall : Edits v {c | c ∈ l ++ [fp.clust] ++ d :: r} fs fs3 := by
        refine (hstill.edits_trans (hput.edits ?_)).trans (hedit.mono fun k hk => ?_)
        · exact List.mem_append_left _ (List.mem_append_right _ (List.mem_singleton_self _))
        · exact List.mem_append_right _ hk
      have hkeep : FileChain v fs3.view (l ++ [fp.clust]) := by
        refine ⟨hchain.chain.cut (Volume.link_last.mpr ?_) fun k hk => ?_, fun k hk => hchain.cluster k ?_⟩
        · rw [hedit.entries _ hcluster.2 hnot, hmark]
          exact Volume.le_trim_eoc
        · have hkc := hchain.cluster k (List.mem_append_left _ hk)
          rw [Volume.link, Volume.link, hedit.entries k hkc.2 (hfront k hk).2, hput' k hkc (hfront k hk).1]
        · rcases List.mem_append.mp hk with hk | hk
          · exact List.mem_append_left _ hk
          · exact List.mem_append_right _ (List.mem_cons.mpr (Or.inl (List.mem_singleton.mp hk)))
      have hcells : l ++ fp.clust :: d :: r = l ++ [fp.clust] ++ d :: r := by
        rw [List.append_assoc]
        rfl
      rw [hcells] at hchain ⊢
      refine ⟨l ++ [fp.clust], .shrink h hchain hkeep hall hgone ?_, hall.other, List.prefix_append .., hinside, hstart⟩
      rw [hcount, hput.freeClust, hstill.freeClust]
      rfl

/-- What `f_truncate` comes to. -/
structure Truncated (v : Volume) (cl keep : List Nat) (fs : Fs) (fp : Fil) (s : Fs × Fil) : Prop where
  grown : Rewrites v cl keep fs s.1
  same : ∀ k, v.Primary k → v.fatbase + v.fsize ≤ k → s.1.view k = fs.view k
  shorter : keep <+: cl
  placed : Placed v s.1.view keep s.2
  fields : ∃ w, s.2 = { fp with fsize := min fp.fsize fp.fptr, sclust := keep.headD 0, written := w }

theorem Dropped.placed {keep : List Nat} {w : Bool} {n : Nat} (h : Dropped v cl keep fs fp fs')
    (hp : Placed v fs.view cl fp) :
    Placed v fs'.view keep { fp with fsize := n, sclust := keep.headD 0, written := w } := by
  obtain ⟨r, rfl⟩ := h.shorter
  have hpos : 0 < v.csize * 512 := Nat.mul_pos v.csize_pos (by decide)
  refine ⟨h.grown.chain, rfl, h.inside, fun hptr => ?_, fun hmod => ?_⟩
  · have hcur := hp.current hptr
    have hidx : (fp.fptr - 1) / (v.csize * 512) < keep.length := by
      refine (Nat.div_lt_iff_lt_mul hpos).mpr ?_
      have hin := h.inside
      have hptr' : 0 < fp.fptr := hptr
      omega
    rw [List.getElem?_append_left hidx] at hcur
    exact hcur
  · have hmod' : fp.fptr % 512 ≠ 0 := hmod
    have hsector : fp.dsect = sectorAt v (keep ++ r) (fp.fptr / 512) := hp.sector hmod'
    have hlt : fp.fptr < keep.length * (v.csize * 512) := by
      have hin := h.inside
      rw [← Nat.mul_assoc] at hin ⊢
      omega
    rw [sectorAt_append (sector_lt hlt)] at hsector
    exact hsector

theorem Dropped.head {keep : List Nat} (h : Dropped v cl keep fs fp fs') (hp : Placed v fs.view cl fp) :
    (if fp.fptr = 0 then 0 else fp.sclust) = keep.headD 0 := by
  by_cases hzero : fp.fptr = 0
  · rw [if_pos hzero, h.start hzero]
    rfl
  · obtain ⟨r, rfl⟩ := h.shorter
    have hstart := hp.start
    rw [if_neg hzero, hstart]
    cases keep with
    | nil =>
      have hin := h.inside
      rw [List.length_nil, Nat.zero_mul] at hin
      exact absurd (Nat.le_zero.mp hin) hzero
    | cons c l => rfl

/-- `f_truncate` keeps the clusters up to the position and gives the others back. -/
theorem fTruncate_spec (h : fs.Good v) (hp : Placed v fs.view cl fp)
    (hsize : fp.fsize ≤ cl.length * (v.csize * 512)) (herr : fp.error = false) (hwrite : fp.write = true) :
    wp (fTruncate v) (fun _ s => ∃ keep, Truncated v cl keep fs fp s) (fun _ _ => False) (fs, fp) := by
  have hopen : ¬fp.error = true := herr ▸ Bool.false_ne_true
  have hmay : ¬fp.write = false := fun hw => Bool.false_ne_true (hw.symm.trans hwrite)
  rw [fTruncate, wp_bind, wp_fil, if_neg hopen, if_neg hmay]
  refine wp_ite (fun hlt => ?_) fun hle => ?_
  · have hne : cl ≠ [] := by
      intro hnil
      rw [hnil, List.length_nil, Nat.zero_mul] at hsize
      omega
    rw [wp_bind, wp_modifyFil, wp_bind, wp_attempt, wp_onFst]
    refine (dropClusters_spec h hp hne).mono (fun _ fs' hr => ?_) fun _ _ => False.elim
    obtain ⟨keep, hdrop⟩ := hr
    rw [wp_bind, wp_modifyFil]
    change wp (pure ⟨⟩ : FileM PUnit) _ _ _
    rw [wp_pure]
    have hfields : (if fp.fptr = 0 then { fp with fsize := fp.fptr, written := true, sclust := 0 }
        else { fp with fsize := fp.fptr, written := true }) =
        { fp with fsize := min fp.fsize fp.fptr, sclust := keep.headD 0, written := true } := by
      rw [← hdrop.head hp, Nat.min_eq_right (Nat.le_of_lt hlt)]
      by_cases hzero : fp.fptr = 0
      · rw [if_pos hzero, if_pos hzero]
      · rw [if_neg hzero, if_neg hzero]
    refine ⟨keep, hdrop.grown, hdrop.same, hdrop.shorter, ?_, true, hfields⟩
    have hplaced := hdrop.placed (n := min fp.fsize fp.fptr) (w := true) hp
    rw [← hfields] at hplaced
    exact hplaced
  · rw [wp_pure]
    refine ⟨cl, .of_still h hp.chain (Still.refl h.ok), fun _ _ _ => rfl, List.prefix_rfl, hp, fp.written, ?_⟩
    rw [Nat.min_eq_left (Nat.not_lt.mp hle), ← hp.start]

end MiMic.Fat
