import MiMic.Fat.Growth

/-!
# Writing a file

`f_write` puts parts of a sector into the window and whole sectors past it; the growing edge of a file
is written in a window that was not filled from the card. What is read of anything else stays.
-/
namespace MiMic.Fat

open Verif Verif.Prog Verif.WriteBack

variable {v : Volume} {fs fs' fs'' : Fs} {fp : Fil} {cl cl' cl'' : List Nat} {wbuff : Bytes} {bw btw sect : Nat}

/-- A write that has found the cluster for its position. -/
structure Ready (v : Volume) (cl cl' : List Nat) (fs : Fs) (fp : Fil) (s : Fs × Fil) : Prop where
  grows : Grows v cl cl' fs s.1
  fields : ∃ c, cl'[fp.fptr / (v.csize * 512)]? = some c ∧ s.2 = { fp with sclust := cl'.headD 0, clust := c }

theorem nextCluster_spec (h : fs.Good v) (hp : Placed v fs.view cl fp) (hmod : fp.fptr % (v.csize * 512) = 0) :
    wp (nextCluster v fp) (fun r s => r = 0 ∧ Still v fs s.1 ∧ s.2 = fp ∧ v.Full fs.view ∨
      v.Cluster r ∧ ∃ cl', Ready v cl cl' fs fp (s.1, { s.2 with clust := r })) (fun _ _ => False) (fs, fp) := by
  rw [nextCluster]
  refine wp_ite (fun hzero => ?_) fun hzero => ?_
  · have hidx : fp.fptr / (v.csize * 512) = 0 := by rw [hzero, Nat.zero_div]
    cases cl with
    | nil =>
      have hstart : fp.sclust = 0 := hp.start
      rw [if_pos hstart, wp_bind, wp_onFst]
      refine (createChain_fresh h hp.chain (Or.inl ⟨rfl, rfl⟩)).mono (fun r fs' hr => ?_) fun _ _ => id
      rw [wp_bind, wp_modifyFil, wp_pure]
      rcases hr with ⟨rfl, hstill, hall⟩ | ⟨hc, hgrown, hsame⟩
      · refine Or.inl ⟨rfl, hstill, ?_, hall⟩
        exact congrArg (fun n => { fp with sclust := n }) hstart.symm
      · refine Or.inr ⟨hc, [r], ⟨hgrown, hsame, List.nil_prefix⟩, r, ?_, rfl⟩
        rw [hidx]
        rfl
    | cons d l =>
      have hd := hp.chain.cluster d List.mem_cons_self
      have hlo := hd.1
      have hstart : fp.sclust = d := hp.start
      rw [if_neg (by omega), wp_pure]
      refine Or.inr ⟨hstart ▸ hd, d :: l, .of_still h hp.chain (Still.refl h.ok), d, ?_, ?_⟩
      · rw [hidx]
        rfl
      · change { fp with clust := fp.sclust } = { fp with sclust := d, clust := d }
        rw [hstart]
  · obtain ⟨hprev, hidx⟩ := hp.boundary (Nat.pos_of_ne_zero hzero) hmod
    have hstart := hp.start
    have hnext : fp.fptr / (v.csize * 512) - 1 + 1 = fp.fptr / (v.csize * 512) := Nat.sub_add_cancel hidx
    rw [wp_onFst]
    refine (createChain_at h hp.chain hprev).mono (fun r fs' hr => ?_) fun _ _ => id
    rcases hr with ⟨rfl, -, hstill, hall⟩ | ⟨hc, cl', hgrows, hget⟩
    · exact Or.inl ⟨rfl, hstill, rfl, hall⟩
    · rw [hnext] at hget
      refine Or.inr ⟨hc, cl', hgrows, r, hget, ?_⟩
      rw [← hgrows.head (List.ne_nil_of_mem (List.mem_of_getElem? hprev)), ← hstart]

theorem writeCluster_spec (h : fs.Good v) (hp : Placed v fs.view cl fp) (hmod : fp.fptr % (v.csize * 512) = 0) :
    wp (writeCluster v) (fun r s => r = false ∧ Still v fs s.1 ∧ s.2 = fp ∧ v.Full fs.view ∨
      r = true ∧ ∃ cl', Ready v cl cl' fs fp s) (fun _ _ => False) (fs, fp) := by
  rw [writeCluster, wp_bind, wp_fil, wp_bind]
  refine (nextCluster_spec h hp hmod).mono (fun r s hr => ?_) fun _ _ => id
  obtain ⟨fs1, fp1⟩ := s
  rcases hr with ⟨rfl, hstill, hs, hall⟩ | ⟨hc, cl', hready⟩
  · rw [if_pos rfl, wp_pure]
    exact Or.inl ⟨rfl, hstill, hs, hall⟩
  · have hlo := hc.1
    have hhi := Volume.cluster_lt hc.2
    rw [if_neg (by omega), if_neg (by omega), if_neg (by omega), wp_bind, wp_modifyFil, wp_pure]
    exact Or.inr ⟨rfl, cl', hready⟩

/-- Sectors of `D` have got the contents `new`, and nothing else has changed. -/
structure Fills (v : Volume) (D : Set Nat) (new : Nat → Bytes) (fs fs' : Fs) : Prop where
  ok : fs'.Ok v
  inside : ∀ s ∈ D, fs'.view s = new s
  outside : ∀ s, v.Primary s → s ∉ D → fs'.view s = fs.view s
  lastClust : fs'.lastClust = fs.lastClust
  freeClust : fs'.freeClust = fs.freeClust
  later : Later fs.disk fs'.disk

@[simp] theorem wp_modifyFs {f : Fs → Fs} {Q : PUnit → Fs × Fil → Prop} {E : FResult → Fs × Fil → Prop} :
    wp (modifyFs f) Q E (fs, fp) ↔ Q ⟨⟩ (f fs, fp) := wp_ok rfl

/-- The window comes to stand for a sector with new contents, whatever it held. -/
theorem Fills.window (win : Bytes) (hs : v.Primary sect) (hclean : fs.wflag = false ∨ fs.winsect = sect) :
    Fills v {sect} (fun _ => win) fs { fs with winsect := sect, win, wflag := true } := by
  have h0 := v.primary_pos hs
  have hview : Fs.view { fs with winsect := sect, win, wflag := true } = Function.update fs.view sect win := by
    rcases hclean with hclean | rfl
    · rw [Fs.sectors_of_clean hclean]
      exact Cached.view_of_dirty rfl (if_neg h0)
    · exact Cached.view_modify (Fs.cached_place h0) win
  refine ⟨⟨Cached.current_of_dirty rfl, fun _ => hs, fun _ => h0⟩, fun s hd => ?_, fun s _ hd => ?_, rfl, rfl, .refl _⟩
  · rw [hview, Set.mem_singleton_iff.mp hd, Function.update_self]
  · rw [hview, Function.update_of_ne hd]

/-- Sectors of the clusters of a file may be filled. -/
theorem Fills.rewrites {D : Set Nat} {new : Nat → Bytes} (h : fs.Good v) (hc : FileChain v fs.view cl)
    (hf : Fills v D new fs fs') (hD : ∀ s ∈ D, v.database ≤ s ∧ clusterOf v s ∈ cl) : Rewrites v cl cl fs fs' := by
  have hle := v.le_database
  have hfat : ∀ c, c < v.nFatent → v.entry fs'.view c = v.entry fs.view c := fun c hlt =>
    Volume.entry_congr hlt fun s hs hfront => hf.outside s hs fun hd => by
      have hlo := (hD s hd).1
      omega
  have hfree : v.freeSet fs'.view = v.freeSet fs.view := by
    ext c
    rw [Volume.mem_freeSet, Volume.mem_freeSet]
    exact and_congr_right fun hcl => by rw [hfat c hcl.2]
  refine ⟨⟨hf.ok, h.healthy.later hf.later, fun c hcl => ?_, ?_⟩, hc.congr fun c hcl => hfat c (hc.cluster c hcl).2,
    fun c => Or.inl, fun d hd _ _ => hfat d hd.2, fun s hs hlo hout => hf.outside s hs fun hd => ?_, hf.later⟩
  · rw [hfat c hcl.2]
    exact h.sound c hcl
  · rw [hf.freeClust, hfree]
    exact h.count
  · obtain ⟨hge, hin⟩ := hD s hd
    rcases hout with hlt | hnot
    · omega
    · exact hnot hin

theorem diskWrites_spec {count sector o : Nat} (hh : Healthy fs) : wp (diskWrites count sector wbuff o)
    (fun _ fs' => ∃ n disk, fs.disk.accesses ≤ n ∧ fs' = { fs with disk := { fs.disk with sectors := disk, accesses := n } } ∧
      ∀ s, disk s = if sector ≤ s ∧ s < sector + count then part wbuff (o + 512 * (s - sector)) else fs.disk.sectors s)
    (fun _ _ => False) fs := by
  induction count generalizing fs sector o with
  | zero =>
    rw [diskWrites, wp_pure]
    exact ⟨_, _, le_rfl, rfl, fun s => (if_neg (by omega)).symm⟩
  | succ count ih =>
    rw [diskWrites, wp_bind]
    refine wp_diskWrite ?_ fun hf => hh.not_failed hf
    refine (ih (hh.later (.stored fs _ _))).mono (fun _ fs1 hb => ?_) fun _ _ => id
    obtain ⟨n, disk, hn, rfl, hdisk⟩ := hb
    refine ⟨n, disk, (Nat.le_succ _).trans hn, rfl, fun s => ?_⟩
    rw [hdisk s]
    by_cases hrest : sector + 1 ≤ s ∧ s < sector + 1 + count
    · have hoff : o + 512 + 512 * (s - (sector + 1)) = o + 512 * (s - sector) := by omega
      rw [if_pos hrest, if_pos (by omega), hoff]
    · rw [if_neg hrest]
      by_cases hs : s = sector
      · rw [hs, if_pos (by omega), Nat.sub_self, Nat.mul_zero, Nat.add_zero]
        exact Function.update_self ..
      · rw [if_neg (by omega)]
        exact Function.update_of_ne hs ..

theorem Fs.view_of_ne {s : Nat} (h : fs.winsect ≠ s) : fs.view s = fs.disk.sectors s :=
  if_neg fun hc => h (Fs.place_eq hc.2).1

/-- The card gets new sectors past the window; a window that shows one of them is refilled. -/
theorem Fills.direct {n m : Nat} {disk : Nat → Bytes} (h : fs.Ok v) (hend : sect + n ≤ 2 ^ 32)
    (hm : fs.disk.accesses ≤ m) (hdisk : ∀ s, disk s = if sect ≤ s ∧ s < sect + n
      then part wbuff (bw + 512 * (s - sect)) else fs.disk.sectors s) {fs1 : Fs}
    (hfs1 : fs1 = { fs with disk := { fs.disk with sectors := disk, accesses := m } }) :
    Fills v {s | sect ≤ s ∧ s < sect + n} (fun s => part wbuff (bw + 512 * (s - sect))) fs
      (if sectDiff fs1.winsect sect < n then
        { fs1 with win := part wbuff (bw + sectDiff fs1.winsect sect * 512), wflag := false } else fs1) := by
  have hw : fs.winsect < 2 ^ 32 := by
    by_cases hz : fs.winsect = 0
    · omega
    · exact (h.place hz).2.1
  have hin : ∀ s, sect ≤ s ∧ s < sect + n → disk s = part wbuff (bw + 512 * (s - sect)) := fun s hs => by
    rw [hdisk s, if_pos hs]
  have hout : ∀ s, ¬(sect ≤ s ∧ s < sect + n) → disk s = fs.disk.sectors s := fun s hs => by
    rw [hdisk s, if_neg hs]
  subst hfs1
  by_cases hover : sectDiff fs.winsect sect < n
  · have hrange := (sectDiff_lt hw hend).mp hover
    change Fills v _ _ fs (if sectDiff fs.winsect sect < n then _ else _)
    rw [if_pos hover]
    refine ⟨⟨fun k hk => ?_, h.place, fun hd => Bool.noConfusion hd⟩, hin, fun s _ hs => ?_, rfl, rfl, rfl, hm⟩
    · obtain ⟨rfl, -⟩ := Fs.place_eq hk
      have hwin := hin _ hrange
      rw [← Nat.mul_comm] at hwin
      rw [Cached.view_of_clean rfl]
      change part wbuff (bw + sectDiff fs.winsect sect * 512) = disk fs.winsect
      rw [hwin, sectDiff_eq hw hrange.1]
    · have hne : fs.winsect ≠ s := fun he => hs (he ▸ hrange)
      rw [Fs.sectors_of_clean rfl, Fs.view_of_ne hne]
      exact hout s hs
  · have hrange : ¬(sect ≤ fs.winsect ∧ fs.winsect < sect + n) := fun hr => hover ((sectDiff_lt hw hend).mpr hr)
    change Fills v _ _ fs (if sectDiff fs.winsect sect < n then _ else _)
    rw [if_neg hover]
    have hview : ∀ s, disk s = fs.disk.sectors s →
        Fs.view { fs with disk := { fs.disk with sectors := disk, accesses := m } } s = fs.view s := fun s hs => by
      change (if _ then _ else disk s) = _
      rw [hs]
      rfl
    refine ⟨⟨fun k hk => ?_, h.place, h.dirty⟩, fun s hs => ?_, fun s _ hs => hview s (hout s hs), rfl, rfl, rfl, hm⟩
    · obtain ⟨hk, hz⟩ := Fs.place_eq hk
      have hk' : fs.winsect = k := hk
      subst hk'
      exact (h.win_eq hz).trans (hview _ (hout _ hrange)).symm
    · have hne : fs.winsect ≠ s := fun he => hrange (he ▸ hs)
      refine Eq.trans (Fs.view_of_ne hne) (hin s hs)

theorem writeSectors_spec {n : Nat} (h : fs.Ok v) (hh : Healthy fs) {csect cc : Nat} (hend : sect + n ≤ 2 ^ 32)
    (hn : n = if v.csize < csect + cc then v.csize - csect else cc) :
    wp (writeSectors v wbuff bw sect csect cc) (fun r s => r = 512 * n ∧ s.2 = fp ∧
      Fills v {s | sect ≤ s ∧ s < sect + n} (fun s => part wbuff (bw + 512 * (s - sect))) fs s.1)
      (fun _ _ => False) (fs, fp) := by
  rw [writeSectors, ← hn, wp_bind]
  refine wp_orAbort (diskWrites_spec hh) fun _ fs1 hb => ?_
  obtain ⟨m, disk, hm, rfl, hdisk⟩ := hb
  rw [wp_bind, wp_modifyFs, wp_pure]
  exact ⟨rfl, rfl, .direct h hend hm hdisk rfl⟩

/-- What one turn of the loop does: it puts `n` bytes, and leaves the others of the file. -/
structure WriteTurn (v : Volume) (cl cl' : List Nat) (wbuff : Bytes) (bw : Nat) (fs : Fs) (fp : Fil) (n : Nat)
    (s : Fs × Fil) : Prop where
  grown : Rewrites v cl cl' fs s.1
  longer : cl <+: cl'
  put : ∀ i, i < n → byteAt v s.1.view cl' (fp.fptr + i) = wbuff (bw + i)
  kept : ∀ i, i < fp.fptr ∨ fp.fptr + n ≤ i ∧ i < fp.fsize → byteAt v s.1.view cl' i = byteAt v fs.view cl i
  placed : Placed v s.1.view cl' { s.2 with fptr := fp.fptr + n }
  fields : ∃ c d, s.2 = { fp with sclust := cl'.headD 0, clust := c, dsect := d }

theorem prefix_bytes {i : Nat} (h : cl <+: cl') (hi : i < cl.length * (v.csize * 512)) :
    i < cl'.length * (v.csize * 512) ∧ sectorAt v cl' (i / 512) = sectorAt v cl (i / 512) := by
  obtain ⟨r, rfl⟩ := h
  refine ⟨Nat.lt_of_lt_of_le hi (Nat.mul_le_mul_right _ ?_), sectorAt_append (sector_lt hi)⟩
  rw [List.length_append]
  exact Nat.le_add_right ..

/-- The position of a turn, from the chain, what was filled and where. -/
theorem WriteTurn.of_fills {fs1 fs2 fs3 : Fs} {fp1 : Fil} {D : Set Nat} {new : Nat → Bytes} {c d n : Nat}
    (hp : Placed v fs.view cl fp) (hsize : fp.fsize ≤ cl.length * (v.csize * 512))
    (hready : Ready v cl cl' fs fp (fs1, fp1)) (hstill : Still v fs1 fs2) (hf : Fills v D new fs2 fs3)
    (hD : ∀ s ∈ D, v.database ≤ s ∧ clusterOf v s ∈ cl')
    (hput : ∀ i < n, sectorAt v cl' ((fp.fptr + i) / 512) ∈ D ∧
      new (sectorAt v cl' ((fp.fptr + i) / 512)) ((fp.fptr + i) % 512) = wbuff (bw + i))
    (hkept : ∀ i, i < fp.fptr ∨ fp.fptr + n ≤ i ∧ i < fp.fsize → sectorAt v cl' (i / 512) ∈ D →
      new (sectorAt v cl' (i / 512)) (i % 512) = fs2.view (sectorAt v cl' (i / 512)) (i % 512))
    (hc : cl'[fp.fptr / (v.csize * 512)]? = some c) (hn : 0 < n)
    (hle : fp.fptr % (v.csize * 512) + n ≤ v.csize * 512)
    (hd : (fp.fptr + n) % 512 ≠ 0 → d = sectorAt v cl' ((fp.fptr + n) / 512)) :
    WriteTurn v cl cl' wbuff bw fs fp n (fs3, { fp with sclust := cl'.headD 0, clust := c, dsect := d }) := by
  obtain ⟨hgrown, hsame, hlonger⟩ := hready.grows
  have hgrown2 : Rewrites v cl' cl' fs1 fs2 := .of_still hgrown.good hgrown.chain hstill
  have hgrown3 := hf.rewrites hgrown2.good hgrown2.chain hD
  have hsub : cl' ⊆ cl' := fun _ hm => hm
  refine ⟨(hgrown.trans hgrown2 hsub).trans hgrown3 hsub, hlonger, fun i hi => ?_, fun i hi => ?_, ?_, c, d, rfl⟩
  · obtain ⟨hmem, hbyte⟩ := hput i hi
    rw [byteAt, hf.inside _ hmem, hbyte]
  · have hlt : i < cl.length * (v.csize * 512) := by
      have hinside := hp.inside
      omega
    obtain ⟨hlt', hsect⟩ := prefix_bytes hlonger hlt
    have hprimary := hgrown.chain.primary (sector_lt hlt')
    have hlo : v.fatbase + v.fsize ≤ sectorAt v cl' (i / 512) := Nat.le_trans v.le_database database_le_sectorAt
    have hfs2 : fs2.view (sectorAt v cl' (i / 512)) = fs.view (sectorAt v cl (i / 512)) := by
      rw [hstill.view _ hprimary, hsame _ hprimary hlo, hsect]
    by_cases hmem : sectorAt v cl' (i / 512) ∈ D
    · rw [byteAt, byteAt, hf.inside _ hmem, hkept i hi hmem, hfs2]
    · rw [byteAt, byteAt, hf.outside _ hprimary hmem, hfs2]
  · have hp' : Placed v fs3.view cl' { fp with sclust := cl'.headD 0, clust := c, dsect := d, fptr := fp.fptr + n } := by
      exact ⟨hgrown3.chain, rfl, (cluster_step hc hn hle).1, fun _ => (cluster_step hc hn hle).2, hd⟩
    exact hp'

/-- The window gets the bytes, over what it is known to hold. -/
theorem writePart_spec (h : fs.Ok v) (hh : Healthy fs) (hs : v.Primary fp.dsect) (hbtw : 0 < btw) :
    wp (writePart v wbuff bw btw) (fun n s => s.2 = fp ∧ 0 < n ∧ n ≤ btw ∧ fp.fptr % 512 + n ≤ 512 ∧
      ∃ fs1, Still v fs fs1 ∧
        Fills v {fp.dsect} (fun _ => memCpy (fs1.view fp.dsect) (fp.fptr % 512) wbuff bw n) fs1 s.1)
      (fun _ _ => False) (fs, fp) := by
  have hmod := Nat.mod_lt fp.fptr (y := 512) (by decide)
  have h0 := v.primary_pos hs
  have hn : ∀ n, n = (if btw < 512 - fp.fptr % 512 then btw else 512 - fp.fptr % 512) →
      0 < n ∧ n ≤ btw ∧ fp.fptr % 512 + n ≤ 512 := by
    intro n hn
    split at hn <;> omega
  rw [writePart, wp_bind, wp_fil]
  generalize (if btw < 512 - fp.fptr % 512 then btw else 512 - fp.fptr % 512) = n at hn ⊢
  obtain ⟨hpos, hle, hin⟩ := hn n rfl
  rw [wp_bind]
  refine wp_orAbort (moveWindow_fine h hh fun _ => hs) fun _ fs1 hmove => ?_
  obtain ⟨hstill, hshow, -⟩ := hmove
  have hw := hshow h0
  rw [wp_bind, wp_modifyFs, wp_pure]
  refine ⟨rfl, hpos, hle, hin, fs1, hstill, ?_⟩
  have hwin : fs1.win = fs1.view fp.dsect := by
    rw [hstill.ok.win_eq (hw ▸ h0), hw]
  have hfill := Fills.window (memCpy fs1.win (fp.fptr % 512) wbuff bw n) hs (Or.inr hw)
  rw [hwin] at hfill ⊢
  rwa [← hw] at hfill ⊢

theorem moveWindow_here {Q : PUnit → Fs → Prop} {E : FResult → Fs → Prop} (hw : fs.winsect = sect) (hq : Q ⟨⟩ fs) :
    wp (moveWindow v sect) Q E fs := by
  rw [moveWindow, wp_bind, wp_get, if_pos hw, wp_pure]
  exact hq

/-- At the growing edge, over whatever the window held; elsewhere, over the sector. -/
theorem writeEdge_spec (h : fs.Ok v) (hh : Healthy fs) (hs : v.Primary sect) (hbtw : 0 < btw) :
    wp (do writeEdge v sect; some <$> writePart v wbuff bw btw) (fun r s => ∃ n, r = some n ∧
      s.2 = { fp with dsect := sect } ∧ 0 < n ∧ n ≤ btw ∧ fp.fptr % 512 + n ≤ 512 ∧
      ∃ fs1 base, Still v fs fs1 ∧ Fills v {sect} (fun _ => memCpy base (fp.fptr % 512) wbuff bw n) fs1 s.1 ∧
        (fp.fsize ≤ fp.fptr ∨ base = fs1.view sect)) (fun _ _ => False) (fs, fp) := by
  have hmod := Nat.mod_lt fp.fptr (y := 512) (by decide)
  rw [wp_bind, writeEdge, wp_bind, wp_fil]
  refine wp_ite (fun hedge => ?_) fun hedge => ?_
  · rw [wp_bind]
    refine wp_orAbort (moveWindow_fine h hh fun hc => absurd rfl hc) fun _ fs1 hmove => ?_
    obtain ⟨hstill, -, hclean, hsame⟩ := hmove
    have hclean1 : fs1.wflag = false := by
      by_cases h0 : fs.winsect = 0
      · rw [hsame h0]
        exact h.clean h0
      · exact hclean h0
    have hn : ∀ n, n = (if btw < 512 - fp.fptr % 512 then btw else 512 - fp.fptr % 512) →
        0 < n ∧ n ≤ btw ∧ fp.fptr % 512 + n ≤ 512 := by
      intro n hn
      split at hn <;> omega
    rw [wp_bind, wp_modifyFs, wp_modifyFil, wp_map, writePart, wp_bind, wp_fil, wp_bind, orAbort, wp_bind,
      wp_attempt, wp_onFst]
    refine moveWindow_here rfl ?_
    rw [wp_pure, wp_bind, wp_modifyFs, wp_pure]
    change ∃ n, some (if btw < 512 - fp.fptr % 512 then btw else 512 - fp.fptr % 512) = some n ∧ _
    generalize (if btw < 512 - fp.fptr % 512 then btw else 512 - fp.fptr % 512) = n at hn ⊢
    obtain ⟨hpos, hle, hin⟩ := hn n rfl
    exact ⟨n, rfl, rfl, hpos, hle, hin, fs1, fs1.win, hstill, .window _ hs (Or.inl hclean1), Or.inl hedge⟩
  · rw [wp_modifyFil, wp_map]
    refine wp.mono (writePart_spec h hh hs hbtw) (fun n s hn => ?_) fun _ _ => id
    obtain ⟨hs2, hpos, hle, hin, fs1, hstill, hfill⟩ := hn
    exact ⟨n, rfl, hs2, hpos, hle, hin, fs1, fs1.view sect, hstill, hfill, Or.inr rfl⟩

theorem memCpy_at {dst src : Bytes} {o so n i : Nat} (hi : i < n) : memCpy dst o src so n (o + i) = src (so + i) := by
  rw [memCpy, if_pos (by omega), Nat.add_sub_cancel_left]

theorem memCpy_ne {dst src : Bytes} {o so n j : Nat} (hj : j < o ∨ o + n ≤ j) : memCpy dst o src so n j = dst j :=
  if_neg (by omega)

section Turn

variable {fs1 fs2 fs3 : Fs} {fp1 : Fil} {c n : Nat}

/-- A sector of a file lies in one of its clusters. -/
theorem FileChain.of_sector {view : Nat → Bytes} {k : Nat} (h : FileChain v view cl) (hk : k < cl.length * v.csize) :
    v.database ≤ sectorAt v cl k ∧ clusterOf v (sectorAt v cl k) ∈ cl := by
  refine ⟨database_le_sectorAt, ?_⟩
  rw [clusterOf_sectorAt (h.at_cluster hk).1]
  exact getD_mem (index_lt hk)

/-- Where the cluster of the position lies in the chain, its sector does too. -/
theorem pos_sector {pos : Nat} (hc : cl[pos / (v.csize * 512)]? = some c) : pos / 512 < cl.length * v.csize := by
  have hidx : pos / (v.csize * 512) < cl.length := (List.getElem?_eq_some_iff.mp hc).1
  rw [div_sector] at hidx
  exact (Nat.div_lt_iff_lt_mul v.csize_pos).mp hidx

/-- A turn that puts part of a sector. -/
theorem WriteTurn.of_part {base : Bytes} (hp : Placed v fs.view cl fp)
    (hsize : fp.fsize ≤ cl.length * (v.csize * 512)) (hready : Ready v cl cl' fs fp (fs1, fp1))
    (hstill : Still v fs1 fs2)
    (hf : Fills v {sectorAt v cl' (fp.fptr / 512)} (fun _ => memCpy base (fp.fptr % 512) wbuff bw n) fs2 fs3)
    (hbase : fp.fptr % 512 = 0 ∧ fp.fsize ≤ fp.fptr ∨ base = fs2.view (sectorAt v cl' (fp.fptr / 512)))
    (hc : cl'[fp.fptr / (v.csize * 512)]? = some c) (hn : 0 < n) (hin : fp.fptr % 512 + n ≤ 512) :
    WriteTurn v cl cl' wbuff bw fs fp n
      (fs3, { fp with sclust := cl'.headD 0, clust := c, dsect := sectorAt v cl' (fp.fptr / 512) }) := by
  have hchain := hready.grows.grown.chain
  have hlonger := hready.grows.longer
  have hk := pos_sector hc
  have hinside := hp.inside
  have hcl := cluster_mod fp.fptr v.csize
  have hoff := Nat.mod_lt (fp.fptr / 512) v.csize_pos
  refine .of_fills hp hsize hready hstill hf (fun s hs => ?_) (fun i hi => ?_) (fun i hi hmem => ?_) hc hn ?_ fun hne => ?_
  · rw [Set.mem_singleton_iff.mp hs]
    exact hchain.of_sector hk
  · have hdiv : (fp.fptr + i) / 512 = fp.fptr / 512 := by omega
    have hrem : (fp.fptr + i) % 512 = fp.fptr % 512 + i := by omega
    rw [hdiv, hrem]
    exact ⟨rfl, memCpy_at hi⟩
  · have hlt := prefix_bytes (v := v) hlonger (show i < cl.length * (v.csize * 512) by omega)
    have hsame := hchain.sectorAt_inj (sector_lt hlt.1) hk (Set.mem_singleton_iff.mp hmem)
    rw [memCpy_ne (by omega), hsame]
    rcases hbase with hbase | hbase
    · omega
    · rw [hbase]
  · rw [hcl]
    omega
  · have hsame : (fp.fptr + n) / 512 = fp.fptr / 512 := by omega
    rw [hsame]

/-- A turn that puts whole sectors. -/
theorem WriteTurn.of_sectors {m : Nat} (hp : Placed v fs.view cl fp)
    (hsize : fp.fsize ≤ cl.length * (v.csize * 512)) (hready : Ready v cl cl' fs fp (fs1, fp1))
    (hstill : Still v fs1 fs2) (hmod : fp.fptr % 512 = 0) (hsect : sect = sectorAt v cl' (fp.fptr / 512))
    (hf : Fills v {s | sect ≤ s ∧ s < sect + m} (fun s => part wbuff (bw + 512 * (s - sect))) fs2 fs3)
    (hc : cl'[fp.fptr / (v.csize * 512)]? = some c) (hm : 0 < m) (hin : fp.fptr / 512 % v.csize + m ≤ v.csize) :
    WriteTurn v cl cl' wbuff bw fs fp (512 * m)
      (fs3, { fp with sclust := cl'.headD 0, clust := c, dsect := fp.dsect }) := by
  have hchain := hready.grows.grown.chain
  have hlonger := hready.grows.longer
  have hk := pos_sector hc
  have hinside := hp.inside
  have hcl := cluster_mod fp.fptr v.csize
  have hsectors := fun j (hj : j < m) => hchain.sectors hk hin hj
  refine .of_fills hp hsize hready hstill hf (fun s hs => ?_) (fun i hi => ?_) (fun i hi hmem => ?_) hc (by omega) ?_
    fun hne => absurd (by omega) hne
  · obtain ⟨j, rfl⟩ := Nat.exists_eq_add_of_le hs.1
    have hj : j < m := by
      have hlt := hs.2
      omega
    obtain ⟨hlt, hadd, -⟩ := hsectors j hj
    rw [hsect, ← hadd]
    exact hchain.of_sector hlt
  · have hdiv : (fp.fptr + i) / 512 = fp.fptr / 512 + i / 512 := by omega
    have hrem : (fp.fptr + i) % 512 = i % 512 := by omega
    have hi' : i / 512 < m := by omega
    have hsum : bw + 512 * (i / 512) + i % 512 = bw + i := by omega
    rw [hdiv, hrem, (hsectors _ hi').2.1, ← hsect, Nat.add_sub_cancel_left, part, hsum]
    exact ⟨⟨Nat.le_add_right .., Nat.add_lt_add_left hi' _⟩, rfl⟩
  · have hlt := prefix_bytes (v := v) hlonger (show i < cl.length * (v.csize * 512) by omega)
    obtain ⟨j, hj⟩ := Nat.exists_eq_add_of_le hmem.1
    have hj' : j < m := by
      have hhi := hmem.2
      omega
    obtain ⟨hlt', hadd, -⟩ := hsectors j hj'
    have hsame : i / 512 = fp.fptr / 512 + j := by
      refine hchain.sectorAt_inj (sector_lt hlt.1) hlt' ?_
      rw [hj, hsect, hadd]
    omega
  · rw [hcl]
    omega

end Turn

theorem writeBody_spec (h : fs.Good v) (hp : Placed v fs.view cl fp) (hsize : fp.fsize ≤ cl.length * (v.csize * 512))
    (hbtw : 0 < btw) : wp (writeBody v wbuff bw btw)
    (fun r s => r = none ∧ Still v fs s.1 ∧ s.2 = fp ∧ v.Full fs.view ∨
      ∃ n cl', r = some n ∧ 0 < n ∧ n ≤ btw ∧ WriteTurn v cl cl' wbuff bw fs fp n s)
    (fun _ _ => False) (fs, fp) := by
  have hcl := cluster_mod fp.fptr v.csize
  have hcsize := v.csize_pos
  have hoff := Nat.mod_lt (fp.fptr / 512) hcsize
  have hhere : ∀ c, cl[fp.fptr / (v.csize * 512)]? = some c → fp.clust = c → Ready v cl cl fs fp (fs, fp) := by
    intro c hc hclust
    refine ⟨.of_still h hp.chain (Still.refl h.ok), c, hc, ?_⟩
    rw [← hp.start, ← hclust]
  rw [writeBody, wp_bind, wp_fil, sectorOffset_eq]
  refine wp_ite (fun hmod => ?_) fun hmod => ?_
  · have hboundary : wp (if fp.fptr / 512 % v.csize = 0 then writeCluster v else pure true)
        (fun r s => r = false ∧ Still v fs s.1 ∧ s.2 = fp ∧ v.Full fs.view ∨
          r = true ∧ ∃ cl', Ready v cl cl' fs fp s) (fun _ _ => False) (fs, fp) := by
      refine wp_ite (fun hzero => writeCluster_spec h hp (by omega)) fun hzero => ?_
      rw [wp_pure]
      have hc := hp.within (by omega)
      exact Or.inr ⟨rfl, cl, hhere _ hc rfl⟩
    rw [wp_bind]
    refine hboundary.mono (fun r s hs => ?_) fun _ _ => id
    rcases hs with ⟨rfl, hfull⟩ | ⟨rfl, cl', hready⟩
    · rw [if_neg Bool.false_ne_true, wp_pure]
      exact Or.inl ⟨rfl, hfull⟩
    obtain ⟨fs1, fp1⟩ := s
    obtain ⟨c, hc, hfp1⟩ := hready.fields
    have hfp1' : fp1 = { fp with sclust := cl'.headD 0, clust := c } := hfp1
    subst hfp1'
    have hgood := hready.grows.grown.good
    have hchain := hready.grows.grown.chain
    have hk := pos_sector hc
    obtain ⟨hsect, hne⟩ := sector_eq hc (hchain.cluster c (List.mem_of_getElem? hc))
    have hback : wp (if fs1.winsect = fp.dsect then (orAbort (moveWindow v 0) : FileM PUnit) else pure ⟨⟩)
        (fun _ s => Still v fs1 s.1 ∧ s.2 = { fp with sclust := cl'.headD 0, clust := c }) (fun _ _ => False)
        (fs1, { fp with sclust := cl'.headD 0, clust := c }) := by
      refine wp_ite (fun _ => ?_) fun _ => ?_
      · exact wp_orAbort (moveWindow_fine hgood.ok hgood.healthy fun hc => absurd rfl hc) fun _ fs2 hmove =>
          ⟨hmove.1, rfl⟩
      · rw [wp_pure]
        exact ⟨Still.refl hgood.ok, rfl⟩
    rw [if_pos rfl, wp_bind, wp_get, wp_bind]
    refine hback.mono (fun _ s hs => ?_) fun _ _ => id
    obtain ⟨fs2, fp2⟩ := s
    obtain ⟨hstill, hfp2⟩ := hs
    have hfp2' : fp2 = { fp with sclust := cl'.headD 0, clust := c } := hfp2
    subst hfp2'
    rw [wp_bind, wp_fil]
    change wp (if clust2sect v c = 0 then _ else _) _ _ _
    rw [if_neg hne, hsect]
    have hh2 := hgood.healthy.later hstill.later
    have hprimary := hchain.primary hk
    refine wp_ite (fun hwhole => ?_) fun hwhole => ?_
    · obtain ⟨n, hn⟩ : ∃ n, n = if v.csize < fp.fptr / 512 % v.csize + btw / 512
          then v.csize - fp.fptr / 512 % v.csize else btw / 512 := ⟨_, rfl⟩
      have hbound : 0 < n ∧ n ≤ btw / 512 ∧ fp.fptr / 512 % v.csize + n ≤ v.csize := by
        split at hn <;> omega
      obtain ⟨hpos, hle, hin⟩ := hbound
      have hend : sectorAt v cl' (fp.fptr / 512) + n ≤ 2 ^ 32 := by
        have hlast := (hchain.sectors hk hin (show n - 1 < n by omega)).2.2.2.1
        omega
      rw [wp_map]
      refine wp.mono (writeSectors_spec hstill.ok hh2 hend hn) (fun r s hr => ?_) fun _ _ => id
      obtain ⟨rfl, hs2, hfill⟩ := hr
      obtain ⟨fs3, fp3⟩ := s
      have hs2' : fp3 = { fp with sclust := cl'.headD 0, clust := c, dsect := fp.dsect } := hs2
      subst hs2'
      exact Or.inr ⟨512 * n, cl', rfl, by omega, by omega, .of_sectors hp hsize hready hstill hmod rfl hfill hc hpos hin⟩
    · refine wp.mono (writeEdge_spec hstill.ok hh2 hprimary hbtw) (fun r s hr => ?_) fun _ _ => id
      obtain ⟨n, rfl, hs2, hpos, hle, hin, fs3, base, hstill3, hfill, hbase⟩ := hr
      obtain ⟨fs4, fp4⟩ := s
      have hs2' : fp4 = { fp with sclust := cl'.headD 0, clust := c, dsect := sectorAt v cl' (fp.fptr / 512) } := hs2
      subst hs2'
      exact Or.inr ⟨n, cl', rfl, hpos, hle, .of_part hp hsize hready (hstill.trans hstill3) hfill
        (hbase.imp_left fun he => ⟨hmod, he⟩) hc hpos hin⟩
  · have hc := hp.within (by omega)
    have hd := hp.sector hmod
    have hprimary : v.Primary fp.dsect := hd ▸ hp.chain.primary (pos_sector hc)
    rw [wp_map]
    refine (writePart_spec h.ok h.healthy hprimary hbtw).mono (fun n s hn => ?_) fun _ _ => id
    obtain ⟨hs, hpos, hle, hin, fs1, hstill, hfill⟩ := hn
    obtain ⟨fs2, fp2⟩ := s
    have hs' : fp2 = { fp with sclust := cl.headD 0, clust := fp.clust, dsect := sectorAt v cl (fp.fptr / 512) } := by
      rw [← hp.start, ← hd]
      exact hs
    subst hs'
    rw [hd] at hfill
    exact Or.inr ⟨n, cl, rfl, hpos, hle, .of_part hp hsize (hhere _ hc rfl) hstill hfill (Or.inr rfl) hc hpos hin⟩

theorem Placed.fields_eq {view : Nat → Bytes} (h : Placed v view cl fp) :
    fp = { fp with sclust := cl.headD 0, clust := fp.clust, dsect := fp.dsect } := by
  rw [← h.start]

theorem WriteTurn.nothing (h : fs.Good v) (hp : Placed v fs.view cl fp)
    (hsize : fp.fsize ≤ cl.length * (v.csize * 512)) (hs : Still v fs fs') :
    WriteTurn v cl cl wbuff bw fs fp 0 (fs', fp) := by
  refine ⟨.of_still h hp.chain hs, List.prefix_rfl, fun i hi => absurd hi (Nat.not_lt_zero i), fun i hi => ?_,
    hp.still hs, fp.clust, fp.dsect, hp.fields_eq⟩
  have hinside := hp.inside
  exact hp.chain.byteAt_still hs (by omega)

/-- Two turns are as good as one. -/
theorem WriteTurn.append {n m : Nat} {s t : Fs × Fil} (h : WriteTurn v cl cl' wbuff bw fs fp n s)
    (h' : WriteTurn v cl' cl'' wbuff (bw + n) s.1 { s.2 with fptr := fp.fptr + n } m t) :
    WriteTurn v cl cl'' wbuff bw fs fp (n + m) (t.1, { t.2 with fptr := fp.fptr }) := by
  obtain ⟨fs1, fp1⟩ := s
  obtain ⟨c, d, hfp1⟩ := h.fields
  have hfp1' : fp1 = { fp with sclust := cl'.headD 0, clust := c, dsect := d } := hfp1
  subst hfp1'
  obtain ⟨fs2, fp2⟩ := t
  obtain ⟨c', d', hfp2⟩ := h'.fields
  have hfp2' : fp2 = { fp with fptr := fp.fptr + n, sclust := cl''.headD 0, clust := c', dsect := d' } := hfp2
  subst hfp2'
  have hkept : ∀ i, i < fp.fptr + n ∨ fp.fptr + n + m ≤ i ∧ i < fp.fsize →
      byteAt v fs2.view cl'' i = byteAt v fs1.view cl' i := h'.kept
  have hput : ∀ i, i < m → byteAt v fs2.view cl'' (fp.fptr + n + i) = wbuff (bw + n + i) := h'.put
  refine ⟨h.grown.trans h'.grown h'.longer.subset, h.longer.trans h'.longer, fun i hi => ?_, fun i hi => ?_, ?_,
    c', d', rfl⟩
  · by_cases hin : i < n
    · exact (hkept _ (Or.inl (by omega))).trans (h.put i hin)
    · obtain ⟨j, rfl⟩ := Nat.exists_eq_add_of_le (Nat.not_lt.mp hin)
      rw [← Nat.add_assoc, ← Nat.add_assoc]
      exact hput j (by omega)
  · refine (hkept i ?_).trans (h.kept i ?_)
    · omega
    · omega
  · have hplaced := h'.placed
    rw [← Nat.add_assoc]
    exact hplaced

/-- The loop puts all bytes, or the volume is full. -/
theorem writeLoop_spec {fuel : Nat} (h : fs.Good v) (hp : Placed v fs.view cl fp)
    (hsize : fp.fsize ≤ cl.length * (v.csize * 512)) (hfuel : btw ≤ fuel) :
    wp (writeLoop v wbuff fuel bw btw) (fun r s => ∃ n cl', r = bw + n ∧ n ≤ btw ∧ (n < btw → v.Full s.1.view) ∧
      s.2.fptr = fp.fptr + n ∧ WriteTurn v cl cl' wbuff bw fs fp n (s.1, { s.2 with fptr := fp.fptr }))
      (fun _ _ => False) (fs, fp) := by
  induction fuel generalizing fs fp cl bw btw with
  | zero =>
    obtain rfl := Nat.le_zero.mp hfuel
    rw [writeLoop, wp_pure]
    exact ⟨0, cl, rfl, le_rfl, fun hc => absurd hc (Nat.lt_irrefl 0), rfl, .nothing h hp hsize (Still.refl h.ok)⟩
  | succ fuel ih =>
    rw [writeLoop]
    refine wp_ite (fun hzero => ?_) fun hzero => ?_
    · obtain rfl := hzero
      rw [wp_pure]
      exact ⟨0, cl, rfl, le_rfl, fun hc => absurd hc (Nat.lt_irrefl 0), rfl, .nothing h hp hsize (Still.refl h.ok)⟩
    rw [wp_bind]
    refine (writeBody_spec h hp hsize (Nat.pos_of_ne_zero hzero)).mono (fun r s hr => ?_) fun _ _ => id
    obtain ⟨fs1, fp1⟩ := s
    rcases hr with ⟨rfl, hstill, hs, hfull⟩ | ⟨n, cl', rfl, hpos, hle, hturn⟩
    · have hs' : fp1 = fp := hs
      subst hs'
      rw [wp_pure]
      exact ⟨0, cl, rfl, Nat.zero_le _, fun _ => hfull.still hstill, rfl, .nothing h hp hsize hstill⟩
    · obtain ⟨c, d, hfp1⟩ := hturn.fields
      have hfp1' : fp1 = { fp with sclust := cl'.headD 0, clust := c, dsect := d } := hfp1
      subst hfp1'
      have hsize' : fp.fsize ≤ cl'.length * (v.csize * 512) :=
        Nat.le_trans hsize (Nat.mul_le_mul_right _ hturn.longer.length_le)
      change wp (modifyFil (fun fp => { fp with fptr := fp.fptr + n }) >>= fun _ =>
        writeLoop v wbuff fuel (bw + n) (btw - n)) _ _ _
      rw [wp_bind, wp_modifyFil]
      refine wp.mono (ih hturn.grown.good hturn.placed hsize' (by omega)) (fun r' s' hr' => ?_) fun _ _ => id
      obtain ⟨m, cl'', rfl, hm, hfull, hptr, hturn'⟩ := hr'
      obtain ⟨fs2, fp2⟩ := s'
      have hall := hturn.append (t := (fs2, { fp2 with fptr := fp.fptr + n })) hturn'
      refine ⟨n + m, cl'', Nat.add_assoc .., by omega, fun hlt => hfull (by omega), ?_, hall⟩
      rw [hptr]
      exact Nat.add_assoc ..

/-- What `f_write` comes to when it put `n` bytes. -/
structure Written (v : Volume) (cl cl' : List Nat) (wbuff : Bytes) (fs : Fs) (fp : Fil) (n : Nat)
    (s : Fs × Fil) : Prop where
  grown : Rewrites v cl cl' fs s.1
  longer : cl <+: cl'
  put : ∀ i, i < n → byteAt v s.1.view cl' (fp.fptr + i) = wbuff i
  kept : ∀ i, i < fp.fptr ∨ fp.fptr + n ≤ i ∧ i < fp.fsize → byteAt v s.1.view cl' i = byteAt v fs.view cl i
  placed : Placed v s.1.view cl' s.2
  fields : ∃ c d, s.2 = { fp with
    fptr := fp.fptr + n, fsize := max fp.fsize (fp.fptr + n), written := true, sclust := cl'.headD 0, clust := c, dsect := d }

/-- `f_write` puts the bytes at the position; fewer than asked for only when no cluster is free, none when
the size would reach 4 GB. -/
theorem fWrite_spec (h : fs.Good v) (hp : Placed v fs.view cl fp) (hsize : fp.fsize ≤ cl.length * (v.csize * 512))
    (hlt : fp.fsize < 2 ^ 32) (hbtw : btw < 2 ^ 32) (herr : fp.error = false) (hwrite : fp.write = true) :
    wp (fWrite v wbuff btw) (fun n s => (n ≤ if fp.fsize + btw < 2 ^ 32 then btw else 0) ∧
      ((n < if fp.fsize + btw < 2 ^ 32 then btw else 0) → v.Full s.1.view) ∧
      ∃ cl', Written v cl cl' wbuff fs fp n s) (fun _ _ => False) (fs, fp) := by
  have hopen : ¬fp.error = true := herr ▸ Bool.false_ne_true
  have hmay : ¬fp.write = false := fun hw => Bool.false_ne_true (hw.symm.trans hwrite)
  have hasked : (if (fp.fsize + btw) % 2 ^ 32 < fp.fsize then 0 else btw) =
      if fp.fsize + btw < 2 ^ 32 then btw else 0 := by
    split <;> split <;> omega
  rw [fWrite, wp_bind, wp_fil, if_neg hopen, if_neg hmay]
  change wp (writeLoop v wbuff (if (fp.fsize + btw) % 2 ^ 32 < fp.fsize then 0 else btw) 0
    (if (fp.fsize + btw) % 2 ^ 32 < fp.fsize then 0 else btw) >>= _) _ _ _
  rw [hasked, wp_bind]
  refine (writeLoop_spec h hp hsize le_rfl).mono (fun r s hr => ?_) fun _ _ => id
  obtain ⟨n, cl', rfl, hle, hfull, hptr, hturn⟩ := hr
  obtain ⟨fs1, fp1⟩ := s
  obtain ⟨c, d, hfp⟩ := hturn.fields
  have hfp1 : fp1 = { fp with fptr := fp.fptr + n, sclust := cl'.headD 0, clust := c, dsect := d } := by
    have hback := congrArg (fun f : Fil => { f with fptr := fp1.fptr }) hfp
    exact hback.trans (congrArg (fun k => { fp with fptr := k, sclust := cl'.headD 0, clust := c, dsect := d }) hptr)
  subst hfp1
  have hmax : (if fp.fsize < fp.fptr + n then fp.fptr + n else fp.fsize) = max fp.fsize (fp.fptr + n) := by
    split <;> omega
  have hplaced := hturn.placed
  have hput := hturn.put
  simp only [Nat.zero_add] at hput
  rw [wp_bind, wp_modifyFil, wp_pure, Nat.zero_add]
  refine ⟨hle, hfull, cl', hturn.grown, hturn.longer, hput, hturn.kept, ?_, c, d, ?_⟩
  · exact ⟨hplaced.chain, hplaced.start, hplaced.inside, hplaced.current, hplaced.sector⟩
  · exact congrArg (fun k : Nat => { fp with
      fptr := fp.fptr + n, fsize := k, written := true, sclust := cl'.headD 0, clust := c, dsect := d }) hmax

end MiMic.Fat
