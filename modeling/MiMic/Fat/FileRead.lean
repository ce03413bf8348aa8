import MiMic.Fat.FileData

/-!
# Reading a file

`f_read` takes whole sectors from the card, past the window, and the rest out of the window. On a
card whose commands do not fail the buffer holds what is read of the file, whichever way it came.
-/
namespace MiMic.Fat

open Verif Verif.Prog Verif.WriteBack

/-- No command to the card fails. -/
def Healthy (fs : Fs) : Prop := ∀ n, fs.disk.fails n = false

variable {v : Volume} {fs fs' : Fs} {fp : Fil} {cl : List Nat} {buff : Bytes} {br btr : Nat}

theorem Healthy.not_failed {d : Disk} (h : Healthy fs) : ¬Failed fs.disk d := by
  intro hf
  obtain ⟨n, -, -, hn⟩ := hf
  exact absurd (h n) (by rw [hn]; exact Bool.noConfusion)

theorem Healthy.later (h : Healthy fs) (hl : Later fs.disk fs'.disk) : Healthy fs' := fun n => by
  rw [hl.fails]
  exact h n

@[simp] theorem wp_fil {Q : Fil → Fs × Fil → Prop} {E : FResult → Fs × Fil → Prop} :
    wp fil Q E (fs, fp) ↔ Q fp (fs, fp) := wp_ok rfl

@[simp] theorem wp_modifyFil {f : Fil → Fil} {Q : PUnit → Fs × Fil → Prop} {E : FResult → Fs × Fil → Prop} :
    wp (modifyFil f) Q E (fs, fp) ↔ Q ⟨⟩ (fs, f fp) := wp_ok rfl

theorem wp_orAbort {α : Type} {m : FatM α} {P : α → Fs → Prop} {Q : α → Fs × Fil → Prop}
    {E : FResult → Fs × Fil → Prop} (h : wp m P (fun _ _ => False) fs)
    (hP : ∀ a fs', P a fs' → Q a (fs', fp)) : wp (orAbort m) Q E (fs, fp) := by
  rw [orAbort, wp_bind, wp_attempt, wp_onFst]
  refine h.mono (fun a fs' ha => ?_) fun _ _ => False.elim
  rw [wp_pure]
  exact hP a fs' ha

theorem moveWindow_fine {sector : Nat} (h : fs.Ok v) (hh : Healthy fs) (hs : sector ≠ 0 → v.Primary sector) :
    wp (moveWindow v sector) (fun _ fs' => Still v fs fs' ∧ (sector ≠ 0 → fs'.winsect = sector) ∧
      (fs.winsect ≠ sector → fs'.wflag = false) ∧ (fs.winsect = sector → fs' = fs)) (fun _ _ => False) fs :=
  (moveWindow_spec h hs).mono (fun _ _ => id) fun _ _ he => hh.not_failed he.2.1

/-- Nothing but the number of accesses has changed. -/
def Counted (fs fs' : Fs) : Prop :=
  ∃ n, fs.disk.accesses ≤ n ∧ fs' = { fs with disk := { fs.disk with accesses := n } }

theorem Counted.still (h : fs.Ok v) (hc : Counted fs fs') : Still v fs fs' := by
  obtain ⟨n, hn, rfl⟩ := hc
  exact ⟨⟨h.current, h.place, h.dirty⟩, fun _ _ => rfl, rfl, rfl, ⟨rfl, hn⟩⟩

theorem diskReads_spec {count sector o : Nat} (hh : Healthy fs) : wp (diskReads count sector buff o)
    (fun b fs' => Counted fs fs' ∧ ∀ j, b j = if o ≤ j ∧ j < o + 512 * count
      then fs.disk.sectors (sector + (j - o) / 512) ((j - o) % 512) else buff j) (fun _ _ => False) fs := by
  induction count generalizing fs sector buff o with
  | zero =>
    rw [diskReads, wp_pure]
    refine ⟨⟨fs.disk.accesses, le_rfl, rfl⟩, fun j => ?_⟩
    rw [if_neg (by omega)]
  | succ count ih =>
    rw [diskReads, wp_bind]
    refine wp_diskRead ?_ fun hf => hh.not_failed hf
    refine (ih (hh.later (.counted fs))).mono (fun b fs1 hb => ?_) fun _ _ => id
    obtain ⟨⟨n, hn, rfl⟩, hbuff⟩ := hb
    refine ⟨⟨n, (Nat.le_succ _).trans hn, rfl⟩, fun j => ?_⟩
    rw [hbuff j, memCpy, Nat.mul_succ, ← Nat.add_assoc]
    by_cases hrest : o + 512 ≤ j ∧ j < o + 512 + 512 * count
    · obtain ⟨i, rfl⟩ := Nat.exists_eq_add_of_le hrest.1
      have hi : o + 512 + i - (o + 512) = i := by omega
      have hi' : o + 512 + i - o = 512 + i := by omega
      have hdiv : (512 + i) / 512 = 1 + i / 512 := by omega
      have hmod : (512 + i) % 512 = i % 512 := by omega
      rw [if_pos hrest, if_pos (by omega), hi, hi', hdiv, hmod, ← Nat.add_assoc]
      rfl
    · rw [if_neg hrest]
      by_cases hfirst : o ≤ j ∧ j < o + 512
      · obtain ⟨i, rfl⟩ := Nat.exists_eq_add_of_le hfirst.1
        have hi : o + i - o = i := by omega
        have hlt : i < 512 := by omega
        rw [if_pos hfirst, if_pos (by omega), hi, Nat.div_eq_of_lt hlt, Nat.mod_eq_of_lt hlt, Nat.zero_add,
          Nat.add_zero]
      · rw [if_neg hfirst, if_neg (by omega)]

/-- The buffer has got `n` bytes of the file, from `br` on. -/
def Got (v : Volume) (view : Nat → Bytes) (cl : List Nat) (pos br n : Nat) (buff buff' : Bytes) : Prop :=
  ∀ j, buff' j = if br ≤ j ∧ j < br + n then byteAt v view cl (pos + (j - br)) else buff j

theorem Got.append {view : Nat → Bytes} {pos n m : Nat} {buff' buff'' : Bytes}
    (h : Got v view cl pos br n buff buff') (h' : Got v view cl (pos + n) (br + n) m buff' buff'') :
    Got v view cl pos br (n + m) buff buff'' := by
  intro j
  rw [h' j, h j]
  by_cases hrest : br + n ≤ j ∧ j < br + n + m
  · have hsum : pos + n + (j - (br + n)) = pos + (j - br) := by omega
    rw [if_pos hrest, if_pos (by omega), hsum]
  · rw [if_neg hrest]
    by_cases hfirst : br ≤ j ∧ j < br + n
    · rw [if_pos hfirst, if_pos (by omega)]
    · rw [if_neg hfirst, if_neg (by omega)]

theorem Got.congr {view view' : Nat → Bytes} {pos n : Nat} {buff' : Bytes} (h : Got v view cl pos br n buff buff')
    (hsame : ∀ i, pos ≤ i → i < pos + n → byteAt v view' cl i = byteAt v view cl i) :
    Got v view' cl pos br n buff buff' := by
  intro j
  rw [h j]
  split
  · exact (hsame _ (by omega) (by omega)).symm
  · rfl

/-- The part of a sector that is asked for. -/
theorem readPart_spec (h : fs.Ok v) (hh : Healthy fs) (hc : FileChain v fs.view cl)
    (hlt : fp.fptr < cl.length * (v.csize * 512)) (hd : fp.dsect = sectorAt v cl (fp.fptr / 512))
    (hbtr : 0 < btr) : wp (readPart v buff br btr) (fun r s => s.2 = fp ∧ Still v fs s.1 ∧
      Got v fs.view cl fp.fptr br r.2 buff r.1 ∧ 0 < r.2 ∧ r.2 ≤ btr ∧ fp.fptr % 512 + r.2 ≤ 512)
      (fun _ _ => False) (fs, fp) := by
  have hprimary : v.Primary fp.dsect := hd ▸ hc.primary (sector_lt hlt)
  have hmod := Nat.mod_lt fp.fptr (y := 512) (by decide)
  rw [readPart, wp_bind, wp_fil, wp_bind]
  have hn : ∀ n, n = (if btr < 512 - fp.fptr % 512 then btr else 512 - fp.fptr % 512) →
      0 < n ∧ n ≤ btr ∧ fp.fptr % 512 + n ≤ 512 := by
    intro n hn
    split at hn <;> omega
  generalize (if btr < 512 - fp.fptr % 512 then btr else 512 - fp.fptr % 512) = n at hn ⊢
  obtain ⟨hpos, hle, hin⟩ := hn n rfl
  refine wp_orAbort (moveWindow_fine h hh fun _ => hprimary) fun _ fs1 hmove => ?_
  obtain ⟨hstill, hshow, -⟩ := hmove
  rw [wp_bind, wp_get, wp_pure]
  refine ⟨rfl, hstill, fun j => ?_, hpos, hle, hin⟩
  have h0 := v.primary_pos hprimary
  have hw := hshow h0
  change (if br ≤ j ∧ j < br + n then fs1.win (fp.fptr % 512 + (j - br)) else buff j) = _
  split
  · next hj =>
    have hdiv : (fp.fptr + (j - br)) / 512 = fp.fptr / 512 := by omega
    have hoff : (fp.fptr + (j - br)) % 512 = fp.fptr % 512 + (j - br) := by omega
    rw [byteAt, hdiv, hoff, ← hd, hstill.ok.win_eq (hw ▸ h0), hw, hstill.view _ hprimary]
  · rfl

theorem sectDiff_lt {w s n : Nat} (hw : w < 2 ^ 32) (hs : s + n ≤ 2 ^ 32) :
    sectDiff w s < n ↔ s ≤ w ∧ w < s + n := by
  rw [sectDiff]
  omega

theorem sectDiff_eq {w s : Nat} (hw : w < 2 ^ 32) (hs : s ≤ w) : sectDiff w s = w - s := by
  rw [sectDiff]
  omega

/-- Sectors of one cluster of the file. -/
theorem FileChain.sectors {view : Nat → Bytes} {k n j : Nat} (h : FileChain v view cl)
    (hk : k < cl.length * v.csize) (hn : k % v.csize + n ≤ v.csize) (hj : j < n) :
    k + j < cl.length * v.csize ∧ sectorAt v cl (k + j) = sectorAt v cl k + j ∧ v.Primary (sectorAt v cl k + j) := by
  have hadd : sectorAt v cl (k + j) = sectorAt v cl k + j := sectorAt_add (by omega)
  have hidx := index_lt hk
  have hsplit := Nat.div_add_mod k v.csize
  have hmul := Nat.mul_le_mul_left v.csize (Nat.succ_le_of_lt hidx)
  rw [Nat.mul_succ, Nat.mul_comm _ cl.length] at hmul
  have hlt : k + j < cl.length * v.csize := by omega
  exact ⟨hlt, hadd, hadd ▸ h.primary hlt⟩

/-- Sectors that come from the card, with the window over them where it is newer. -/
theorem readSectors_spec {cc pos : Nat} (h : fs.Ok v) (hh : Healthy fs) (hc : FileChain v fs.view cl)
    (hlt : pos < cl.length * (v.csize * 512)) (hmod : pos % 512 = 0) (hcc : 0 < cc) :
    wp (readSectors v buff br (sectorAt v cl (pos / 512)) (pos / 512 % v.csize) cc)
      (fun r s => s.2 = fp ∧ Still v fs s.1 ∧ Got v fs.view cl pos br r.2 buff r.1 ∧ 0 < r.2 ∧
        r.2 ≤ 512 * cc ∧ pos % (v.csize * 512) + r.2 ≤ v.csize * 512 ∧ r.2 % 512 = 0)
      (fun _ _ => False) (fs, fp) := by
  have hk := sector_lt hlt
  have hoff := Nat.mod_lt (pos / 512) v.csize_pos
  have hcl := cluster_mod pos v.csize
  rw [readSectors]
  have hn : ∀ n, n = (if v.csize < pos / 512 % v.csize + cc then v.csize - pos / 512 % v.csize else cc) →
      0 < n ∧ n ≤ cc ∧ pos / 512 % v.csize + n ≤ v.csize := by
    intro n hn
    split at hn <;> omega
  generalize (if v.csize < pos / 512 % v.csize + cc then v.csize - pos / 512 % v.csize else cc) = n at hn ⊢
  obtain ⟨hpos, hle, hin⟩ := hn n rfl
  have hsect := fun j (hj : j < n) => hc.sectors hk hin hj
  generalize hs : sectorAt v cl (pos / 512) = sect at hsect ⊢
  have hend : sect + n ≤ 2 ^ 32 := by
    have hlast := (hsect (n - 1) (by omega)).2.2.2.1
    omega
  rw [wp_bind]
  refine wp_orAbort (diskReads_spec hh) fun b fs1 hb => ?_
  obtain ⟨⟨m, hm, rfl⟩, hbuff⟩ := hb
  rw [wp_bind, wp_get, wp_pure]
  refine ⟨rfl, Counted.still h ⟨m, hm, rfl⟩, fun j => ?_, by omega, by omega, by omega, by omega⟩
  change (if fs.wflag = true ∧ sectDiff fs.winsect sect < n then
    memCpy b (br + sectDiff fs.winsect sect * 512) fs.win 0 512 else b) j = _
  have hbyte : ∀ i, i < 512 * n → byteAt v fs.view cl (pos + i) = fs.view (sect + i / 512) (i % 512) := by
    intro i hi
    have hdiv : (pos + i) / 512 = pos / 512 + i / 512 := by omega
    have hrem : (pos + i) % 512 = i % 512 := by omega
    rw [byteAt, hdiv, hrem, (hsect (i / 512) (by omega)).2.1]
  by_cases hdirty : fs.wflag = true
  · have h0 := h.dirty hdirty
    have hw := (h.place h0).2.1
    have hview : fs.view = Function.update fs.disk.sectors fs.winsect fs.win :=
      Cached.view_of_dirty hdirty (Fs.cached_place h0)
    -- a byte that the window does not hold is the one of the card
    have hcard : ∀ i, i < 512 * n → sect + i / 512 ≠ fs.winsect →
        fs.disk.sectors (sect + i / 512) (i % 512) = byteAt v fs.view cl (pos + i) := by
      intro i hi hne
      rw [hbyte i hi, hview, Function.update_of_ne hne]
    have hrest : (∀ i, j = br + i → i < 512 * n → sect + i / 512 ≠ fs.winsect) →
        b j = if br ≤ j ∧ j < br + 512 * n then byteAt v fs.view cl (pos + (j - br)) else buff j := by
      intro hne
      rw [hbuff j]
      split
      · next hj => exact hcard _ (by omega) (hne _ (by omega) (by omega))
      · rfl
    by_cases hover : sectDiff fs.winsect sect < n
    · obtain ⟨hlo, hhi⟩ := (sectDiff_lt hw hend).mp hover
      rw [if_pos ⟨hdirty, hover⟩, sectDiff_eq hw hlo, memCpy]
      by_cases hj : br + (fs.winsect - sect) * 512 ≤ j ∧ j < br + (fs.winsect - sect) * 512 + 512
      · have hdiv : sect + (j - br) / 512 = fs.winsect := by omega
        have hrem : 0 + (j - (br + (fs.winsect - sect) * 512)) = (j - br) % 512 := by omega
        rw [if_pos hj, if_pos (by omega), hbyte _ (by omega), hdiv, hrem, h.win_eq h0]
      · rw [if_neg hj]
        exact hrest fun i hi _ => by omega
    · rw [if_neg fun hc => hover hc.2]
      refine hrest fun i _ hin he => hover ((sectDiff_lt hw hend).mpr ?_)
      omega
  · rw [if_neg fun hd => hdirty hd.1, hbuff j]
    split
    · next hj =>
      rw [hbyte _ (by omega), Fs.sectors_of_clean (Bool.eq_false_iff.mpr hdirty)]
    · rfl

theorem getFat_fine {clst : Nat} (h : fs.Ok v) (hh : Healthy fs) (hc : v.Cluster clst) :
    wp (getFat v clst) (fun r fs' => Still v fs fs' ∧ r = v.entry fs.view clst) (fun _ _ => False) fs := by
  refine (getFat_spec h hc.1 hc.2).mono (fun r fs' hget => ?_) fun _ _ => id
  obtain ⟨hstill, hr, -⟩ := hget
  rcases hr with hr | hr
  · exact ⟨hstill, hr.1⟩
  · exact absurd hr.2 hh.not_failed

theorem index_lt_bytes (h : fp.fptr < cl.length * (v.csize * 512)) : fp.fptr / (v.csize * 512) < cl.length :=
  (Nat.div_lt_iff_lt_mul (Nat.mul_pos v.csize_pos (by decide))).mpr h

theorem Placed.index {view : Nat → Bytes} (h : Placed v view cl fp) (hlt : fp.fptr < cl.length * (v.csize * 512)) :
    ∃ c, cl[fp.fptr / (v.csize * 512)]? = some c ∧ v.Cluster c := by
  have hidx := index_lt_bytes hlt
  exact ⟨_, List.getElem?_eq_getElem hidx, h.chain.cluster _ (List.getElem_mem hidx)⟩

/-- The entry of the cluster in front of the position leads to the one behind it. -/
theorem Placed.entry_clust {view : Nat → Bytes} {c : Nat} (h : Placed v view cl fp) (hpos : 0 < fp.fptr)
    (hmod : fp.fptr % (v.csize * 512) = 0) (hc : cl[fp.fptr / (v.csize * 512)]? = some c) :
    v.Cluster fp.clust ∧ v.entry view fp.clust = c := by
  obtain ⟨hprev, hidx⟩ := h.boundary hpos hmod
  obtain ⟨i, hi⟩ := Nat.exists_eq_add_of_lt hidx
  have hi' : fp.fptr / (v.csize * 512) = i + 1 := by omega
  rw [hi'] at hprev hc
  obtain ⟨hlt, rfl⟩ := List.getElem?_eq_some_iff.mp hc
  obtain ⟨hlt', hclust⟩ := List.getElem?_eq_some_iff.mp hprev
  have hnext := Volume.link_next.mp (h.chain.chain.next_getElem hlt)
  rw [← hclust]
  exact ⟨h.chain.cluster _ (List.getElem_mem hlt'), hnext.1⟩

theorem Placed.first_clust {view : Nat → Bytes} {c : Nat} (h : Placed v view cl fp) (h0 : fp.fptr = 0)
    (hc : cl[fp.fptr / (v.csize * 512)]? = some c) : fp.sclust = c := by
  rw [h.start]
  rw [h0, Nat.zero_div] at hc
  cases cl with
  | nil => cases hc
  | cons d l => exact Option.some.inj hc

/-- At a cluster boundary in front of the end there is a next cluster. -/
theorem readCluster_spec (h : fs.Ok v) (hh : Healthy fs) (hp : Placed v fs.view cl fp)
    (hlt : fp.fptr < cl.length * (v.csize * 512)) (hmod : fp.fptr % (v.csize * 512) = 0) :
    wp (readCluster v) (fun _ s => Still v fs s.1 ∧ ∃ c, cl[fp.fptr / (v.csize * 512)]? = some c ∧
      s.2 = { fp with clust := c }) (fun _ _ => False) (fs, fp) := by
  obtain ⟨c, hc, hcluster⟩ := hp.index hlt
  have hfind : wp (if fp.fptr = 0 then (pure fp.sclust : FileM Nat) else onFst (getFat v fp.clust))
      (fun r s => Still v fs s.1 ∧ s.2 = fp ∧ r = c) (fun _ _ => False) (fs, fp) := by
    refine wp_ite (fun h0 => ?_) fun h0 => ?_
    · rw [wp_pure]
      exact ⟨Still.refl h, rfl, hp.first_clust h0 hc⟩
    · obtain ⟨hclust, hentry⟩ := hp.entry_clust (Nat.pos_of_ne_zero h0) hmod hc
      rw [wp_onFst]
      exact (getFat_fine h hh hclust).mono (fun r fs1 hr => ⟨hr.1, rfl, hr.2.trans hentry⟩) fun _ _ => id
  rw [readCluster, wp_bind, wp_fil, wp_bind]
  refine hfind.mono (fun r s hr => ?_) fun _ _ => id
  obtain ⟨fs1, fp1⟩ := s
  obtain ⟨hstill, rfl, rfl⟩ := hr
  have hmax := Volume.cluster_lt hcluster.2
  have hmin := hcluster.1
  rw [if_neg (by omega), if_neg (by omega), wp_modifyFil]
  exact ⟨hstill, r, hc, rfl⟩

/-- The sector of the position, computed of the cluster it stands in. -/
theorem sector_eq {i c : Nat} (hc : cl[i / (v.csize * 512)]? = some c) (hcluster : v.Cluster c) :
    clust2sect v c + i / 512 % v.csize = sectorAt v cl (i / 512) ∧ clust2sect v c ≠ 0 := by
  have hpos := database_pos v
  have hget : cl.getD (i / 512 / v.csize) 2 = c := by
    rw [← div_sector, List.getD_eq_getElem?_getD, hc]
    rfl
  rw [clust2sect_eq hcluster, sectorAt, hget]
  exact ⟨rfl, by omega⟩

/-- What one turn of the loop does. -/
structure ReadTurn (v : Volume) (cl : List Nat) (buff : Bytes) (br btr : Nat) (fs : Fs) (fp : Fil) (r : Bytes × Nat)
    (s : Fs × Fil) : Prop where
  still : Still v fs s.1
  got : Got v fs.view cl fp.fptr br r.2 buff r.1
  pos : 0 < r.2
  le : r.2 ≤ btr
  placed : Placed v fs.view cl { s.2 with fptr := fp.fptr + r.2 }
  fields : ∃ c d, s.2 = { fp with clust := c, dsect := d }

theorem readBody_spec (h : fs.Ok v) (hh : Healthy fs) (hp : Placed v fs.view cl fp)
    (hlt : fp.fptr < cl.length * (v.csize * 512)) (hbtr : 0 < btr) :
    wp (readBody v buff br btr) (ReadTurn v cl buff br btr fs fp) (fun _ _ => False) (fs, fp) := by
  have hcl := cluster_mod fp.fptr v.csize
  have hcsize := v.csize_pos
  have hoff := Nat.mod_lt (fp.fptr / 512) hcsize
  obtain ⟨c, hc, hcluster⟩ := hp.index hlt
  rw [readBody, wp_bind, wp_fil, sectorOffset_eq]
  refine wp_ite (fun hmod => ?_) fun hmod => ?_
  · have hboundary : wp (if fp.fptr / 512 % v.csize = 0 then readCluster v else pure ⟨⟩)
        (fun _ s => Still v fs s.1 ∧ ∃ c, cl[fp.fptr / (v.csize * 512)]? = some c ∧ s.2 = { fp with clust := c })
        (fun _ _ => False) (fs, fp) := by
      refine wp_ite (fun hzero => readCluster_spec h hh hp hlt (by omega)) fun hzero => ?_
      rw [wp_pure]
      exact ⟨Still.refl h, fp.clust, hp.within (by omega), rfl⟩
    rw [wp_bind]
    refine hboundary.mono (fun _ s hs => ?_) fun _ _ => id
    obtain ⟨fs1, fp1⟩ := s
    obtain ⟨hstill, c, hc, rfl⟩ := hs
    obtain ⟨c', hc', hcluster⟩ := hp.index hlt
    obtain rfl := Option.some.inj (hc'.symm.trans hc)
    obtain ⟨hsect, hne⟩ := sector_eq hc hcluster
    have hh1 := hh.later hstill.later
    have hchain : FileChain v fs1.view cl := hp.chain.still hstill
    rw [wp_bind, wp_fil]
    change wp (if clust2sect v c' = 0 then _ else _) _ _ _
    rw [if_neg hne, hsect]
    refine wp_ite (fun hwhole => ?_) fun hwhole => ?_
    · refine (readSectors_spec hstill.ok hh1 hchain hlt hmod (Nat.pos_of_ne_zero hwhole)).mono
        (fun r s hr => ?_) fun _ _ => id
      obtain ⟨hs, hstill2, hgot, hpos, hle, hin, hmul⟩ := hr
      have hplaced : Placed v fs.view cl { s.2 with fptr := fp.fptr + r.2 } := by
        rw [hs]
        exact hp.advance hc hpos hin fun hne => absurd (by omega) hne
      refine ⟨hstill.trans hstill2, hgot.congr fun i hlo hhi => ?_, hpos, by omega, hplaced, c', fp.dsect, hs⟩
      exact (hp.chain.byteAt_still hstill (Nat.lt_of_lt_of_le hhi hplaced.inside)).symm
    · rw [wp_bind, wp_modifyFil]
      refine wp.mono (readPart_spec hstill.ok hh1 hchain hlt rfl hbtr) (fun r s hr => ?_) fun _ _ => id
      obtain ⟨hs, hstill2, hgot, hpos, hle, hin⟩ := hr
      have hplaced : Placed v fs.view cl { s.2 with fptr := fp.fptr + r.2 } := by
        rw [hs]
        refine hp.advance hc hpos ?_ fun hne => ?_
        · rw [hcl]
          change fp.fptr % 512 + r.2 ≤ 512 at hin
          omega
        · have hsame : (fp.fptr + r.2) / 512 = fp.fptr / 512 := by
            change fp.fptr % 512 + r.2 ≤ 512 at hin
            omega
          rw [hsame]
      refine ⟨hstill.trans hstill2, hgot.congr fun i hlo hhi => ?_, hpos, hle, hplaced, c',
        sectorAt v cl (fp.fptr / 512), hs⟩
      exact (hp.chain.byteAt_still hstill (Nat.lt_of_lt_of_le hhi hplaced.inside)).symm
  · have hclust : cl[fp.fptr / (v.csize * 512)]? = some fp.clust := hp.within (by omega)
    refine (readPart_spec h hh hp.chain hlt (hp.sector hmod) hbtr).mono (fun r s hr => ?_) fun _ _ => id
    obtain ⟨hs, hstill, hgot, hpos, hle, hin⟩ := hr
    refine ⟨hstill, hgot, hpos, hle, ?_, fp.clust, fp.dsect, hs⟩
    rw [hs]
    refine hp.advance hclust hpos ?_ fun hnext => ?_
    · rw [hcl]
      omega
    · have hsame : (fp.fptr + r.2) / 512 = fp.fptr / 512 := by omega
      rw [hsame]
      exact hp.sector hmod

/-- The loop ends with all bytes that were asked for. -/
theorem readLoop_spec {fuel : Nat} (h : fs.Ok v) (hh : Healthy fs) (hp : Placed v fs.view cl fp)
    (hin : fp.fptr + btr ≤ cl.length * (v.csize * 512)) (hfuel : btr ≤ fuel) :
    wp (readLoop v fuel buff br btr) (fun r s => Still v fs s.1 ∧ Got v fs.view cl fp.fptr br btr buff r.1 ∧
      r.2 = br + btr ∧ Placed v fs.view cl s.2 ∧
      ∃ c d, s.2 = { fp with fptr := fp.fptr + btr, clust := c, dsect := d }) (fun _ _ => False) (fs, fp) := by
  induction fuel generalizing fs fp buff br btr with
  | zero =>
    obtain rfl := Nat.le_zero.mp hfuel
    rw [readLoop, wp_pure]
    exact ⟨Still.refl h, fun j => (if_neg (by omega)).symm, rfl, hp, fp.clust, fp.dsect, rfl⟩
  | succ fuel ih =>
    rw [readLoop]
    refine wp_ite (fun hzero => ?_) fun hzero => ?_
    · obtain rfl := hzero
      rw [wp_pure]
      exact ⟨Still.refl h, fun j => (if_neg (by omega)).symm, rfl, hp, fp.clust, fp.dsect, rfl⟩
    rw [wp_bind]
    refine (readBody_spec h hh hp (by omega) (Nat.pos_of_ne_zero hzero)).mono (fun r s hr => ?_) fun _ _ => id
    obtain ⟨fs1, fp1⟩ := s
    obtain ⟨c, d, rfl⟩ := hr.fields
    have hstill := hr.still
    have hpos := hr.pos
    have hle := hr.le
    have hplaced := hr.placed
    rw [wp_bind, wp_modifyFil]
    refine wp.mono (ih hstill.ok (hh.later hstill.later) (hplaced.still hstill) ?_ ?_) (fun r' s' hr' => ?_) fun _ _ => id
    · change fp.fptr + r.2 + (btr - r.2) ≤ _
      omega
    · omega
    · obtain ⟨hstill2, hgot2, hcount, hplaced2, c2, d2, hs2⟩ := hr'
      have hsum : fp.fptr + r.2 + (btr - r.2) = fp.fptr + btr := by omega
      refine ⟨hstill.trans hstill2, ?_, by omega, ?_, c2, d2, ?_⟩
      · have hall := hr.got.append (hgot2.congr fun i hlo hhi => (hp.chain.byteAt_still hstill (by
          change i < fp.fptr + r.2 + (btr - r.2) at hhi
          omega)).symm)
        rwa [Nat.add_sub_cancel' hle] at hall
      · exact ⟨hp.chain, hplaced2.start, hplaced2.inside, hplaced2.current, hplaced2.sector⟩
      · rw [hs2]
        exact congrArg (fun n => { fp with fptr := n, clust := c2, dsect := d2 }) hsum

/-- `f_read` gives the bytes of the file from the position on, as many as are asked for and are there. -/
theorem fRead_spec (h : fs.Ok v) (hh : Healthy fs) (hp : Placed v fs.view cl fp)
    (hsize : fp.fsize ≤ cl.length * (v.csize * 512)) (hpos : fp.fptr ≤ fp.fsize) (hlt : fp.fsize < 2 ^ 32)
    (herr : fp.error = false) (hread : fp.read = true) :
    wp (fRead v buff btr) (fun r s => r.2 = min btr (fp.fsize - fp.fptr) ∧
      Got v fs.view cl fp.fptr 0 r.2 buff r.1 ∧ Still v fs s.1 ∧ Placed v fs.view cl s.2 ∧
      ∃ c d, s.2 = { fp with fptr := fp.fptr + r.2, clust := c, dsect := d }) (fun _ _ => False) (fs, fp) := by
  have hremain : (fp.fsize + (2 ^ 32 - fp.fptr)) % 2 ^ 32 = fp.fsize - fp.fptr := by omega
  have hmin : (if fp.fsize - fp.fptr < btr then fp.fsize - fp.fptr else btr) = min btr (fp.fsize - fp.fptr) := by
    split <;> omega
  have hopen : ¬fp.error = true := herr ▸ Bool.false_ne_true
  have hmay : ¬fp.read = false := fun hr => Bool.false_ne_true (hr.symm.trans hread)
  rw [fRead, wp_bind, wp_fil, if_neg hopen, if_neg hmay, hremain]
  change wp (readLoop v (if fp.fsize - fp.fptr < btr then fp.fsize - fp.fptr else btr) buff 0
    (if fp.fsize - fp.fptr < btr then fp.fsize - fp.fptr else btr)) _ _ _
  rw [hmin]
  refine (readLoop_spec h hh hp (by omega) le_rfl).mono (fun r s hr => ?_) fun _ _ => id
  obtain ⟨hstill, hgot, hn, hplaced, hfields⟩ := hr
  rw [Nat.zero_add] at hn
  rw [hn]
  exact ⟨rfl, hgot, hstill, hplaced, hfields⟩

end MiMic.Fat
