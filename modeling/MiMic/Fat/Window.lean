import MiMic.Fat.Volume
import MiMic.Lib.Prog
import MiMic.Lib.WriteBack

/-!
# The sector window

All sectors, of the table, of directories and of files, pass through the one window `fs->win`. A
window that was changed is written back before it shows another sector, to the copies of the table
as well. What the modules above rely on is that this changes nothing they read, whatever fails.
-/
namespace MiMic.Fat

open Verif Verif.Prog Verif.WriteBack

abbrev FatM := Prog Fs FResult

/-- One command to the card: whether it fails. -/
def command : FatM Bool := do
  let fs ← get
  set { fs with disk := { fs.disk with accesses := fs.disk.accesses + 1 } }
  return fs.disk.fails fs.disk.accesses

def diskRead (sector : Nat) : FatM Bytes := do
  let failed ← command
  if failed then throw .diskErr
  else do
    let fs ← get
    return fs.disk.sectors sector

def diskWrite (buff : Bytes) (sector : Nat) : FatM Unit := do
  let failed ← command
  if failed then throw .diskErr
  else modify fun fs =>
    { fs with disk := { fs.disk with sectors := Function.update fs.disk.sectors sector buff } }

/-- The copies are written whatever comes of it. -/
def writeCopies (v : Volume) (win : Bytes) : Nat → Nat → FatM Unit
  | 0, _ => return
  | nf + 1, wsect => do
    let _ ← attempt (diskWrite win (wsect + v.fsize))
    writeCopies v win nf (wsect + v.fsize)

/-- The first half of `move_window`: a changed window goes to the card. -/
def writeBack (v : Volume) : FatM Unit := do
  let fs ← get
  if fs.wflag then do
    diskWrite fs.win fs.winsect
    modify fun fs => { fs with wflag := false }
    if fs.winsect < v.fatbase + v.fsize then writeCopies v fs.win (v.nFats - 1) fs.winsect
    else return
  else return

def moveWindow (v : Volume) (sector : Nat) : FatM Unit := do
  let fs ← get
  if fs.winsect = sector then return
  else do
    writeBack v
    if sector = 0 then return
    else do
      let win ← diskRead sector
      modify fun fs => { fs with win, winsect := sector }

/-- The FSInfo sector `sync` builds. -/
def fsInfo (freeClust lastClust : Nat) : Bytes :=
  stDword (stDword (stDword (stDword (stWord (fun _ => 0) 510 0xAA55) 0 0x41615252) 484 0x61417272)
    488 freeClust) 492 lastClust

def Fs.cached (fs : Fs) : Cached Nat Bytes :=
  ⟨⟨if fs.winsect = 0 then none else some fs.winsect, fs.win, fs.wflag⟩, fs.disk.sectors⟩

/-- What is found in a sector: the window where it is newer, the card elsewhere. -/
def Fs.view (fs : Fs) : Nat → Bytes := fs.cached.view

/-- The window stands for a sector that is read, and holds what is found there. -/
structure Fs.Ok (v : Volume) (fs : Fs) : Prop where
  current : fs.cached.Current
  place : fs.winsect ≠ 0 → v.Primary fs.winsect
  dirty : fs.wflag = true → fs.winsect ≠ 0

/-- The card some commands later. -/
structure Later (d d' : Disk) : Prop where
  fails : d'.fails = d.fails
  accesses : d.accesses ≤ d'.accesses

/-- A command between the two states of the card failed. -/
def Failed (d d' : Disk) : Prop := ∃ n, d.accesses ≤ n ∧ n < d'.accesses ∧ d.fails n = true

/-- Nothing that is read has changed. -/
structure Still (v : Volume) (fs fs' : Fs) : Prop where
  ok : fs'.Ok v
  view : ∀ s, v.Primary s → fs'.view s = fs.view s
  lastClust : fs'.lastClust = fs.lastClust
  freeClust : fs'.freeClust = fs.freeClust
  later : Later fs.disk fs'.disk

variable {v : Volume} {fs fs' fs'' : Fs} {sector : Nat}

theorem Later.refl (d : Disk) : Later d d := ⟨rfl, le_rfl⟩

theorem Later.trans {d d' d'' : Disk} (h : Later d d') (h' : Later d' d'') : Later d d'' :=
  ⟨h'.fails.trans h.fails, h.accesses.trans h'.accesses⟩

theorem Failed.of_later {d d' d'' : Disk} (h : Later d d') (hf : Failed d' d'') : Failed d d'' := by
  obtain ⟨n, hlo, hhi, hn⟩ := hf
  exact ⟨n, h.accesses.trans hlo, hhi, h.fails ▸ hn⟩

theorem Failed.mono {d d' d'' : Disk} (hf : Failed d d') (h : Later d' d'') : Failed d d'' := by
  obtain ⟨n, hlo, hhi, hn⟩ := hf
  exact ⟨n, hlo, hhi.trans_le h.accesses, hn⟩

theorem Fs.cached_place (h : fs.winsect ≠ 0) : fs.cached.slot.place = some fs.winsect := if_neg h

theorem Fs.place_eq {s : Nat} (h : fs.cached.slot.place = some s) : fs.winsect = s ∧ s ≠ 0 := by
  by_cases h0 : fs.winsect = 0
  · rw [Fs.cached, if_pos h0] at h
    cases h
  · rw [Fs.cached_place h0] at h
    obtain rfl := Option.some.inj h
    exact ⟨rfl, h0⟩

theorem Fs.Ok.win_eq (h : fs.Ok v) (h0 : fs.winsect ≠ 0) : fs.win = fs.view fs.winsect :=
  h.current _ (Fs.cached_place h0)

theorem Still.refl (h : fs.Ok v) : Still v fs fs := ⟨h, fun _ _ => rfl, rfl, rfl, .refl _⟩

theorem Still.trans (h : Still v fs fs') (h' : Still v fs' fs'') : Still v fs fs'' where
  ok := h'.ok
  view s hs := (h'.view s hs).trans (h.view s hs)
  lastClust := h'.lastClust.trans h.lastClust
  freeClust := h'.freeClust.trans h.freeClust
  later := h.later.trans h'.later

/-- The sectors that nobody reads. -/
def Volume.copies (v : Volume) : Set Nat := fun s => ¬v.Primary s

theorem Volume.not_mem_copies {s : Nat} : s ∉ v.copies ↔ v.Primary s := not_not

/-- One step of the window, seen by the operations that use it. -/
theorem Still.of_step (h : fs.Ok v) (hstep : Cached.Step v.copies fs.cached fs'.cached)
    (hplace : fs'.winsect ≠ 0 → v.Primary fs'.winsect) (hdirty : fs'.wflag = true → fs'.winsect ≠ 0)
    (hlast : fs'.lastClust = fs.lastClust) (hfree : fs'.freeClust = fs.freeClust)
    (hlater : Later fs.disk fs'.disk) : Still v fs fs' where
  ok := by
    refine ⟨hstep.current h.current fun k hk => ?_, hplace, hdirty⟩
    obtain ⟨rfl, h0⟩ := Fs.place_eq hk
    exact Volume.not_mem_copies.mpr (h.place h0)
  view s hs := hstep.view_eq h.current (Volume.not_mem_copies.mpr hs)
  lastClust := hlast
  freeClust := hfree
  later := hlater

/-- One more access. -/
def Fs.counted (fs : Fs) : Fs := { fs with disk := { fs.disk with accesses := fs.disk.accesses + 1 } }

/-- A sector of the card gets new contents. -/
def Fs.stored (fs : Fs) (buff : Bytes) (sector : Nat) : Fs :=
  { fs with disk := { fs.disk with sectors := Function.update fs.disk.sectors sector buff } }

theorem Later.counted (fs : Fs) : Later fs.disk fs.counted.disk := ⟨rfl, Nat.le_succ _⟩

theorem Later.stored (fs : Fs) (buff : Bytes) (sector : Nat) :
    Later fs.disk (fs.counted.stored buff sector).disk := ⟨rfl, Nat.le_succ _⟩

theorem Still.counted (h : fs.Ok v) : Still v fs fs.counted :=
  ⟨⟨h.current, h.place, h.dirty⟩, fun _ _ => rfl, rfl, rfl, .counted fs⟩

section Commands

variable {α : Type} {Q : Bytes → Fs → Prop} {R : PUnit → Fs → Prop} {E : FResult → Fs → Prop} {buff : Bytes}

theorem wp_diskRead (hok : Q (fs.disk.sectors sector) fs.counted)
    (herr : Failed fs.disk fs.counted.disk → E .diskErr fs.counted) : wp (diskRead sector) Q E fs := by
  rw [diskRead, command, wp_bind, wp_bind, wp_get, wp_bind, wp_set, wp_pure]
  refine wp_ite (fun hf => ?_) fun _ => ?_
  · rw [wp_throw]
    exact herr ⟨_, le_rfl, Nat.lt_succ_self _, hf⟩
  · rw [wp_bind, wp_get, wp_pure]
    exact hok

theorem wp_diskWrite (hok : R ⟨⟩ (fs.counted.stored buff sector))
    (herr : Failed fs.disk fs.counted.disk → E .diskErr fs.counted) : wp (diskWrite buff sector) R E fs := by
  rw [diskWrite, command, wp_bind, wp_bind, wp_get, wp_bind, wp_set, wp_pure]
  refine wp_ite (fun hf => ?_) fun _ => ?_
  · rw [wp_throw]
    exact herr ⟨_, le_rfl, Nat.lt_succ_self _, hf⟩
  · rw [wp_modify]
    exact hok

end Commands

/-- Only the card changed, and only where nobody reads. -/
structure Aside (v : Volume) (fs fs' : Fs) : Prop where
  fields : fs' = { fs with disk := fs'.disk }
  sectors : ∀ s, v.Primary s → fs'.disk.sectors s = fs.disk.sectors s
  later : Later fs.disk fs'.disk

theorem Aside.trans (h : Aside v fs fs') (h' : Aside v fs' fs'') : Aside v fs fs'' where
  fields := by
    rw [h'.fields, h.fields]
  sectors s hs := (h'.sectors s hs).trans (h.sectors s hs)
  later := h.later.trans h'.later

theorem Aside.counted : Aside v fs fs.counted := ⟨rfl, fun _ _ => rfl, .counted fs⟩

theorem Aside.stored (h : ¬v.Primary sector) (buff : Bytes) : Aside v fs (fs.counted.stored buff sector) :=
  ⟨rfl, fun s hs => Function.update_of_ne (fun he : s = sector => h (he ▸ hs)) .., .stored ..⟩

theorem writeCopies_spec {win : Bytes} {nf wsect : Nat}
    (h : ∀ k, 1 ≤ k → k ≤ nf → ¬v.Primary (wsect + k * v.fsize)) :
    wp (writeCopies v win nf wsect) (fun _ fs' => Aside v fs fs') (fun _ _ => False) fs := by
  induction nf generalizing fs wsect with
  | zero =>
    rw [writeCopies, wp_pure]
    exact ⟨rfl, fun _ _ => rfl, .refl _⟩
  | succ nf ih =>
    have hfirst : ¬v.Primary (wsect + v.fsize) := by
      have h1 := h 1 le_rfl (by omega)
      rwa [Nat.one_mul] at h1
    have hrest : ∀ fs' : Fs, wp (writeCopies v win nf (wsect + v.fsize)) (fun _ t => Aside v fs' t)
        (fun _ _ => False) fs' := fun fs' => ih fun k hk hkn => by
      have hnext := h (k + 1) (by omega) (by omega)
      rwa [Nat.add_mul, Nat.one_mul, Nat.add_comm (k * v.fsize), ← Nat.add_assoc] at hnext
    rw [writeCopies, wp_bind, wp_attempt]
    refine wp_diskWrite ?_ fun _ => ?_
    · exact (hrest _).mono (fun _ _ ht => (Aside.stored hfirst win).trans ht) fun _ _ => id
    · exact (hrest _).mono (fun _ _ ht => Aside.counted.trans ht) fun _ _ => id

/-- The copies of a sector of the table are not read. -/
theorem Volume.not_primary_copy {s k : Nat} (hs : v.fatbase ≤ s) (hlt : s < v.fatbase + v.fsize)
    (h1 : 1 ≤ k) (hk : k ≤ v.nFats - 1) : ¬v.Primary (s + k * v.fsize) := by
  intro hp
  rcases v.nFats_mem with hn | hn
  · omega
  · obtain rfl : k = 1 := by omega
    rcases hp.2.2 with hlo | hhi
    · omega
    · rw [hn] at hhi
      omega

theorem writeBack_spec (h : fs.Ok v) : wp (writeBack v)
    (fun _ fs' => Still v fs fs' ∧ fs'.wflag = false ∧ fs'.winsect = fs.winsect)
    (fun e fs' => e = .diskErr ∧ Failed fs.disk fs'.disk ∧ fs' = fs.counted) fs := by
  rw [writeBack, wp_bind, wp_get]
  refine wp_ite (fun hw => ?_) fun hw => ?_
  · have h0 := h.dirty hw
    have hprimary := h.place h0
    rw [wp_bind]
    refine wp_diskWrite ?_ fun hf => ⟨rfl, hf, rfl⟩
    rw [wp_bind, wp_modify]
    have hend : ∀ fs' : Fs, Aside v { fs.counted.stored fs.win fs.winsect with wflag := false } fs' →
        Still v fs fs' ∧ fs'.wflag = false ∧ fs'.winsect = fs.winsect := by
      intro fs' ha
      rw [ha.fields]
      refine ⟨Still.of_step h ?_ (fun _ => hprimary) (fun hc => absurd hc Bool.false_ne_true) rfl rfl
        ((Later.stored fs fs.win fs.winsect).trans ha.later), rfl, rfl⟩
      refine Cached.Step.flush (Fs.cached_place h0) fun j hj => ?_
      exact ha.sectors j (Volume.not_mem_copies.mp hj)
    refine wp_ite (fun hlt => ?_) fun _ => ?_
    · refine (writeCopies_spec fun k h1 hk => ?_).mono (fun _ t ht => hend t ht) fun _ _ => False.elim
      exact Volume.not_primary_copy hprimary.1 hlt h1 hk
    · rw [wp_pure]
      exact hend _ ⟨rfl, fun _ _ => rfl, .refl _⟩
  · rw [wp_pure]
    exact ⟨Still.refl h, Bool.eq_false_iff.mpr hw, rfl⟩

/-- Whatever fails, a move changes nothing that is read; after it the window shows the sector. -/
theorem moveWindow_spec (h : fs.Ok v) (hs : sector ≠ 0 → v.Primary sector) : wp (moveWindow v sector)
    (fun _ fs' => Still v fs fs' ∧ (sector ≠ 0 → fs'.winsect = sector) ∧
      (fs.winsect ≠ sector → fs'.wflag = false) ∧ (fs.winsect = sector → fs' = fs))
    (fun e fs' => e = .diskErr ∧ Failed fs.disk fs'.disk ∧ Still v fs fs' ∧ fs'.winsect = fs.winsect) fs := by
  rw [moveWindow, wp_bind, wp_get]
  refine wp_ite (fun heq => ?_) fun hne => ?_
  · rw [wp_pure]
    exact ⟨Still.refl h, fun _ => heq, fun hc => absurd heq hc, fun _ => rfl⟩
  · rw [wp_bind]
    refine (writeBack_spec h).mono (fun _ fs' hback => ?_) fun e fs' herr => ?_
    · obtain ⟨hstill, hclean, hplace⟩ := hback
      refine wp_ite (fun hzero => ?_) fun hzero => ?_
      · rw [wp_pure]
        exact ⟨hstill, fun hc => absurd hzero hc, fun _ => hclean, fun hc => absurd hc hne⟩
      · rw [wp_bind]
        refine wp_diskRead ?_ fun hf => ?_
        · rw [wp_modify]
          refine ⟨hstill.trans (Still.of_step hstill.ok ?_ (fun _ => hs hzero) (fun _ => hzero) rfl rfl (.counted fs')),
            fun _ => rfl, fun _ => hclean, fun hc => absurd hc hne⟩
          have hcached : Fs.cached { fs'.counted with win := fs'.disk.sectors sector, winsect := sector } =
              ⟨⟨some sector, fs'.disk.sectors sector, false⟩, fs'.disk.sectors⟩ := by
            rw [Fs.cached, if_neg hzero]
            change (⟨⟨some sector, fs'.disk.sectors sector, fs'.wflag⟩, fs'.disk.sectors⟩ : Cached Nat Bytes) = _
            rw [hclean]
          rw [hcached]
          exact Cached.Step.load sector hclean
        · exact ⟨rfl, hf.of_later hstill.later, hstill.trans (Still.counted hstill.ok), hplace⟩
    · obtain ⟨rfl, hf, rfl⟩ := herr
      exact ⟨rfl, hf, Still.counted h, rfl⟩

theorem Fs.sectors_of_clean (h : fs.wflag = false) : fs.view = fs.disk.sectors := Cached.view_of_clean h

theorem Fs.Ok.clean (h : fs.Ok v) (h0 : fs.winsect = 0) : fs.wflag = false :=
  Bool.eq_false_iff.mpr fun hw => h.dirty hw h0

/-- A window that stands for no sector. -/
theorem Fs.ok_of_empty (h0 : fs.winsect = 0) (hclean : fs.wflag = false) : fs.Ok v := by
  refine ⟨fun k hk => ?_, fun hc => absurd h0 hc, fun hc => Bool.noConfusion (hclean.symm.trans hc)⟩
  obtain ⟨rfl, hk0⟩ := Fs.place_eq hk
  exact absurd h0 hk0

theorem tiny_ok (fails : Nat → Bool) : (tinyFs fails).Ok tinyVolume := Fs.ok_of_empty rfl rfl

end MiMic.Fat
