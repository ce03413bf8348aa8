import MiMic.Fat.Window

/-!
# Mounting

`chk_mounted` asks the drive, looks for a boot record on the card, in sector 0 or in the first
partition, and computes the areas of the volume of it, on 32-bit words. What it accepts is a volume, as
far as nothing wraps and the entries of the table can number the clusters.
-/
namespace MiMic.Fat

open Verif Verif.Prog

/-- 0: a FAT boot record, 1: another one, 2: none. -/
def recordKind (win : Bytes) : Nat :=
  if ldWord win 510 ≠ 0xaa55 then 2
  else if ldDword win 54 % 2 ^ 24 = 0x544146 then 0
  else if ldDword win 82 % 2 ^ 24 = 0x544146 then 0
  else 1

/-- What kind of record there is, or 3 when the command failed. -/
def checkFs (sect : Nat) : FatM Nat := do
  let r ← attempt (diskRead sect)
  match r with
  | .error _ => return 3
  | .ok win => do
    modify fun fs => { fs with win }
    return recordKind win

/-- The record that was found, and its sector; the partition of the first entry of the table is tried. -/
def findVolume : FatM (Nat × Nat) := do
  let fmt ← checkFs 0
  let fs ← get
  if fmt = 1 ∧ fs.win (446 + 4) ≠ 0 then do
    let bsect := ldDword fs.win (446 + 8)
    let fmt ← checkFs bsect
    return (fmt, bsect)
  else return (fmt, 0)

/-- Sectors of one table. -/
def fatSize (win : Bytes) : Nat := if ldWord win 22 = 0 then ldDword win 36 else ldWord win 22

def numFats (win : Bytes) : Nat := (win 16).toNat

/-- Sectors of the volume. -/
def totalSectors (win : Bytes) : Nat := if ldWord win 19 = 0 then ldDword win 32 else ldWord win 19

/-- The sectors in front of the data. -/
def sysect (win : Bytes) : Nat := (ldWord win 14 + fatSize win * numFats win % 2 ^ 32 + ldWord win 17 / 16) % 2 ^ 32

def clusterCount (win : Bytes) : Nat := (totalSectors win - sysect win) / (win 13).toNat

def fatType (nclst : Nat) : FsType :=
  if 65526 ≤ nclst then .fat32 else if 4086 ≤ nclst then .fat16 else .fat12

/-- The checks that come before the type is known, in the order of the source. -/
def recordOk (win : Bytes) : Bool :=
  ldWord win 11 = 512 ∧ (numFats win = 1 ∨ numFats win = 2) ∧
    ((win 13).toNat ≠ 0 ∧ (win 13).toNat &&& ((win 13).toNat - 1) = 0) ∧ ldWord win 17 % 16 = 0 ∧ ldWord win 14 ≠ 0 ∧
    sysect win ≤ totalSectors win ∧ clusterCount win ≠ 0

/-- The areas of the volume. -/
def areas (win : Bytes) (bsect : Nat) : Geometry where
  fsType := fatType (clusterCount win)
  csize := (win 13).toNat
  nFats := numFats win
  nRootdir := ldWord win 17
  fsiSector := if fatType (clusterCount win) = .fat32 then (bsect + ldWord win 48) % 2 ^ 32 else 0
  nFatent := (clusterCount win + 2) % 2 ^ 32
  fsize := fatSize win
  fatbase := (bsect + ldWord win 14) % 2 ^ 32
  dirbase := if fatType (clusterCount win) = .fat32 then ldDword win 44
    else ((bsect + ldWord win 14) % 2 ^ 32 + fatSize win * numFats win % 2 ^ 32) % 2 ^ 32
  database := (bsect + sysect win) % 2 ^ 32

/-- The checks of the areas: FAT32 has no fixed root directory, and the table has room for all entries. -/
def areasOk (g : Geometry) : Bool :=
  (g.fsType = .fat32 ↔ g.nRootdir = 0) ∧ (fatBytes g.fsType g.nFatent % 2 ^ 32 + 511) % 2 ^ 32 / 512 ≤ g.fsize

/-- What FSInfo says of the free clusters, where its signatures are there. -/
def takeFsInfo (win : Bytes) (fs : Fs) : Fs :=
  if ldWord win 510 = 0xaa55 ∧ ldDword win 0 = 0x41615252 ∧ ldDword win 484 = 0x61417272 then
    { fs with win, lastClust := ldDword win 492, freeClust := ldDword win 488 }
  else { fs with win }

def readFsInfo (g : Geometry) : FatM Unit :=
  if g.fsType = .fat32 then do
    modify fun fs => { fs with fsiFlag := false }
    let r ← attempt (diskRead g.fsiSector)
    match r with
    | .error _ => return ()
    | .ok win => modify (takeFsInfo win)
  else return

/-- `chk_mounted` behind the initialization of the drive. -/
def mountRecord : FatM Geometry := do
  let found ← findVolume
  if found.1 = 3 then throw .diskErr
  else if found.1 ≠ 0 then throw .noFilesystem
  else do
    let fs ← get
    let g := areas fs.win found.2
    if recordOk fs.win = false ∨ areasOk g = false then throw .noFilesystem
    else do
      modify fun fs => { fs with freeClust := 0xffffffff, lastClust := 0 }
      readFsInfo g
      modify fun fs => { fs with winsect := 0, wflag := false }
      return g

/-- `FatFs[0]`, the only entry of the table: no object, one whose `fs_type` is 0, or one that is mounted. -/
inductive FsObject
  | absent
  | cleared
  | mounted (g : Geometry)

/-- What the drive answers; the lowest bit is `STA_NOINIT`, the third one `STA_PROTECT`. -/
structure Drive where
  diskStatus : UInt8
  diskInitialize : UInt8

def isNoInit (stat : UInt8) : Bool := stat &&& 1 != 0

def isProtected (stat : UInt8) : Bool := stat &&& 4 != 0

abbrev MountM := Prog (Fs × FsObject) FResult

/-- `chk_mounted` for an object that is not valid. -/
def mountVolume (drive : Drive) (wmode : Bool) : MountM Geometry := do
  modify fun t => (t.1, .cleared)
  if isNoInit drive.diskInitialize = true then throw .notReady
  else if wmode = true ∧ isProtected drive.diskInitialize = true then throw .writeProtected
  else do
    let g ← onFst mountRecord
    modify fun t => (t.1, .mounted g)
    return g

/-- `chk_mounted`. A negative number stands for drive 0, and `_VOLUMES` is 1. -/
def chkMounted (drive : Drive) (driveNumber : Int) (wmode : Bool) : MountM Geometry := do
  if 1 ≤ driveNumber then throw .invalidDrive
  else do
    let t ← get
    match t.2 with
    | .absent => throw .notEnabled
    | .cleared => mountVolume drive wmode
    | .mounted g =>
      if isNoInit drive.diskStatus = true then mountVolume drive wmode
      else if wmode = true ∧ isProtected drive.diskStatus = true then throw .writeProtected
      else return g

/-- Where the boot record of a card is: in sector 0, or where the first entry of the partition table there
says. -/
def bootSector (card : Nat → Bytes) : Option Nat :=
  if recordKind (card 0) = 0 then some 0
  else if recordKind (card 0) = 1 ∧ card 0 (446 + 4) ≠ 0 ∧ recordKind (card (ldDword (card 0) (446 + 8))) = 0 then
    some (ldDword (card 0) (446 + 8))
  else none

/-- The areas a record describes end below the last sector that can be named, the 28 bits of an entry can
number the clusters, and FSInfo lies in front of the table. -/
structure InRange (win : Bytes) (bsect : Nat) : Prop where
  front : ldWord win 14 + fatSize win * numFats win + ldWord win 17 / 16 < 2 ^ 32
  disk : bsect + totalSectors win ≤ 2 ^ 32
  clusters : clusterCount win + 2 ≤ 0xfffffff
  fsInfo : fatType (clusterCount win) = .fat32 → ldWord win 48 < ldWord win 14

variable {win : Bytes} {bsect : Nat} {fs fs' : Fs}

theorem pow_of_mask {x : Nat} (hlt : x < 256) (h0 : x ≠ 0) (hmask : x &&& (x - 1) = 0) : ∃ k ≤ 7, x = 2 ^ k := by
  have hall : ∀ x : Fin 256, x.val ≠ 0 → x.val &&& (x.val - 1) = 0 → ∃ k : Fin 8, x.val = 2 ^ k.val := by
    decide +kernel
  obtain ⟨k, hk⟩ := hall ⟨x, hlt⟩ h0 hmask
  exact ⟨k.val, Nat.le_of_lt_succ k.isLt, hk⟩

/-- The entries of a type are wide enough for the clusters that make it. -/
theorem fatType_le {n : Nat} (h : n + 2 ≤ 0xfffffff) : n + 2 ≤ eocMark (fatType n) := by
  rw [fatType]
  split
  · exact h
  · split
    · simp only [eocMark]
      omega
    · simp only [eocMark]
      omega

/-- The comparison of `chk_mounted`, on 32-bit words, leaves room for the entries. -/
theorem fatBytes_le {ty : FsType} {n size : Nat} (hn : n ≤ eocMark ty)
    (h : (fatBytes ty n % 2 ^ 32 + 511) % 2 ^ 32 / 512 ≤ size) : fatBytes ty n ≤ size * 512 := by
  cases ty with
  | fat12 =>
    simp only [fatBytes, eocMark] at h hn ⊢
    omega
  | fat16 =>
    simp only [fatBytes, eocMark] at h hn ⊢
    omega
  | fat32 =>
    simp only [fatBytes, eocMark] at h hn ⊢
    omega

/-- A record that is accepted describes a volume, as far as its areas are in range. -/
theorem areas_volume (hrecord : recordOk win = true) (hareas : areasOk (areas win bsect) = true)
    (hrange : InRange win bsect) : ∃ v : Volume, v.toGeometry = areas win bsect := by
  obtain ⟨-, hfats, ⟨hcsize, hmask⟩, -, hrsv, hsys, hclusters⟩ := of_decide_eq_true hrecord
  obtain ⟨-, hfits⟩ := of_decide_eq_true hareas
  obtain ⟨hfront, hdisk, hmany, hfsi⟩ := hrange
  have hpow := pow_of_mask (win 13).toNat_lt hcsize hmask
  have hsysect : sysect win = ldWord win 14 + fatSize win * numFats win + ldWord win 17 / 16 := by
    have hfasize : fatSize win * numFats win % 2 ^ 32 = fatSize win * numFats win := Nat.mod_eq_of_lt (by omega)
    rw [sysect, hfasize, Nat.mod_eq_of_lt hfront]
  have hspan : clusterCount win * (win 13).toNat ≤ totalSectors win - sysect win := Nat.div_mul_le_self ..
  have hsmall : clusterCount win ≤ clusterCount win * (win 13).toNat :=
    Nat.le_mul_of_pos_right _ (Nat.pos_of_ne_zero hcsize)
  have hbase : (bsect + ldWord win 14) % 2 ^ 32 = bsect + ldWord win 14 := Nat.mod_eq_of_lt (by omega)
  have hdata : (bsect + sysect win) % 2 ^ 32 = bsect + sysect win := Nat.mod_eq_of_lt (by omega)
  have hcount : (clusterCount win + 2) % 2 ^ 32 = clusterCount win + 2 := Nat.mod_eq_of_lt (by omega)
  refine ⟨⟨areas win bsect, hpow, hfats, ?_, ?_, ?_, ?_, ?_, ?_, ?_⟩, rfl⟩
  · change 2 < (clusterCount win + 2) % 2 ^ 32
    omega
  · change (clusterCount win + 2) % 2 ^ 32 ≤ eocMark (fatType (clusterCount win))
    rw [hcount]
    exact fatType_le hmany
  · change fatBytes (fatType (clusterCount win)) ((clusterCount win + 2) % 2 ^ 32) ≤ fatSize win * 512
    rw [hcount]
    refine fatBytes_le (fatType_le hmany) ?_
    rw [← hcount]
    exact hfits
  · change 0 < (bsect + ldWord win 14) % 2 ^ 32
    omega
  · change (if fatType (clusterCount win) = .fat32 then (bsect + ldWord win 48) % 2 ^ 32 else 0) <
      (bsect + ldWord win 14) % 2 ^ 32
    split
    · next ht =>
      have hlt := hfsi ht
      omega
    · omega
  · change (bsect + ldWord win 14) % 2 ^ 32 + fatSize win * numFats win ≤ (bsect + sysect win) % 2 ^ 32
    omega
  · change (bsect + sysect win) % 2 ^ 32 + ((clusterCount win + 2) % 2 ^ 32 - 2) * (win 13).toNat ≤ 2 ^ 32
    rw [hcount, Nat.add_sub_cancel]
    omega

/-- The record of a sector is read into the window, or the command fails. -/
structure Checked (fs : Fs) (sect : Nat) (fs' : Fs) (fmt : Nat) : Prop where
  later : Later fs.disk fs'.disk
  sectors : fs'.disk.sectors = fs.disk.sectors
  found : fmt = 3 ∧ Failed fs.disk fs'.disk ∨ fmt = recordKind (fs.disk.sectors sect) ∧ fs'.win = fs.disk.sectors sect

theorem recordKind_ne (win : Bytes) : recordKind win ≠ 3 := by
  unfold recordKind
  split_ifs <;> decide

theorem checkFs_spec {sect : Nat} : wp (checkFs sect) (fun fmt fs' => Checked fs sect fs' fmt) (fun _ _ => False) fs := by
  rw [checkFs, wp_bind, wp_attempt]
  refine wp_diskRead ?_ fun hf => ?_
  · rw [wp_bind, wp_modify, wp_pure]
    exact ⟨⟨rfl, Nat.le_succ _⟩, rfl, Or.inr ⟨rfl, rfl⟩⟩
  · rw [wp_pure]
    exact ⟨⟨rfl, Nat.le_succ _⟩, rfl, Or.inl ⟨rfl, hf⟩⟩

/-- The boot record is found where it is, unless a command fails. -/
structure BootFound (fs : Fs) (fs' : Fs) (found : Nat × Nat) : Prop where
  later : Later fs.disk fs'.disk
  sectors : fs'.disk.sectors = fs.disk.sectors
  failed : found.1 = 3 → Failed fs.disk fs'.disk
  none : found.1 ≠ 3 → found.1 ≠ 0 → bootSector fs.disk.sectors = none
  some : found.1 = 0 → bootSector fs.disk.sectors = some found.2 ∧ fs'.win = fs.disk.sectors found.2

theorem findVolume_spec : wp findVolume (fun found fs' => BootFound fs fs' found) (fun _ _ => False) fs := by
  rw [findVolume, wp_bind]
  refine checkFs_spec.mono (fun fmt fs1 hfirst => ?_) fun _ _ => id
  obtain ⟨hlater, hdisk, hfound⟩ := hfirst
  rw [wp_bind, wp_get]
  refine wp_ite (fun htable => ?_) fun htable => ?_
  · obtain ⟨rfl, htype⟩ := htable
    obtain ⟨hno, -⟩ | ⟨hkind, hwin⟩ := hfound
    · exact absurd hno (by decide)
    rw [hwin] at htype ⊢
    generalize hsect : ldDword (fs.disk.sectors 0) (446 + 8) = sect
    have hboot : bootSector fs.disk.sectors =
        if recordKind (fs.disk.sectors sect) = 0 then some sect else none := by
      rw [bootSector, if_neg (by rw [← hkind]; decide), hsect]
      refine if_congr ⟨fun h => h.2.2, fun h => ?_⟩ rfl rfl
      exact ⟨hkind.symm, htype, h⟩
    change wp (checkFs sect >>= _) _ _ _
    rw [wp_bind]
    refine checkFs_spec.mono (fun fmt fs2 hsecond => ?_) fun _ _ => id
    obtain ⟨hlater', hdisk', hfound'⟩ := hsecond
    rw [hdisk] at hdisk' hfound'
    rw [wp_pure]
    refine ⟨hlater.trans hlater', hdisk', fun h3 => ?_, fun h3 h0 => ?_, fun h0 => ?_⟩
    · obtain ⟨-, hf⟩ | ⟨hkind', -⟩ := hfound'
      · exact Failed.of_later hlater hf
      · exact absurd (hkind'.symm.trans h3) (recordKind_ne _)
    · obtain ⟨hno, -⟩ | ⟨hkind', -⟩ := hfound'
      · exact absurd hno h3
      · rw [hboot, if_neg (hkind' ▸ h0)]
    · obtain ⟨hno, -⟩ | ⟨hkind', hwin'⟩ := hfound'
      · exact absurd (hno.symm.trans h0) (by decide)
      · rw [hboot, if_pos (hkind' ▸ h0)]
        exact ⟨rfl, hwin'⟩
  · rw [wp_pure]
    refine ⟨hlater, hdisk, fun h3 => ?_, fun h3 h0 => ?_, fun h0 => ?_⟩
    · obtain ⟨-, hf⟩ | ⟨hkind, -⟩ := hfound
      · exact hf
      · exact absurd (hkind.symm.trans h3) (recordKind_ne _)
    · obtain ⟨hno, -⟩ | ⟨hkind, hwin⟩ := hfound
      · exact absurd hno h3
      · rw [bootSector, if_neg (hkind ▸ h0), if_neg]
        rintro ⟨hkind1, htype, -⟩
        rw [hwin] at htable
        exact htable ⟨hkind.trans hkind1, htype⟩
    · obtain ⟨hno, -⟩ | ⟨hkind, hwin⟩ := hfound
      · exact absurd (hno.symm.trans h0) (by decide)
      · rw [bootSector, if_pos (hkind ▸ h0)]
        exact ⟨rfl, hwin⟩

theorem readFsInfo_spec {g : Geometry} : wp (readFsInfo g)
    (fun _ fs' => Later fs.disk fs'.disk ∧ fs'.disk.sectors = fs.disk.sectors) (fun _ _ => False) fs := by
  rw [readFsInfo]
  refine wp_ite (fun _ => ?_) fun _ => ?_
  · rw [wp_bind, wp_modify, wp_bind, wp_attempt]
    refine wp_diskRead ?_ fun _ => ?_
    · rw [wp_modify, takeFsInfo]
      split <;> exact ⟨⟨rfl, Nat.le_succ _⟩, rfl⟩
    · rw [wp_pure]
      exact ⟨⟨rfl, Nat.le_succ _⟩, rfl⟩
  · rw [wp_pure]
    exact ⟨Later.refl _, rfl⟩

/-- The record of a card is one that `chk_mounted` takes. -/
def Accepts (card : Nat → Bytes) (bsect : Nat) : Prop :=
  recordOk (card bsect) = true ∧ areasOk (areas (card bsect) bsect) = true

/-- The geometry is that of the boot record, a volume when its areas are in range; the window starts empty. -/
structure Mounts (fs fs' : Fs) (g : Geometry) (bsect : Nat) : Prop where
  boot : bootSector fs.disk.sectors = some bsect
  accepts : Accepts fs.disk.sectors bsect
  areas_eq : g = areas (fs.disk.sectors bsect) bsect
  volume : InRange (fs.disk.sectors bsect) bsect →
    ∃ v : Volume, v.toGeometry = g ∧ fs'.Ok v ∧ fs'.view = fs.disk.sectors

theorem mountRecord_spec : wp mountRecord
    (fun g fs' => fs'.disk.sectors = fs.disk.sectors ∧ ∃ bsect, Mounts fs fs' g bsect)
    (fun e fs' => fs'.disk.sectors = fs.disk.sectors ∧ (e = .diskErr ∧ Failed fs.disk fs'.disk ∨
      e = .noFilesystem ∧ ∀ bsect, bootSector fs.disk.sectors = some bsect → ¬ Accepts fs.disk.sectors bsect)) fs := by
  rw [mountRecord, wp_bind]
  refine findVolume_spec.mono (fun found fs1 hfound => ?_) fun _ _ => False.elim
  refine wp_ite (fun h3 => ?_) fun h3 => wp_ite (fun h0 => ?_) fun h0 => ?_
  · rw [wp_throw]
    exact ⟨hfound.sectors, Or.inl ⟨rfl, hfound.failed h3⟩⟩
  · rw [wp_throw]
    refine ⟨hfound.sectors, Or.inr ⟨rfl, fun bsect hb => ?_⟩⟩
    rw [hfound.none h3 h0] at hb
    exact absurd hb.symm (Option.some_ne_none bsect)
  obtain ⟨hboot, hwin⟩ := hfound.some (not_not.mp h0)
  rw [wp_bind, wp_get]
  change wp (if recordOk fs1.win = false ∨ areasOk (areas fs1.win found.2) = false then _ else _) _ _ _
  rw [hwin]
  refine wp_ite (fun hrefused => ?_) fun haccept => ?_
  · rw [wp_throw]
    refine ⟨hfound.sectors, Or.inr ⟨rfl, fun bsect hb hok => ?_⟩⟩
    obtain rfl := Option.some.inj (hboot.symm.trans hb)
    obtain h | h := hrefused
    · exact absurd (h.symm.trans hok.1) Bool.false_ne_true
    · exact absurd (h.symm.trans hok.2) Bool.false_ne_true
  obtain ⟨hrecord, hareas⟩ := not_or.mp haccept
  rw [Bool.not_eq_false] at hrecord hareas
  rw [wp_bind, wp_modify, wp_bind]
  refine readFsInfo_spec.mono (fun _ fs2 hinfo => ?_) fun _ _ => False.elim
  have hsectors : fs2.disk.sectors = fs.disk.sectors := hinfo.2.trans hfound.sectors
  rw [wp_bind, wp_modify, wp_pure]
  refine ⟨hsectors, found.2, hboot, ⟨hrecord, hareas⟩, rfl, fun hrange => ?_⟩
  obtain ⟨v, hv⟩ := areas_volume hrecord hareas hrange
  exact ⟨v, hv, Fs.ok_of_empty rfl rfl, (Fs.sectors_of_clean rfl).trans hsectors⟩

/-- Why a mount is refused, and what it leaves of the object. -/
inductive Refused (drive : Drive) (driveNumber : Int) (wmode : Bool) (obj : FsObject) (fs fs' : Fs) :
    FResult → FsObject → Prop
  | invalidDrive : 1 ≤ driveNumber → fs' = fs → Refused drive driveNumber wmode obj fs fs' .invalidDrive obj
  | notEnabled : obj = .absent → fs' = fs → Refused drive driveNumber wmode obj fs fs' .notEnabled obj
  | keptProtected {g : Geometry} : obj = .mounted g → wmode = true → isProtected drive.diskStatus = true →
      fs' = fs → Refused drive driveNumber wmode obj fs fs' .writeProtected obj
  | notReady : isNoInit drive.diskInitialize = true → fs' = fs →
      Refused drive driveNumber wmode obj fs fs' .notReady .cleared
  | writeProtected : wmode = true → isProtected drive.diskInitialize = true → fs' = fs →
      Refused drive driveNumber wmode obj fs fs' .writeProtected .cleared
  | diskErr : Failed fs.disk fs'.disk → Refused drive driveNumber wmode obj fs fs' .diskErr .cleared
  | noFilesystem : (∀ bsect, bootSector fs.disk.sectors = some bsect → ¬ Accepts fs.disk.sectors bsect) →
      Refused drive driveNumber wmode obj fs fs' .noFilesystem .cleared

/-- What a mount is granted for: an object that is mounted already, or the record of the card. -/
inductive Granted (drive : Drive) (wmode : Bool) (obj : FsObject) (fs fs' : Fs) (g : Geometry) : Prop
  | kept : obj = .mounted g → isNoInit drive.diskStatus = false →
      (wmode = true → isProtected drive.diskStatus = false) → fs' = fs → Granted drive wmode obj fs fs' g
  | mounted {bsect : Nat} : isNoInit drive.diskInitialize = false →
      (wmode = true → isProtected drive.diskInitialize = false) → Mounts fs fs' g bsect →
      Granted drive wmode obj fs fs' g

variable (drive : Drive) (driveNumber : Int) (wmode : Bool) (obj : FsObject) (fs : Fs)

theorem mountVolume_spec : wp (mountVolume drive wmode)
    (fun g t => t.2 = .mounted g ∧ t.1.disk.sectors = fs.disk.sectors ∧ Granted drive wmode obj fs t.1 g)
    (fun e t => t.1.disk.sectors = fs.disk.sectors ∧ Refused drive driveNumber wmode obj fs t.1 e t.2) (fs, obj) := by
  rw [mountVolume, wp_bind, wp_modify]
  refine wp_ite (fun hno => ?_) fun hready => wp_ite (fun hprot => ?_) fun hprot => ?_
  · rw [wp_throw]
    exact ⟨rfl, .notReady hno rfl⟩
  · rw [wp_throw]
    exact ⟨rfl, .writeProtected hprot.1 hprot.2 rfl⟩
  rw [wp_bind, wp_onFst]
  refine mountRecord_spec.mono (fun g fs1 hmounts => ?_) fun e fs1 hrefused => ?_
  · obtain ⟨hsectors, bsect, hmounts⟩ := hmounts
    rw [wp_bind, wp_modify, wp_pure]
    refine ⟨rfl, hsectors, .mounted (Bool.eq_false_of_not_eq_true hready) (fun hw => ?_) hmounts⟩
    exact Bool.eq_false_of_not_eq_true fun hp => hprot ⟨hw, hp⟩
  · obtain ⟨hsectors, ⟨rfl, hf⟩ | ⟨rfl, hno⟩⟩ := hrefused
    · exact ⟨hsectors, .diskErr hf⟩
    · exact ⟨hsectors, .noFilesystem hno⟩

/-- What `chk_mounted` says of a drive: the object that is mounted already, the geometry of the boot record,
or why there is none. -/
theorem chkMounted_spec : wp (chkMounted drive driveNumber wmode)
    (fun g t => t.2 = .mounted g ∧ t.1.disk.sectors = fs.disk.sectors ∧ Granted drive wmode obj fs t.1 g)
    (fun e t => t.1.disk.sectors = fs.disk.sectors ∧ Refused drive driveNumber wmode obj fs t.1 e t.2) (fs, obj) := by
  rw [chkMounted]
  refine wp_ite (fun hdrive => ?_) fun _ => ?_
  · rw [wp_throw]
    exact ⟨rfl, .invalidDrive hdrive rfl⟩
  rw [wp_bind, wp_get]
  have hmount := mountVolume_spec drive driveNumber wmode obj fs
  cases obj with
  | absent =>
    change wp (throw FResult.notEnabled) _ _ _
    rw [wp_throw]
    exact ⟨rfl, .notEnabled rfl rfl⟩
  | cleared => exact hmount
  | mounted g =>
    refine wp_ite (fun _ => hmount) fun hkept => wp_ite (fun hprot => ?_) fun hprot => ?_
    · rw [wp_throw]
      exact ⟨rfl, .keptProtected rfl hprot.1 hprot.2 rfl⟩
    · rw [wp_pure]
      refine ⟨rfl, rfl, .kept rfl (Bool.eq_false_of_not_eq_true hkept) (fun hw => ?_) rfl⟩
      exact Bool.eq_false_of_not_eq_true fun hp => hprot ⟨hw, hp⟩

/-- The boot record of a FAT12 volume with three clusters. -/
def bootRecord : Bytes :=
  stWord (stDword (stWord (stWord (stWord (stByte (stWord (stByte (stWord (fun _ => 0) 11 512) 13 1) 14 1) 16 1)
    17 16) 19 6) 22 1) 54 0x544146) 510 0xaa55

/-- A card with this volume in its first partition, which begins in sector 1. -/
def partitioned : Nat → Bytes
  | 0 => stWord (stDword (stByte (fun _ => 0) 450 1) 454 1) 510 0xaa55
  | 1 => bootRecord
  | _ + 2 => fun _ => 0

def partitionedFs : Fs := { tinyFs fun _ => false with disk := ⟨partitioned, fun _ => false, 0⟩ }

theorem chkMounted_spec_partitioned : ∃ (v : Volume) (fs' : Fs),
    exec (chkMounted ⟨0, 0⟩ 0 true) (partitionedFs, .cleared) = (.ok v.toGeometry, fs', .mounted v.toGeometry) ∧
    v.toGeometry = ⟨.fat12, 1, 1, 16, 0, 5, 1, 2, 3, 4⟩ ∧ fs'.Ok v ∧ fs'.view = partitioned := by
  have hspec := chkMounted_spec ⟨0, 0⟩ 0 true .cleared partitionedFs
  have hok : (exec (chkMounted ⟨0, 0⟩ 0 true) (partitionedFs, .cleared)).1.toOption.isSome = true := by
    decide +kernel
  have hboot : bootSector partitioned = some 1 := by decide +kernel
  have hareas : areas (partitioned 1) 1 = ⟨.fat12, 1, 1, 16, 0, 5, 1, 2, 3, 4⟩ := by decide +kernel
  have hrange : InRange (partitioned 1) 1 := by
    refine ⟨?_, ?_, ?_, ?_⟩ <;> decide +kernel
  generalize hexec : exec (chkMounted ⟨0, 0⟩ 0 true) (partitionedFs, .cleared) = t at hok
  obtain ⟨r, fs', obj'⟩ := t
  cases r with
  | error e => exact absurd hok Bool.false_ne_true
  | ok g =>
    obtain ⟨hobj, -, hgranted⟩ := (wp_ok hexec).mp hspec
    cases hgranted with
    | kept hkept _ _ _ => exact FsObject.noConfusion hkept
    | mounted _ _ hmounts =>
      obtain ⟨hb, -, hg, hvolume⟩ := hmounts
      obtain rfl := Option.some.inj (hb.symm.trans hboot)
      obtain ⟨v, rfl, hv, hview⟩ := hvolume hrange
      have hobj' : obj' = .mounted v.toGeometry := hobj
      exact ⟨v, fs', by rw [hobj'], hg.trans hareas, hv, hview⟩

end MiMic.Fat
