import Mathlib.Algebra.Group.Nat.Defs
import Mathlib.Data.Nat.Basic

/-!
# A FAT volume and the card under it

The card reads and writes sectors of 512 bytes. A command that fails leaves the sector and the
buffer as they were. The geometry is what `chk_mounted` computes of the boot sector; a volume is a
geometry whose areas lie in order on the card.
-/
namespace MiMic.Fat

/-- The bytes of a sector, or of a buffer, from offset 0 on; `SS(fs)` is 512. -/
abbrev Bytes := Nat → UInt8

def ldWord (p : Bytes) (o : Nat) : Nat := (p o).toNat + 256 * (p (o + 1)).toNat

def ldDword (p : Bytes) (o : Nat) : Nat := ldWord p o + 65536 * ldWord p (o + 2)

/-- The byte at `o` is replaced. -/
def stByte (p : Bytes) (o : Nat) (v : UInt8) : Bytes := fun i => if i = o then v else p i

def stWord (p : Bytes) (o v : Nat) : Bytes :=
  stByte (stByte p o (.ofNat v)) (o + 1) (.ofNat (v / 256))

def stDword (p : Bytes) (o v : Nat) : Bytes :=
  stWord (stWord p o v) (o + 2) (v / 65536)

/-- The codes other than `FR_OK` that the modelled functions return. -/
inductive FResult
  | diskErr
  | intErr
  | notReady
  | denied
  | writeProtected
  | invalidDrive
  | notEnabled
  | noFilesystem
deriving DecidableEq, Repr

inductive FsType
  | fat12
  | fat16
  | fat32
deriving DecidableEq, Repr

/-- The fields of `FATFS` that are fixed when the volume is mounted. -/
structure Geometry where
  fsType : FsType
  csize : Nat
  nFats : Nat
  nRootdir : Nat
  fsiSector : Nat
  nFatent : Nat
  fsize : Nat
  fatbase : Nat
  dirbase : Nat
  database : Nat
deriving DecidableEq, Repr

/-- The bytes a table of `n` entries takes. -/
def fatBytes : FsType → Nat → Nat
  | .fat12, n => n * 3 / 2 + n % 2
  | .fat16, n => n * 2
  | .fat32, n => n * 4

/-- What `0x0FFFFFFF` reads as once it is stored in an entry. -/
def eocMark : FsType → Nat
  | .fat12 => 0xfff
  | .fat16 => 0xffff
  | .fat32 => 0xfffffff

structure Volume extends Geometry where
  csize_pow : ∃ k ≤ 7, csize = 2 ^ k
  nFats_mem : nFats = 1 ∨ nFats = 2
  two_lt : 2 < nFatent
  le_eoc : nFatent ≤ eocMark fsType
  fits : fatBytes fsType nFatent ≤ fsize * 512
  fatbase_pos : 0 < fatbase
  fsi_lt : fsiSector < fatbase
  fat_le : fatbase + fsize * nFats ≤ database
  fits_disk : database + (nFatent - 2) * csize ≤ 2 ^ 32

/-- The sectors, which accesses fail and how many there have been. -/
structure Disk where
  sectors : Nat → Bytes
  fails : Nat → Bool
  accesses : Nat

/-- The mutable fields of `FATFS`, and the card. -/
structure Fs where
  lastClust : Nat
  freeClust : Nat
  fsiFlag : Bool
  wflag : Bool
  winsect : Nat
  win : Bytes
  disk : Disk

namespace Volume

variable (v : Volume)

/-- The sectors that are read: the first table, the root directory and the data, not the copies of
the table. -/
def Primary (s : Nat) : Prop :=
  v.fatbase ≤ s ∧ s < 2 ^ 32 ∧ (s < v.fatbase + v.fsize ∨ v.fatbase + v.fsize * v.nFats ≤ s)

instance (s : Nat) : Decidable (v.Primary s) := inferInstanceAs (Decidable (_ ∧ _))

theorem csize_pos : 0 < v.csize := by
  obtain ⟨k, -, hk⟩ := v.csize_pow
  rw [hk]
  exact Nat.two_pow_pos k

theorem primary_pos {s : Nat} (h : v.Primary s) : s ≠ 0 := by
  have hpos := v.fatbase_pos
  have hle := h.1
  omega

theorem le_database : v.fatbase + v.fsize ≤ v.database := by
  have hle := v.fat_le
  rcases v.nFats_mem with h | h
  · rw [h] at hle
    omega
  · rw [h] at hle
    omega

theorem primary_fat {s : Nat} (hlo : v.fatbase ≤ s) (hhi : s < v.fatbase + v.fsize) : v.Primary s := by
  have hle := v.le_database
  have hdisk := v.fits_disk
  exact ⟨hlo, by omega, Or.inl hhi⟩

theorem primary_data {s : Nat} (h : v.database ≤ s) (hlt : s < 2 ^ 32) : v.Primary s := by
  have hle := v.le_database
  exact ⟨by omega, hlt, Or.inr (Nat.le_trans v.fat_le h)⟩

end Volume

theorem tiny_areas : (∃ k ≤ 7, 1 = 2 ^ k) ∧ (1 = 1 ∨ 1 = 2) ∧ 2 < 5 ∧ 5 ≤ eocMark .fat12 ∧ fatBytes .fat12 5 ≤ 1 * 512 ∧
    0 < 1 ∧ 1 + 1 * 1 ≤ 3 ∧ 3 + (5 - 2) * 1 ≤ 2 ^ 32 :=
  ⟨⟨0, by decide, rfl⟩, by decide⟩

def tinyVolume : Volume where
  fsType := .fat12
  csize := 1
  nFats := 1
  nRootdir := 16
  fsiSector := 0
  nFatent := 5
  fsize := 1
  fatbase := 1
  dirbase := 2
  database := 3
  csize_pow := tiny_areas.1
  nFats_mem := tiny_areas.2.1
  two_lt := tiny_areas.2.2.1
  le_eoc := tiny_areas.2.2.2.1
  fits := tiny_areas.2.2.2.2.1
  fatbase_pos := tiny_areas.2.2.2.2.2.1
  fsi_lt := tiny_areas.2.2.2.2.2.1
  fat_le := tiny_areas.2.2.2.2.2.2.1
  fits_disk := tiny_areas.2.2.2.2.2.2.2

/-- The volume just mounted, on a card that holds nothing but zeros. -/
def tinyFs (fails : Nat → Bool) : Fs where
  lastClust := 0
  freeClust := 0xffffffff
  fsiFlag := false
  wflag := false
  winsect := 0
  win := fun _ => 0
  disk := ⟨fun _ _ => 0, fails, 0⟩

end MiMic.Fat
