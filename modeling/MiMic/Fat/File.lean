import MiMic.Fat.Clusters

/-!
# Open files

`f_read`, `f_write`, `f_lseek`, `f_truncate` and `f_sync`, in the configuration without a buffer of
their own: parts of a sector go through the window, whole sectors go between the card and the
caller's buffer. That the file object belongs to the mounted volume (`validate`) is taken for granted.
-/
namespace MiMic.Fat

open Verif Verif.Prog

/-- `FIL`; the flags are `FA_READ`, `FA_WRITE`, `FA__ERROR` and `FA__WRITTEN`. -/
structure Fil where
  read : Bool
  write : Bool
  error : Bool
  written : Bool
  fptr : Nat
  fsize : Nat
  sclust : Nat
  clust : Nat
  dsect : Nat
  dirSect : Nat
  dirPtr : Nat
deriving DecidableEq, Repr

abbrev FileM := Prog (Fs × Fil) FResult

def fil : FileM Fil := do
  let s ← get
  return s.2

def modifyFil (f : Fil → Fil) : FileM Unit := modify fun s => (s.1, f s.2)

def modifyFs (f : Fs → Fs) : FileM Unit := modify fun s => (f s.1, s.2)

/-- `ABORT`: the file is not usable any more. -/
def abort {α : Type} (e : FResult) : FileM α := do
  modifyFil fun fp => { fp with error := true }
  throw e

/-- A step on the volume, `ABORT` when a command fails. -/
def orAbort {α : Type} (m : FatM α) : FileM α := do
  let r ← attempt (onFst m)
  match r with
  | .ok a => return a
  | .error _ => abort .diskErr

/-- `mem_cpy(dst + o, src + so, n)` -/
def memCpy (dst : Bytes) (o : Nat) (src : Bytes) (so n : Nat) : Bytes := fun i =>
  if o ≤ i ∧ i < o + n then src (so + (i - o)) else dst i

/-- A buffer from `o` on. -/
def part (buff : Bytes) (o : Nat) : Bytes := fun i => buff (o + i)

/-- `disk_read` of several sectors to `buff + o`. -/
def diskReads : Nat → Nat → Bytes → Nat → FatM Bytes
  | 0, _, buff, _ => return buff
  | count + 1, sector, buff, o => do
    let b ← diskRead sector
    diskReads count (sector + 1) (memCpy buff o b 0 512) (o + 512)

/-- `disk_write` of several sectors from `buff + o`. -/
def diskWrites : Nat → Nat → Bytes → Nat → FatM Unit
  | 0, _, _, _ => return
  | count + 1, sector, buff, o => do
    diskWrite (part buff o) sector
    diskWrites count (sector + 1) buff (o + 512)

/-- The first sector of a cluster, 0 for a number that is none. -/
def clust2sect (v : Volume) (clst : Nat) : Nat :=
  if v.nFatent - 2 ≤ (clst + (2 ^ 32 - 2)) % 2 ^ 32 then 0
  else (clst + (2 ^ 32 - 2)) % 2 ^ 32 * v.csize + v.database

/-- The sector the file pointer stands in, counted from the start of its cluster. -/
def sectorOffset (v : Volume) (fptr : Nat) : Nat := fptr / 512 &&& (v.csize - 1)

/-- `winsect - sect`, on unsigned words. -/
def sectDiff (winsect sect : Nat) : Nat := (winsect + (2 ^ 32 - sect)) % 2 ^ 32

/-- At a cluster boundary: the cluster the file pointer stands at. -/
def readCluster (v : Volume) : FileM Unit := do
  let fp ← fil
  let clst ← (if fp.fptr = 0 then pure fp.sclust else onFst (getFat v fp.clust))
  if clst < 2 then abort .intErr
  else if clst = 0xffffffff then abort .diskErr
  else modifyFil fun fp => { fp with clust := clst }

/-- Part of the sector, out of the window. -/
def readPart (v : Volume) (buff : Bytes) (br btr : Nat) : FileM (Bytes × Nat) := do
  let fp ← fil
  let rcnt := if btr < 512 - fp.fptr % 512 then btr else 512 - fp.fptr % 512
  orAbort (moveWindow v fp.dsect)
  let s ← get
  return (memCpy buff br s.1.win (fp.fptr % 512) rcnt, rcnt)

/-- Whole sectors up to the end of the cluster, straight into the buffer; a changed window is newer
than what the card gave. -/
def readSectors (v : Volume) (buff : Bytes) (br sect csect cc : Nat) : FileM (Bytes × Nat) := do
  let cc := if v.csize < csect + cc then v.csize - csect else cc
  let buff ← orAbort (diskReads cc sect buff br)
  let s ← get
  return (if s.1.wflag = true ∧ sectDiff s.1.winsect sect < cc then
    memCpy buff (br + sectDiff s.1.winsect sect * 512) s.1.win 0 512 else buff, 512 * cc)

/-- One turn of the loop, with the bytes it read. -/
def readBody (v : Volume) (buff : Bytes) (br btr : Nat) : FileM (Bytes × Nat) := do
  let fp ← fil
  let csect := sectorOffset v fp.fptr
  if fp.fptr % 512 = 0 then do
    (if csect = 0 then readCluster v else pure ())
    let fp ← fil
    let sect := clust2sect v fp.clust
    if sect = 0 then abort .intErr
    else if btr / 512 ≠ 0 then readSectors v buff br (sect + csect) csect (btr / 512)
    else do
      modifyFil fun fp => { fp with dsect := sect + csect }
      readPart v buff br btr
  else readPart v buff br btr

/-- Every turn reads a byte at least. -/
def readLoop (v : Volume) : Nat → Bytes → Nat → Nat → FileM (Bytes × Nat)
  | 0, buff, br, _ => return (buff, br)
  | fuel + 1, buff, br, btr =>
    if btr = 0 then return (buff, br)
    else do
      let r ← readBody v buff br btr
      modifyFil fun fp => { fp with fptr := fp.fptr + r.2 }
      readLoop v fuel r.1 (br + r.2) (btr - r.2)

def fRead (v : Volume) (buff : Bytes) (btr : Nat) : FileM (Bytes × Nat) := do
  let fp ← fil
  if fp.error = true then throw .intErr
  else if fp.read = false then throw .denied
  else do
    let remain := (fp.fsize + (2 ^ 32 - fp.fptr)) % 2 ^ 32
    let btr := if remain < btr then remain else btr
    readLoop v btr buff 0 btr

/-- The cluster the file pointer stands at, a new one where there is none. -/
def nextCluster (v : Volume) (fp : Fil) : FileM Nat :=
  if fp.fptr = 0 then
    if fp.sclust = 0 then do
      let clst ← onFst (createChain v 0)
      modifyFil fun fp => { fp with sclust := clst }
      return clst
    else return fp.sclust
  else onFst (createChain v fp.clust)

/-- At a cluster boundary; `false` when the volume is full. -/
def writeCluster (v : Volume) : FileM Bool := do
  let fp ← fil
  let clst ← nextCluster v fp
  if clst = 0 then return false
  else if clst = 1 then abort .intErr
  else if clst = 0xffffffff then abort .diskErr
  else do
    modifyFil fun fp => { fp with clust := clst }
    return true

/-- Part of the sector, into the window. -/
def writePart (v : Volume) (wbuff : Bytes) (bw btw : Nat) : FileM Nat := do
  let fp ← fil
  let wcnt := if btw < 512 - fp.fptr % 512 then btw else 512 - fp.fptr % 512
  orAbort (moveWindow v fp.dsect)
  modifyFs fun fs => { fs with win := memCpy fs.win (fp.fptr % 512) wbuff bw wcnt, wflag := true }
  return wcnt

/-- Whole sectors up to the end of the cluster, straight out of the buffer; the window is refilled
when it shows one of them. -/
def writeSectors (v : Volume) (wbuff : Bytes) (bw sect csect cc : Nat) : FileM Nat := do
  let cc := if v.csize < csect + cc then v.csize - csect else cc
  orAbort (diskWrites cc sect wbuff bw)
  modifyFs fun fs =>
    if sectDiff fs.winsect sect < cc then
      { fs with win := part wbuff (bw + sectDiff fs.winsect sect * 512), wflag := false }
    else fs
  return 512 * cc

/-- At the growing edge the window is not filled from the card. -/
def writeEdge (v : Volume) (sect : Nat) : FileM Unit := do
  let fp ← fil
  if fp.fsize ≤ fp.fptr then do
    orAbort (moveWindow v 0)
    modifyFs fun fs => { fs with winsect := sect }
    modifyFil fun fp => { fp with dsect := sect }
  else modifyFil fun fp => { fp with dsect := sect }

/-- One turn of the loop, with the bytes it wrote; `none` when the volume is full. -/
def writeBody (v : Volume) (wbuff : Bytes) (bw btw : Nat) : FileM (Option Nat) := do
  let fp ← fil
  let csect := sectorOffset v fp.fptr
  if fp.fptr % 512 = 0 then do
    let going ← (if csect = 0 then writeCluster v else pure true)
    if going then do
      let s ← get
      (if s.1.winsect = s.2.dsect then orAbort (moveWindow v 0) else pure ())
      let fp ← fil
      let sect := clust2sect v fp.clust
      if sect = 0 then abort .intErr
      else if btw / 512 ≠ 0 then some <$> writeSectors v wbuff bw (sect + csect) csect (btw / 512)
      else do
        writeEdge v (sect + csect)
        some <$> writePart v wbuff bw btw
    else return none
  else some <$> writePart v wbuff bw btw

/-- Every turn writes a byte at least. -/
def writeLoop (v : Volume) (wbuff : Bytes) : Nat → Nat → Nat → FileM Nat
  | 0, bw, _ => return bw
  | fuel + 1, bw, btw =>
    if btw = 0 then return bw
    else do
      let r ← writeBody v wbuff bw btw
      match r with
      | none => return bw
      | some wcnt => do
        modifyFil fun fp => { fp with fptr := fp.fptr + wcnt }
        writeLoop v wbuff fuel (bw + wcnt) (btw - wcnt)

def fWrite (v : Volume) (wbuff : Bytes) (btw : Nat) : FileM Nat := do
  let fp ← fil
  if fp.error = true then throw .intErr
  else if fp.write = false then throw .denied
  else do
    -- the size of a file cannot reach 4 GB
    let btw := if (fp.fsize + btw) % 2 ^ 32 < fp.fsize then 0 else btw
    let bw ← writeLoop v wbuff btw 0 btw
    modifyFil fun fp => { fp with fsize := if fp.fsize < fp.fptr then fp.fptr else fp.fsize, written := true }
    return bw

/-- The loop of `f_lseek`: along the chain, which grows as far as there are clusters. -/
def seekLoop (v : Volume) : Nat → Nat → Nat → FileM (Nat × Nat)
  | 0, clst, ofs => return (clst, ofs)
  | fuel + 1, clst, ofs =>
    if ofs ≤ v.csize * 512 then return (clst, ofs)
    else do
      let fp ← fil
      let nxt ← onFst (if fp.write = true then createChain v clst else getFat v clst)
      if fp.write = true ∧ nxt = 0 then return (0, v.csize * 512)
      else if nxt = 0xffffffff then abort .diskErr
      else if nxt ≤ 1 ∨ v.nFatent ≤ nxt then abort .intErr
      else do
        modifyFil fun fp => { fp with clust := nxt, fptr := fp.fptr + v.csize * 512 }
        seekLoop v fuel nxt (ofs - v.csize * 512)

/-- From a cluster on: the sector of the new position, 0 when it is a sector boundary. -/
def seekFrom (v : Volume) (clst ofs : Nat) : FileM Nat :=
  if clst = 0 then return 0
  else do
    let r ← seekLoop v ofs clst ofs
    modifyFil fun fp => { fp with fptr := fp.fptr + r.2 }
    if r.2 % 512 = 0 then return 0
    else if clust2sect v r.1 = 0 then abort .intErr
    else return clust2sect v r.1 + r.2 / 512

/-- Where the walk along the chain starts: at the current cluster, or at the first one. -/
def seekTo (v : Volume) (fp : Fil) (ofs : Nat) : FileM Nat :=
  if ofs = 0 then return 0
  else if 0 < fp.fptr ∧ (fp.fptr - 1) / (v.csize * 512) ≤ (ofs - 1) / (v.csize * 512) then do
    let start := (fp.fptr - 1) &&& ((v.csize * 512 - 1) ^^^ 0xffffffff)
    modifyFil fun fp => { fp with fptr := start }
    seekFrom v fp.clust (ofs - start)
  else if fp.sclust = 0 then do
    let clst ← onFst (createChain v 0)
    if clst = 1 then abort .intErr
    else if clst = 0xffffffff then abort .diskErr
    else do
      modifyFil fun fp => { fp with sclust := clst, clust := clst }
      seekFrom v clst ofs
  else do
    modifyFil fun fp => { fp with clust := fp.sclust }
    seekFrom v fp.sclust ofs

def fLseek (v : Volume) (ofs : Nat) : FileM Unit := do
  let fp ← fil
  if fp.error = true then throw .intErr
  else do
    modifyFil fun fp => { fp with fptr := 0 }
    let nsect ← seekTo v fp (if fp.fsize < ofs ∧ fp.write = false then fp.fsize else ofs)
    modifyFil fun fp => if fp.fptr % 512 ≠ 0 ∧ nsect ≠ fp.dsect then { fp with dsect := nsect } else fp
    modifyFil fun fp => if fp.fsize < fp.fptr then { fp with fsize := fp.fptr, written := true } else fp

/-- The clusters behind the file pointer. -/
def dropClusters (v : Volume) (fp : Fil) : FatM Unit :=
  if fp.fptr = 0 then removeChain v fp.sclust
  else do
    let ncl ← getFat v fp.clust
    if ncl = 0xffffffff then throw .diskErr
    else if ncl = 1 then throw .intErr
    else if ncl < v.nFatent then do
      putFat v fp.clust 0x0fffffff
      removeChain v ncl
    else return

def fTruncate (v : Volume) : FileM Unit := do
  let fp ← fil
  if fp.error = true then throw .intErr
  else if fp.write = false then throw .denied
  else if fp.fptr < fp.fsize then do
    modifyFil fun fp => { fp with fsize := fp.fptr, written := true }
    let res ← attempt (onFst (dropClusters v fp))
    modifyFil fun fp => if fp.fptr = 0 then { fp with sclust := 0 } else fp
    match res with
    | .ok _ => return
    | .error e => abort e
  else return

end MiMic.Fat
