import MiMic.Flash.OnchipFlashWriter

/-!
# The blocks of the flash writer

`NyLPC_cOnchipFlashWriter_write` over any ROM, with the sizes of the source: a word for the size
and the addresses, 16 bits for the padding. Of the ROM only its calls are known here, and what a
successful call does to the memory is an assumption of its own.
-/
namespace MiMic.Flash.Lpc

open Verif NorFlash

variable {ρ : Type}

/-- The commands of the ROM. -/
inductive IapCommand
  | prepare (start stop : Nat)
  | copyRam2Flash (flashAddr : Nat) (data : List UInt8)

/-- `LPCXpresso_iap_entry`, over what the ROM and the flash keep. -/
structure IapRom (ρ : Type) where
  memory : ρ → Memory
  prepare : ρ → Nat → Nat → ρ × Bool
  copyRam2Flash : ρ → Nat → List UInt8 → ρ × Bool

/-- A ROM that notes its commands. -/
def IapRom.logged (R : IapRom ρ) : IapRom (ρ × List IapCommand) where
  memory r := R.memory r.1
  prepare r s e := (((R.prepare r.1 s e).1, r.2 ++ [.prepare s e]), (R.prepare r.1 s e).2)
  copyRam2Flash r a data :=
    (((R.copyRam2Flash r.1 a data).1, r.2 ++ [.copyRam2Flash a data]),
      (R.copyRam2Flash r.1 a data).2)

/-- `memcpy` of `n` bytes to `off`. -/
def memcpy (work : Memory) (off n : Nat) (src : Memory) : Memory :=
  patch work off n fun i => src (i - off)

namespace IapRom

/-- `_work` behind the three copies of a round. -/
def fillWork (m work src : Memory) (fblockAddr : UInt32) (sPadding : UInt16) (wsize : UInt32) :
    Memory :=
  let work := if sPadding > 0 then memcpy work 0 sPadding.toNat fun i => m (fblockAddr.toNat + i)
    else work
  let work := memcpy work sPadding.toNat wsize.toNat src
  let rear := 256 - (wsize + sPadding.toUInt32)
  if rear > 0 then
    memcpy work (sPadding.toUInt32 + wsize).toNat rear.toNat
      fun i => m ((fblockAddr + (wsize + sPadding.toUInt32)).toNat + i)
  else work

/-- How much of the source goes into the first block. -/
def wsize (dest size : UInt32) : UInt32 :=
  let freeSize : UInt16 := 256 - (dest % 256).toUInt16
  if freeSize.toUInt32 > size then size else freeSize.toUInt32

/-- The loop of `NyLPC_cOnchipFlashWriter_write`, with `_work` as it was left; `none` when the
turns are used up. -/
def writeLoop (R : IapRom ρ) : Nat → ρ → Memory → UInt32 → Memory → UInt32 → Option (ρ × Bool)
  | 0, _, _, _, _, _ => none
  | fuel + 1, r, work, dest, src, size =>
      if size > 0 then
        let sPadding : UInt16 := (dest % 256).toUInt16
        let fblockAddr := dest - sPadding.toUInt32
        let work := fillWork (R.memory r) work src fblockAddr sPadding (wsize dest size)
        match addr2Sector fblockAddr.toNat with
        | none => some (r, false)
        | some snum =>
            let p := R.prepare r snum snum
            if p.2 then
              let c := R.copyRam2Flash p.1 fblockAddr.toNat (work.window 0 256)
              if c.2 then
                writeLoop R fuel c.1 work (dest + wsize dest size)
                  (fun i => src ((wsize dest size).toNat + i)) (size - wsize dest size)
              else some (c.1, false)
            else some (p.1, false)
      else some (r, true)

/-- `NyLPC_cOnchipFlashWriter_write`. -/
def write (R : IapRom ρ) (r : ρ) (work : Memory) (dest : UInt32) (src : Memory) (size : UInt32) :
    Option (ρ × Bool) :=
  if size % 4 ≠ 0 then some (r, false)
  else if dest % 4 ≠ 0 then some (r, false)
  else writeLoop R (size.toNat + 1) r work dest src size

end IapRom

section

variable {dest size : UInt32}

theorem toNat_sPadding (dest : UInt32) : (dest % 256).toUInt16.toNat = dest.toNat % 256 := by
  rw [UInt32.toNat_toUInt16, UInt32.toNat_mod]
  show dest.toNat % 256 % 65536 = _
  omega

theorem toNat_fblockAddr (dest : UInt32) :
    (dest - (dest % 256).toUInt16.toUInt32).toNat = dest.toNat - dest.toNat % 256 := by
  have hle : (dest % 256).toUInt16.toUInt32 ≤ dest := by
    rw [UInt32.le_iff_toNat_le, UInt16.toNat_toUInt32, toNat_sPadding]
    exact Nat.mod_le _ _
  rw [UInt32.toNat_sub_of_le _ _ hle, UInt16.toNat_toUInt32, toNat_sPadding]

/-- The size of a round as a number. -/
def roundSize (dest size : Nat) : Nat := min (256 - dest % 256) size

theorem toNat_wsize (dest size : UInt32) :
    (IapRom.wsize dest size).toNat = roundSize dest.toNat size.toNat := by
  have hle : (dest % 256).toUInt16 ≤ 256 := by
    rw [UInt16.le_iff_toNat_le, toNat_sPadding]
    show dest.toNat % 256 ≤ 256
    omega
  have hfree : (256 - (dest % 256).toUInt16).toUInt32.toNat = 256 - dest.toNat % 256 := by
    rw [UInt16.toNat_toUInt32, UInt16.toNat_sub_of_le _ _ hle, toNat_sPadding]
    rfl
  unfold roundSize IapRom.wsize
  dsimp only
  split
  · next h =>
    rw [gt_iff_lt, UInt32.lt_iff_toNat_lt, hfree] at h
    omega
  · next h =>
    rw [gt_iff_lt, UInt32.lt_iff_toNat_lt, hfree] at h
    omega

/-- The work buffer holds the block as it is to be. -/
theorem window_fillWork (m work src : Memory) {fblockAddr wsize : UInt32} {sPadding : UInt16}
    (hfit : sPadding.toNat + wsize.toNat ≤ 256) (hend : fblockAddr.toNat + 256 ≤ 2 ^ 32) :
    Memory.window (IapRom.fillWork m work src fblockAddr sPadding wsize) 0 256 =
      Memory.window (patch m (fblockAddr.toNat + sPadding.toNat) wsize.toNat
        fun x => src (x - (fblockAddr.toNat + sPadding.toNat))) fblockAddr.toNat 256 := by
  have hsum : (wsize + sPadding.toUInt32).toNat = wsize.toNat + sPadding.toNat := by
    rw [UInt32.toNat_add, UInt16.toNat_toUInt32]
    omega
  have hrear : (256 - (wsize + sPadding.toUInt32)).toNat = 256 - (wsize.toNat + sPadding.toNat) := by
    rw [UInt32.toNat_sub_of_le, hsum]
    · rfl
    · rw [UInt32.le_iff_toNat_le, hsum]
      show _ ≤ 256
      omega
  rw [Memory.window, Memory.window]
  refine List.map_congr_left fun i hi => ?_
  have hi : i < 256 := List.mem_range.mp hi
  have hlow : sPadding > 0 ↔ 0 < sPadding.toNat := UInt16.lt_iff_toNat_lt
  have hhigh : 256 - (wsize + sPadding.toUInt32) > 0 ↔ 0 < 256 - (wsize.toNat + sPadding.toNat) := by
    rw [← hrear]
    exact UInt32.lt_iff_toNat_lt
  have hmid : (sPadding.toUInt32 + wsize).toNat = wsize.toNat + sPadding.toNat := by
    rw [UInt32.add_comm, hsum]
  rw [Nat.zero_add]
  unfold IapRom.fillWork memcpy
  simp only [hlow, hhigh, hmid, hrear]
  by_cases hfront : i < sPadding.toNat
  · rw [patch_outside (m := m) (by omega), if_pos (show 0 < sPadding.toNat by omega)]
    split
    · rw [patch_outside (by omega), patch_outside (by omega), patch_inside (by omega) (by omega)]
      rfl
    · rw [patch_outside (by omega), patch_inside (by omega) (by omega)]
      rfl
  · by_cases hback : i < wsize.toNat + sPadding.toNat
    · have hsrc : fblockAddr.toNat + i - (fblockAddr.toNat + sPadding.toNat) = i - sPadding.toNat := by
        omega
      rw [patch_inside (m := m) (by omega) (by omega), hsrc]
      split
      · rw [patch_outside (by omega), patch_inside (by omega) (by omega)]
      · rw [patch_inside (by omega) (by omega)]
    · have haddr : (fblockAddr + (wsize + sPadding.toUInt32)).toNat =
          fblockAddr.toNat + (wsize.toNat + sPadding.toNat) := by
        rw [UInt32.toNat_add, hsum]
        omega
      rw [patch_outside (m := m) (by omega), if_pos (by omega), patch_inside (by omega) (by omega),
        haddr]
      congr 1
      omega

theorem getD_window (m : Memory) (a : Nat) {n i : Nat} (h : i < n) : (m.window a n).getD i 0 = m (a + i) := by
  simp [Memory.window, List.getD_eq_getElem?_getD, List.getElem?_map, List.getElem?_range h]

end

/-- A block with the sector that is prepared for it. -/
structure BlockWrite where
  sector : Nat
  addr : Nat
  data : List UInt8

/-- The memory with `size` bytes of the source at `dest`. -/
def programmed (m : Memory) (dest size : Nat) (src : Memory) : Memory :=
  patch m dest size fun x => src (x - dest)

/-- The blocks are those that `size` bytes from `dest` on touch. Each is aligned, lies in the sector
that was prepared, and gets the source's bytes where they belong and its old ones elsewhere. -/
structure Writes (m : Memory) (dest size : Nat) (src : Memory) (bs : List BlockWrite) : Prop where
  aligned : ∀ b ∈ bs, b.addr % 256 = 0
  sector : ∀ b ∈ bs, addr2Sector b.addr = some b.sector
  data : ∀ b ∈ bs, b.data = (programmed m dest size src).window b.addr 256
  touched : ∀ b ∈ bs, dest < b.addr + 256 ∧ b.addr < dest + size
  covered : ∀ x, dest ≤ x → x < dest + size → ∃ b ∈ bs, b.addr ≤ x ∧ x < b.addr + 256

theorem programmed_programmed {m src : Memory} {dest w size : Nat} (hw : w ≤ size) :
    programmed (programmed m dest w src) (dest + w) (size - w) (fun i => src (w + i)) =
      programmed m dest size src := by
  funext x
  unfold programmed
  by_cases hin : dest ≤ x ∧ x < dest + size
  · rw [patch_inside (m := m) (n := size) hin.1 hin.2]
    by_cases hfirst : x < dest + w
    · rw [patch_outside (by omega), patch_inside hin.1 hfirst]
    · rw [patch_inside (by omega) (by omega)]
      show src (w + (x - (dest + w))) = src (x - dest)
      congr 1
      omega
  · rw [patch_outside (n := size - w) (by omega), patch_outside (n := w) (by omega),
      patch_outside (n := size) (by omega)]

/-- A round, and then the rest from the next block on. -/
theorem Writes.cons {m src : Memory} {dest size sector : Nat} {bs : List BlockWrite}
    (hsector : addr2Sector (dest - dest % 256) = some sector) (hpos : 0 < size)
    (hrest : Writes (programmed m dest (roundSize dest size) src) (dest + roundSize dest size)
      (size - roundSize dest size) (fun i => src (roundSize dest size + i)) bs) :
    Writes m dest size src (⟨sector, dest - dest % 256,
      (programmed m dest (roundSize dest size) src).window (dest - dest % 256) 256⟩ :: bs) := by
  have hround : roundSize dest size = min (256 - dest % 256) size := rfl
  have hall := @programmed_programmed m src dest _ _
    (show roundSize dest size ≤ size by omega)
  constructor
  · intro b hb
    rcases List.mem_cons.mp hb with rfl | hb
    · show (dest - dest % 256) % 256 = 0
      omega
    · exact hrest.aligned b hb
  · intro b hb
    rcases List.mem_cons.mp hb with rfl | hb
    · exact hsector
    · exact hrest.sector b hb
  · intro b hb
    rcases List.mem_cons.mp hb with rfl | hb
    · refine List.map_congr_left fun i hi => ?_
      have hi : i < 256 := List.mem_range.mp hi
      show programmed m dest (roundSize dest size) src (dest - dest % 256 + i) =
        programmed m dest size src (dest - dest % 256 + i)
      unfold programmed
      -- a round that does not end with its block is the last one
      by_cases hin : dest ≤ dest - dest % 256 + i ∧ dest - dest % 256 + i < dest + roundSize dest size
      · rw [patch_inside hin.1 hin.2, patch_inside hin.1 (by omega)]
      · rw [patch_outside (n := roundSize dest size) (by omega), patch_outside (by omega)]
    · rw [hrest.data b hb, hall]
  · intro b hb
    rcases List.mem_cons.mp hb with rfl | hb
    · show dest < dest - dest % 256 + 256 ∧ dest - dest % 256 < dest + size
      omega
    · have := hrest.touched b hb
      omega
  · intro x hlo hhi
    by_cases hround : x < dest + roundSize dest size
    · refine ⟨_, List.mem_cons_self, ?_⟩
      show dest - dest % 256 ≤ x ∧ x < dest - dest % 256 + 256
      omega
    · obtain ⟨b, hb, hin⟩ := hrest.covered x (by omega) (by omega)
      exact ⟨b, List.mem_cons_of_mem _ hb, hin⟩

namespace IapRom

variable {R : IapRom ρ} {r : ρ} {log : List IapCommand} {work src : Memory} {dest size : UInt32}

/-- A block with a sector lies in the flash. -/
theorem block_end {a s : Nat} (h : addr2Sector a = some s) (halign : a % 256 = 0) :
    a + 256 ≤ 0x80000 := by
  unfold addr2Sector at h
  split_ifs at h <;> omega

/-- What a round gives to the ROM. -/
theorem window_round (m work src : Memory) {dest size : UInt32}
    (hend : dest.toNat - dest.toNat % 256 + 256 ≤ 0x80000) :
    Memory.window (fillWork m work src (dest - (dest % 256).toUInt16.toUInt32)
        (dest % 256).toUInt16 (wsize dest size)) 0 256 =
      (programmed m dest.toNat (roundSize dest.toNat size.toNat) src).window
        (dest.toNat - dest.toNat % 256) 256 := by
  have hblock := toNat_fblockAddr dest
  have hpadding := toNat_sPadding dest
  have hw := toNat_wsize dest size
  have hround : roundSize dest.toNat size.toNat = min (256 - dest.toNat % 256) size.toNat := rfl
  have hdest : dest.toNat - dest.toNat % 256 + dest.toNat % 256 = dest.toNat := by omega
  rw [window_fillWork m work src (by omega) (by omega), hblock, hpadding, hw, hdest]
  rfl

/-- What a round leaves to do. -/
theorem toNat_rest (dest size : UInt32) :
    (size - wsize dest size).toNat = size.toNat - roundSize dest.toNat size.toNat := by
  rw [UInt32.toNat_sub_of_le, toNat_wsize]
  rw [UInt32.le_iff_toNat_le, toNat_wsize]
  exact Nat.min_le_right _ _

/-- The flash of the configuration as a ROM. -/
def device : IapRom Device where
  memory d := d.memory
  prepare d _ _ := iapPrepare d
  copyRam2Flash d a data := d.program a 256 fun i => data.getD i 0

theorem call_congr (d : Device) {a n : Nat} {f g : Cells} (h : ∀ x, a ≤ x → x < a + n → f x = g x) :
    d.call a n f = d.call a n g := by
  have hpatch : patch d.memory a n f = patch d.memory a n g := by
    funext x
    unfold patch
    split
    · next hin => exact h x hin.1 hin.2
    · rfl
  unfold Device.call
  rw [hpatch]

theorem memory_iapPrepare (d : Device) (h : (iapPrepare d).2 = true) :
    (iapPrepare d).1.memory = d.memory := by
  rcases d.call_cases 0 0 d.memory with ⟨hp, -⟩ | ⟨left, script, -, hp⟩
  · rw [iapPrepare, hp]
    show patch d.memory 0 0 d.memory = d.memory
    exact patch_zero _ _ _
  · rw [iapPrepare, hp] at h
    cases h

/-- A block that the writer gives to that flash. -/
theorem copyRam2Flash_device {m : Memory} (work : Memory) {src : List UInt8} {dest size : UInt32}
    {p : Device} (hend : dest.toNat - dest.toNat % 256 + 256 ≤ 0x80000) (hp : p.memory = m)
    (hlen : roundSize dest.toNat size.toNat ≤ src.length) :
    device.copyRam2Flash p (dest.toNat - dest.toNat % 256)
        (Memory.window (fillWork m work (listMemory src)
          (dest - (dest % 256).toUInt16.toUInt32) (dest % 256).toUInt16 (wsize dest size)) 0 256) =
      p.program (dest.toNat - dest.toNat % 256) 256
        (Lpc.work p.memory (dest.toNat - dest.toNat % 256) (dest.toNat % 256)
          (src.take (roundSize dest.toNat size.toNat))) := by
  rw [window_round _ _ _ hend]
  refine call_congr p fun x hlo hhi => ?_
  show p.memory x &&& (Memory.window (programmed _ _ _ _) _ 256).getD (x - _) 0 = _
  rw [getD_window _ _ (by omega), hp]
  congr 1
  have hx : dest.toNat - dest.toNat % 256 + (x - (dest.toNat - dest.toNat % 256)) = x := by omega
  have htake : (src.take (roundSize dest.toNat size.toNat)).length = roundSize dest.toNat size.toNat := by
    rw [List.length_take]
    omega
  rw [hx, programmed, Lpc.work, htake, hx]
  by_cases hin : dest.toNat ≤ x ∧ x < dest.toNat + roundSize dest.toNat size.toNat
  · have hindex : x - (dest.toNat - dest.toNat % 256) - dest.toNat % 256 = x - dest.toNat := by omega
    rw [patch_inside hin.1 hin.2, if_pos (by omega), hindex, listMemory, List.getD_eq_getElem?_getD,
      List.getD_eq_getElem?_getD, List.getElem?_take_of_lt (by omega)]
  · rw [patch_outside (by omega), if_neg (by omega)]

/-- The writer that the configuration is written with is this one over that flash. -/
theorem writeLoop_device (n fuel : Nat) (d : Device) (work : Memory) (dest size : UInt32)
    (src : List UInt8) (hsize : size.toNat = src.length) (hfuel : size.toNat < fuel)
    (hn : src.length ≤ n) :
    writeLoop device fuel d work dest (listMemory src) size =
      some (Lpc.writeLoop n d dest.toNat src) := by
  induction fuel generalizing n d work dest size src with
  | zero => exact absurd hfuel (Nat.not_lt_zero _)
  | succ fuel ih =>
    cases src with
    | nil =>
      have hzero : ¬ size > 0 := by
        rw [gt_iff_lt, UInt32.lt_iff_toNat_lt, hsize]
        exact Nat.lt_irrefl 0
      rw [writeLoop, if_neg hzero]
      cases n <;> rfl
    | cons c cs =>
      obtain ⟨n, rfl⟩ : ∃ k, n = k + 1 := ⟨n - 1, by rw [List.length_cons] at hn; omega⟩
      have hpos : size > 0 := by
        rw [gt_iff_lt, UInt32.lt_iff_toNat_lt, hsize]
        exact Nat.succ_pos _
      have hw := toNat_wsize dest size
      have hround : min (256 - dest.toNat % 256) (c :: cs).length = roundSize dest.toNat size.toNat := by
        rw [hsize]
        rfl
      have hround' : roundSize dest.toNat size.toNat = min (256 - dest.toNat % 256) size.toNat := rfl
      rw [writeLoop, if_pos hpos]
      simp only [Lpc.writeLoop]
      rw [toNat_fblockAddr, hround]
      cases hsector : addr2Sector (dest.toNat - dest.toNat % 256) with
      | none => rfl
      | some snum =>
        have hend := block_end hsector (by omega)
        have hdest : (dest + wsize dest size).toNat = dest.toNat + roundSize dest.toNat size.toNat := by
          rw [UInt32.toNat_add, hw]
          omega
        have hprepared : device.prepare d snum snum = iapPrepare d := rfl
        have hmemory : device.memory d = d.memory := rfl
        dsimp only
        rw [hprepared, hmemory]
        by_cases hp : (iapPrepare d).2 = true
        · rw [if_pos hp, if_pos hp, copyRam2Flash_device work hend (memory_iapPrepare d hp)
            (show roundSize dest.toNat size.toNat ≤ (c :: cs).length by omega)]
          split
          · have hshift : (fun i => listMemory (c :: cs) ((wsize dest size).toNat + i)) =
                listMemory ((c :: cs).drop (roundSize dest.toNat size.toNat)) := by
              funext i
              rw [hw, listMemory, listMemory, List.getD_eq_getElem?_getD, List.getD_eq_getElem?_getD,
                List.getElem?_drop]
            have hrest := toNat_rest dest size
            rw [hshift, ← hdest]
            refine ih n _ _ _ _ _ ?_ ?_ ?_
            · rw [hrest, List.length_drop, hsize]
            · have hpos : 0 < size.toNat := UInt32.lt_iff_toNat_lt.mp hpos
              omega
            · rw [List.length_drop]
              rw [List.length_cons] at hn hsize ⊢
              omega
          · rfl
        · rw [if_neg hp, if_neg hp]

/-- `NyLPC_cOnchipFlashWriter_write` of the configuration. -/
theorem write_device (d : Device) (work : Memory) (dest : UInt32) {size : UInt32} {src : List UInt8}
    (hsize : size.toNat = src.length) :
    write device d work dest (listMemory src) size = some (Lpc.write d dest.toNat src) := by
  have hmodSize : size % 4 ≠ 0 ↔ src.length % 4 ≠ 0 := by
    rw [ne_eq, ← UInt32.toNat_inj, UInt32.toNat_mod, hsize]
    rfl
  have hmodDest : dest % 4 ≠ 0 ↔ dest.toNat % 4 ≠ 0 := by
    rw [ne_eq, ← UInt32.toNat_inj, UInt32.toNat_mod]
    rfl
  unfold write Lpc.write
  simp only [hmodSize, hmodDest]
  rw [writeLoop_device src.length (size.toNat + 1) d work dest size src hsize
    (Nat.lt_succ_self _) le_rfl]
  split_ifs <;> rfl

end IapRom

end MiMic.Flash.Lpc
