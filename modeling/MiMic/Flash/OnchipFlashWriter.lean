import MiMic.Flash.Configulation

/-!
# The LPC boards

The configuration lies in a sector of its own. The flag that puts it in force is the first word
of `factory_default`, in a sector of the program, and survives an erase of the configuration.
-/
namespace MiMic.Flash.Lpc

open Verif NorFlash

/-- `LPC17xx_IAP_addr2Sector`. -/
def addr2Sector (a : Nat) : Option Nat :=
  if 0x10000 ≤ a then
    if (a - 0x10000) / 0x8000 + 16 > 29 then none else some ((a - 0x10000) / 0x8000 + 16)
  else some (a / 0x1000)

/-- `LPC17xx_IAP_sector2Addr`. -/
def sector2Addr (s : Nat) : Option Nat :=
  if s < 16 then some (0x1000 * s)
  else if s > 29 then none
  else some (0x10000 + (s - 16) * 0x8000)

def getSectorSize (s : Nat) : Nat := if s < 16 then 0x1000 else if s > 29 then 0 else 0x8000

/-- `LPC17xx_IAP_prepare`, which touches no cell. -/
def iapPrepare (d : Device) : Device × Bool := d.call 0 0 d.memory

/-- `LPC17xx_IAP_erase`. -/
def iapErase (d : Device) (start stop : Nat) : Device × Bool :=
  match sector2Addr start, sector2Addr stop with
  | some a, some b => d.erase a (b + getSectorSize stop - a)
  | _, _ => (d, false)

/-- `NyLPC_cOnchipFlashWriter_isOnchipFlash` compares a truth value with the code of success. -/
def isOnchipFlash (a : Nat) : Bool := (addr2Sector a).isNone

/-- `NyLPC_cOnchipFlashWriter_elase`. -/
def elase (d : Device) (start stop : Nat) : Device × Bool :=
  let p := iapPrepare d
  if p.2 then iapErase p.1 start stop else (p.1, false)

/-- `_work` behind the copies: the block as it is, with `src` from `sPadding` on. -/
def work (m : Cells) (block sPadding : Nat) (src : List UInt8) : Nat → UInt8 := fun i =>
  if sPadding ≤ i ∧ i < sPadding + src.length then src.getD (i - sPadding) 0 else m (block + i)

/-- The loop of `NyLPC_cOnchipFlashWriter_write`, which takes a byte at least in every round. -/
def writeLoop : Nat → Device → Nat → List UInt8 → Device × Bool
  | _, d, _, [] => (d, true)
  | 0, d, _, _ :: _ => (d, false)
  | n + 1, d, dest, src =>
      let sPadding := dest % 256
      let wsize := min (256 - sPadding) src.length
      match addr2Sector (dest - sPadding) with
      | none => (d, false)
      | some _ =>
          let p := iapPrepare d
          if p.2 then
            let r := p.1.program (dest - sPadding) 256
              (work p.1.memory (dest - sPadding) sPadding (src.take wsize))
            if r.2 then writeLoop n r.1 (dest + wsize) (src.drop wsize) else (r.1, false)
          else (p.1, false)

/-- `NyLPC_cOnchipFlashWriter_write`. -/
def write (d : Device) (dest : Nat) (src : List UInt8) : Device × Bool :=
  if src.length % 4 ≠ 0 then (d, false)
  else if dest % 4 ≠ 0 then (d, false)
  else writeLoop src.length d dest src

/-- `NyLPC_cOnchipFlashWriter_writeSector`. -/
def writeSector (d : Device) (sector offset : Nat) (src : List UInt8) : Device × Bool :=
  match sector2Addr sector with
  | none => (d, false)
  | some a => write d (a + offset) src

/-- `MIMIC_CONFIGLATION_FLASH_SECTOR` and its address. -/
abbrev configSector : Nat := 29
abbrev configAddr : Nat := 0x78000

/-- Where the linker has put `factory_default`: below the sector of the configuration. -/
structure Image where
  flag : Nat
  below : flag + sizeOfConfigulation ≤ configAddr

/-- `FAST_BOOT_DATA`. -/
def fastBootData : UInt32 := 0xfffffffe

namespace Image

variable (image : Image)

/-- `NyLPC_cMiMicConfiglation_hasUserConfigulation`. -/
def hasUserConfigulation (m : Cells) : Bool := Memory.u32 m image.flag ≠ 0xffffffff

def updateConfigulation (d : Device) (c : MiMicConfigulation) : Device × Bool :=
  let e := elase d configSector configSector
  if e.2 then
    let w := writeSector e.1 configSector 0 c.bytes
    if w.2 then
      if Memory.u32 w.1.memory image.flag = 0xffffffff then
        if image.flag % 4 = 0 ∧ isOnchipFlash image.flag = false then
          -- what the write reports is not looked at
          ((write w.1 image.flag ((List.range 4).map (leByte fastBootData))).1, true)
        else (w.1, false)
      else (w.1, true)
    else (w.1, false)
  else (e.1, false)

def loadFromFlash (m : Cells) : MiMicConfigulation :=
  if image.hasUserConfigulation m then readConfigulation m configAddr
  else readConfigulation m image.flag

/-- A board behind the download of the program. -/
def board : Board where
  init m := readConfigulation m image.flag = factoryDefault
  updateConfigulation := image.updateConfigulation
  loadFromFlash := image.loadFromFlash

end Image

/-- An erase is reported when it was done, and leaves all else alone when it was not. -/
theorem elase_cases (d : Device) :
    (elase d configSector configSector =
        (⟨patch d.memory configAddr 0x8000 fun _ => 0xff, d.script.tail.tail⟩, true) ∧
      Succeeds d.script 2) ∨
      ((∃ left script, d.script = .failure left :: script) ∧
        (elase d configSector configSector).2 = false ∧
        (elase d configSector configSector).1.memory = d.memory) ∨
      ∃ left script, d.script = .success :: .failure left :: script ∧
        (elase d configSector configSector).2 = false ∧
        (elase d configSector configSector).1.memory = patch d.memory configAddr 0x8000 left := by
  unfold elase iapPrepare
  rcases d.call_cases 0 0 d.memory with ⟨hp, hone⟩ | ⟨left, script, hs, hp⟩
  · simp only [hp, patch_zero, if_true]
    have he : iapErase ⟨d.memory, d.script.tail⟩ configSector configSector =
        (⟨d.memory, d.script.tail⟩ : Device).call configAddr 0x8000 fun _ => 0xff := rfl
    rw [he]
    rcases (⟨d.memory, d.script.tail⟩ : Device).call_cases configAddr 0x8000 fun _ => 0xff with
      ⟨hc, htwo⟩ | ⟨left, script, hs, hc⟩
    · rw [hc]
      exact Or.inl ⟨rfl, hone.of_tail htwo⟩
    · rw [hc]
      exact Or.inr (Or.inr ⟨left, script, hone.eq_cons hs, rfl, rfl⟩)
  · simp only [hp, patch_zero]
    exact Or.inr (Or.inl ⟨⟨left, script, hs⟩, rfl, rfl⟩)

/-- Bytes that stay inside one block of 256: the block is programmed with what it holds around
them, so that only their bits are cleared. -/
theorem patch_work (m : Cells) (dest : Nat) {src : List UInt8}
    (hfit : dest % 256 + src.length ≤ 256) :
    patch m (dest - dest % 256) 256
        (fun x => m x &&& work m (dest - dest % 256) (dest % 256) src (x - (dest - dest % 256))) =
      patch m dest src.length fun x => m x &&& src.getD (x - dest) 0 := by
  have hmod : dest % 256 ≤ dest := Nat.mod_le _ _
  funext x
  by_cases hin : dest ≤ x ∧ x < dest + src.length
  · rw [patch_inside (by omega) (by omega), patch_inside hin.1 hin.2, work,
      if_pos ⟨by omega, by omega⟩]
    congr 2
    omega
  · rw [patch_outside (n := src.length) (by omega)]
    by_cases hblock : dest - dest % 256 ≤ x ∧ x < dest - dest % 256 + 256
    · rw [patch_inside hblock.1 hblock.2, work, if_neg (by omega)]
      have hx : dest - dest % 256 + (x - (dest - dest % 256)) = x := by omega
      rw [hx, UInt8.and_self]
    · rw [patch_outside (by omega)]

/-- A write inside one block is done and reported, or leaves all else alone. -/
theorem write_cases (d : Device) {dest s : Nat} {src : List UInt8} (hne : src ≠ [])
    (hsize : src.length % 4 = 0) (halign : dest % 4 = 0) (hfit : dest % 256 + src.length ≤ 256)
    (hsector : addr2Sector (dest - dest % 256) = some s) :
    (write d dest src = (⟨patch d.memory dest src.length fun x => d.memory x &&& src.getD (x - dest) 0,
        d.script.tail.tail⟩, true) ∧ Succeeds d.script 2) ∨
      ((write d dest src).2 = false ∧ ¬ Succeeds d.script 2 ∧
        ∀ x, x < dest - dest % 256 ∨ dest - dest % 256 + 256 ≤ x →
          (write d dest src).1.memory x = d.memory x) := by
  obtain ⟨c, cs, rfl⟩ := List.exists_cons_of_ne_nil hne
  have hwsize : min (256 - dest % 256) (c :: cs).length = (c :: cs).length :=
    Nat.min_eq_right (by omega)
  rw [write, if_neg (not_not.mpr hsize), if_neg (not_not.mpr halign), List.length_cons]
  simp only [writeLoop, hsector, hwsize, List.take_length, List.drop_length, iapPrepare]
  rcases d.call_cases 0 0 d.memory with ⟨hp, hone⟩ | ⟨left, script, hs, hp⟩
  · rw [hp]
    simp only [if_true, patch_zero, Device.program]
    rcases (⟨d.memory, d.script.tail⟩ : Device).call_cases (dest - dest % 256) 256
      (fun x => d.memory x &&& work d.memory (dest - dest % 256) (dest % 256) (c :: cs)
        (x - (dest - dest % 256))) with ⟨hc, htwo⟩ | ⟨left, script, hs, hc⟩
    · rw [hc, patch_work d.memory dest hfit]
      exact Or.inl ⟨rfl, hone.of_tail htwo⟩
    · rw [hc]
      refine Or.inr ⟨rfl, ?_, fun x hx => patch_outside hx⟩
      intro hsucc
      rw [hone.eq_cons hs] at hsucc
      cases hsucc (.failure left) (by simp)
  · rw [hp]
    refine Or.inr ⟨rfl, ?_, fun x _ => ?_⟩
    · intro hsucc
      rw [hs] at hsucc
      cases hsucc (.failure left) (by simp)
    · show patch d.memory 0 0 left x = d.memory x
      rw [patch_zero]

/-- A write of a user configuration behind an erase that leaves the sector as it was, before the
erase, or with no failure at all; without one in force, no failure of the flag's write alone. -/
def Sound (image : Image) (m : Cells) (u : Update) : Prop :=
  if image.hasUserConfigulation m then
    Succeeds u.script 4 ∨ (∃ left script, u.script = .failure left :: script) ∨
      ∃ left script, u.script = .success :: .failure left :: script ∧
        readConfigulation (patch m configAddr 0x8000 left) configAddr = readConfigulation m configAddr
  else image.flag % 4 = 0 → Succeeds u.script 4 → Succeeds u.script 6

section

variable {image : Image} {m m' : Cells}

/-- Nothing in the sector of the configuration belongs to the image. -/
def AgreesBelow (m m' : Cells) : Prop := ∀ x < configAddr, m' x = m x

theorem AgreesBelow.configulation (h : AgreesBelow m m') :
    readConfigulation m' image.flag = readConfigulation m image.flag := by
  have hbelow := image.below
  exact readConfigulation_congr fun k hk => h _ (by omega)

theorem AgreesBelow.flag (h : AgreesBelow m m') :
    Memory.u32 m' image.flag = Memory.u32 m image.flag := by
  have hbelow : image.flag + 72 ≤ configAddr := image.below
  exact u32_congr fun k hk => h _ (by omega)

theorem AgreesBelow.hasUserConfigulation (h : AgreesBelow m m') :
    image.hasUserConfigulation m' = image.hasUserConfigulation m := by
  unfold Image.hasUserConfigulation
  rw [h.flag]

theorem agreesBelow_patch (m : Cells) {a : Nat} (n : Nat) (f : Cells) (ha : configAddr ≤ a) :
    AgreesBelow m (patch m a n f) := fun x hx => patch_outside (Or.inl (by omega))

theorem AgreesBelow.trans {m'' : Cells} (h : AgreesBelow m m') (h' : AgreesBelow m' m'') :
    AgreesBelow m m'' := fun x hx => (h' x hx).trans (h x hx)

end

/-- The write of a configuration into the erased sector. -/
theorem writeSector_cases (d : Device) (c : MiMicConfigulation)
    (herased : ∀ k < sizeOfConfigulation, d.memory (configAddr + k) = 0xff) :
    (∃ m', writeSector d configSector 0 c.bytes = (⟨m', d.script.tail.tail⟩, true) ∧
        Succeeds d.script 2 ∧ AgreesBelow d.memory m' ∧ readConfigulation m' configAddr = c) ∨
      ((writeSector d configSector 0 c.bytes).2 = false ∧ ¬ Succeeds d.script 2 ∧
        AgreesBelow d.memory (writeSector d configSector 0 c.bytes).1.memory) := by
  have hw : writeSector d configSector 0 c.bytes = write d configAddr c.bytes := rfl
  have hlen : c.bytes.length = 72 := length_bytes c
  rw [hw]
  rcases write_cases d (List.ne_nil_of_length_pos (by rw [hlen]; decide)) (by rw [hlen])
    (show configAddr % 4 = 0 from rfl) (by rw [hlen]; decide) rfl with
      ⟨hc, hsucc⟩ | ⟨hc, hsucc, hout⟩
  · refine Or.inl ⟨_, hc, hsucc, agreesBelow_patch _ _ _ (le_refl _), ?_⟩
    apply readConfigulation_bytes
    intro k hk
    rw [patch_inside (by omega) (by rw [hlen]; exact Nat.add_lt_add_left hk _),
      Nat.add_sub_cancel_left, herased k hk,
      erased_and, bytes_getD c hk]
  · exact Or.inr ⟨hc, hsucc, fun x hx => hout x (Or.inl hx)⟩

/-- The word that is all ones has all its bits set in every byte. -/
theorem erased_of_u32 {m : Cells} {a : Nat} (h : Memory.u32 m a = 0xffffffff) :
    ∀ k < 4, m (a + k) = 0xff := by
  have hnat := congrArg UInt32.toNat h
  rw [Memory.u32, UInt32.toNat_ofNat', show (0xffffffff : UInt32).toNat = 4294967295 from rfl] at hnat
  have h0 := (m a).toNat_lt
  have h1 := (m (a + 1)).toNat_lt
  have h2 := (m (a + 2)).toNat_lt
  have h3 := (m (a + 3)).toNat_lt
  intro k hk
  apply UInt8.toNat_inj.mp
  show _ = 255
  interval_cases k
  · show (m a).toNat = 255
    omega
  · omega
  · omega
  · omega

/-- The write of the flag: the image is below every sector that is none. -/
theorem writeFlag_of_succeeds (image : Image) (d : Device) (halign : image.flag % 4 = 0)
    (herased : Memory.u32 d.memory image.flag = 0xffffffff) (hsucc : Succeeds d.script 2) :
    image.hasUserConfigulation
        (write d image.flag ((List.range 4).map (leByte fastBootData))).1.memory = true ∧
      ∀ x, image.flag + 4 ≤ x →
        (write d image.flag ((List.range 4).map (leByte fastBootData))).1.memory x = d.memory x := by
  have hbelow : image.flag + 72 ≤ 0x78000 := image.below
  have hlen : ((List.range 4).map (leByte fastBootData)).length = 4 := rfl
  have hsector : ∃ s, addr2Sector (image.flag - image.flag % 256) = some s := by
    unfold addr2Sector
    split
    · rw [if_neg (by omega)]
      exact ⟨_, rfl⟩
    · exact ⟨_, rfl⟩
  obtain ⟨s, hs⟩ := hsector
  rcases write_cases d (List.ne_nil_of_length_pos (by rw [hlen]; decide)) (by rw [hlen]) halign
    (by rw [hlen]; omega) hs with ⟨hc, -⟩ | ⟨-, hno, -⟩
  · rw [hc]
    constructor
    · have hword : Memory.u32 (patch d.memory image.flag 4 fun x => d.memory x &&&
          ((List.range 4).map (leByte fastBootData)).getD (x - image.flag) 0) image.flag =
            fastBootData := by
        apply u32_leByte
        intro k hk
        rw [patch_inside (by omega) (by omega), Nat.add_sub_cancel_left,
          erased_of_u32 herased k hk, erased_and]
        interval_cases k <;> rfl
      rw [Image.hasUserConfigulation, hlen, hword]
      rfl
    · intro x hx
      have hout : image.flag + ((List.range 4).map (leByte fastBootData)).length ≤ x := by
        rw [hlen]
        exact hx
      dsimp only
      exact patch_outside (Or.inr hout)
  · exact absurd hsucc hno

/-- Without a user configuration the default is that of the program. -/
def FactoryIntact (image : Image) (m : Cells) : Prop :=
  image.hasUserConfigulation m = false → readConfigulation m image.flag = factoryDefault

section

variable {image : Image} {m m' : Cells}

theorem FactoryIntact.agrees (h : FactoryIntact image m) (ha : AgreesBelow m m') :
    FactoryIntact image m' := by
  intro hno
  rw [ha.hasUserConfigulation] at hno
  rw [ha.configulation]
  exact h hno

theorem load_user (h : image.hasUserConfigulation m = true) :
    image.loadFromFlash m = readConfigulation m configAddr := by
  rw [Image.loadFromFlash, if_pos h]

theorem FactoryIntact.load (h : FactoryIntact image m)
    (hno : image.hasUserConfigulation m = false) : image.loadFromFlash m = factoryDefault := by
  rw [Image.loadFromFlash, if_neg (by rw [hno]; exact Bool.false_ne_true), h hno]

/-- FALSE with nothing changed below the sector: without a user configuration the default stays
in force. -/
theorem atomic_false {u : Update} (hf : FactoryIntact image m)
    (hret : (image.board.run m u).2 = false) (ha : AgreesBelow m (image.board.run m u).1)
    (hkeep : image.hasUserConfigulation m = true →
      readConfigulation (image.board.run m u).1 configAddr = readConfigulation m configAddr) :
    FactoryIntact image (image.board.run m u).1 ∧ image.board.Atomic m u := by
  refine ⟨hf.agrees ha, ?_⟩
  rw [Board.Atomic, if_neg (by rw [hret]; exact Bool.false_ne_true)]
  cases huser : image.hasUserConfigulation m with
  | true =>
    left
    show image.loadFromFlash _ = image.loadFromFlash _
    rw [load_user (ha.hasUserConfigulation.trans huser), load_user huser, hkeep huser]
  | false =>
    right
    exact (hf.agrees ha).load (ha.hasUserConfigulation.trans huser)

theorem Sound.six {u : Update} (hok : Sound image m u) (halign : image.flag % 4 = 0)
    (hno : image.hasUserConfigulation m = false) (h : Succeeds u.script 4) :
    Succeeds u.script 6 := by
  rw [Sound, hno, if_neg Bool.false_ne_true] at hok
  exact hok halign h

/-- An erase behind which a call fails is none that a user configuration is lost by. -/
theorem Sound.not_user {u : Update} (hok : Sound image m u) (htwo : Succeeds u.script 2)
    (hfour : ¬ Succeeds u.script 4) : image.hasUserConfigulation m = false := by
  cases huser : image.hasUserConfigulation m with
  | false => rfl
  | true =>
    rw [Sound, huser, if_pos rfl] at hok
    obtain h | ⟨left, script, h⟩ | ⟨left, script, h, -⟩ := hok
    · exact absurd h hfour
    · rw [h] at htwo
      cases htwo.head
    · rw [h] at htwo
      cases htwo.tail.head

theorem Sound.keeps {u : Update} (hok : Sound image m u) {left : Cells} {script : List Outcome}
    (h : u.script = .success :: .failure left :: script)
    (huser : image.hasUserConfigulation m = true) :
    readConfigulation (patch m configAddr 0x8000 left) configAddr =
      readConfigulation m configAddr := by
  rw [Sound, huser, if_pos rfl, h] at hok
  obtain hfour | ⟨left', script', h'⟩ | ⟨left', script', h', hkeep⟩ := hok
  · cases hfour.tail.head
  · cases h'
  · cases h'
    exact hkeep

end

/-- An update that meets the condition is atomic and keeps the default. -/
theorem atomic_of_sound {image : Image} {m : Cells} {u : Update} (hf : FactoryIntact image m)
    (hok : Sound image m u) :
    FactoryIntact image (image.board.run m u).1 ∧ image.board.Atomic m u := by
  have hrun : image.board.run m u = ((image.updateConfigulation ⟨m, u.script⟩ u.config).1.memory,
    (image.updateConfigulation ⟨m, u.script⟩ u.config).2) := rfl
  rcases elase_cases ⟨m, u.script⟩ with ⟨he, htwo⟩ | ⟨⟨left, script, hs⟩, hret, hm⟩ |
    ⟨left, script, hs, hret, hm⟩
  · -- the sector is erased
    have hbelow : AgreesBelow m (patch m configAddr 0x8000 fun _ => 0xff) :=
      agreesBelow_patch m 0x8000 _ (le_refl _)
    have herased : ∀ k < sizeOfConfigulation,
        patch m configAddr 0x8000 (fun _ => 0xff) (configAddr + k) = 0xff := by
      intro k hk
      exact patch_inside (by omega) (Nat.add_lt_add_left (hk.trans (by decide)) _)
    have hbase : image.updateConfigulation ⟨m, u.script⟩ u.config =
        let w := writeSector ⟨patch m configAddr 0x8000 fun _ => 0xff, u.script.tail.tail⟩
          configSector 0 u.config.bytes
        if w.2 then
          if Memory.u32 w.1.memory image.flag = 0xffffffff then
            if image.flag % 4 = 0 ∧ isOnchipFlash image.flag = false then
              ((write w.1 image.flag ((List.range 4).map (leByte fastBootData))).1, true)
            else (w.1, false)
          else (w.1, true)
        else (w.1, false) := by
      simp only [Image.updateConfigulation, he, if_true]
    rcases writeSector_cases ⟨patch m configAddr 0x8000 fun _ => 0xff, u.script.tail.tail⟩ u.config
      herased with ⟨m', hw, hfour, ha, hread⟩ | ⟨hw, hfour, ha⟩
    · have hagree : AgreesBelow m m' := hbelow.trans ha
      have hfour' : Succeeds u.script 4 := by
        have hthree := Succeeds.of_tail (htwo.tail) hfour
        exact Succeeds.of_tail (htwo.mono (by decide)) hthree
      simp only [hbase, hw, if_true] at hrun
      by_cases hflag : Memory.u32 m' image.flag = 0xffffffff
      · have hno : image.hasUserConfigulation m = false := by
          rw [← hagree.hasUserConfigulation, Image.hasUserConfigulation, hflag]
          rfl
        rw [if_pos hflag] at hrun
        by_cases hwrite : image.flag % 4 = 0 ∧ isOnchipFlash image.flag = false
        · -- the flag puts the new configuration in force
          rw [if_pos hwrite] at hrun
          have hsix := hok.six hwrite.1 hno hfour'
          obtain ⟨huser, hout⟩ := writeFlag_of_succeeds image ⟨m', u.script.tail.tail.tail.tail⟩
            hwrite.1 hflag hsix.tail.tail.tail.tail
          have hload : image.loadFromFlash (image.board.run m u).1 = u.config := by
            have hbelow : image.flag + 72 ≤ configAddr := image.below
            rw [hrun, load_user huser, ← hread]
            exact readConfigulation_congr fun k _ => hout _ (by omega)
          refine ⟨fun h => absurd (h.symm.trans (hrun ▸ huser)) Bool.false_ne_true, ?_⟩
          rw [Board.Atomic, hrun, if_pos rfl, ← hrun]
          exact congrArg MiMicConfigulation.settings hload
        · rw [if_neg hwrite] at hrun
          refine atomic_false hf ?_ ?_ fun huser => absurd (hno.symm.trans huser) Bool.false_ne_true
          · rw [hrun]
          · rw [hrun]
            exact hagree
      · -- the flag was set by an earlier update
        rw [if_neg hflag] at hrun
        have huser : image.hasUserConfigulation m' = true := decide_eq_true hflag
        refine ⟨fun h => absurd (h.symm.trans (hrun ▸ huser)) Bool.false_ne_true, ?_⟩
        rw [Board.Atomic, hrun, if_pos rfl]
        show (image.loadFromFlash m').settings = _
        rw [load_user huser, hread]
    · have hno : image.hasUserConfigulation m = false :=
        hok.not_user htwo fun h => hfour h.tail.tail
      simp only [hbase, hw, Bool.false_eq_true, if_false] at hrun
      refine atomic_false hf ?_ ?_ fun huser => absurd (hno.symm.trans huser) Bool.false_ne_true
      · rw [hrun]
      · rw [hrun]
        exact hbelow.trans ha
  · -- the sector is not prepared
    simp only [Image.updateConfigulation, hret, Bool.false_eq_true, if_false, hm] at hrun
    refine atomic_false hf ?_ ?_ fun _ => ?_
    · rw [hrun]
    · rw [hrun]
      exact fun x _ => rfl
    · rw [hrun]
  · -- the erase fails
    simp only [Image.updateConfigulation, hret, Bool.false_eq_true, if_false, hm] at hrun
    refine atomic_false hf ?_ ?_ fun huser => ?_
    · rw [hrun]
    · rw [hrun]
      exact agreesBelow_patch m 0x8000 _ (le_refl _)
    · rw [hrun]
      exact hok.keeps hs huser

end MiMic.Flash.Lpc
