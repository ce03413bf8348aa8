import MiMic.Flash.Configulation

/-!
# The K64F board

The configuration has a sector of its own and carries its flag as its first word, so that an
erase puts the factory default in force and the first phrase that is programmed takes it away.
-/
namespace MiMic.Flash.K64f

open Verif NorFlash

/-- `MIMIC_CONFIGLATION_FLASH_ADDR`. -/
abbrev configAddr : Nat := 0x80000

/-- `K64F_IAP_SECTOR_SIZE`. -/
abbrev sectorSize : Nat := 4096

/-- `check_align`: true is a violation. -/
def checkAlign (a : Nat) : Bool := a % 4 ≠ 0

/-- `K64F_IAP_erase_sector`. -/
def eraseSector (d : Device) (a : Nat) : Device × Bool :=
  if checkAlign a then (d, false) else d.erase (a - a % sectorSize) sectorSize

/-- `verify_erased`: the command reads, and reports an error where the cells are not all ones. -/
def verifyErased (d : Device) (a n : Nat) : Device × Bool :=
  if checkAlign a then (d, false)
  else
    let r := d.call a 0 d.memory
    (r.1, r.2 && decide (∀ k < n, d.memory (a + k) = 0xff))

/-- `program_word`, a phrase of eight bytes. -/
def programWord (d : Device) (a : Nat) (data : List UInt8) : Device × Bool :=
  if checkAlign a then (d, false) else d.program a 8 fun k => data.getD k 0

/-- The loop of `K64F_IAP_program_flash`, over the phrases of the data. -/
def programWords : Nat → Device → Nat → List UInt8 → Device × Bool
  | 0, d, _, _ => (d, true)
  | n + 1, d, a, data =>
      let r := programWord d a data
      if r.2 then programWords n r.1 (a + 8) (data.drop 8) else (r.1, false)

/-- `K64F_IAP_program_flash`. -/
def programFlash (d : Device) (a : Nat) (data : List UInt8) : Device × Bool :=
  if checkAlign a then (d, false)
  else
    let v := verifyErased d a data.length
    if v.2 then programWords ((data.length + 7) / 8) v.1 a data else (v.1, false)

/-- `FAST_BOOT_DATA`. -/
def fastBootData : UInt32 := 0xfffffffe

/-- `d` of `updateConfigulation`: the configuration with its flag and its padding. -/
def image (c : MiMicConfigulation) : MiMicConfigulation :=
  { c with
    fastBoot := fastBootData
    padding32 := 0xffff
    padding64 := 0xffffffff }

/-- `NyLPC_cMiMicConfiglation_hasUserConfigulation`. -/
def hasUserConfigulation (m : Cells) : Bool := Memory.u32 m configAddr ≠ 0xffffffff

def updateConfigulation (d : Device) (c : MiMicConfigulation) : Device × Bool :=
  let e := eraseSector d configAddr
  if e.2 then programFlash e.1 configAddr (image c).bytes else (e.1, false)

def loadFromFlash (m : Cells) : MiMicConfigulation :=
  if hasUserConfigulation m then readConfigulation m configAddr else factoryDefault

/-- A board whose sector is blank. -/
def board : Board where
  init m := Memory.u32 m configAddr = 0xffffffff
  updateConfigulation := updateConfigulation
  loadFromFlash := loadFromFlash

/-- A failed erase leaves the flag blank or the configuration as it was, a failure of the first
phrase leaves the flag blank, and no later phrase fails. -/
def Sound (m : Cells) (u : Update) : Prop :=
  (∀ left script, u.script = .failure left :: script →
    Memory.u32 (patch m configAddr sectorSize left) configAddr = 0xffffffff ∨
      loadFromFlash (patch m configAddr sectorSize left) = loadFromFlash m) ∧
    (Succeeds u.script 2 → Succeeds u.script 11 ∨
      ∃ left script, u.script.tail.tail = .failure left :: script ∧
        Memory.u32 left configAddr = 0xffffffff)

theorem load_blank {m : Cells} (h : Memory.u32 m configAddr = 0xffffffff) :
    loadFromFlash m = factoryDefault := by
  rw [loadFromFlash, hasUserConfigulation, h, if_neg (by decide)]

/-- An erase is reported when it was done. -/
theorem eraseSector_cases (d : Device) :
    (eraseSector d configAddr =
        (⟨patch d.memory configAddr sectorSize fun _ => 0xff, d.script.tail⟩, true) ∧
      Succeeds d.script 1) ∨
      ∃ left script, d.script = .failure left :: script ∧
        eraseSector d configAddr = (⟨patch d.memory configAddr sectorSize left, script⟩, false) :=
  d.call_cases configAddr sectorSize fun _ => 0xff

/-- Phrases that are all programmed clear the bits that the data has cleared. -/
theorem programWords_of_succeeds {n : Nat} {d : Device} {a : Nat} {data : List UInt8}
    (halign : a % 4 = 0) (hsucc : Succeeds d.script n) :
    (programWords n d a data).2 = true ∧
      (∀ x < a, (programWords n d a data).1.memory x = d.memory x) ∧
      ∀ x, a ≤ x → x < a + 8 * n →
        (programWords n d a data).1.memory x = d.memory x &&& data.getD (x - a) 0 := by
  -- over the phrases: one is programmed, the others are behind it
  induction n generalizing d a data with
  | zero => exact ⟨rfl, fun x _ => rfl, fun x hlo hhi => absurd hhi (by omega)⟩
  | succ n ih =>
    obtain ⟨hcall, hrest⟩ := d.call_of_succeeds a 8 (fun x => d.memory x &&& data.getD (x - a) 0) hsucc
    have hword : programWord d a data =
        (⟨patch d.memory a 8 fun x => d.memory x &&& data.getD (x - a) 0, d.script.tail⟩, true) := by
      rw [programWord, checkAlign, decide_eq_false (not_not.mpr halign), if_neg Bool.false_ne_true]
      exact hcall
    have hrec : programWords (n + 1) d a data = programWords n
        ⟨patch d.memory a 8 fun x => d.memory x &&& data.getD (x - a) 0, d.script.tail⟩ (a + 8)
          (data.drop 8) := by
      simp only [programWords, hword, if_true]
    obtain ⟨hret, hbefore, hafter⟩ := @ih
      ⟨patch d.memory a 8 fun x => d.memory x &&& data.getD (x - a) 0, d.script.tail⟩ (a + 8)
      (data.drop 8) (by omega) hrest
    rw [hrec]
    refine ⟨hret, fun x hx => ?_, fun x hlo hhi => ?_⟩
    · rw [hbefore x (by omega)]
      dsimp only
      exact patch_outside (Or.inl hx)
    · by_cases hfirst : x < a + 8
      · rw [hbefore x hfirst]
        dsimp only
        exact patch_inside hlo hfirst
      · rw [hafter x (by omega) (by omega), List.getD_eq_getElem?_getD, List.getElem?_drop,
          ← List.getD_eq_getElem?_getD, show 8 + (x - (a + 8)) = x - a by omega]
        have hbehind : a + 8 ≤ x := by omega
        dsimp only
        rw [patch_outside (Or.inr hbehind)]

theorem image_settings (c : MiMicConfigulation) : (image c).settings = c.settings := rfl

section

variable {m : Cells} {u : Update}

theorem run_eq : board.run m u = ((updateConfigulation ⟨m, u.script⟩ u.config).1.memory,
    (updateConfigulation ⟨m, u.script⟩ u.config).2) := rfl

theorem atomic_blank (hret : (board.run m u).2 = false)
    (hblank : Memory.u32 (board.run m u).1 configAddr = 0xffffffff) : board.Atomic m u := by
  rw [Board.Atomic, hret, if_neg Bool.false_ne_true]
  exact Or.inr (load_blank hblank)

/-- The erased sector passes the check, and its phrases are programmed. -/
theorem programFlash_verified {d : Device} (c : MiMicConfigulation)
    (herased : ∀ x, configAddr ≤ x → x < configAddr + sizeOfConfigulation → d.memory x = 0xff)
    (hsucc : Succeeds d.script 1) : programFlash d configAddr (image c).bytes =
      programWords 9 ⟨d.memory, d.script.tail⟩ configAddr (image c).bytes := by
  have hlen : (image c).bytes.length = 72 := length_bytes _
  obtain ⟨hcall, -⟩ := d.call_of_succeeds configAddr 0 d.memory hsucc
  have hverify : verifyErased d configAddr 72 = (⟨d.memory, d.script.tail⟩, true) := by
    have hblank : ∀ k < 72, d.memory (configAddr + k) = 0xff := by
      intro k hk
      exact herased _ (Nat.le_add_right _ _) (Nat.add_lt_add_left hk _)
    rw [verifyErased, checkAlign, if_neg (by decide), hcall, patch_zero, decide_eq_true hblank]
    rfl
  rw [programFlash, checkAlign, if_neg (by decide), hlen, hverify]
  rfl

/-- The configuration is programmed into the erased sector. -/
theorem programFlash_of_succeeds {d : Device} (c : MiMicConfigulation)
    (herased : ∀ x, configAddr ≤ x → x < configAddr + sizeOfConfigulation → d.memory x = 0xff)
    (hsucc : Succeeds d.script 10) :
    (programFlash d configAddr (image c).bytes).2 = true ∧
      readConfigulation (programFlash d configAddr (image c).bytes).1.memory configAddr = image c := by
  obtain ⟨hret, -, hafter⟩ := @programWords_of_succeeds 9 ⟨d.memory, d.script.tail⟩ configAddr
    (image c).bytes rfl hsucc.tail
  rw [programFlash_verified c herased (hsucc.mono (by decide))]
  refine ⟨hret, readConfigulation_bytes fun k hk => ?_⟩
  have hin : configAddr + k < configAddr + 8 * 9 := Nat.add_lt_add_left hk _
  rw [hafter _ (Nat.le_add_right _ _) hin, Nat.add_sub_cancel_left]
  dsimp only
  rw [herased _ (Nat.le_add_right _ _) hin, erased_and, bytes_getD _ hk]

/-- A first phrase that fails leaves its cells and no others. -/
theorem programFlash_first {d : Device} (c : MiMicConfigulation) {left : Cells}
    {script : List Outcome}
    (herased : ∀ x, configAddr ≤ x → x < configAddr + sizeOfConfigulation → d.memory x = 0xff)
    (hsucc : Succeeds d.script 1) (hs : d.script.tail = .failure left :: script) :
    programFlash d configAddr (image c).bytes =
      (⟨patch d.memory configAddr 8 left, script⟩, false) := by
  rw [programFlash_verified c herased hsucc]
  have hword : programWord ⟨d.memory, d.script.tail⟩ configAddr (image c).bytes =
      (⟨patch d.memory configAddr 8 left, script⟩, false) := by
    rw [programWord, checkAlign, if_neg (by decide), Device.program, Device.call, hs]
  simp only [programWords, hword, Bool.false_eq_true, if_false]

/-- A check that fails is the end, and changes nothing. -/
theorem programFlash_unverified {d : Device} (data : List UInt8) (hfail : ¬ Succeeds d.script 1) :
    (programFlash d configAddr data).2 = false ∧
      (programFlash d configAddr data).1.memory = d.memory := by
  rcases d.call_cases configAddr 0 d.memory with ⟨-, hone⟩ | ⟨left, script, -, hcall⟩
  · exact absurd hone hfail
  · have hverify : verifyErased d configAddr data.length = (⟨d.memory, script⟩, false) := by
      rw [verifyErased, checkAlign, if_neg (by decide), hcall, patch_zero]
      rfl
    rw [programFlash, checkAlign, if_neg (by decide), hverify]
    exact ⟨rfl, rfl⟩

end

/-- An update that meets the condition is atomic. -/
theorem atomic_of_sound {m : Cells} {u : Update} (hok : Sound m u) : board.Atomic m u := by
  have hrun := run_eq (m := m) (u := u)
  rcases eraseSector_cases ⟨m, u.script⟩ with ⟨he, hone⟩ | ⟨left, script, hs, he⟩
  · have hbase : updateConfigulation ⟨m, u.script⟩ u.config = programFlash
        ⟨patch m configAddr sectorSize fun _ => 0xff, u.script.tail⟩ configAddr
          (image u.config).bytes := by
      simp only [updateConfigulation, he, if_true]
    have herased : ∀ x, configAddr ≤ x → x < configAddr + sizeOfConfigulation →
        patch m configAddr sectorSize (fun _ => 0xff) x = 0xff := by
      intro x hlo hhi
      exact patch_inside hlo (hhi.trans (by decide))
    have hblank : Memory.u32 (patch m configAddr sectorSize fun _ => 0xff) configAddr =
        0xffffffff := by
      apply u32_leByte
      intro k hk
      rw [herased _ (Nat.le_add_right _ _) (Nat.add_lt_add_left (hk.trans (by decide)) _)]
      interval_cases k <;> rfl
    rw [hbase] at hrun
    by_cases htwo : Succeeds u.script 2
    · rcases hok.2 htwo with heleven | ⟨left, script, hs, hleft⟩
      · obtain ⟨hret, hread⟩ := programFlash_of_succeeds (d := ⟨patch m configAddr sectorSize
          fun _ => 0xff, u.script.tail⟩) u.config herased heleven.tail
        have hload : board.loadFromFlash (board.run m u).1 = image u.config := by
          have huser : hasUserConfigulation (board.run m u).1 = true := by
            have hflag := congrArg MiMicConfigulation.fastBoot hread
            have hne : fastBootData ≠ 0xffffffff := by decide
            rw [hrun]
            exact decide_eq_true fun h => hne (hflag.symm.trans h)
          show loadFromFlash _ = _
          rw [loadFromFlash, if_pos huser, hrun]
          exact hread
        rw [Board.Atomic, if_pos (by rw [hrun]; exact hret), hload]
        exact image_settings u.config
      · -- the first phrase fails
        have hfail := programFlash_first (d := ⟨patch m configAddr sectorSize fun _ => 0xff,
          u.script.tail⟩) u.config herased htwo.tail hs
        refine atomic_blank ?_ ?_
        · rw [hrun, hfail]
        · rw [hrun, hfail]
          refine (u32_congr fun k hk => ?_).trans hleft
          exact patch_inside (Nat.le_add_right _ _)
            (Nat.add_lt_add_left (hk.trans (by decide)) _)
    · -- the check of the erased sector fails
      have hfail := programFlash_unverified (d := ⟨patch m configAddr sectorSize fun _ => 0xff,
        u.script.tail⟩) (image u.config).bytes fun h => htwo (hone.of_tail h)
      refine atomic_blank ?_ ?_
      · rw [hrun]
        exact hfail.1
      · rw [hrun, hfail.2]
        exact hblank
  · -- the erase fails
    have hbase : updateConfigulation ⟨m, u.script⟩ u.config =
        (⟨patch m configAddr sectorSize left, script⟩, false) := by
      simp only [updateConfigulation, he, Bool.false_eq_true, if_false]
    rw [hbase] at hrun
    rcases hok.1 left script hs with hblank | hkeep
    · refine atomic_blank ?_ ?_
      · rw [hrun]
      · rw [hrun]
        exact hblank
    · rw [Board.Atomic, hrun, if_neg Bool.false_ne_true]
      exact Or.inl hkeep

end MiMic.Flash.K64f
