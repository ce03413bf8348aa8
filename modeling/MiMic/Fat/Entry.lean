import MiMic.Fat.Window
import MiMic.Lib.Nibbles
import Mathlib.Tactic.IntervalCases

/-!
# The entries of the table

An entry takes three, four or eight half bytes; the highest one of a 32-bit entry is reserved. A
12-bit entry shares a byte with a neighbour and may lie across two sectors.
-/
namespace MiMic.Fat

open Verif Verif.Prog Verif.WriteBack Verif.Nibbles

/-- The switch of `get_fat`. -/
def readEntry (v : Volume) (clst : Nat) : FatM Nat :=
  match v.fsType with
  | .fat12 => do
    let bc := clst + clst / 2
    moveWindow v (v.fatbase + bc / 512)
    let fs ← get
    let wc := (fs.win (bc % 512)).toNat
    moveWindow v (v.fatbase + (bc + 1) / 512)
    let fs ← get
    let wc := wc ||| (fs.win ((bc + 1) % 512)).toNat <<< 8
    return if clst % 2 = 1 then wc >>> 4 else wc &&& 0xfff
  | .fat16 => do
    moveWindow v (v.fatbase + clst / 256)
    let fs ← get
    return ldWord fs.win (clst * 2 % 512)
  | .fat32 => do
    moveWindow v (v.fatbase + clst / 128)
    let fs ← get
    return ldDword fs.win (clst * 4 % 512) &&& 0x0fffffff

/-- `0xFFFFFFFF`: a command failed, 1: no such cluster, else the entry. -/
def getFat (v : Volume) (clst : Nat) : FatM Nat :=
  if clst < 2 ∨ v.nFatent ≤ clst then return 1
  else do
    let r ← attempt (readEntry v clst)
    return r.toOption.getD 0xffffffff

/-- The first byte of a 12-bit entry, where `p` was. -/
def firstByte (clst val : Nat) (p : UInt8) : UInt8 :=
  if clst % 2 = 1 then (p &&& (0x0f : UInt8)) ||| (UInt8.ofNat val <<< (4 : UInt8)) else UInt8.ofNat val

def secondByte (clst val : Nat) (p : UInt8) : UInt8 :=
  if clst % 2 = 1 then UInt8.ofNat (val >>> 4) else (p &&& (0xf0 : UInt8)) ||| (UInt8.ofNat (val >>> 8) &&& (0x0f : UInt8))

/-- The switch of `put_fat`. -/
def writeEntry (v : Volume) (clst val : Nat) : FatM Unit :=
  match v.fsType with
  | .fat12 => do
    let bc := clst + clst / 2
    moveWindow v (v.fatbase + bc / 512)
    modify fun fs =>
      { fs with win := stByte fs.win (bc % 512) (firstByte clst val (fs.win (bc % 512))), wflag := true }
    moveWindow v (v.fatbase + (bc + 1) / 512)
    modify fun fs =>
      { fs with win := stByte fs.win ((bc + 1) % 512) (secondByte clst val (fs.win ((bc + 1) % 512))) }
  | .fat16 => do
    moveWindow v (v.fatbase + clst / 256)
    modify fun fs => { fs with win := stWord fs.win (clst * 2 % 512) val }
  | .fat32 => do
    moveWindow v (v.fatbase + clst / 128)
    modify fun fs =>
      let p := clst * 4 % 512
      { fs with win := stDword fs.win p (val ||| (ldDword fs.win p &&& 0xf0000000)) }

/-- The window counts as changed whatever became of the switch. -/
def putFat (v : Volume) (clst val : Nat) : FatM Unit :=
  if clst < 2 ∨ v.nFatent ≤ clst then throw .intErr
  else do
    let res ← attempt (writeEntry v clst val)
    modify fun fs => { fs with wflag := true }
    Prog.ofExcept res

/-- Half bytes from one entry to the next. -/
def FsType.stride : FsType → Nat
  | .fat12 => 3
  | .fat16 => 4
  | .fat32 => 8

/-- Half bytes of an entry. -/
def FsType.width : FsType → Nat
  | .fat12 => 3
  | .fat16 => 4
  | .fat32 => 7

namespace Volume

variable (v : Volume)

/-- A byte of the table. -/
def fatByte (view : Nat → Bytes) (i : Nat) : UInt8 := view (v.fatbase + i / 512) (i % 512)

def entry (view : Nat → Bytes) (clst : Nat) : Nat :=
  field (v.fatByte view) (v.fsType.stride * clst) v.fsType.width

/-- A number as it reads once it is stored in an entry. -/
def trim (val : Nat) : Nat := val % 16 ^ v.fsType.width

end Volume

variable {v : Volume} {fs fs' : Fs} {clst val : Nat}

theorem FsType.width_le (t : FsType) : t.width ≤ t.stride := by cases t <;> decide

/-- All half bytes of an entry lie in the table. -/
theorem Volume.entry_inside {c : Nat} (hc : c < v.nFatent) :
    v.fsType.stride * c + v.fsType.stride ≤ 1024 * v.fsize := by
  have hfits := v.fits
  cases ht : v.fsType with
  | fat12 =>
    rw [ht] at hfits
    simp only [fatBytes] at hfits
    simp only [FsType.stride]
    have hhalf : v.nFatent * 3 / 2 * 2 + v.nFatent % 2 = v.nFatent * 3 := by omega
    omega
  | fat16 =>
    rw [ht] at hfits
    simp only [fatBytes] at hfits
    simp only [FsType.stride]
    omega
  | fat32 =>
    rw [ht] at hfits
    simp only [fatBytes] at hfits
    simp only [FsType.stride]
    omega

theorem Volume.entry_lt (view : Nat → Bytes) (c : Nat) : v.entry view c < 16 ^ v.fsType.width := field_lt

/-- The sector of a byte of the table. -/
theorem Volume.primary_byte {i : Nat} (hi : i < 512 * v.fsize) : v.Primary (v.fatbase + i / 512) :=
  v.primary_fat (Nat.le_add_right ..) (by omega)

/-- An entry is read out of the sectors of the first table. -/
theorem Volume.entry_congr {view view' : Nat → Bytes} {c : Nat} (hc : c < v.nFatent)
    (hsame : ∀ s, v.Primary s → s < v.fatbase + v.fsize → view' s = view s) : v.entry view' c = v.entry view c := by
  have hinside := Volume.entry_inside hc
  have hle := v.fsType.width_le
  refine field_congr fun j hlo hhi => ?_
  have hin : j / 2 < 512 * v.fsize := by omega
  rw [nibble, nibble, Volume.fatByte, Volume.fatByte, hsame _ (Volume.primary_byte hin) (by omega)]

theorem Still.fatByte (h : Still v fs fs') {i : Nat} (hi : i < 512 * v.fsize) :
    v.fatByte fs'.view i = v.fatByte fs.view i :=
  congrFun (h.view _ (Volume.primary_byte hi)) _

theorem Still.entry (h : Still v fs fs') {c : Nat} (hc : c < v.nFatent) :
    v.entry fs'.view c = v.entry fs.view c := Volume.entry_congr hc fun s hs _ => h.view s hs

/-- What the code computes of the bytes of an entry is the field. -/
theorem entry12_odd {b : Nat → UInt8} {c : Nat} (hc : c % 2 = 1) :
    ((b (c + c / 2)).toNat ||| (b (c + c / 2 + 1)).toNat <<< 8) >>> 4 = field b (3 * c) 3 := by
  have h0 := (b (c + c / 2)).toNat_lt
  have h1 := (b (c + c / 2 + 1)).toNat_lt
  have hor : (b (c + c / 2)).toNat ||| (b (c + c / 2 + 1)).toNat <<< 8 =
      (b (c + c / 2 + 1)).toNat * 256 + (b (c + c / 2)).toNat := by
    rw [Nat.or_comm, ← Nat.shiftLeft_add_eq_or_of_lt h0, Nat.shiftLeft_eq]
  have hstart : 3 * c = 2 * (c + c / 2) + 1 := by omega
  rw [hor, Nat.shiftRight_eq_div_pow, hstart, field_high, field_two]
  omega

theorem entry12_even {b : Nat → UInt8} {c : Nat} (hc : ¬c % 2 = 1) :
    ((b (c + c / 2)).toNat ||| (b (c + c / 2 + 1)).toNat <<< 8) &&& 0xfff = field b (3 * c) 3 := by
  have h0 := (b (c + c / 2)).toNat_lt
  have h1 := (b (c + c / 2 + 1)).toNat_lt
  have hor : (b (c + c / 2)).toNat ||| (b (c + c / 2 + 1)).toNat <<< 8 =
      (b (c + c / 2 + 1)).toNat * 256 + (b (c + c / 2)).toNat := by
    rw [Nat.or_comm, ← Nat.shiftLeft_add_eq_or_of_lt h0, Nat.shiftLeft_eq]
  have hmask : ∀ x : Nat, x &&& 0xfff = x % 4096 := fun x => Nat.and_two_pow_sub_one_eq_mod x 12
  have hstart : 3 * c = 2 * (c + c / 2) := by omega
  rw [hor, hmask, hstart, field_byte, field_low]
  omega

theorem entry16 (b : Nat → UInt8) (c : Nat) : ldWord b (2 * c) = field b (4 * c) 4 := by
  have hstart : 4 * c = 2 * (2 * c) := Nat.mul_assoc 2 2 c
  rw [hstart, field_byte, field_two, ldWord]

theorem entry32 (b : Nat → UInt8) (c : Nat) : ldDword b (4 * c) &&& 0x0fffffff = field b (8 * c) 7 := by
  have hmask : ∀ x : Nat, x &&& 0x0fffffff = x % 268435456 := fun x => Nat.and_two_pow_sub_one_eq_mod x 28
  have h0 := (b (4 * c)).toNat_lt
  have h1 := (b (4 * c + 1)).toNat_lt
  have h2 := (b (4 * c + 1 + 1)).toNat_lt
  have hstart : 8 * c = 2 * (4 * c) := Nat.mul_assoc 2 4 c
  have hnext : 4 * c + 2 = 4 * c + 1 + 1 := rfl
  rw [hmask, ldDword, ldWord, ldWord, hnext, hstart, field_byte, field_byte, field_byte, field_low]
  omega

theorem toNat_firstByte (clst val : Nat) (p : UInt8) : (firstByte clst val p).toNat =
    if clst % 2 = 1 then p.toNat % 16 + 16 * (val % 16) else val % 256 := by
  rw [firstByte]
  split
  · have hlow : p.toNat &&& 15 = p.toNat % 16 := Nat.and_two_pow_sub_one_eq_mod p.toNat 4
    have hlt : p.toNat % 16 < 2 ^ 4 := Nat.mod_lt _ (by decide)
    have hshift : (val % 256) <<< 4 % 256 = (val % 16) <<< 4 := by
      rw [Nat.shiftLeft_eq, Nat.shiftLeft_eq]
      omega
    rw [UInt8.toNat_or, UInt8.toNat_and, UInt8.toNat_shiftLeft, UInt8.toNat_ofNat']
    change p.toNat &&& 15 ||| (val % 256) <<< 4 % 256 = _
    rw [hlow, hshift, Nat.or_comm, ← Nat.shiftLeft_add_eq_or_of_lt hlt, Nat.shiftLeft_eq]
    omega
  · exact UInt8.toNat_ofNat'

theorem toNat_secondByte (clst val : Nat) (p : UInt8) : (secondByte clst val p).toNat =
    if clst % 2 = 1 then val / 16 % 256 else p.toNat / 16 * 16 + val / 256 % 16 := by
  rw [secondByte]
  split
  · rw [Nat.shiftRight_eq_div_pow]
    exact UInt8.toNat_ofNat'
  · have hhigh : p.toNat &&& 240 = (p.toNat / 16) <<< 4 := by
      have hall : ∀ x : Fin 256, x.val &&& 240 = (x.val / 16) <<< 4 := by decide +kernel
      exact hall ⟨p.toNat, p.toNat_lt⟩
    have hlow : val / 256 % 256 &&& 15 = val / 256 % 16 := by
      rw [Nat.and_two_pow_sub_one_eq_mod (val / 256 % 256) 4]
      omega
    have hlt : val / 256 % 16 < 2 ^ 4 := Nat.mod_lt _ (by decide)
    rw [UInt8.toNat_or, UInt8.toNat_and, UInt8.toNat_and, UInt8.toNat_ofNat', Nat.shiftRight_eq_div_pow]
    change p.toNat &&& 240 ||| (val / 256 % 256 &&& 15) = _
    rw [hhigh, hlow, ← Nat.shiftLeft_add_eq_or_of_lt hlt, Nat.shiftLeft_eq]

theorem Fs.Ok.win_byte (h : fs.Ok v) {i : Nat} (hw : fs.winsect = v.fatbase + i / 512) :
    fs.win (i % 512) = v.fatByte fs.view i := by
  have h0 : fs.winsect ≠ 0 := by
    have hpos := v.fatbase_pos
    omega
  rw [h.win_eq h0, hw]
  rfl

/-- The window moves to a byte of the table. -/
theorem wp_show {R : PUnit → Fs → Prop} {E : FResult → Fs → Prop} (h : fs.Ok v) {i : Nat}
    (hi : i < 512 * v.fsize)
    (hok : ∀ fs', Still v fs fs' → fs'.winsect = v.fatbase + i / 512 → R ⟨⟩ fs')
    (herr : ∀ fs', Failed fs.disk fs'.disk → Still v fs fs' → fs'.winsect = fs.winsect → E .diskErr fs') :
    wp (moveWindow v (v.fatbase + i / 512)) R E fs := by
  have h0 : v.fatbase + i / 512 ≠ 0 := by
    have hpos := v.fatbase_pos
    omega
  refine (moveWindow_spec h fun _ => Volume.primary_byte hi).mono (fun _ fs' hs => ?_) fun e fs' he => ?_
  · exact hok fs' hs.1 (hs.2.1 h0)
  · obtain ⟨rfl, hf, hs, hw⟩ := he
    exact herr fs' hf hs hw

/-- The bytes of an entry lie in the table. -/
theorem Volume.byte_inside (hc : clst < v.nFatent) {i : Nat}
    (hi : 2 * i < v.fsType.stride * clst + v.fsType.stride) : i < 512 * v.fsize := by
  have hinside := Volume.entry_inside hc
  omega

/-- A 16-bit entry lies in one sector. -/
theorem Fs.Ok.win_entry16 {c : Nat} (h : fs.Ok v) (ht : v.fsType = .fat16) (hw : fs.winsect = v.fatbase + 2 * c / 512) :
    ldWord fs.win (2 * c % 512) = v.entry fs.view c := by
  have hw2 : fs.winsect = v.fatbase + (2 * c + 1) / 512 := by omega
  have hoff : 2 * c % 512 + 1 = (2 * c + 1) % 512 := by omega
  have hentry : v.entry fs.view c = field (v.fatByte fs.view) (4 * c) 4 := by
    rw [Volume.entry, ht]
    rfl
  rw [hentry, ← entry16, ldWord, ldWord, hoff, h.win_byte hw, h.win_byte hw2]

theorem Fs.Ok.win_entry32 {c : Nat} (h : fs.Ok v) (ht : v.fsType = .fat32) (hw : fs.winsect = v.fatbase + 4 * c / 512) :
    ldDword fs.win (4 * c % 512) &&& 0x0fffffff = v.entry fs.view c := by
  have hentry : v.entry fs.view c = field (v.fatByte fs.view) (8 * c) 7 := by
    rw [Volume.entry, ht]
    rfl
  have hb : ∀ j < 4, fs.win (4 * c % 512 + j) = v.fatByte fs.view (4 * c + j) := by
    intro j hj
    have hw2 : fs.winsect = v.fatbase + (4 * c + j) / 512 := by omega
    have hoff : 4 * c % 512 + j = (4 * c + j) % 512 := by omega
    rw [hoff]
    exact h.win_byte hw2
  have hword : ldDword fs.win (4 * c % 512) = ldDword (v.fatByte fs.view) (4 * c) := by
    have hb0 := hb 0 (by decide)
    have hb1 := hb 1 (by decide)
    have hb2 := hb 2 (by decide)
    have hb3 := hb 3 (by decide)
    simp only [ldDword, ldWord, Nat.add_zero, Nat.add_assoc, Nat.reduceAdd] at hb0 ⊢
    rw [hb0, hb1, hb2, hb3]
  rw [hword, hentry, entry32]

theorem readEntry_spec (h : fs.Ok v) (hc : clst < v.nFatent) : wp (readEntry v clst)
    (fun r fs' => Still v fs fs' ∧ fs'.winsect ≠ 0 ∧ r = v.entry fs.view clst)
    (fun e fs' => e = .diskErr ∧ Failed fs.disk fs'.disk ∧ Still v fs fs' ∧ (fs.winsect ≠ 0 → fs'.winsect ≠ 0)) fs := by
  have hpos := v.fatbase_pos
  rw [readEntry]
  cases ht : v.fsType with
  | fat12 =>
    have hin : ∀ i, 2 * i < 3 * clst + 3 → i < 512 * v.fsize := fun i hi =>
      Volume.byte_inside hc (by rw [ht]; exact hi)
    have hentry : v.entry fs.view clst = field (v.fatByte fs.view) (3 * clst) 3 := by
      rw [Volume.entry, ht]
      rfl
    simp only [wp_bind, wp_get, wp_pure]
    refine wp_show h (hin _ (by omega)) (fun fs1 hs1 hw1 => ?_) fun fs1 hf hs1 hw1 =>
      ⟨rfl, hf, hs1, fun h0 => hw1 ▸ h0⟩
    have hb1 := (hs1.ok.win_byte hw1).trans (hs1.fatByte (hin _ (by omega)))
    refine wp_show hs1.ok (hin _ (by omega)) (fun fs2 hs2 hw2 => ?_) fun fs2 hf hs2 hw2 => ?_
    · have hs := hs1.trans hs2
      have hb2 := (hs2.ok.win_byte hw2).trans (hs.fatByte (hin _ (by omega)))
      refine ⟨hs, by omega, ?_⟩
      rw [hb1, hb2, hentry]
      split
      · next hodd => exact entry12_odd hodd
      · next heven => exact entry12_even heven
    · exact ⟨rfl, hf.of_later hs1.later, hs1.trans hs2, fun _ => by omega⟩
  | fat16 =>
    have hsect : v.fatbase + clst / 256 = v.fatbase + 2 * clst / 512 := by omega
    have hoff : clst * 2 % 512 = 2 * clst % 512 := by omega
    rw [wp_bind, hsect]
    refine wp_show h (Volume.byte_inside hc (by rw [ht, FsType.stride]; omega)) (fun fs1 hs1 hw1 => ?_) fun fs1 hf hs1 hw1 =>
      ⟨rfl, hf, hs1, fun h0 => hw1 ▸ h0⟩
    rw [wp_bind, wp_get, wp_pure, hoff, hs1.ok.win_entry16 ht hw1, hs1.entry hc]
    exact ⟨hs1, by omega, rfl⟩
  | fat32 =>
    have hsect : v.fatbase + clst / 128 = v.fatbase + 4 * clst / 512 := by omega
    have hoff : clst * 4 % 512 = 4 * clst % 512 := by omega
    rw [wp_bind, hsect]
    refine wp_show h (Volume.byte_inside hc (by rw [ht, FsType.stride]; omega)) (fun fs1 hs1 hw1 => ?_) fun fs1 hf hs1 hw1 =>
      ⟨rfl, hf, hs1, fun h0 => hw1 ▸ h0⟩
    rw [wp_bind, wp_get, wp_pure, hoff, hs1.ok.win_entry32 ht hw1, hs1.entry hc]
    exact ⟨hs1, by omega, rfl⟩

/-- `get_fat` changes nothing that is read; it answers the entry, or that a command failed. -/
theorem getFat_spec (h : fs.Ok v) (hlo : 2 ≤ clst) (hhi : clst < v.nFatent) : wp (getFat v clst)
    (fun r fs' => Still v fs fs' ∧ (r = v.entry fs.view clst ∧ fs'.winsect ≠ 0 ∨
      r = 0xffffffff ∧ Failed fs.disk fs'.disk) ∧ (fs.winsect ≠ 0 → fs'.winsect ≠ 0)) (fun _ _ => False) fs := by
  rw [getFat, if_neg (by omega), wp_bind, wp_attempt]
  refine (readEntry_spec h hhi).mono (fun r fs' hr => ?_) fun e fs' he => ?_
  · rw [wp_pure]
    exact ⟨hr.1, Or.inl ⟨hr.2.2, hr.2.1⟩, fun _ => hr.2.1⟩
  · rw [wp_pure]
    exact ⟨he.2.2.1, Or.inr ⟨rfl, he.2.1⟩, he.2.2.2⟩

/-- The entry of `c` may have changed, and nothing else that is read. -/
structure Puts (v : Volume) (c : Nat) (fs fs' : Fs) : Prop where
  ok : fs'.Ok v
  shown : fs'.winsect ≠ 0
  other : ∀ s, v.Primary s → v.fatbase + v.fsize ≤ s → fs'.view s = fs.view s
  nibbles : ∀ k < 1024 * v.fsize, k < v.fsType.stride * c ∨ v.fsType.stride * c + v.fsType.width ≤ k →
    nibble (v.fatByte fs'.view) k = nibble (v.fatByte fs.view) k
  lastClust : fs'.lastClust = fs.lastClust
  freeClust : fs'.freeClust = fs.freeClust
  later : Later fs.disk fs'.disk

theorem Puts.trans {fs'' : Fs} (h : Puts v clst fs fs') (h' : Puts v clst fs' fs'') : Puts v clst fs fs'' where
  ok := h'.ok
  shown := h'.shown
  other s hs hlo := (h'.other s hs hlo).trans (h.other s hs hlo)
  nibbles k hk hout := (h'.nibbles k hk hout).trans (h.nibbles k hk hout)
  lastClust := h'.lastClust.trans h.lastClust
  freeClust := h'.freeClust.trans h.freeClust
  later := h.later.trans h'.later

theorem Puts.of_still (h : Still v fs fs') (h0 : fs'.winsect ≠ 0) : Puts v clst fs fs' where
  ok := h.ok
  shown := h0
  other s hs _ := h.view s hs
  nibbles k hk _ := by rw [nibble, nibble, h.fatByte (by omega)]
  lastClust := h.lastClust
  freeClust := h.freeClust
  later := h.later

theorem Puts.entry_ne (h : Puts v clst fs fs') {d : Nat} (hd : d < v.nFatent) (hne : d ≠ clst) :
    v.entry fs'.view d = v.entry fs.view d := by
  have hinside := Volume.entry_inside hd
  have hle := v.fsType.width_le
  refine field_congr fun k hlo hhi => h.nibbles k (by omega) ?_
  rcases Nat.lt_or_gt_of_ne hne with hlt | hgt
  · have hmul := Nat.mul_le_mul_left v.fsType.stride (Nat.succ_le_of_lt hlt)
    rw [Nat.succ_eq_add_one, Nat.mul_add, Nat.mul_one] at hmul
    exact Or.inl (by omega)
  · have hmul := Nat.mul_le_mul_left v.fsType.stride (Nat.succ_le_of_lt hgt)
    rw [Nat.succ_eq_add_one, Nat.mul_add, Nat.mul_one] at hmul
    exact Or.inr (by omega)

/-- A byte of the window is replaced, and the window counts as changed. -/
def Fs.poked (fs : Fs) (o : Nat) (x : UInt8) : Fs := { fs with win := stByte fs.win o x, wflag := true }

/-- New contents of the sector the window shows. -/
theorem Fs.Ok.changed (h : fs.Ok v) (h0 : fs.winsect ≠ 0) (win : Bytes) :
    Fs.Ok v { fs with win, wflag := true } ∧
      Fs.view { fs with win, wflag := true } = Function.update fs.view fs.winsect win :=
  ⟨⟨Cached.current_of_dirty rfl, h.place, fun _ => h0⟩, Cached.view_modify (Fs.cached_place h0) win⟩

theorem Fs.Ok.fatByte_poked (h : fs.Ok v) {i : Nat} (hw : fs.winsect = v.fatbase + i / 512) (x : UInt8) (j : Nat) :
    v.fatByte (fs.poked (i % 512) x).view j = if j = i then x else v.fatByte fs.view j := by
  have h0 : fs.winsect ≠ 0 := by
    have hpos := v.fatbase_pos
    omega
  rw [Volume.fatByte, Fs.poked, (h.changed h0 _).2]
  by_cases hs : v.fatbase + j / 512 = fs.winsect
  · rw [hs, Function.update_self, stByte]
    by_cases hj : j = i
    · rw [if_pos (by rw [hj]), if_pos hj]
    · rw [if_neg (by omega), if_neg hj, h.win_eq h0, Volume.fatByte, hs]
  · rw [Function.update_of_ne hs, if_neg (by omega), Volume.fatByte]

/-- A byte may be replaced when the half bytes of other entries in it stay. -/
theorem Puts.poked {c : Nat} (h : fs.Ok v) {i : Nat} (hi : i < 512 * v.fsize) (hw : fs.winsect = v.fatbase + i / 512)
    {x : UInt8} (hx : ∀ k, k / 2 = i → k < v.fsType.stride * c ∨ v.fsType.stride * c + v.fsType.width ≤ k →
      nibble (fun _ => x) k = nibble (v.fatByte fs.view) k) :
    Puts v c fs (fs.poked (i % 512) x) := by
  have h0 : fs.winsect ≠ 0 := by
    have hpos := v.fatbase_pos
    omega
  refine ⟨(h.changed h0 _).1, h0, fun s hs hlo => ?_, fun k hk hout => ?_, rfl, rfl, .refl _⟩
  · rw [Fs.poked, (h.changed h0 _).2, Function.update_of_ne]
    omega
  · by_cases hki : k / 2 = i
    · rw [← hx k hki hout, nibble, h.fatByte_poked hw, if_pos hki, nibble]
    · rw [nibble, h.fatByte_poked hw, if_neg hki, nibble]

theorem Puts.marked (h : fs.Ok v) (h0 : fs.winsect ≠ 0) : Puts v clst fs { fs with wflag := true } := by
  obtain ⟨hok, hview⟩ := h.changed h0 fs.win
  have hsame : Fs.view { fs with wflag := true } = fs.view := by
    refine hview.trans ?_
    rw [h.win_eq h0, Function.update_eq_self]
  exact ⟨hok, h0, fun s _ _ => by rw [hsame], fun k _ _ => by rw [hsame], rfl, rfl, .refl _⟩

theorem field12 {b : Nat → UInt8} {c : Nat} {p q : UInt8} (h0 : b (c + c / 2) = firstByte c val p)
    (h1 : b (c + c / 2 + 1) = secondByte c val q) : field b (3 * c) 3 = val % 16 ^ 3 := by
  have hn0 := toNat_firstByte c val p
  have hn1 := toNat_secondByte c val q
  rw [← h0] at hn0
  rw [← h1] at hn1
  by_cases hodd : c % 2 = 1
  · have hstart : 3 * c = 2 * (c + c / 2) + 1 := by omega
    rw [if_pos hodd] at hn0 hn1
    rw [hstart, field_high, field_two, hn0, hn1]
    omega
  · have hstart : 3 * c = 2 * (c + c / 2) := by omega
    rw [if_neg hodd] at hn0 hn1
    rw [hstart, field_byte, field_low, hn0, hn1]
    omega

theorem field16 {b : Nat → UInt8} {c : Nat} (h0 : b (2 * c) = UInt8.ofNat val)
    (h1 : b (2 * c + 1) = UInt8.ofNat (val / 256)) : field b (4 * c) 4 = val % 16 ^ 4 := by
  have hn0 : (b (2 * c)).toNat = val % 256 := by rw [h0, UInt8.toNat_ofNat']
  have hn1 : (b (2 * c + 1)).toNat = val / 256 % 256 := by rw [h1, UInt8.toNat_ofNat']
  rw [← entry16, ldWord, hn0, hn1]
  omega

theorem high_nibble (x : Nat) : x &&& 0xf0000000 = x / 268435456 % 16 * 268435456 := by
  have hmask : (0xf0000000 : Nat) = (2 ^ 4 - 1) <<< 28 := by decide
  have hmul : x / 268435456 % 16 * 268435456 = (x / 2 ^ 28 % 2 ^ 4) <<< 28 := by
    rw [Nat.shiftLeft_eq]
    rfl
  rw [hmask, hmul]
  refine Nat.eq_of_testBit_eq fun i => ?_
  rw [Nat.testBit_and, Nat.testBit_shiftLeft, Nat.testBit_shiftLeft, Nat.testBit_two_pow_sub_one,
    Nat.testBit_mod_two_pow, Nat.testBit_div_two_pow]
  by_cases hi : 28 ≤ i
  · rw [Nat.sub_add_cancel hi, Bool.and_left_comm, Bool.and_comm (x.testBit i)]
  · simp [hi]

theorem or_high_nibble {old : Nat} (hval : val < 268435456) :
    val ||| (old &&& 0xf0000000) = old / 268435456 % 16 * 268435456 + val := by
  rw [high_nibble, Nat.or_comm]
  have hshift := Nat.shiftLeft_add_eq_or_of_lt (i := 28) hval (old / 268435456 % 16)
  rw [Nat.shiftLeft_eq] at hshift
  exact hshift.symm

theorem field32 {b : Nat → UInt8} {c old : Nat} (hval : val < 268435456)
    (hb : ∀ j < 4, b (4 * c + j) = UInt8.ofNat ((val ||| (old &&& 0xf0000000)) / 256 ^ j)) :
    field b (8 * c) 7 = val % 16 ^ 7 := by
  rw [or_high_nibble hval] at hb
  have hn : ∀ j < 4, (b (4 * c + j)).toNat = (old / 268435456 % 16 * 268435456 + val) / 256 ^ j % 256 :=
    fun j hj => by rw [hb j hj, UInt8.toNat_ofNat']
  have h0 := hn 0 (by decide)
  have h1 := hn 1 (by decide)
  have h2 := hn 2 (by decide)
  have h3 := hn 3 (by decide)
  have hmask : ∀ x : Nat, x &&& 0x0fffffff = x % 268435456 := fun x => Nat.and_two_pow_sub_one_eq_mod x 28
  have e3 : 4 * c + 2 + 1 = 4 * c + 3 := rfl
  rw [← entry32, hmask, ldDword, ldWord, ldWord, e3, h1, h2, h3]
  rw [Nat.add_zero] at h0
  rw [h0]
  omega

/-- The four bytes of a 32-bit entry; the reserved half byte stays when the new one has it. -/
theorem Puts.dword (h : fs.Ok v) (ht : v.fsType = .fat32) (hc : clst < v.nFatent)
    (hw : fs.winsect = v.fatbase + 4 * clst / 512) {new : Nat}
    (hhigh : new / 16777216 % 256 / 16 = (v.fatByte fs.view (4 * clst + 3)).toNat / 16) {fs' : Fs}
    (hfs' : fs' = { fs with win := stDword fs.win (4 * clst % 512) new, wflag := true }) :
    Puts v clst fs fs' ∧ ∀ j < 4, v.fatByte fs'.view (4 * clst + j) = UInt8.ofNat (new / 256 ^ j) := by
  have hin : ∀ i, 2 * i < 8 * clst + 8 → i < 512 * v.fsize := fun i hi =>
    Volume.byte_inside hc (by rw [ht]; exact hi)
  have hvac : ∀ j < 3, ∀ k, k / 2 = 4 * clst + j → ¬(k < v.fsType.stride * clst ∨
      v.fsType.stride * clst + v.fsType.width ≤ k) := by
    intro j hj k hk
    rw [ht]
    simp only [FsType.stride, FsType.width]
    omega
  have hp1 := Puts.poked (c := clst) h (hin (4 * clst) (by omega)) hw (x := UInt8.ofNat new)
    fun k hk hout => absurd hout (hvac 0 (by decide) k hk)
  have hb1 := h.fatByte_poked hw (UInt8.ofNat new)
  generalize hf1 : fs.poked (4 * clst % 512) (UInt8.ofNat new) = fs1 at hp1 hb1
  have hw1 : fs1.winsect = v.fatbase + (4 * clst + 1) / 512 := by
    rw [← hf1]
    change fs.winsect = _
    omega
  have hp2 := Puts.poked (c := clst) hp1.ok (hin (4 * clst + 1) (by omega)) hw1 (x := UInt8.ofNat (new / 256))
    fun k hk hout => absurd hout (hvac 1 (by decide) k hk)
  have hb2 := hp1.ok.fatByte_poked hw1 (UInt8.ofNat (new / 256))
  generalize hf2 : fs1.poked ((4 * clst + 1) % 512) (UInt8.ofNat (new / 256)) = fs2 at hp2 hb2
  have hw2 : fs2.winsect = v.fatbase + (4 * clst + 2) / 512 := by
    rw [← hf2]
    change fs1.winsect = _
    omega
  have hp3 := Puts.poked (c := clst) hp2.ok (hin (4 * clst + 2) (by omega)) hw2 (x := UInt8.ofNat (new / 65536))
    fun k hk hout => absurd hout (hvac 2 (by decide) k hk)
  have hb3 := hp2.ok.fatByte_poked hw2 (UInt8.ofNat (new / 65536))
  generalize hf3 : fs2.poked ((4 * clst + 2) % 512) (UInt8.ofNat (new / 65536)) = fs3 at hp3 hb3
  have hw3 : fs3.winsect = v.fatbase + (4 * clst + 3) / 512 := by
    rw [← hf3]
    change fs2.winsect = _
    omega
  have hp4 := Puts.poked (c := clst) hp3.ok (hin (4 * clst + 3) (by omega)) hw3
    (x := UInt8.ofNat (new / 65536 / 256)) fun k hk hout => by
      rw [ht] at hout
      simp only [FsType.stride, FsType.width] at hout
      rw [nibble, nibble, if_neg (by omega), if_neg (by omega), UInt8.toNat_ofNat', hk, hb3, if_neg (by omega), hb2,
        if_neg (by omega), hb1, if_neg (by omega), ← hhigh, Nat.div_div_eq_div_mul]
  have hb4 := hp3.ok.fatByte_poked hw3 (UInt8.ofNat (new / 65536 / 256))
  have hlast : fs3.poked ((4 * clst + 3) % 512) (UInt8.ofNat (new / 65536 / 256)) = fs' := by
    have hoff1 : 4 * clst % 512 + 1 = (4 * clst + 1) % 512 := by omega
    have hoff2 : 4 * clst % 512 + 2 = (4 * clst + 2) % 512 := by omega
    have hoff3 : (4 * clst + 2) % 512 + 1 = (4 * clst + 3) % 512 := by omega
    rw [hfs', ← hf3, ← hf2, ← hf1, stDword, stWord, stWord, hoff1, hoff2, hoff3]
    rfl
  rw [hlast] at hp4 hb4
  refine ⟨((hp1.trans hp2).trans hp3).trans hp4, fun j hj => ?_⟩
  rw [hb4, hb3, hb2, hb1]
  interval_cases j
  · rw [if_neg (by omega), if_neg (by omega), if_neg (by omega), if_pos (by omega), Nat.pow_zero, Nat.div_one]
  · rw [if_neg (by omega), if_neg (by omega), if_pos (by omega), Nat.pow_one]
  · rw [if_neg (by omega), if_pos (by omega)]
    rfl
  · rw [if_pos (by omega), Nat.div_div_eq_div_mul]
    rfl

/-- Whatever fails, `put_fat` touches its own entry only; without an error the entry reads as what was
stored. The window has to show some sector at first: were it empty, a failure would mark it changed. -/
theorem putFat_spec (h : fs.Ok v) (h0 : fs.winsect ≠ 0) (hlo : 2 ≤ clst) (hhi : clst < v.nFatent)
    (hval : val < 268435456) : wp (putFat v clst val)
    (fun _ fs' => Puts v clst fs fs' ∧ v.entry fs'.view clst = v.trim val)
    (fun e fs' => e = .diskErr ∧ Failed fs.disk fs'.disk ∧ Puts v clst fs fs') fs := by
  have hpos := v.fatbase_pos
  have hfailed : ∀ fs1 fs2 : Fs, Puts v clst fs fs1 → Failed fs1.disk fs2.disk → Still v fs1 fs2 → fs2.winsect = fs1.winsect →
      FResult.diskErr = .diskErr ∧ Failed fs.disk fs2.disk ∧
        Puts v clst fs { fs2 with wflag := true } := by
    intro fs1 fs2 hp hf hs hw
    have h2 : fs2.winsect ≠ 0 := hw ▸ hp.shown
    exact ⟨rfl, hf.of_later hp.later, (hp.trans (.of_still hs h2)).trans (.marked hs.ok h2)⟩
  have hstart : Puts v clst fs fs := .of_still (Still.refl h) h0
  rw [putFat, if_neg (by omega), wp_bind, wp_attempt, writeEntry]
  cases ht : v.fsType with
  | fat12 =>
    have hin : ∀ i, 2 * i < 3 * clst + 3 → i < 512 * v.fsize := fun i hi =>
      Volume.byte_inside hhi (by rw [ht]; exact hi)
    simp only [wp_bind, wp_modify, wp_ofExcept_ok, wp_ofExcept_error]
    refine wp_show h (hin _ (by omega)) (fun fs1 hs1 hw1 => ?_) fun fs1 hf hs1 hw1 => hfailed fs fs1 hstart hf hs1 hw1
    have hp1 : Puts v clst fs1 (fs1.poked ((clst + clst / 2) % 512)
        (firstByte clst val (fs1.win ((clst + clst / 2) % 512)))) := by
      refine Puts.poked hs1.ok (hin _ (by omega)) hw1 fun k hk hout => ?_
      rw [ht] at hout
      simp only [FsType.stride, FsType.width] at hout
      have heven : k % 2 = 0 := by omega
      have hodd : clst % 2 = 1 := by omega
      rw [nibble, nibble, if_pos heven, if_pos heven, toNat_firstByte, if_pos hodd, hk, hs1.ok.win_byte hw1]
      omega
    have hput1 := (Puts.of_still hs1 (by omega)).trans hp1
    refine wp_show hp1.ok (hin _ (by omega)) (fun fs2 hs2 hw2 => ?_) fun fs2 hf hs2 hw2 =>
      hfailed _ fs2 hput1 hf hs2 hw2
    have hp2 : Puts v clst fs2 (fs2.poked ((clst + clst / 2 + 1) % 512)
        (secondByte clst val (fs2.win ((clst + clst / 2 + 1) % 512)))) := by
      refine Puts.poked hs2.ok (hin _ (by omega)) hw2 fun k hk hout => ?_
      rw [ht] at hout
      simp only [FsType.stride, FsType.width] at hout
      have hhalf : ¬k % 2 = 0 := by omega
      have heven : ¬clst % 2 = 1 := by omega
      rw [nibble, nibble, if_neg hhalf, if_neg hhalf, toNat_secondByte, if_neg heven, hk, hs2.ok.win_byte hw2]
      omega
    refine ⟨(hput1.trans (.of_still hs2 (by omega))).trans hp2, ?_⟩
    rw [Volume.entry, Volume.trim, ht]
    refine field12 (p := fs1.win ((clst + clst / 2) % 512)) (q := fs2.win ((clst + clst / 2 + 1) % 512)) ?_ ?_
    · refine (hs2.ok.fatByte_poked hw2 _ _).trans ?_
      rw [if_neg (by omega), hs2.fatByte (hin _ (by omega)), hs1.ok.fatByte_poked hw1, if_pos rfl]
    · exact (hs2.ok.fatByte_poked hw2 _ _).trans (if_pos rfl)
  | fat16 =>
    have hin : ∀ i, 2 * i < 4 * clst + 4 → i < 512 * v.fsize := fun i hi =>
      Volume.byte_inside hhi (by rw [ht]; exact hi)
    have hsect : v.fatbase + clst / 256 = v.fatbase + 2 * clst / 512 := by omega
    have hoff : clst * 2 % 512 = 2 * clst % 512 := by omega
    have hoff2 : 2 * clst % 512 + 1 = (2 * clst + 1) % 512 := by omega
    simp only [wp_bind, wp_modify, wp_ofExcept_ok, wp_ofExcept_error, hsect, hoff, stWord, hoff2]
    refine wp_show h (hin _ (by omega)) (fun fs1 hs1 hw1 => ?_) fun fs1 hf hs1 hw1 => hfailed fs fs1 hstart hf hs1 hw1
    have hp1 : Puts v clst fs1 (fs1.poked (2 * clst % 512) (UInt8.ofNat val)) := by
      refine Puts.poked hs1.ok (hin _ (by omega)) hw1 fun k hk hout => ?_
      rw [ht] at hout
      simp only [FsType.stride, FsType.width] at hout
      omega
    have hw2 : (fs1.poked (2 * clst % 512) (UInt8.ofNat val)).winsect = v.fatbase + (2 * clst + 1) / 512 := by
      change fs1.winsect = _
      omega
    have hp2 : Puts v clst (fs1.poked (2 * clst % 512) (UInt8.ofNat val))
        ((fs1.poked (2 * clst % 512) (UInt8.ofNat val)).poked ((2 * clst + 1) % 512) (UInt8.ofNat (val / 256))) := by
      refine Puts.poked hp1.ok (hin _ (by omega)) hw2 fun k hk hout => ?_
      rw [ht] at hout
      simp only [FsType.stride, FsType.width] at hout
      omega
    refine ⟨((Puts.of_still hs1 (by omega)).trans hp1).trans hp2, ?_⟩
    rw [Volume.entry, Volume.trim, ht]
    refine field16 ?_ ?_
    · refine (hp1.ok.fatByte_poked hw2 _ _).trans ?_
      rw [if_neg (by omega), hs1.ok.fatByte_poked hw1, if_pos rfl]
    · exact (hp1.ok.fatByte_poked hw2 _ _).trans (if_pos rfl)
  | fat32 =>
    have hin : ∀ i, 2 * i < 8 * clst + 8 → i < 512 * v.fsize := fun i hi =>
      Volume.byte_inside hhi (by rw [ht]; exact hi)
    have hsect : v.fatbase + clst / 128 = v.fatbase + 4 * clst / 512 := by omega
    have hoff : clst * 4 % 512 = 4 * clst % 512 := by omega
    simp only [wp_bind, wp_modify, wp_ofExcept_ok, wp_ofExcept_error, hsect, hoff]
    refine wp_show h (hin _ (by omega)) (fun fs1 hs1 hw1 => ?_) fun fs1 hf hs1 hw1 => hfailed fs fs1 hstart hf hs1 hw1
    have hb3 : fs1.win (4 * clst % 512 + 2 + 1) = v.fatByte fs1.view (4 * clst + 3) := by
      have hoff3 : 4 * clst % 512 + 2 + 1 = (4 * clst + 3) % 512 := by omega
      rw [hoff3]
      exact hs1.ok.win_byte (by omega)
    have hhigh : (val ||| (ldDword fs1.win (4 * clst % 512) &&& 0xf0000000)) / 16777216 % 256 / 16 =
        (v.fatByte fs1.view (4 * clst + 3)).toNat / 16 := by
      have h0 := (fs1.win (4 * clst % 512)).toNat_lt
      have h1 := (fs1.win (4 * clst % 512 + 1)).toNat_lt
      have h2 := (fs1.win (4 * clst % 512 + 2)).toNat_lt
      have h3 := (fs1.win (4 * clst % 512 + 2 + 1)).toNat_lt
      rw [or_high_nibble hval, ← hb3, ldDword, ldWord, ldWord]
      omega
    obtain ⟨hput, hbytes⟩ := Puts.dword hs1.ok ht hhi hw1 hhigh rfl
    refine ⟨(Puts.of_still hs1 (by omega)).trans hput, ?_⟩
    rw [Volume.entry, Volume.trim, ht]
    exact field32 hval hbytes

end MiMic.Fat
