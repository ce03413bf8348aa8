import MiMic.Core.Stdlib
import MiMic.Lib.NorFlash
import MiMic.Lib.System

/-!
# The configuration in flash

`NyLPC_TMiMicConfigulation` as it lies in memory, and what an update of it promises: it returns
TRUE with the new configuration in force, or FALSE with the old one or the factory default.
-/
namespace MiMic.Flash

open Verif NorFlash

/-- `NyLPC_TcNetConfig_HOSTNAME_LEN`. -/
abbrev hostnameLen : Nat := 32

@[ext]
structure MiMicConfigulation where
  fastBoot : UInt32
  hostname : Fin hostnameLen → UInt8
  mac00010203 : UInt32
  mac0405xxxx : UInt32
  ipv4Flags : UInt32
  ipv4AddrNet : UInt32
  ipv4MaskNet : UInt32
  ipv4DrutNet : UInt32
  srvFlags : UInt32
  httpPort : UInt16
  padding32 : UInt16
  padding64 : UInt32

instance : DecidableEq MiMicConfigulation := fun _ _ =>
  decidable_of_iff _ MiMicConfigulation.ext_iff.symm

/-- `sizeof(struct NyLPC_TMiMicConfigulation)`. -/
abbrev sizeOfConfigulation : Nat := 72

def leByte (v : UInt32) (k : Nat) : UInt8 := UInt8.ofNat (v.toNat / 256 ^ k)

/-- The byte at an offset of the structure. -/
def MiMicConfigulation.byte (c : MiMicConfigulation) (k : Nat) : UInt8 :=
  if k < 4 then leByte c.fastBoot k
  else if k < 36 then c.hostname (Fin.ofNat hostnameLen (k - 4))
  else if k < 40 then leByte c.mac00010203 (k - 36)
  else if k < 44 then leByte c.mac0405xxxx (k - 40)
  else if k < 48 then leByte c.ipv4Flags (k - 44)
  else if k < 52 then leByte c.ipv4AddrNet (k - 48)
  else if k < 56 then leByte c.ipv4MaskNet (k - 52)
  else if k < 60 then leByte c.ipv4DrutNet (k - 56)
  else if k < 64 then leByte c.srvFlags (k - 60)
  else if k < 66 then leByte c.httpPort.toUInt32 (k - 64)
  else if k < 68 then leByte c.padding32.toUInt32 (k - 66)
  else leByte c.padding64 (k - 68)

def MiMicConfigulation.bytes (c : MiMicConfigulation) : List UInt8 :=
  (List.range sizeOfConfigulation).map c.byte

/-- The structure at an address. -/
def readConfigulation (m : Cells) (a : Nat) : MiMicConfigulation where
  fastBoot := Memory.u32 m a
  hostname i := m (a + 4 + i)
  mac00010203 := Memory.u32 m (a + 36)
  mac0405xxxx := Memory.u32 m (a + 40)
  ipv4Flags := Memory.u32 m (a + 44)
  ipv4AddrNet := Memory.u32 m (a + 48)
  ipv4MaskNet := Memory.u32 m (a + 52)
  ipv4DrutNet := Memory.u32 m (a + 56)
  srvFlags := Memory.u32 m (a + 60)
  httpPort := Memory.u16 m (a + 64)
  padding32 := Memory.u16 m (a + 66)
  padding64 := Memory.u32 m (a + 68)

/-- `factory_default`. -/
def factoryDefault : MiMicConfigulation where
  fastBoot := 0xffffffff
  hostname i := ([0x4d, 0x69, 0x4d, 0x69, 0x63, 0x30, 0x32, 0x30, 0x31, 0x30, 0x32, 0x30, 0x33, 0x30,
    0x34, 0x30, 0x35] : List UInt8).getD i 0
  mac00010203 := 0x02010203
  mac0405xxxx := 0x0405ffff
  ipv4Flags := 0
  ipv4AddrNet := 0xc0a80027
  ipv4MaskNet := 0xffffff00
  ipv4DrutNet := 0xc0a800fe
  srvFlags := 3
  httpPort := 80
  padding32 := 0
  padding64 := 0

/-- What a user sets: all but the flag word and the padding. -/
def MiMicConfigulation.settings (c : MiMicConfigulation) : MiMicConfigulation :=
  { c with
    fastBoot := 0
    padding32 := 0
    padding64 := 0 }

theorem toNat_leByte (v : UInt32) (k : Nat) : (leByte v k).toNat = v.toNat / 256 ^ k % 256 := by
  rw [leByte, UInt8.toNat_ofNat']

theorem u32_leByte {m : Cells} {a : Nat} {v : UInt32}
    (h : ∀ k < 4, m (a + k) = leByte v k) : Memory.u32 m a = v := by
  have hlt := v.toNat_lt
  have h0 : (m a).toNat = v.toNat % 256 := by
    rw [show m a = leByte v 0 from h 0 (by decide), toNat_leByte, Nat.pow_zero, Nat.div_one]
  have h1 : (m (a + 1)).toNat = v.toNat / 256 % 256 := by
    rw [h 1 (by decide), toNat_leByte, Nat.pow_one]
  have h2 : (m (a + 2)).toNat = v.toNat / 65536 % 256 := by
    rw [h 2 (by decide), toNat_leByte]
    rfl
  have h3 : (m (a + 3)).toNat = v.toNat / 16777216 % 256 := by
    rw [h 3 (by decide), toNat_leByte]
    rfl
  apply UInt32.toNat_inj.mp
  rw [Memory.u32, UInt32.toNat_ofNat', h0, h1, h2, h3]
  omega

theorem u16_leByte {m : Cells} {a : Nat} {v : UInt16}
    (h : ∀ k < 2, m (a + k) = leByte v.toUInt32 k) : Memory.u16 m a = v := by
  have hlt := v.toNat_lt
  have hv : v.toUInt32.toNat = v.toNat := UInt16.toNat_toUInt32 v
  have h0 : (m a).toNat = v.toNat % 256 := by
    rw [show m a = leByte v.toUInt32 0 from h 0 (by decide), toNat_leByte, hv, Nat.pow_zero,
      Nat.div_one]
  have h1 : (m (a + 1)).toNat = v.toNat / 256 % 256 := by
    rw [h 1 (by decide), toNat_leByte, hv, Nat.pow_one]
  apply UInt16.toNat_inj.mp
  rw [Memory.u16, UInt16.toNat_ofNat', h0, h1]
  omega

theorem length_bytes (c : MiMicConfigulation) : c.bytes.length = sizeOfConfigulation := by
  rw [MiMicConfigulation.bytes, List.length_map, List.length_range]

theorem bytes_getD (c : MiMicConfigulation) {k : Nat} (hk : k < sizeOfConfigulation) :
    c.bytes.getD k 0 = c.byte k := by
  rw [MiMicConfigulation.bytes, List.getD_eq_getElem?_getD, List.getElem?_map,
    List.getElem?_range hk]
  rfl

/-- A configuration that stands in memory byte by byte is read back. -/
theorem readConfigulation_bytes {m : Cells} {a : Nat} {c : MiMicConfigulation}
    (h : ∀ k < sizeOfConfigulation, m (a + k) = c.byte k) : readConfigulation m a = c := by
  have hword : ∀ (o : Nat) (v : UInt32), o + 4 ≤ sizeOfConfigulation →
      (∀ k < 4, c.byte (o + k) = leByte v k) → Memory.u32 m (a + o) = v := by
    intro o v ho hv
    apply u32_leByte
    intro k hk
    rw [Nat.add_assoc, h (o + k) (by omega), hv k hk]
  have hhalf : ∀ (o : Nat) (v : UInt16), o + 2 ≤ sizeOfConfigulation →
      (∀ k < 2, c.byte (o + k) = leByte v.toUInt32 k) → Memory.u16 m (a + o) = v := by
    intro o v ho hv
    apply u16_leByte
    intro k hk
    rw [Nat.add_assoc, h (o + k) (by omega), hv k hk]
  have hname : ∀ i : Fin hostnameLen, m (a + 4 + i) = c.hostname i := by
    intro i
    have hi : i.val < 32 := i.isLt
    rw [Nat.add_assoc, h (4 + i) (by show 4 + i.val < 72; omega), MiMicConfigulation.byte, if_neg (by omega),
      if_pos (by omega), Nat.add_sub_cancel_left, Fin.ofNat_val_eq_self]
  obtain ⟨fb, hn, m0, m4, fl, ad, ma, dr, sv, hp, p3, p6⟩ := c
  simp only [readConfigulation, MiMicConfigulation.mk.injEq]
  refine ⟨?_, funext hname, ?_, ?_, ?_, ?_, ?_, ?_, ?_, ?_, ?_, ?_⟩
  · exact hword 0 fb (by decide) fun k hk => by interval_cases k <;> rfl
  · exact hword 36 m0 (by decide) fun k hk => by interval_cases k <;> rfl
  · exact hword 40 m4 (by decide) fun k hk => by interval_cases k <;> rfl
  · exact hword 44 fl (by decide) fun k hk => by interval_cases k <;> rfl
  · exact hword 48 ad (by decide) fun k hk => by interval_cases k <;> rfl
  · exact hword 52 ma (by decide) fun k hk => by interval_cases k <;> rfl
  · exact hword 56 dr (by decide) fun k hk => by interval_cases k <;> rfl
  · exact hword 60 sv (by decide) fun k hk => by interval_cases k <;> rfl
  · exact hhalf 64 hp (by decide) fun k hk => by interval_cases k <;> rfl
  · exact hhalf 66 p3 (by decide) fun k hk => by interval_cases k <;> rfl
  · exact hword 68 p6 (by decide) fun k hk => by interval_cases k <;> rfl

theorem u32_congr {m m' : Cells} {a : Nat} (h : ∀ k < 4, m' (a + k) = m (a + k)) :
    Memory.u32 m' a = Memory.u32 m a := by
  have h0 : m' a = m a := h 0 (by decide)
  simp only [Memory.u32, h0, h 1 (by decide), h 2 (by decide), h 3 (by decide)]

theorem u16_congr {m m' : Cells} {a : Nat} (h : ∀ k < 2, m' (a + k) = m (a + k)) :
    Memory.u16 m' a = Memory.u16 m a := by
  have h0 : m' a = m a := h 0 (by decide)
  simp only [Memory.u16, h0, h 1 (by decide)]

theorem readConfigulation_congr {m m' : Cells} {a : Nat}
    (h : ∀ k < sizeOfConfigulation, m' (a + k) = m (a + k)) :
    readConfigulation m' a = readConfigulation m a := by
  have hword : ∀ o, o + 4 ≤ sizeOfConfigulation → Memory.u32 m' (a + o) = Memory.u32 m (a + o) := by
    intro o ho
    apply u32_congr
    intro k hk
    rw [Nat.add_assoc, h (o + k) (by omega)]
  have hhalf : ∀ o, o + 2 ≤ sizeOfConfigulation → Memory.u16 m' (a + o) = Memory.u16 m (a + o) := by
    intro o ho
    simp only [Memory.u16, Nat.add_assoc, h o (by omega), h (o + 1) (by omega)]
  have hname : ∀ i : Fin hostnameLen, m' (a + 4 + i) = m (a + 4 + i) := by
    intro i
    have hi : i.val < 32 := i.isLt
    rw [Nat.add_assoc, h (4 + i) (by show 4 + i.val < 72; omega)]
  simp only [readConfigulation, hname, show Memory.u32 m' a = Memory.u32 m a from hword 0 (by decide),
    hword 36 (by decide), hword 40 (by decide), hword 44 (by decide), hword 48 (by decide),
    hword 52 (by decide), hword 56 (by decide), hword 60 (by decide), hhalf 64 (by decide),
    hhalf 66 (by decide), hword 68 (by decide)]

def store16 (m : Cells) (a : Nat) (v : UInt16) : Cells := patch m a 2 fun x => leByte v.toUInt32 (x - a)

def store32 (m : Cells) (a : Nat) (v : UInt32) : Cells := patch m a 4 fun x => leByte v (x - a)

theorem u16_store16 (m : Cells) (a : Nat) (v : UInt16) : Memory.u16 (store16 m a v) a = v := by
  refine u16_leByte fun k hk => ?_
  rw [store16, patch_inside (by omega) (by omega), Nat.add_sub_cancel_left]

theorem u32_store32 (m : Cells) (a : Nat) (v : UInt32) : Memory.u32 (store32 m a v) a = v := by
  refine u32_leByte fun k hk => ?_
  rw [store32, patch_inside (by omega) (by omega), Nat.add_sub_cancel_left]

theorem u16_patch {m : Cells} {a b n : Nat} {f : Cells} (h : b + 2 ≤ a ∨ a + n ≤ b) :
    Memory.u16 (patch m a n f) b = Memory.u16 m b :=
  u16_congr fun k hk => patch_outside (by omega)

theorem u32_patch {m : Cells} {a b n : Nat} {f : Cells} (h : b + 4 ≤ a ∨ a + n ≤ b) :
    Memory.u32 (patch m a n f) b = Memory.u32 m b :=
  u32_congr fun k hk => patch_outside (by omega)

/-- A board: how it stores a configuration, and how it reads the one in force. -/
structure Board where
  init : Cells → Prop
  updateConfigulation : Device → MiMicConfigulation → Device × Bool
  loadFromFlash : Cells → MiMicConfigulation

/-- A call of `updateConfigulation`, with how the calls of the vendor ROM come out. -/
structure Update where
  config : MiMicConfigulation
  script : List Outcome

namespace Board

variable (b : Board)

def run (m : Cells) (u : Update) : Cells × Bool :=
  let r := b.updateConfigulation ⟨m, u.script⟩ u.config
  (r.1.memory, r.2)

/-- TRUE is returned with the new configuration in force, and FALSE with the one before or the
factory default. -/
def Atomic (m : Cells) (u : Update) : Prop :=
  if (b.run m u).2 then (b.loadFromFlash (b.run m u).1).settings = u.config.settings
  else b.loadFromFlash (b.run m u).1 = b.loadFromFlash m ∨
    b.loadFromFlash (b.run m u).1 = factoryDefault

instance (m : Cells) (u : Update) : Decidable (b.Atomic m u) := by
  unfold Atomic
  infer_instance

/-- For a configuration that is neither in force nor the default, TRUE says that it is loaded. -/
theorem Atomic.returned_iff {b : Board} {m : Cells} {u : Update} (h : b.Atomic m u)
    (hnew : u.config.settings ≠ (b.loadFromFlash m).settings)
    (hdefault : u.config.settings ≠ factoryDefault.settings) :
    (b.run m u).2 = true ↔ (b.loadFromFlash (b.run m u).1).settings = u.config.settings := by
  unfold Atomic at h
  split at h
  · next hret => exact ⟨fun _ => h, fun _ => hret⟩
  · next hret =>
    refine ⟨fun h => absurd h hret, fun hload => ?_⟩
    rcases h with hold | hold
    · rw [hold] at hload
      exact absurd hload.symm hnew
    · rw [hold] at hload
      exact absurd hload.symm hdefault

def updates : System Cells Update where
  init := b.init
  step m u := some (b.run m u).1

/-- The updates, and whether each of them was atomic. -/
def watched : System (Cells × Bool) Update :=
  b.updates.observe true fun good m u _ => good && decide (b.Atomic m u)

/-- An invariant under which every update that meets the condition is atomic makes all of them
atomic. -/
theorem watched_good {b : Board} {inv : Cells → Prop} {ok : Cells → Update → Prop}
    (hinit : ∀ m, b.init m → inv m)
    (hstep : ∀ m u, inv m → ok m u → inv (b.run m u).1 ∧ b.Atomic m u) {p : Cells × Bool}
    (h : b.watched.Reaches (fun p u => ok p.1 u) p) : p.2 = true := by
  have hboth : inv p.1 ∧ p.2 = true := by
    refine h.invariant (P := fun p => inv p.1 ∧ p.2 = true) ?_ ?_
    · intro p hp
      exact ⟨hinit _ hp.1, hp.2⟩
    · intro p u q hinv hok hs
      obtain ⟨hs', hgood⟩ := System.observe_step.mp
        (show b.watched.step (p.1, p.2) u = some (q.1, q.2) from hs)
      obtain ⟨hinv', hatomic⟩ := hstep p.1 u hinv.1 hok
      obtain hq := Option.some.inj hs'
      refine ⟨hq ▸ hinv', ?_⟩
      rw [hgood, hinv.2, decide_eq_true hatomic]
      rfl
  exact hboth.2

end Board

end MiMic.Flash
