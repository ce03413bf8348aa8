import MiMic.Lib.System
import MiMic.NetIf.Arp

/-!
# Runs of the ARP table

The table is run beside the history of what packets taught. The ages that eight bits tell
are the true ones as long as every entry goes at its last tick.
-/
namespace MiMic.NetIf

open Verif

inductive ArpEvent
  | incomingIp (ethSrc : EthAddr) (ipSrc : IPv4Addr)
  | rx (arp : ArpHeader) (len : UInt16)
  | periodic
  | lookup (ipAddr : IPv4Addr)

def arpStep (cfg : EthConfig) (s : IPv4Arp) : ArpEvent → IPv4Arp
  | .incomingIp ethSrc ipSrc => s.incomingIp cfg ethSrc ipSrc
  | .rx arp len => (s.rx cfg arp len).1
  | .periodic => s.periodic
  | .lookup _ => s

/-- An ARP packet for this host from which an address is taken. -/
def ArpHeader.Teaches (cfg : EthConfig) (arp : ArpHeader) (len : UInt16) : Prop :=
  sizeOfArpHeader ≤ len ∧ (arp.opcode = htons arpRequest ∨ arp.opcode = htons arpReply) ∧
    arp.dipaddr = cfg.ipAddr

instance (cfg : EthConfig) (arp : ArpHeader) (len : UInt16) : Decidable (arp.Teaches cfg len) :=
  inferInstanceAs (Decidable (_ ∧ _))

/-- The address that a packet teaches, and where it is. -/
def taught (cfg : EthConfig) : ArpEvent → Option (IPv4Addr × EthAddr)
  | .incomingIp ethSrc ipSrc => if cfg.isLocalIP ipSrc then some (ipSrc, ethSrc) else none
  | .rx arp len => if arp.Teaches cfg len then some (arp.sipaddr, arp.shwaddr) else none
  | .periodic => none
  | .lookup _ => none

abbrev ArpHistory := AgingCache.History IPv4Addr EthAddr

def noteArp (cfg : EthConfig) (h : ArpHistory) (e : ArpEvent) : ArpHistory :=
  match e, taught cfg e with
  | .periodic, _ => h.tick
  | _, some (a, mac) => h.learn a mac
  | _, none => h

/-- The table from its initialisation on, whatever the memory held before. -/
def arpSystem (cfg : EthConfig) : System (IPv4Arp × ArpHistory) ArpEvent :=
  System.observe
    { init := fun s => ∃ s₀ : IPv4Arp, s = s₀.initializeArp
      step := fun s e => some (arpStep cfg s e) }
    AgingCache.History.empty (fun h _ e _ => noteArp cfg h e)

/-- Every address has one entry, younger than the maximum age and holding what was last
learned. -/
structure TableOk (s : IPv4Arp) (h : ArpHistory) : Prop where
  unique : s.AddrsUnique
  recent : ∀ i, (s.slot i).ipaddr.v ≠ 0 →
    ∃ n, n < uipArpMaxage ∧ h (s.slot i).ipaddr = some ((s.slot i).ethaddr, n)

/-- What an event may do to the table. -/
def ArpStepOk (cfg : EthConfig) (s : IPv4Arp) (h : ArpHistory) (e : ArpEvent) : Prop :=
  match e, taught cfg e with
  | .periodic, _ => AgingCache.TickStep uipArpMaxage h s.Live (arpStep cfg s e).Live
  | .lookup a, _ => AgingCache.LookupOk h s.Live a (s.iPv4toEthAddr a)
  | _, some (a, _) =>
      AgingCache.LearnStep (fun b => b.v ≠ 0) (¬ s.HasFree) h s.Live (arpStep cfg s e).Live a
  | _, none => arpStep cfg s e = s

namespace IPv4Arp

/-- No entry was recorded before the counter wrapped. Or all of them were, or in the present
tick, and the first slot happens to be the oldest. -/
def Comparable (s : IPv4Arp) : Prop :=
  (∀ i, (s.slot i).time ≤ s.arptime) ∨
    ((∀ i, s.arptime ≤ (s.slot i).time) ∧ ∀ i, s.wrapAge i ≤ s.wrapAge 0)

/-- No entry recorded before the counter wrapped comes to its last tick. -/
def AgesWithoutWrap (s : IPv4Arp) : Prop :=
  ∀ i, (s.slot i).ipaddr.v ≠ 0 →
    ¬ (s.arptime + 1 < (s.slot i).time ∧
      (s.arptime + 1 - (s.slot i).time).toNat = uipArpMaxage)

/-- An entry recorded before the wrap is older than one recorded since. -/
theorem wrapAge_lt_of_wrapped {s : IPv4Arp} {i j : Fin arptabSize}
    (hi : (s.slot i).time ≤ s.arptime) (hj : s.arptime < (s.slot j).time) :
    s.wrapAge i < s.wrapAge j := by
  have ht := (s.slot j).time.toNat_lt
  unfold wrapAge
  rw [toNat_sub_uint8, if_pos hi, toNat_sub_uint8, if_neg (UInt8.not_le.mpr hj)]
  rw [UInt8.lt_iff_toNat_lt] at hj
  omega

/-- The slot that is given up is the oldest one, exactly where the comparisons are truthful. -/
theorem oldest_max_iff (s : IPv4Arp) :
    (∀ i, s.wrapAge i ≤ s.wrapAge s.oldest.2) ↔ s.Comparable := by
  have hmono : ∀ {i : Fin arptabSize}, (s.slot i).time ≤ s.arptime →
      s.timeDiff (s.slot i) = s.wrapAge i := fun h => timeDiff_eq h
  obtain ⟨hle, h0⟩ | ⟨hpos, hmax⟩ := oldest_spec s
  · rw [h0]
    have hafter : ∀ i, s.arptime ≤ (s.slot i).time := by
      intro i
      have hi := hle i
      unfold timeDiff at hi
      rw [UInt8.le_iff_toNat_le]
      omega
    constructor
    · intro h
      exact Or.inr ⟨hafter, h⟩
    · intro h i
      obtain h | h := h
      · have hi := hmono (h i)
        have hd := hle i
        omega
      · exact h.2 i
  · have hunwrapped : (s.slot s.oldest.2).time ≤ s.arptime := by
      unfold timeDiff at hpos
      rw [UInt8.le_iff_toNat_le]
      omega
    constructor
    · intro h
      left
      intro i
      by_contra hi
      have hlt := wrapAge_lt_of_wrapped hunwrapped (UInt8.not_le.mp hi)
      have hge := h i
      omega
    · intro h i
      obtain h | h := h
      · have hi := hmono (h i)
        have ho := hmono hunwrapped
        have hd := hmax i
        omega
      · have hd := timeDiff_nonpos (h.1 s.oldest.2)
        omega

end IPv4Arp

/-- The condition under which an event does what it should. -/
def Truthful (cfg : EthConfig) (s : IPv4Arp) (e : ArpEvent) : Prop :=
  match e, taught cfg e with
  | .periodic, _ => s.AgesWithoutWrap
  | .lookup a, _ => a.v ≠ 0 ∨ ¬ s.HasFree
  | _, some (a, _) => s.Live a ∨ s.HasFree ∨ s.Comparable
  | _, none => True

theorem isEqualWithMask_iff (cfg : EthConfig) (a : IPv4Addr) :
    cfg.isLocalIP a = true ↔ a.v &&& cfg.netmask.v = cfg.ipAddr.v &&& cfg.netmask.v := by
  rw [EthConfig.isLocalIP, isEqualWithMask, beq_iff_eq]
  exact eq_comm

/-- A packet that teaches an address is an update of the table, and every other one leaves it
as it is. -/
theorem arpStep_taught {cfg : EthConfig} {s : IPv4Arp} {e : ArpEvent} {a : IPv4Addr} {mac : EthAddr}
    (h : taught cfg e = some (a, mac)) : arpStep cfg s e = s.uipArpUpdate a mac := by
  cases e with
  | incomingIp ethSrc ipSrc =>
    simp only [taught] at h
    split at h
    · next hl =>
      obtain ⟨rfl, rfl⟩ := Prod.mk.inj (Option.some.inj h)
      rw [isEqualWithMask_iff] at hl
      exact if_neg (not_not.mpr hl)
    · cases h
  | rx arp len =>
    simp only [taught] at h
    split at h
    · next ht =>
      obtain ⟨rfl, rfl⟩ := Prod.mk.inj (Option.some.inj h)
      obtain ⟨hlen, hop, hd⟩ := ht
      simp only [arpStep, IPv4Arp.rx]
      rw [if_neg (UInt16.not_lt.mpr hlen)]
      obtain hop | hop := hop
      · rw [if_pos hop, if_pos hd]
      · have hne : ¬ arp.opcode = htons arpRequest := by
          rw [hop]
          decide
        rw [if_neg hne, if_pos hop, if_pos hd]
    · cases h
  | periodic => cases h
  | lookup a => cases h

theorem arpStep_untaught {cfg : EthConfig} {s : IPv4Arp} {e : ArpEvent} (h : taught cfg e = none)
    (hp : e ≠ .periodic) : arpStep cfg s e = s := by
  cases e with
  | incomingIp ethSrc ipSrc =>
    simp only [taught] at h
    split at h
    · cases h
    · next hl =>
      rw [isEqualWithMask_iff] at hl
      exact if_pos hl
  | rx arp len =>
    simp only [taught] at h
    split at h
    · cases h
    · next ht =>
      simp only [arpStep, IPv4Arp.rx]
      split
      · rfl
      · next hlen =>
        have hlen := UInt16.not_lt.mp hlen
        split
        · next hop => rw [if_neg fun hd => ht ⟨hlen, Or.inl hop, hd⟩]
        · split
          · next hop => rw [if_neg fun hd => ht ⟨hlen, Or.inr hop, hd⟩]
          · rfl
  | periodic => exact absurd rfl hp
  | lookup a => rfl

namespace IPv4Arp

theorem slot_set {s s' : IPv4Arp} {i : Fin arptabSize} {x : ArpTableItem}
    (h : s'.arpTable = s.arpTable.set i x i.isLt) (j : Fin arptabSize) :
    s'.slot j = if i = j then x else s.slot j := by
  simp only [slot, h, Fin.getElem_fin, Vector.getElem_set, Fin.val_inj]

end IPv4Arp

/-- The table is as it should be, and the ages that eight bits tell are the true ones. -/
structure ArpInv (s : IPv4Arp) (h : ArpHistory) : Prop extends TableOk s h where
  age_eq : ∀ i, (s.slot i).ipaddr.v ≠ 0 → h.age (s.slot i).ipaddr = s.wrapAge i

section

variable {s s' : IPv4Arp} {h : ArpHistory} {a : IPv4Addr} {mac : EthAddr} {i : Fin arptabSize}

/-- The other slots do not hold the address that a slot is overwritten with. -/
theorem slot_ne_of_overwrites (hu : s.AddrsUnique) (ho : s.Overwrites a i) {j : Fin arptabSize}
    (hj : (s.slot j).ipaddr.v ≠ 0) (hne : i ≠ j) : (s.slot j).ipaddr ≠ a := by
  intro hja
  obtain ⟨hi, hv⟩ | ⟨hlive, -⟩ := ho
  · exact hne (hu i j (by rw [hi]; exact hv) (by rw [hi, hja]))
  · exact hlive (hja ▸ IPv4Arp.live_slot hj)

/-- A slot that is not overwritten keeps its entry, under an address that is not learned. -/
theorem slot_other (hu : s.AddrsUnique) (ho : s.Overwrites a i)
    (hs : s'.arpTable = s.arpTable.set i ⟨a, mac, s.arptime⟩ i.isLt) {j : Fin arptabSize} (hne : i ≠ j)
    (hj : (s'.slot j).ipaddr.v ≠ 0) :
    s'.slot j = s.slot j ∧ (s.slot j).ipaddr.v ≠ 0 ∧ (s.slot j).ipaddr ≠ a := by
  have hsj := IPv4Arp.slot_set hs j
  rw [if_neg hne] at hsj
  rw [hsj] at hj
  exact ⟨hsj, hj, slot_ne_of_overwrites hu ho hj hne⟩

theorem addrsUnique_learn (hu : s.AddrsUnique) (ho : s.Overwrites a i)
    (hs : s'.arpTable = s.arpTable.set i ⟨a, mac, s.arptime⟩ i.isLt) : s'.AddrsUnique := by
  have hsi := IPv4Arp.slot_set hs i
  rw [if_pos rfl] at hsi
  intro j k hj hjk
  by_cases hij : i = j
  · by_contra hne
    subst hij
    have hk : (s'.slot k).ipaddr.v ≠ 0 := hjk ▸ hj
    obtain ⟨hsk, -, hka⟩ := slot_other hu ho hs hne hk
    rw [hsi, hsk] at hjk
    exact hka hjk.symm
  · obtain ⟨hsj, hj', hja⟩ := slot_other hu ho hs hij hj
    by_cases hik : i = k
    · subst hik
      rw [hsi, hsj] at hjk
      exact absurd hjk hja
    · obtain ⟨hsk, -, -⟩ := slot_other hu ho hs hik (hjk ▸ hj)
      rw [hsj, hsk] at hjk
      exact hu j k hj' hjk

theorem arpInv_learn (hinv : ArpInv s h) (ho : s.Overwrites a i) (ht : s'.arptime = s.arptime)
    (hs : s'.arpTable = s.arpTable.set i ⟨a, mac, s.arptime⟩ i.isLt) : ArpInv s' (h.learn a mac) := by
  have hsi := IPv4Arp.slot_set hs i
  rw [if_pos rfl] at hsi
  refine ⟨⟨addrsUnique_learn hinv.unique ho hs, ?_⟩, ?_⟩
  · intro j hj
    by_cases hij : i = j
    · subst hij
      rw [hsi]
      exact ⟨0, by decide, AgingCache.History.learn_self h a mac⟩
    · obtain ⟨hsj, hj', hja⟩ := slot_other hinv.unique ho hs hij hj
      rw [hsj, AgingCache.History.learn_other h mac hja]
      exact hinv.recent j hj'
  · intro j hj
    by_cases hij : i = j
    · subst hij
      rw [IPv4Arp.wrapAge, hsi, ht, UInt8.sub_self]
      exact AgingCache.History.age_eq (AgingCache.History.learn_self h a mac)
    · obtain ⟨hsj, hj', hja⟩ := slot_other hinv.unique ho hs hij hj
      have hage := hinv.age_eq j hj'
      rw [IPv4Arp.wrapAge, hsj, ht, AgingCache.History.age,
        AgingCache.History.learn_other h mac hja]
      exact hage

/-- What was just learned is found. -/
theorem lookup_learned (hu : s.AddrsUnique) (ha : a.v ≠ 0) (mac : EthAddr) :
    (s.uipArpUpdate a mac).iPv4toEthAddr a = some mac := by
  obtain ⟨i, ho, -, hs⟩ := s.uipArpUpdate_spec a mac
  have hu' := addrsUnique_learn hu ho hs
  have hsi := IPv4Arp.slot_set hs i
  rw [if_pos rfl] at hsi
  obtain ⟨mac', hmac⟩ := IPv4Arp.iPv4toEthAddr_slot (s.uipArpUpdate a mac) i
  obtain ⟨j, hj, hjmac⟩ := IPv4Arp.iPv4toEthAddr_some hmac
  have hij : i = j := hu' i j (by rw [hsi]; exact ha) hj.symm
  subst hij
  rw [hsi] at hmac hjmac
  rw [hmac, ← hjmac]

/-- Learning costs nothing but the oldest entry, exactly when the comparisons are truthful. -/
theorem learnStep_iff (hinv : ArpInv s h) (ho : s.Overwrites a i)
    (hs : s'.arpTable = s.arpTable.set i ⟨a, mac, s.arptime⟩ i.isLt) :
    AgingCache.LearnStep (fun b => b.v ≠ 0) (¬ s.HasFree) h s.Live s'.Live a ↔
      s.Live a ∨ s.HasFree ∨ s.Comparable := by
  have hslot := IPv4Arp.slot_set hs
  have hsi := hslot i
  rw [if_pos rfl] at hsi
  have hage : ∀ {c j}, (s.slot j).ipaddr = c → c.v ≠ 0 → h.age c = s.wrapAge j := by
    rintro c j rfl hc
    exact hinv.age_eq j hc
  constructor
  · intro hl
    by_contra hno
    push Not at hno
    obtain ⟨hlive, hfull, hcmp⟩ := hno
    -- the slot is the one the comparisons chose, and its address is lost
    obtain ⟨hi, hv⟩ | ⟨-, hfree | ⟨-, hi⟩⟩ := ho
    · exact hlive (hi ▸ IPv4Arp.live_slot (hi ▸ hv))
    · exact hfull ⟨i, hfree⟩
    have hvi : (s.slot i).ipaddr.v ≠ 0 := fun h0 => hfull ⟨i, h0⟩
    have hne : (s.slot i).ipaddr ≠ a := fun he => hlive (he ▸ IPv4Arp.live_slot hvi)
    have hlost : ¬ s'.Live (s.slot i).ipaddr := by
      rintro ⟨-, j, hj⟩
      rw [hslot j] at hj
      split at hj
      · exact hne hj.symm
      · next hij => exact hij (hinv.unique i j hvi hj.symm)
    obtain ⟨-, hmax⟩ := hl.kept _ hne (IPv4Arp.live_slot hvi) hlost
    apply hcmp
    rw [← IPv4Arp.oldest_max_iff, ← hi]
    intro k
    have hvk : (s.slot k).ipaddr.v ≠ 0 := fun h0 => hfull ⟨k, h0⟩
    have hk := hmax _ (IPv4Arp.live_slot hvk)
    rwa [hage rfl hvk, hage rfl hvi] at hk
  · intro hok
    refine ⟨fun hv => ⟨hv, i, by rw [hsi]⟩, ?_, ?_⟩
    · rintro b hba ⟨hv, j, hj⟩ hlost
      have hij : i = j := by
        by_contra hne
        refine hlost ⟨hv, j, ?_⟩
        rw [hslot j, if_neg hne]
        exact hj
      subst hij
      obtain ⟨hi, -⟩ | ⟨hlive, hfree | ⟨hfull, hi⟩⟩ := ho
      · exact absurd (hj.symm.trans hi) hba
      · rw [hj] at hfree
        exact absurd hfree hv
      · refine ⟨hfull, ?_⟩
        rintro c ⟨hc, k, hk⟩
        have hcmp : s.Comparable := by
          obtain h | h | h := hok
          · exact absurd h hlive
          · exact absurd h hfull
          · exact h
        have hmax := (IPv4Arp.oldest_max_iff s).mpr hcmp k
        rw [hage hk hc, hage hj hv, hi]
        exact hmax
    · rintro b hba ⟨hv, j, hj⟩
      rw [hslot j] at hj
      split at hj
      · exact absurd hj.symm hba
      · exact ⟨hv, j, hj⟩

end

/-- The table at the moment its counter has been advanced. -/
def IPv4Arp.ticked (s : IPv4Arp) : IPv4Arp := { s with arptime := s.arptime + 1 }

section

variable {s : IPv4Arp} {h : ArpHistory}

theorem slot_periodic (s : IPv4Arp) (i : Fin arptabSize) :
    s.periodic.slot i =
      if (s.slot i).ipaddr.v ≠ 0 ∧ (uipArpMaxage : Int) ≤ s.ticked.timeDiff (s.slot i) then
        { s.slot i with ipaddr := ⟨0⟩ }
      else s.slot i := by
  simp only [IPv4Arp.periodic, IPv4Arp.slot, Fin.getElem_fin, Vector.getElem_map]
  rfl

theorem wrapAge_ticked {i : Fin arptabSize} (hn : s.wrapAge i < 255) :
    s.ticked.wrapAge i = s.wrapAge i + 1 := by
  have hsub : s.arptime + 1 - (s.slot i).time = (s.arptime - (s.slot i).time) + 1 := by
    rw [UInt8.sub_eq_add_neg, UInt8.sub_eq_add_neg, UInt8.add_assoc, UInt8.add_comm 1,
      ← UInt8.add_assoc]
  show (s.arptime + 1 - (s.slot i).time).toNat = s.wrapAge i + 1
  unfold IPv4Arp.wrapAge at hn ⊢
  rw [hsub, UInt8.toNat_add, show (1 : UInt8).toNat = 1 from rfl]
  exact Nat.mod_eq_of_lt (by omega)

/-- An entry is removed at its last tick and not before, as long as the wrap does not hide it. -/
theorem removed_iff (hinv : ArpInv s h) {i : Fin arptabSize} (hi : (s.slot i).ipaddr.v ≠ 0)
    (hw : ¬ (s.arptime + 1 < (s.slot i).time ∧
      (s.arptime + 1 - (s.slot i).time).toNat = uipArpMaxage)) :
    (uipArpMaxage : Int) ≤ s.ticked.timeDiff (s.slot i) ↔
      uipArpMaxage ≤ h.age (s.slot i).ipaddr + 1 := by
  obtain ⟨n, hn, hh⟩ := hinv.recent i hi
  have hage := hinv.age_eq i hi
  rw [AgingCache.History.age_eq hh] at hage ⊢
  have hn120 : n < 120 := hn
  have hwrap := wrapAge_ticked (s := s) (i := i) (by omega)
  by_cases hle : (s.slot i).time ≤ s.arptime + 1
  · have hd : s.ticked.timeDiff (s.slot i) = s.ticked.wrapAge i := IPv4Arp.timeDiff_eq hle
    rw [hd, hwrap, ← hage]
    exact Int.ofNat_le
  · have hlt := UInt8.not_le.mp hle
    have hd : s.ticked.timeDiff (s.slot i) ≤ 0 := IPv4Arp.timeDiff_nonpos (UInt8.le_of_lt hlt)
    have hne : s.ticked.wrapAge i ≠ uipArpMaxage := fun he => hw ⟨hlt, he⟩
    unfold uipArpMaxage at hne ⊢
    omega

theorem slot_periodic_kept {i : Fin arptabSize} (hi : (s.periodic.slot i).ipaddr.v ≠ 0) :
    s.periodic.slot i = s.slot i ∧ ¬ (uipArpMaxage : Int) ≤ s.ticked.timeDiff (s.slot i) := by
  have hslot := slot_periodic s i
  split at hslot
  · rw [hslot] at hi
    exact absurd rfl hi
  · next hno =>
    rw [hslot] at hi
    exact ⟨hslot, fun hge => hno ⟨hi, hge⟩⟩

theorem addrsUnique_periodic (hu : s.AddrsUnique) : s.periodic.AddrsUnique := by
  intro i j hi hij
  have hsi := (slot_periodic_kept hi).1
  have hsj := (slot_periodic_kept (hij ▸ hi)).1
  rw [hsi] at hi hij
  rw [hsj] at hij
  exact hu i j hi hij

theorem arpInv_periodic (hinv : ArpInv s h) (hw : s.AgesWithoutWrap) :
    ArpInv s.periodic h.tick := by
  have hkept : ∀ i, (s.periodic.slot i).ipaddr.v ≠ 0 →
      s.periodic.slot i = s.slot i ∧ (s.slot i).ipaddr.v ≠ 0 ∧
        h.age (s.slot i).ipaddr + 1 < uipArpMaxage := by
    intro i hi
    obtain ⟨hslot, hno⟩ := slot_periodic_kept hi
    rw [hslot] at hi
    rw [removed_iff hinv hi (hw i hi)] at hno
    exact ⟨hslot, hi, Nat.lt_of_not_le hno⟩
  refine ⟨⟨addrsUnique_periodic hinv.unique, ?_⟩, ?_⟩
  · intro i hi
    obtain ⟨hsi, hi', hlt⟩ := hkept i hi
    obtain ⟨n, -, hh⟩ := hinv.recent i hi'
    rw [AgingCache.History.age_eq hh] at hlt
    rw [hsi]
    exact ⟨n + 1, hlt, AgingCache.History.tick_some hh⟩
  · intro i hi
    obtain ⟨hsi, hi', hlt⟩ := hkept i hi
    obtain ⟨n, hn, hh⟩ := hinv.recent i hi'
    have hage := hinv.age_eq i hi'
    rw [AgingCache.History.age_eq hh] at hage
    have hn120 : n < 120 := hn
    have hwrap := wrapAge_ticked (s := s) (i := i) (by omega)
    have hp : s.periodic.wrapAge i = s.ticked.wrapAge i := by
      show (s.arptime + 1 - (s.periodic.slot i).time).toNat = _
      rw [hsi]
      rfl
    rw [hp, hwrap, hsi, ← hage]
    exact AgingCache.History.age_eq (AgingCache.History.tick_some hh)

theorem tickStep_iff (hinv : ArpInv s h) :
    AgingCache.TickStep uipArpMaxage h s.Live s.periodic.Live ↔ s.AgesWithoutWrap := by
  constructor
  · rintro hts i hi ⟨hlt, hlast⟩
    -- the hidden entry stays, although its last tick has come
    have hstays : s.periodic.slot i = s.slot i := by
      have hd : s.ticked.timeDiff (s.slot i) ≤ 0 := IPv4Arp.timeDiff_nonpos (UInt8.le_of_lt hlt)
      rw [slot_periodic]
      apply if_neg
      rintro ⟨-, hge⟩
      unfold uipArpMaxage at hge
      omega
    have hlive : s.periodic.Live (s.slot i).ipaddr := ⟨hi, i, by rw [hstays]⟩
    obtain ⟨-, hage⟩ := (hts _).mp hlive
    obtain ⟨n, hn, hh⟩ := hinv.recent i hi
    have hn120 : n < 120 := hn
    have hwage := hinv.age_eq i hi
    rw [AgingCache.History.age_eq hh] at hage hwage
    have hwrap := wrapAge_ticked (s := s) (i := i) (by omega)
    have hlast' : s.ticked.wrapAge i = uipArpMaxage := hlast
    omega
  · intro hw b
    constructor
    · rintro ⟨hv, i, hi⟩
      have hslot := slot_periodic s i
      split at hslot
      · rw [hslot] at hi
        exact absurd (congrArg IPv4Addr.v hi).symm hv
      · next hno =>
        rw [hslot] at hi
        subst hi
        refine ⟨⟨hv, i, rfl⟩, ?_⟩
        rw [removed_iff hinv hv (hw i hv)] at hno
        by_contra hge
        exact hno ⟨hv, Nat.le_of_not_lt hge⟩
    · rintro ⟨⟨hv, i, rfl⟩, hage⟩
      refine ⟨hv, i, ?_⟩
      rw [slot_periodic, if_neg]
      rintro ⟨-, hge⟩
      rw [removed_iff hinv hv (hw i hv)] at hge
      omega

/-- A lookup is right, unless it takes a free slot for the address zero. -/
theorem lookupOk_iff (hinv : ArpInv s h) (a : IPv4Addr) :
    AgingCache.LookupOk h s.Live a (s.iPv4toEthAddr a) ↔ a.v ≠ 0 ∨ ¬ s.HasFree := by
  constructor
  · intro hl
    by_contra hno
    push Not at hno
    obtain ⟨h0, i, hi⟩ := hno
    obtain ⟨mac, hmac⟩ := IPv4Arp.iPv4toEthAddr_slot s i
    rw [IPv4Arp.addr_eq_iff.mp (hi.trans h0.symm)] at hmac
    exact ((hl mac).mp hmac).1.1 h0
  · intro hok mac
    constructor
    · intro hm
      obtain ⟨i, hi, hmac⟩ := IPv4Arp.iPv4toEthAddr_some hm
      have hv : a.v ≠ 0 := by
        obtain hv | hfull := hok
        · exact hv
        · intro h0
          exact hfull ⟨i, by rw [hi]; exact h0⟩
      subst hi
      obtain ⟨n, -, hh⟩ := hinv.recent i hv
      rw [hmac] at hh
      exact ⟨⟨hv, i, rfl⟩, n, hh⟩
    · rintro ⟨⟨hv, i, rfl⟩, n, hh⟩
      obtain ⟨mac', hmac'⟩ := IPv4Arp.iPv4toEthAddr_slot s i
      obtain ⟨j, hj, hjmac⟩ := IPv4Arp.iPv4toEthAddr_some hmac'
      obtain rfl := hinv.unique i j hv hj.symm
      obtain ⟨m, -, hm⟩ := hinv.recent i hv
      rw [hh] at hm
      rw [hmac', ← hjmac]
      exact congrArg some (Prod.mk.inj (Option.some.inj hm)).1.symm

end

/-- An event does what it should exactly under its condition. -/
theorem arpStepOk_iff {cfg : EthConfig} {s : IPv4Arp} {h : ArpHistory} (hinv : ArpInv s h)
    (e : ArpEvent) : ArpStepOk cfg s h e ↔ Truthful cfg s e := by
  have hpacket : (∀ a mac, taught cfg e = some (a, mac) →
      (AgingCache.LearnStep (fun b => b.v ≠ 0) (¬ s.HasFree) h s.Live (arpStep cfg s e).Live a ↔
        s.Live a ∨ s.HasFree ∨ s.Comparable)) := by
    intro a mac ht
    obtain ⟨i, ho, -, hs⟩ := s.uipArpUpdate_spec a mac
    rw [arpStep_taught ht]
    exact learnStep_iff hinv ho hs
  cases e with
  | periodic => exact tickStep_iff hinv
  | lookup a => exact lookupOk_iff hinv a
  | incomingIp ethSrc ipSrc =>
    unfold ArpStepOk Truthful
    cases ht : taught cfg (.incomingIp ethSrc ipSrc) with
    | none => exact iff_of_true (arpStep_untaught ht ArpEvent.noConfusion) trivial
    | some p => exact hpacket p.1 p.2 ht
  | rx arp len =>
    unfold ArpStepOk Truthful
    cases ht : taught cfg (.rx arp len) with
    | none => exact iff_of_true (arpStep_untaught ht ArpEvent.noConfusion) trivial
    | some p => exact hpacket p.1 p.2 ht

theorem arpInv_step {cfg : EthConfig} {s : IPv4Arp} {h : ArpHistory} (hinv : ArpInv s h)
    {e : ArpEvent} (ht : Truthful cfg s e) : ArpInv (arpStep cfg s e) (noteArp cfg h e) := by
  have hpacket : (∀ a mac, taught cfg e = some (a, mac) →
      ArpInv (arpStep cfg s e) (h.learn a mac)) := by
    intro a mac hta
    obtain ⟨i, ho, htime, hs⟩ := s.uipArpUpdate_spec a mac
    rw [arpStep_taught hta]
    exact arpInv_learn hinv ho htime hs
  cases e with
  | periodic => exact arpInv_periodic hinv ht
  | lookup a => exact hinv
  | incomingIp ethSrc ipSrc =>
    unfold noteArp
    cases hta : taught cfg (.incomingIp ethSrc ipSrc) with
    | none =>
      rw [arpStep_untaught hta ArpEvent.noConfusion]
      exact hinv
    | some p => exact hpacket p.1 p.2 hta
  | rx arp len =>
    unfold noteArp
    cases hta : taught cfg (.rx arp len) with
    | none =>
      rw [arpStep_untaught hta ArpEvent.noConfusion]
      exact hinv
    | some p => exact hpacket p.1 p.2 hta

theorem arpInv_init (s₀ : IPv4Arp) : ArpInv s₀.initializeArp AgingCache.History.empty := by
  have hfree : ∀ i, (s₀.initializeArp.slot i).ipaddr.v = 0 := by
    intro i
    simp [IPv4Arp.initializeArp, IPv4Arp.slot]
  refine ⟨⟨?_, ?_⟩, ?_⟩
  · exact fun i j hi => absurd (hfree i) hi
  · exact fun i hi => absurd (hfree i) hi
  · exact fun i hi => absurd (hfree i) hi

theorem arpInv_reaches {cfg : EthConfig} {p : IPv4Arp × ArpHistory}
    (hr : (arpSystem cfg).Reaches (fun p e => Truthful cfg p.1 e) p) : ArpInv p.1 p.2 := by
  apply System.Reaches.invariant (P := fun p => ArpInv p.1 p.2) _ _ hr
  · rintro ⟨s, h⟩ ⟨⟨s₀, rfl⟩, rfl⟩
    exact arpInv_init s₀
  · rintro ⟨s, h⟩ e ⟨s', h'⟩ hinv hok hs
    obtain ⟨hs', rfl⟩ := System.observe_step.mp hs
    obtain rfl := Option.some.inj hs'
    exact arpInv_step hinv hok

/-- No run enters an address twice. -/
theorem addrsUnique_reaches {cfg : EthConfig} {p : IPv4Arp × ArpHistory}
    (hr : (arpSystem cfg).Reaches System.anyStep p) : p.1.AddrsUnique := by
  apply System.Reaches.invariant (P := fun p => p.1.AddrsUnique) _ _ hr
  · intro p hp
    obtain ⟨⟨s₀, hs⟩, -⟩ := hp
    rw [hs]
    exact (arpInv_init s₀).unique
  · intro p e p' hu _ hstep
    obtain ⟨hs, -⟩ := System.observe_step.mp hstep
    rw [← Option.some.inj hs]
    by_cases hp : e = .periodic
    · subst hp
      exact addrsUnique_periodic hu
    · cases ht : taught cfg e with
      | none =>
        rw [arpStep_untaught ht hp]
        exact hu
      | some q =>
        obtain ⟨i, ho, -, hs⟩ := p.1.uipArpUpdate_spec q.1 q.2
        rw [arpStep_taught ht]
        exact addrsUnique_learn hu ho hs

/-- In every run of truthful steps the table is as it should be, and an event does to it what it
should exactly when it is truthful. -/
theorem arp_table_runs (cfg : EthConfig) (p : IPv4Arp × ArpHistory)
    (hr : (arpSystem cfg).Reaches (fun p e => Truthful cfg p.1 e) p) :
    TableOk p.1 p.2 ∧ ∀ e, ArpStepOk cfg p.1 p.2 e ↔ Truthful cfg p.1 e :=
  ⟨(arpInv_reaches hr).toTableOk, fun e => arpStepOk_iff (arpInv_reaches hr) e⟩

def boardConfig : EthConfig where
  ipAddr := ⟨0x2700a8c0⟩
  defaultMss := 1460
  ethMac := ⟨#v[0x02, 0x01, 0x02, 0x03, 0x04, 0x05]⟩
  netmask := ⟨0x00ffffff⟩
  drAddr := ⟨0x0100a8c0⟩

def peerMac : EthAddr := ⟨#v[0x02, 0, 0, 0, 0, 0x07]⟩

def peerAddr : IPv4Addr := ⟨0x0700a8c0⟩

def zeroedArp : IPv4Arp := ⟨0, 0, Vector.replicate arptabSize ⟨⟨0⟩, ⟨Vector.replicate 6 0⟩, 0⟩⟩

theorem init_zeroedArp :
    (arpSystem boardConfig).init (zeroedArp.initializeArp, AgingCache.History.empty) :=
  ⟨⟨zeroedArp, rfl⟩, rfl⟩

/-- The board once it has heard of the peer. -/
def peerKnown : IPv4Arp × ArpHistory :=
  (arpStep boardConfig zeroedArp.initializeArp (.incomingIp peerMac peerAddr),
    noteArp boardConfig AgingCache.History.empty (.incomingIp peerMac peerAddr))

theorem arp_table_runs_peerKnown :
    TableOk peerKnown.1 peerKnown.2 ∧
      ArpStepOk boardConfig peerKnown.1 peerKnown.2 (.lookup peerAddr) := by
  have hfree : Truthful boardConfig zeroedArp.initializeArp (.incomingIp peerMac peerAddr) :=
    Or.inr (Or.inl ⟨0, by decide +kernel⟩)
  obtain ⟨hok, hstep⟩ :=
    arp_table_runs boardConfig peerKnown (.step (.init init_zeroedArp) hfree rfl)
  exact ⟨hok, (hstep _).mpr (Or.inl (by decide))⟩

/-- A packet from the peer shortly before the counter wraps, then nothing for 120 ticks. -/
def silentPeer : List ArpEvent :=
  List.replicate 136 .periodic ++ .incomingIp peerMac peerAddr :: List.replicate 120 .periodic

set_option maxRecDepth 100000 in
/-- The entry of the silent peer stays, and a lookup of the unset address finds a free slot. -/
theorem not_arp_table_runs :
    (∃ p, (arpSystem boardConfig).Reaches System.anyStep p ∧ ¬ TableOk p.1 p.2) ∧
    (∃ p, (arpSystem boardConfig).Reaches System.anyStep p ∧
      ¬ ArpStepOk boardConfig p.1 p.2 (.lookup ⟨0⟩)) := by
  constructor
  · have hruns : ((arpSystem boardConfig).run
        (zeroedArp.initializeArp, AgingCache.History.empty) silentPeer).any (fun p =>
          (p.1.slot 0).ipaddr == peerAddr && p.2 peerAddr == some (peerMac, 120)) = true := by
      decide +kernel
    obtain ⟨p, hr, hp⟩ := System.exists_of_run init_zeroedArp hruns
    refine ⟨p, hr, fun hok => ?_⟩
    simp only [Bool.and_eq_true, beq_iff_eq] at hp
    obtain ⟨n, hn, hh⟩ := hok.recent 0 (by rw [hp.1]; decide)
    rw [hp.1, hp.2] at hh
    obtain rfl := (Prod.mk.inj (Option.some.inj hh)).2
    exact absurd hn (by decide)
  · refine ⟨_, .init init_zeroedArp, fun hok => ?_⟩
    have hanswer : zeroedArp.initializeArp.iPv4toEthAddr ⟨0⟩ = some ⟨Vector.replicate 6 0⟩ := by
      decide +kernel
    exact ((hok _).mp hanswer).1.1 rfl

end MiMic.NetIf
