import MiMic.Lib.AgingCache
import MiMic.NetIf.Receive

/-!
# The ARP table

A slot whose address is zero is free. Times are values of an 8-bit tick counter, which
the comparisons of the source subtract as `int`.
-/
namespace MiMic.NetIf

open Verif

structure EthAddr where
  addr : Vector UInt8 6
deriving DecidableEq, Repr

/-- The members of `NyLPC_TcIPv4Config` that the Ethernet side reads beside the address. -/
structure EthConfig extends IPv4Config where
  ethMac : EthAddr
  netmask : IPv4Addr
  drAddr : IPv4Addr

/-- `NyLPC_cIPv4Config_isLocalIP`. -/
def EthConfig.isLocalIP (cfg : EthConfig) (target : IPv4Addr) : Bool :=
  isEqualWithMask cfg.ipAddr target cfg.netmask

/-- `NyLPC_TcIPv4Arp_ARPTAB_SIZE`. -/
abbrev arptabSize : Nat := 8

instance neZeroArptabSize : NeZero arptabSize := ⟨by decide⟩

def uipArpMaxage : Nat := 120

def arpRequest : UInt16 := 1
def arpReply : UInt16 := 2
def arpHwtypeEth : UInt16 := 1

structure ArpTableItem where
  ipaddr : IPv4Addr
  ethaddr : EthAddr
  time : UInt8
deriving DecidableEq, Repr

structure IPv4Arp where
  arptime : UInt8
  tmpage : UInt8
  arpTable : Vector ArpTableItem arptabSize

structure ArpHeader where
  hwtype : UInt16
  protocol : UInt16
  hwlen : UInt8
  protolen : UInt8
  opcode : UInt16
  shwaddr : EthAddr
  sipaddr : IPv4Addr
  dhwaddr : EthAddr
  dipaddr : IPv4Addr
deriving DecidableEq, Repr

/-- `sizeof(struct NyLPC_TArpHeader)`. -/
def sizeOfArpHeader : UInt16 := 28

namespace IPv4Arp

/-- `NyLPC_cIPv4Arp_initialize`. -/
def initializeArp (s : IPv4Arp) : IPv4Arp where
  arptime := 0
  tmpage := 0
  arpTable := s.arpTable.map fun e => { e with ipaddr := ⟨0⟩ }

/-- `&tbl[i]`. -/
def slot (s : IPv4Arp) (i : Fin arptabSize) : ArpTableItem := s.arpTable[i]

/-- `arptime - tabptr->time`: both operands are promoted to `int`. -/
def timeDiff (s : IPv4Arp) (e : ArpTableItem) : Int := s.arptime.toNat - e.time.toNat

/-- `NyLPC_cIPv4Arp_periodic`. -/
def periodic (s : IPv4Arp) : IPv4Arp :=
  let s := { s with arptime := s.arptime + 1 }
  { s with
    arpTable := s.arpTable.map fun e =>
      if e.ipaddr.v ≠ 0 ∧ (uipArpMaxage : Int) ≤ s.timeDiff e then { e with ipaddr := ⟨0⟩ } else e }

/-- The slot that holds an address already. -/
def findEntry (s : IPv4Arp) (ipaddr : IPv4Addr) : Option (Fin arptabSize) :=
  (List.finRange arptabSize).find? fun i =>
    (s.slot i).ipaddr.v ≠ 0 ∧ ipaddr.v = (s.slot i).ipaddr.v

def findUnused (s : IPv4Arp) : Option (Fin arptabSize) :=
  (List.finRange arptabSize).find? fun i => (s.slot i).ipaddr.v = 0

/-- One pass of the loop over `tmpage` and `c`. -/
def oldestStep (s : IPv4Arp) (acc : UInt8 × Fin arptabSize) (i : Fin arptabSize) :
    UInt8 × Fin arptabSize :=
  if (acc.1.toNat : Int) < s.timeDiff (s.slot i) then (s.arptime - (s.slot i).time, i)
  else acc

def oldest (s : IPv4Arp) : UInt8 × Fin arptabSize :=
  (List.finRange arptabSize).foldl s.oldestStep (0, 0)

/-- `uip_arp_update`. -/
def uipArpUpdate (s : IPv4Arp) (ipaddr : IPv4Addr) (ethaddr : EthAddr) : IPv4Arp :=
  match s.findEntry ipaddr with
  | some i =>
      { s with
        arpTable := s.arpTable.set i { s.slot i with ethaddr := ethaddr, time := s.arptime } }
  | none =>
      match s.findUnused with
      | some i => { s with arpTable := s.arpTable.set i ⟨ipaddr, ethaddr, s.arptime⟩ }
      | none =>
          { s with
            tmpage := s.oldest.1
            arpTable := s.arpTable.set s.oldest.2 ⟨ipaddr, ethaddr, s.arptime⟩ }

/-- `NyLPC_cIPv4Arp_incomingIp`; `ethSrc` is the source of the Ethernet header. -/
def incomingIp (s : IPv4Arp) (cfg : EthConfig) (ethSrc : EthAddr) (ipSrc : IPv4Addr) : IPv4Arp :=
  if ipSrc.v &&& cfg.netmask.v ≠ cfg.ipAddr.v &&& cfg.netmask.v then s
  else s.uipArpUpdate ipSrc ethSrc

/-- The reply that `NyLPC_cIPv4Arp_rx` writes. -/
def replyTo (cfg : EthConfig) (arp : ArpHeader) : ArpHeader where
  hwtype := arp.hwtype
  protocol := arp.protocol
  hwlen := arp.hwlen
  protolen := arp.protolen
  opcode := htons 2
  shwaddr := cfg.ethMac
  sipaddr := cfg.ipAddr
  dhwaddr := arp.shwaddr
  dipaddr := arp.sipaddr

/-- `NyLPC_cIPv4Arp_rx`: the table and the reply. -/
def rx (s : IPv4Arp) (cfg : EthConfig) (arp : ArpHeader) (len : UInt16) :
    IPv4Arp × Option ArpHeader :=
  if len < sizeOfArpHeader then (s, none)
  else if arp.opcode = htons arpRequest then
    if arp.dipaddr = cfg.ipAddr then (s.uipArpUpdate arp.sipaddr arp.shwaddr, some (replyTo cfg arp))
    else (s, none)
  else if arp.opcode = htons arpReply then
    if arp.dipaddr = cfg.ipAddr then (s.uipArpUpdate arp.sipaddr arp.shwaddr, none)
    else (s, none)
  else (s, none)

/-- `NyLPC_cIPv4Arp_IPv4toEthAddr`, from the last slot down. -/
def iPv4toEthAddr (s : IPv4Arp) (ipAddr : IPv4Addr) : Option EthAddr :=
  ((List.finRange arptabSize).reverse.find? fun i => ipAddr.v = (s.slot i).ipaddr.v).map
    fun i => (s.slot i).ethaddr

/-- An address of the table; zero is the mark of a free slot. -/
def Live (s : IPv4Arp) (a : IPv4Addr) : Prop := a.v ≠ 0 ∧ ∃ i, (s.slot i).ipaddr = a

def HasFree (s : IPv4Arp) : Prop := ∃ i, (s.slot i).ipaddr.v = 0

def AddrsUnique (s : IPv4Arp) : Prop :=
  ∀ i j, (s.slot i).ipaddr.v ≠ 0 →
    (s.slot i).ipaddr = (s.slot j).ipaddr → i = j

/-- The ticks since an entry was recorded, as far as eight bits tell. -/
def wrapAge (s : IPv4Arp) (i : Fin arptabSize) : Nat := (s.arptime - (s.slot i).time).toNat

theorem addr_eq_iff {a b : IPv4Addr} : a.v = b.v ↔ a = b := by
  cases a
  cases b
  simp

theorem live_slot {s : IPv4Arp} {i : Fin arptabSize} (h : (s.slot i).ipaddr.v ≠ 0) :
    s.Live (s.slot i).ipaddr := ⟨h, i, rfl⟩

theorem toNat_sub_uint8 (a b : UInt8) :
    (a - b).toNat = if b ≤ a then a.toNat - b.toNat else 256 + a.toNat - b.toNat := by
  have ha := a.toNat_lt
  have hb := b.toNat_lt
  rw [UInt8.toNat_sub]
  split
  · next h =>
    rw [UInt8.le_iff_toNat_le] at h
    omega
  · next h =>
    rw [UInt8.le_iff_toNat_le] at h
    omega

/-- A difference that is not negative is the age. -/
theorem timeDiff_eq {s : IPv4Arp} {i : Fin arptabSize} (h : (s.slot i).time ≤ s.arptime) :
    s.timeDiff (s.slot i) = s.wrapAge i := by
  rw [wrapAge, toNat_sub_uint8, if_pos h, timeDiff]
  rw [UInt8.le_iff_toNat_le] at h
  omega

theorem timeDiff_nonpos {s : IPv4Arp} {e : ArpTableItem} (h : s.arptime ≤ e.time) :
    s.timeDiff e ≤ 0 := by
  rw [UInt8.le_iff_toNat_le] at h
  unfold timeDiff
  omega

/-- The loop over `tmpage` is the scan for the largest difference. -/
theorem foldl_oldestStep (s : IPv4Arp) (l : List (Fin arptabSize)) :
    (((l.foldl s.oldestStep (0, 0)).1.toNat : Int), (l.foldl s.oldestStep (0, 0)).2) =
      l.foldl (AgingCache.scanStep fun i => s.timeDiff (s.slot i)) (0, 0) := by
  induction l using List.reverseRecOn with
  | nil => rfl
  | append_singleton l a ih =>
    simp only [List.foldl_append, List.foldl_cons, List.foldl_nil]
    rw [← ih]
    unfold oldestStep AgingCache.scanStep
    split
    · next hlt =>
      have hle : (s.slot a).time ≤ s.arptime := by
        rw [UInt8.le_iff_toNat_le]
        unfold timeDiff at hlt
        omega
      have hage : ((s.arptime - (s.slot a).time).toNat : Int) = s.timeDiff (s.slot a) :=
        (timeDiff_eq hle).symm
      exact Prod.ext hage rfl
    · rfl

/-- The slot given up has the largest difference, or is the first one when none is positive. -/
theorem oldest_spec (s : IPv4Arp) :
    ((∀ i, s.timeDiff (s.slot i) ≤ 0) ∧ s.oldest.2 = 0) ∨
      (0 < s.timeDiff (s.slot s.oldest.2) ∧
        ∀ i, s.timeDiff (s.slot i) ≤ s.timeDiff (s.slot s.oldest.2)) := by
  obtain ⟨hle, hatt⟩ := AgingCache.scan_spec (fun i => s.timeDiff (s.slot i))
    (0 : Fin arptabSize) (List.finRange arptabSize)
  have hc := congrArg Prod.snd (foldl_oldestStep s (List.finRange arptabSize))
  change s.oldest.2 = _ at hc
  rw [hc]
  obtain h0 | ⟨hpos, heq⟩ := hatt
  · left
    rw [h0] at hle ⊢
    exact ⟨(fun i => hle i (List.mem_finRange i)), rfl⟩
  · right
    rw [heq]
    exact ⟨hpos, (fun i => hle i (List.mem_finRange i))⟩

/-- Which slot learning an address overwrites. -/
def Overwrites (s : IPv4Arp) (a : IPv4Addr) (i : Fin arptabSize) : Prop :=
  ((s.slot i).ipaddr = a ∧ a.v ≠ 0) ∨
    (¬ s.Live a ∧ ((s.slot i).ipaddr.v = 0 ∨ (¬ s.HasFree ∧ i = s.oldest.2)))

/-- `uip_arp_update` writes one slot. -/
theorem uipArpUpdate_spec (s : IPv4Arp) (a : IPv4Addr) (mac : EthAddr) :
    ∃ i, s.Overwrites a i ∧ (s.uipArpUpdate a mac).arptime = s.arptime ∧
      (s.uipArpUpdate a mac).arpTable = s.arpTable.set i ⟨a, mac, s.arptime⟩ := by
  unfold uipArpUpdate
  split
  · next i hi =>
    have hp := List.find?_some hi
    simp only [decide_eq_true_eq] at hp
    have ha : a = (s.slot i).ipaddr := addr_eq_iff.mp hp.2
    refine ⟨i, Or.inl ⟨ha.symm, by rw [ha]; exact hp.1⟩, rfl, ?_⟩
    rw [ha]
  · next hnone =>
    have hlive : ¬ s.Live a := by
      rintro ⟨hne, i, hi⟩
      have hp := List.find?_eq_none.mp hnone i (List.mem_finRange i)
      simp only [decide_eq_true_eq, not_and] at hp
      exact hp (by rw [hi]; exact hne) (by rw [hi])
    split
    · next i hi =>
      have hp := List.find?_some hi
      simp only [decide_eq_true_eq] at hp
      exact ⟨i, Or.inr ⟨hlive, Or.inl hp⟩, rfl, rfl⟩
    · next hfull =>
      have hno : ¬ s.HasFree := by
        rintro ⟨i, hi⟩
        have hp := List.find?_eq_none.mp hfull i (List.mem_finRange i)
        simp only [decide_eq_true_eq] at hp
        exact hp hi
      exact ⟨s.oldest.2, Or.inr ⟨hlive, Or.inr ⟨hno, rfl⟩⟩, rfl, rfl⟩

/-- A lookup answers for the addresses that the slots hold, zero included. -/
theorem iPv4toEthAddr_some {s : IPv4Arp} {a : IPv4Addr} {mac : EthAddr}
    (h : s.iPv4toEthAddr a = some mac) :
    ∃ i, (s.slot i).ipaddr = a ∧ (s.slot i).ethaddr = mac := by
  obtain ⟨i, hi, hmac⟩ := Option.map_eq_some_iff.mp h
  have hp := List.find?_some hi
  simp only [decide_eq_true_eq] at hp
  exact ⟨i, (addr_eq_iff.mp hp).symm, hmac⟩

theorem iPv4toEthAddr_slot (s : IPv4Arp) (i : Fin arptabSize) :
    ∃ mac, s.iPv4toEthAddr (s.slot i).ipaddr = some mac := by
  have hex : ((List.finRange arptabSize).reverse.find? fun j =>
      (s.slot i).ipaddr.v = (s.slot j).ipaddr.v).isSome = true := by
    rw [List.find?_isSome]
    exact ⟨i, List.mem_reverse.mpr (List.mem_finRange i), by simp⟩
  obtain ⟨j, hj⟩ := Option.isSome_iff_exists.mp hex
  exact ⟨(s.slot j).ethaddr, by rw [iPv4toEthAddr, hj]; rfl⟩

end IPv4Arp

end MiMic.NetIf
