import MiMic.Lib.Tlv
import MiMic.NetIf.DhcpClient
import MiMic.NetIf.IcmpEcho

/-!
# The options of a DHCP packet

`getUInt32Option` and `getUInt8Option` walk over the options with one loop. It looks at a byte
before it looks at the bound, stops at the first zero, takes the end option for an option like
the others, and does not move on from the right code with another length.
-/
namespace MiMic.NetIf

open Verif

/-- The offsets that the loop reads, in their order, the value included. -/
def optionReads (buf : Memory) (len : Nat) (id size : UInt8) : Nat → Nat → List Nat
  | 0, _ => []
  | fuel + 1, p =>
      p :: if buf p ≠ 0 ∧ p + 5 < len then
          (p + 1) ::
            if buf p = id then
              if buf (p + 1) = size then (List.range size.toNat).map (p + 2 + ·) else []
            else optionReads buf len id size fuel (p + (buf (p + 1)).toNat + 2)
        else []

namespace DhcpPacket

/-- `getUInt32Option` -/
def getUInt32Option (k : DhcpPacket) (id : UInt8) : Option (Option UInt32) :=
  (k.option id 4).map fun at? => at?.map fun p => k.buf.u32 p

/-- `getUInt8Option` -/
def getUInt8Option (k : DhcpPacket) (id : UInt8) : Option (Option UInt8) :=
  (k.option id 1).map fun at? => at?.map fun p => k.buf p

/-- The bytes behind the header and the magic cookie. -/
def options (k : DhcpPacket) : List UInt8 :=
  k.buf.window (sizeOfDhcpHeader + 4) (k.size.toNat - (sizeOfDhcpHeader + 4))

end DhcpPacket

/-- The two getters. -/
inductive OptionGetter
  | uint32
  | uint8

namespace OptionGetter

def size : OptionGetter → UInt8
  | .uint32 => 4
  | .uint8 => 1

/-- The bytes of the value, if the search ends with one. -/
def get (g : OptionGetter) (k : DhcpPacket) (id : UInt8) : Option (Option (List UInt8)) :=
  match g with
  | .uint32 => (k.getUInt32Option id).map fun v => v.map u32Bytes
  | .uint8 => (k.getUInt8Option id).map fun v => v.map fun b => [b]

def reads (g : OptionGetter) (k : DhcpPacket) (id : UInt8) : List Nat :=
  optionReads k.buf k.size.toNat id g.size (k.size.toNat + 1) (sizeOfDhcpHeader + 4)

end OptionGetter

/-- The pad option and the end option. -/
def dhcpMarks : Tlv.Marks where
  pad := 0
  stop := 255

/-- The search ends, with the first option of this code and size, and stays in the packet. -/
structure FindsOption (g : OptionGetter) (k : DhcpPacket) (id : UInt8) : Prop where
  value : g.get k id = some (Tlv.lookup dhcpMarks id g.size k.options)
  inside : ∀ i ∈ g.reads k id, i < k.size.toNat

/-- The option stands behind whole options of other codes, and is not among the last five bytes. -/
inductive Leads (id size : UInt8) : List UInt8 → Prop
  | here {body : List UInt8} : id ≠ 0 → id ≠ 255 → 4 ≤ body.length → Leads id size (id :: size :: body)
  | skip {c n : UInt8} {body : List UInt8} : c ≠ 0 → c ≠ 255 → c ≠ id → n.toNat ≤ body.length →
      Leads id size (body.drop n.toNat) → Leads id size (c :: n :: body)

/-- Read as options of any codes, the bytes come to a zero or to the last five of them before they
come to the code. -/
inductive Stops (id : UInt8) : List UInt8 → Prop
  | zero (body : List UInt8) : Stops id (0 :: body)
  | last {bs : List UInt8} : bs ≠ [] → bs.length ≤ 5 → Stops id bs
  | skip {c n : UInt8} {body : List UInt8} : c ≠ id → n.toNat ≤ body.length →
      Stops id (body.drop n.toNat) → Stops id (c :: n :: body)

/-- The packets in which the search does what it is for. -/
def Searchable (g : OptionGetter) (k : DhcpPacket) (id : UInt8) : Prop :=
  Leads id g.size k.options ∨
    Stops id k.options ∧ Tlv.lookup dhcpMarks id g.size k.options = none

section

variable {buf : Memory} {len p : Nat} {id size : UInt8}

theorem window_eq_cons (hp : p < len) :
    buf.window p (len - p) = buf p :: buf.window (p + 1) (len - (p + 1)) := by
  have hsplit : len - p = 1 + (len - (p + 1)) := by omega
  rw [hsplit, window_add]
  simp [Memory.window]

theorem window_eq_item (hp : p + 1 < len) :
    buf.window p (len - p) = buf p :: buf (p + 1) :: buf.window (p + 2) (len - (p + 2)) := by
  rw [window_eq_cons (Nat.lt_of_succ_lt hp), window_eq_cons hp]

theorem drop_window (n : Nat) :
    (buf.window p (len - p)).drop n = buf.window (p + n) (len - (p + n)) := by
  rcases Nat.lt_or_ge (len - p) n with hlt | hge
  · have hzero : len - (p + n) = 0 := by omega
    rw [hzero, List.drop_eq_nil_of_le (by simp; omega)]
    rfl
  · have hsplit : len - p = n + (len - (p + n)) := by omega
    rw [hsplit, window_add]
    exact List.drop_left' (by simp)

theorem lt_of_window_ne_nil (h : buf.window p (len - p) ≠ []) : p < len := by
  by_contra hge
  have hzero : len - p = 0 := by omega
  exact h (by rw [hzero]; rfl)

theorem item_of_window {c n : UInt8} {body : List UInt8}
    (h : buf.window p (len - p) = c :: n :: body) :
    p + 1 < len ∧ buf p = c ∧ buf (p + 1) = n ∧ body = buf.window (p + 2) (len - (p + 2)) := by
  have hlen := congrArg List.length h
  rw [length_window, List.length_cons, List.length_cons] at hlen
  have hp : p + 1 < len := by omega
  rw [window_eq_item hp] at h
  obtain ⟨hc, hrest⟩ := List.cons.inj h
  obtain ⟨hn, hbody⟩ := List.cons.inj hrest
  exact ⟨hp, hc, hn, hbody.symm⟩

/-- The option at an offset is looked at. -/
def Looks (buf : Memory) (len p : Nat) : Prop := buf p ≠ 0 ∧ p + 5 < len

theorem round_end (id size : UInt8) (fuel : Nat) (h : ¬ Looks buf len p) :
    findOption buf len id size (fuel + 1) p = some none ∧
      optionReads buf len id size (fuel + 1) p = [p] := by
  rw [findOption, optionReads]
  exact ⟨if_neg h, congrArg (p :: ·) (if_neg h)⟩

theorem round_skip (size : UInt8) (fuel : Nat) (h : Looks buf len p) (hid : buf p ≠ id) :
    findOption buf len id size (fuel + 1) p =
        findOption buf len id size fuel (p + (buf (p + 1)).toNat + 2) ∧
      optionReads buf len id size (fuel + 1) p =
        p :: (p + 1) :: optionReads buf len id size fuel (p + (buf (p + 1)).toNat + 2) := by
  rw [findOption, optionReads]
  exact ⟨(if_pos h).trans (if_neg hid),
    congrArg (p :: ·) ((if_pos h).trans (congrArg ((p + 1) :: ·) (if_neg hid)))⟩

theorem round_found (fuel : Nat) (h : Looks buf len p) (hid : buf p = id) (hsize : buf (p + 1) = size) :
    findOption buf len id size (fuel + 1) p = some (some (p + 2)) ∧
      optionReads buf len id size (fuel + 1) p =
        p :: (p + 1) :: (List.range size.toNat).map (p + 2 + ·) := by
  rw [findOption, optionReads]
  exact ⟨(if_pos h).trans ((if_pos hid).trans (if_pos hsize)),
    congrArg (p :: ·) ((if_pos h).trans
      (congrArg ((p + 1) :: ·) ((if_pos hid).trans (if_pos hsize))))⟩

theorem round_stays (fuel : Nat) (h : Looks buf len p) (hid : buf p = id) (hsize : buf (p + 1) ≠ size) :
    findOption buf len id size (fuel + 1) p = none := by
  rw [findOption]
  exact (if_pos h).trans ((if_pos hid).trans (if_neg hsize))

variable {fuel : Nat}

/-- The next offset, from the list of the bytes. -/
theorem drop_item (n : UInt8) : (buf.window (p + 2) (len - (p + 2))).drop n.toNat =
    buf.window (p + n.toNat + 2) (len - (p + n.toNat + 2)) := by
  rw [drop_window, Nat.add_right_comm]

theorem ends_inside (hp : p < len) (hfuel : len < fuel + p) (h : ¬ Looks buf len p) :
    findOption buf len id size fuel p = some none ∧
      ∀ i ∈ optionReads buf len id size fuel p, i < len := by
  obtain ⟨fuel, rfl⟩ := Nat.exists_eq_add_one_of_ne_zero (show fuel ≠ 0 by omega)
  obtain ⟨hfind, hreads⟩ := round_end id size fuel h
  refine ⟨hfind, fun i hi => ?_⟩
  rw [hreads, List.mem_singleton] at hi
  exact hi ▸ hp

theorem reads_item {rest : List Nat} (hp : p + 1 < len) :
    (∀ i ∈ p :: (p + 1) :: rest, i < len) ↔ ∀ i ∈ rest, i < len := by
  simp only [List.forall_mem_cons]
  exact ⟨fun h => h.2.2, fun h => ⟨by omega, hp, h⟩⟩

/-- Where the bytes end without the option, the loop does too. -/
theorem findOption_of_stops (hfuel : len < fuel + p) {bs : List UInt8} (h : Stops id bs)
    (hbs : buf.window p (len - p) = bs) :
    findOption buf len id size fuel p = some none ∧
      ∀ i ∈ optionReads buf len id size fuel p, i < len := by
  induction h generalizing fuel p with
  | zero body =>
    have hp := lt_of_window_ne_nil (hbs ▸ List.cons_ne_nil _ _)
    rw [window_eq_cons hp] at hbs
    exact ends_inside hp hfuel fun hl => hl.1 (List.cons.inj hbs).1
  | last hne hshort =>
    have hp := lt_of_window_ne_nil (hbs ▸ hne)
    rw [← hbs, length_window] at hshort
    refine ends_inside hp hfuel fun hl => ?_
    have := hl.2
    omega
  | skip hc hn hrest ih =>
    obtain ⟨hp, rfl, rfl, rfl⟩ := item_of_window hbs
    by_cases hl : Looks buf len p
    · obtain ⟨fuel, rfl⟩ := Nat.exists_eq_add_one_of_ne_zero (show fuel ≠ 0 by omega)
      obtain ⟨hfind, hreads⟩ := round_skip size fuel hl hc
      rw [hfind, hreads, reads_item hp]
      exact ih (by omega) (drop_item _).symm
    · exact ends_inside (Nat.lt_of_succ_lt hp) hfuel hl

theorem six_le_of_leads {bs : List UInt8} (h : Leads id size bs) : 6 ≤ bs.length := by
  induction h with
  | here _ _ hlen =>
    rw [List.length_cons, List.length_cons]
    omega
  | skip _ _ _ _ _ ih =>
    rw [List.length_drop] at ih
    rw [List.length_cons, List.length_cons]
    omega

theorem Stops.ne_nil {bs : List UInt8} (h : Stops id bs) : bs ≠ [] := by
  cases h with
  | zero body => exact List.cons_ne_nil _ _
  | last hne hshort => exact hne
  | skip hc hn hrest => exact List.cons_ne_nil _ _

/-- The value that the loop comes to is the one that the list holds. -/
theorem findOption_of_leads (hfuel : len < fuel + p) (hsize : size.toNat ≤ 4) {bs : List UInt8}
    (h : Leads id size bs) (hbs : buf.window p (len - p) = bs) :
    ∃ q, findOption buf len id size fuel p = some (some q) ∧
      Tlv.lookup dhcpMarks id size bs = some (buf.window q size.toNat) ∧
      ∀ i ∈ optionReads buf len id size fuel p, i < len := by
  induction h generalizing fuel p with
  | here hpad hstop hlen =>
    obtain ⟨hp, hc, hn, rfl⟩ := item_of_window hbs
    rw [length_window] at hlen
    have hl : Looks buf len p := ⟨hc ▸ hpad, by omega⟩
    obtain ⟨fuel, rfl⟩ := Nat.exists_eq_add_one_of_ne_zero (show fuel ≠ 0 by omega)
    obtain ⟨hfind, hreads⟩ := round_found fuel hl hc hn
    refine ⟨p + 2, hfind, ?_, ?_⟩
    · rw [Tlv.lookup_found hpad hstop (by rw [length_window]; omega)]
      have hsplit : len - (p + 2) = size.toNat + (len - (p + 2) - size.toNat) := by omega
      rw [hsplit, window_add, List.take_left' (length_window _ _ _)]
    · rw [hreads, reads_item hp]
      intro i hi
      obtain ⟨j, hj, rfl⟩ := List.mem_map.mp hi
      have := List.mem_range.mp hj
      omega
  | skip hpad hstop hc hn hrest ih =>
    have hlen := six_le_of_leads hrest
    obtain ⟨hp, rfl, rfl, rfl⟩ := item_of_window hbs
    rw [drop_item, length_window] at hlen
    have hl : Looks buf len p := ⟨hpad, by omega⟩
    obtain ⟨fuel, rfl⟩ := Nat.exists_eq_add_one_of_ne_zero (show fuel ≠ 0 by omega)
    obtain ⟨hfind, hreads⟩ := round_skip size fuel hl hc
    rw [hfind, hreads, reads_item hp, Tlv.lookup_skip hpad hstop hc hn]
    exact ih (by omega) (drop_item _).symm

/-- A loop that ends without the option has come to a zero or to the last bytes. -/
theorem stops_of_findOption (hfind : findOption buf len id size fuel p = some none)
    (hreads : ∀ i ∈ optionReads buf len id size fuel p, i < len) :
    Stops id (buf.window p (len - p)) := by
  induction fuel generalizing p with
  | zero => exact absurd hfind (by simp [findOption])
  | succ fuel ih =>
    have hp : p < len := hreads p (by simp [optionReads])
    by_cases hl : Looks buf len p
    · by_cases hid : buf p = id
      · by_cases hsize : buf (p + 1) = size
        · rw [(round_found fuel hl hid hsize).1] at hfind
          exact absurd hfind (by simp)
        · rw [round_stays fuel hl hid hsize] at hfind
          exact absurd hfind (by simp)
      · obtain ⟨hnext, hrest⟩ := round_skip size fuel hl hid
        have hp1 : p + 1 < len := by have := hl.2; omega
        rw [hnext] at hfind
        rw [hrest, reads_item hp1] at hreads
        have hstops := ih hfind hreads
        have hle := lt_of_window_ne_nil hstops.ne_nil
        rw [window_eq_item hp1]
        refine .skip hid (by rw [length_window]; omega) ?_
        rw [drop_item]
        exact hstops
    · by_cases hzero : buf p = 0
      · rw [window_eq_cons hp, hzero]
        exact .zero _
      · have hend : ¬ p + 5 < len := fun h => hl ⟨hzero, h⟩
        refine .last ?_ (by rw [length_window]; omega)
        rw [window_eq_cons hp]
        exact List.cons_ne_nil _ _

/-- A loop that comes to a value the list has too has passed whole options alone. -/
theorem leads_of_findOption {q : Nat} {w : List UInt8}
    (hfind : findOption buf len id size fuel p = some (some q))
    (hreads : ∀ i ∈ optionReads buf len id size fuel p, i < len)
    (hlookup : Tlv.lookup dhcpMarks id size (buf.window p (len - p)) = some w) :
    Leads id size (buf.window p (len - p)) := by
  induction fuel generalizing p with
  | zero => exact absurd hfind (by simp [findOption])
  | succ fuel ih =>
    by_cases hl : Looks buf len p
    · have hp1 : p + 1 < len := by have := hl.2; omega
      have hstop : buf p ≠ 255 := by
        intro h
        rw [window_eq_item hp1, Tlv.lookup_stop hl.1 h] at hlookup
        exact absurd hlookup (by simp)
      by_cases hid : buf p = id
      · by_cases hsize : buf (p + 1) = size
        · rw [window_eq_item hp1, hid, hsize]
          have := hl.2
          exact .here (hid ▸ hl.1) (hid ▸ hstop) (by rw [length_window]; omega)
        · rw [round_stays fuel hl hid hsize] at hfind
          exact absurd hfind (by simp)
      · obtain ⟨hnext, hrest⟩ := round_skip size fuel hl hid
        rw [hnext] at hfind
        rw [hrest, reads_item hp1] at hreads
        have hnext : p + (buf (p + 1)).toNat + 2 < len := by
          cases fuel with
          | zero => exact absurd hfind (by simp [findOption])
          | succ fuel => exact hreads _ (by simp [optionReads])
        have hn : (buf (p + 1)).toNat ≤ (buf.window (p + 2) (len - (p + 2))).length := by
          rw [length_window]
          omega
        rw [window_eq_item hp1, Tlv.lookup_skip hl.1 hstop hid hn, drop_item] at hlookup
        rw [window_eq_item hp1]
        refine .skip hl.1 hstop hid hn ?_
        rw [drop_item]
        exact ih hfind hreads hlookup
    · rw [(round_end id size fuel hl).1] at hfind
      exact absurd hfind (by simp)

end

namespace OptionGetter

variable {g : OptionGetter} {k : DhcpPacket} {id : UInt8}

theorem size_le : g.size.toNat ≤ 4 := by cases g <;> decide

/-- A getter gives the bytes at the offset that the loop comes to. -/
theorem get_eq : g.get k id =
    (k.option id g.size).map fun at? => at?.map fun p => k.buf.window p g.size.toNat := by
  cases g with
  | uint32 =>
    show ((k.option id 4).map _).map _ = (k.option id 4).map _
    rw [Option.map_map]
    congr 1
    funext at?
    cases at? with
    | none => rfl
    | some p => exact congrArg some (u32Bytes_u32 k.buf p)
  | uint8 =>
    show ((k.option id 1).map _).map _ = (k.option id 1).map _
    rw [Option.map_map]
    congr 1
    funext at?
    cases at? <;> rfl

end OptionGetter

/-- The getters find an option in exactly these packets. -/
theorem dhcp_option_search (g : OptionGetter) (k : DhcpPacket) (id : UInt8) :
    FindsOption g k id ↔ Searchable g k id := by
  have hfuel : k.size.toNat < k.size.toNat + 1 + (sizeOfDhcpHeader + 4) := by omega
  constructor
  · intro h
    have hvalue := h.value
    rw [OptionGetter.get_eq] at hvalue
    cases hfind : k.option id g.size with
    | none =>
      rw [hfind] at hvalue
      exact absurd hvalue (by simp)
    | some at? =>
      rw [hfind] at hvalue
      have hlookup := Option.some.inj hvalue
      cases at? with
      | none => exact .inr ⟨stops_of_findOption hfind h.inside, hlookup.symm⟩
      | some q => exact .inl (leads_of_findOption hfind h.inside hlookup.symm)
  · intro h
    rcases h with hleads | ⟨hstops, hnone⟩
    · obtain ⟨q, hfind, hlookup, hreads⟩ :=
        findOption_of_leads hfuel OptionGetter.size_le hleads rfl
      refine ⟨?_, hreads⟩
      have hoption : k.option id g.size = some (some q) := hfind
      rw [OptionGetter.get_eq, hoption]
      exact congrArg some hlookup.symm
    · obtain ⟨hfind, hreads⟩ := findOption_of_stops hfuel hstops rfl
      refine ⟨?_, hreads⟩
      have hoption : k.option id g.size = some none := hfind
      rw [OptionGetter.get_eq, hoption]
      exact congrArg some hnone.symm

/-- A packet whose first option is a list of two routers. -/
def twoRouters : DhcpPacket where
  buf := fun i => if i = 240 then 3 else if i = 241 then 8 else if i < 250 then 10 else 255
  size := 300

/-- The search for the router stands still at an option of eight bytes. -/
theorem not_dhcp_option_search : ¬ FindsOption .uint32 twoRouters optIdRouter := by
  intro h
  have hfind : twoRouters.option optIdRouter 4 = none := round_stays _ ⟨by decide, by decide⟩ rfl (by decide)
  have hvalue := h.value
  rw [OptionGetter.get_eq] at hvalue
  exact absurd (hfind ▸ hvalue) (by simp)

end MiMic.NetIf
