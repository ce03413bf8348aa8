import MiMic.NetIf.Receive

/-!
# Questions of a received mDNS packet

`NyLPC_cMDnsServer` goes through the questions of a datagram in its receive handler. What stands
before and behind the datagram in memory is left open. The handler hands each question to
`sendReply2`, which is a parameter here: it answers the question or drops it.
-/
namespace MiMic.Net

open NetIf

/-- The memory around a payload of `size` bytes, by the offset from its first byte. -/
structure Datagram where
  byte : Int → UInt8
  size : UInt16

/-- `NyLPC_ntohs` of the 16 bits at an offset. -/
def Datagram.word (d : Datagram) (r : Int) : UInt16 := ntohs (Memory.u16 (fun k => d.byte (r + k)) 0)

namespace MDnsServer

def mcastPort : UInt16 := 5353
/-- 224.0.0.251 -/
def mcastIpaddr : IPv4Addr := ⟨htonl 0xe00000fb⟩

def flagMaskQr : UInt16 := 0x8000
def flagMaskOpcode : UInt16 := 0x7800
def flagMaskTc : UInt16 := 0x0200

def sizeofDnsHeader : Nat := 12

structure DnsQuestion where
  qnamePos : Int
  qtype : UInt16
  qclass : UInt16
deriving DecidableEq, Repr

def flag (d : Datagram) : UInt16 := d.word 2

/-- `getNumberOfQuestion`, with the offsets it reads. -/
def getNumberOfQuestion (d : Datagram) : UInt16 × List Int :=
  if d.size.toNat < sizeofDnsHeader then (0, [])
  else if flag d &&& flagMaskQr ≠ 0 ∧ flag d &&& flagMaskOpcode ≠ 0 ∧ flag d &&& flagMaskTc ≠ 0 then
    (0, [2, 3])
  else (d.word 4, [2, 3, 4, 5])

/-- The loop of `NyLPC_TDnsQuestion_parse` over the next `n` bytes from `i` on. -/
def parseLoop (d : Datagram) : Nat → Nat → Nat → Option Nat × List Int
  | 0, _, _ => (none, [])
  | n + 1, i, qlen =>
      if d.byte i = 0x00 then (some (qlen + 1), [(i : Int)])
      else if d.byte i = 0xc0 then (some (qlen + 2), [(i : Int)])
      else
        let r := parseLoop d n (i + 1) (qlen + 1)
        (r.1, (i : Int) :: r.2)

/-- What a question is found to be, and its length. -/
structure Found where
  question : DnsQuestion
  len : Nat
deriving DecidableEq, Repr

/-- The parameter of the parser has 16 bits and a sign. -/
def int16 (n : Nat) : Int := if n < 2 ^ 15 then n else n - 2 ^ 16

/-- The question whose name has `qlen` bytes. -/
def questionAt (d : Datagram) (start qlen : Nat) : Found where
  question := ⟨int16 start, d.word (int16 start + qlen), d.word (int16 start + qlen + 2)⟩
  len := qlen + 4

/-- `NyLPC_TDnsQuestion_parse` on a packet that has a header. -/
def questionParse (d : Datagram) (start : Nat) : Option Found × List Int :=
  match parseLoop d (d.size.toNat - 4 - start) start 0 with
  | (none, reads) => (none, reads)
  | (some qlen, reads) =>
      let p := int16 start + qlen
      (some (questionAt d start qlen), reads ++ [p, p + 1, p + 2, p + 3])

/-- What the handler has done with a packet. -/
structure Handling where
  /-- `DROP` -/
  dropped : Bool
  /-- The questions that went to `sendReply2`. -/
  examined : List Found
  reads : List Int

/-- The loop of `onPacket`: `n` questions are left. A question takes five bytes, so the packet ends
before the counter of 16 bits does. -/
def questionLoop (d : Datagram) : Nat → Nat → Handling
  | 0, _ => ⟨false, [], []⟩
  | n + 1, inLen =>
      match questionParse d inLen with
      | (none, reads) => ⟨true, [], reads⟩
      | (some q, reads) =>
          let h := questionLoop d n ((inLen + q.len) % 2 ^ 16)
          ⟨h.dropped, q :: h.examined, reads ++ h.reads⟩

/-- The packet comes from the port and to the address of the protocol. -/
def isMulticast (info : IPv4RxInfo) : Bool := info.peerPort == mcastPort && info.ip == mcastIpaddr

/-- `onPacket` -/
def onPacket (info : IPv4RxInfo) (d : Datagram) : Handling :=
  if isMulticast info then
    match getNumberOfQuestion d with
    | (n, reads) =>
        if n = 0 then ⟨true, [], reads⟩
        else
          let h := questionLoop d n.toNat sizeofDnsHeader
          ⟨h.dropped, h.examined, reads ++ h.reads⟩
  else ⟨true, [], []⟩

/-- A name from one offset to another: labels of up to 63 bytes, and then the root or a pointer. -/
inductive NameEnds (d : Datagram) : Nat → Nat → Prop
  | root {p : Nat} : p < d.size.toNat → d.byte p = 0 → NameEnds d p (p + 1)
  | pointer {p : Nat} : p + 1 < d.size.toNat → 0xc0 ≤ d.byte p → NameEnds d p (p + 2)
  | label {p e : Nat} : d.byte p ≠ 0 → d.byte p < 0x40 →
      NameEnds d (p + (d.byte p).toNat + 1) e → NameEnds d p e

/-- What is found at an offset is the question there: its name, and the type and the class behind
it. -/
def IsQuestion (d : Datagram) (start : Nat) (q : Found) : Prop :=
  ∃ e, NameEnds d start e ∧ e + 4 ≤ d.size.toNat ∧ q.len = e + 4 - start ∧
    q.question = ⟨start, d.word e, d.word (e + 2)⟩

/-- One question after the other. -/
def AreQuestions (d : Datagram) : Nat → List Found → Prop
  | _, [] => True
  | start, q :: qs => IsQuestion d start q ∧ AreQuestions d (start + q.len) qs

def IsResponse (d : Datagram) : Prop := flag d &&& flagMaskQr ≠ 0

/-- The handler keeps to the packet and to its questions. -/
structure HandlesPacket (answers : DnsQuestion → Bool) (d : Datagram) (h : Handling) : Prop where
  inside : ∀ r ∈ h.reads, 0 ≤ r ∧ r < d.size.toNat
  walked : AreQuestions d sizeofDnsHeader h.examined
  counted : h.dropped = true ∨ h.examined.length = (d.word 4).toNat
  silent : IsResponse d → ∀ q ∈ h.examined, answers q.question = false

/-- How far a name goes on from the byte that ends it. -/
def stopWidth (b : UInt8) : Nat := if b = 0 then 1 else 2

/-- The first byte `0x00` or `0xc0` from a question on, with four bytes behind it. -/
structure FirstStop (d : Datagram) (start i : Nat) : Prop where
  le : start ≤ i
  room : i + 4 < d.size.toNat
  stop : d.byte i = 0x00 ∨ d.byte i = 0xc0
  before : ∀ j, start ≤ j → j < i → d.byte j ≠ 0x00 ∧ d.byte j ≠ 0xc0

/-- The first such byte ends the name of each question, the question begins where a signed offset
reaches, and a response holds no question that is answered. -/
def QuestionsStand (answers : DnsQuestion → Bool) (d : Datagram) : Nat → Nat → Prop
  | 0, _ => True
  | n + 1, start => ∀ i, FirstStop d start i →
      start < 2 ^ 15 ∧ NameEnds d start (i + stopWidth (d.byte i)) ∧
        i + stopWidth (d.byte i) + 4 ≤ d.size.toNat ∧
        (IsResponse d →
          answers ⟨start, d.word (i + stopWidth (d.byte i) : Nat),
            d.word ((i + stopWidth (d.byte i) : Nat) + 2)⟩ = false) ∧
        QuestionsStand answers d n (i + stopWidth (d.byte i) + 4)

/-- The handler goes through the questions of the packet. -/
def Taken (info : IPv4RxInfo) (d : Datagram) : Prop :=
  isMulticast info = true ∧ sizeofDnsHeader ≤ d.size.toNat ∧
    ¬ (flag d &&& flagMaskQr ≠ 0 ∧ flag d &&& flagMaskOpcode ≠ 0 ∧ flag d &&& flagMaskTc ≠ 0)

section

variable {d : Datagram}

/-- The loop stops at the first byte that it looks for. -/
theorem parseLoop_of_stop (n i qlen : Nat) {k : Nat} (hk : k < n)
    (hstop : d.byte (i + k : Nat) = 0x00 ∨ d.byte (i + k : Nat) = 0xc0)
    (hbefore : ∀ j < k, d.byte (i + j : Nat) ≠ 0x00 ∧ d.byte (i + j : Nat) ≠ 0xc0) :
    parseLoop d n i qlen = (some (qlen + k + stopWidth (d.byte (i + k : Nat))),
      (List.range (k + 1)).map fun j => ((i + j : Nat) : Int)) := by
  induction n generalizing i qlen k with
  | zero => exact absurd hk (Nat.not_lt_zero k)
  | succ n ih =>
    rw [parseLoop]
    cases k with
    | zero =>
      rw [Nat.add_zero] at hstop
      rw [stopWidth]
      rcases hstop with h0 | hc0
      · rw [if_pos h0, Nat.add_zero i, if_pos h0]
        rfl
      · have hne : d.byte i ≠ 0x00 := by rw [hc0]; decide
        rw [if_neg hne, if_pos hc0, Nat.add_zero i, if_neg hne]
        rfl
    | succ k =>
      obtain ⟨h0, hc0⟩ := hbefore 0 (Nat.succ_pos k)
      rw [Nat.add_zero] at h0 hc0
      have hshift : ∀ j, i + 1 + j = i + (j + 1) := fun j => by omega
      have hih := ih (i + 1) (qlen + 1) (k := k) (by omega)
        (by rw [hshift]; exact hstop)
        (fun j hj => by rw [hshift]; exact hbefore (j + 1) (by omega))
      rw [if_neg h0, if_neg hc0, hih, hshift, List.range_succ_eq_map (n := k + 1), List.map_cons,
        List.map_map]
      simp only [hshift, Function.comp_def, Nat.succ_eq_add_one, Nat.add_zero, Prod.mk.injEq,
        Option.some.injEq, and_true]
      omega

/-- Without such a byte it goes to the end. -/
theorem parseLoop_of_none (n i qlen : Nat)
    (hnone : ∀ j < n, d.byte (i + j : Nat) ≠ 0x00 ∧ d.byte (i + j : Nat) ≠ 0xc0) :
    parseLoop d n i qlen = (none, (List.range n).map fun j => ((i + j : Nat) : Int)) := by
  induction n generalizing i qlen with
  | zero => rfl
  | succ n ih =>
    obtain ⟨h0, hc0⟩ := hnone 0 (Nat.succ_pos n)
    rw [Nat.add_zero] at h0 hc0
    have hshift : ∀ j, i + 1 + j = i + (j + 1) := fun j => by omega
    have hih := ih (i + 1) (qlen + 1)
      (fun j hj => by rw [hshift]; exact hnone (j + 1) (by omega))
    rw [parseLoop, if_neg h0, if_neg hc0, hih, List.range_succ_eq_map, List.map_cons, List.map_map]
    simp only [hshift, Function.comp_def, Nat.succ_eq_add_one, Nat.add_zero]

end

section

variable {d : Datagram} {start i : Nat}

/-- What the parser makes of a question whose first stop is known. -/
theorem questionParse_of_stop (h : FirstStop d start i) :
    questionParse d start =
      (some (questionAt d start (i - start + stopWidth (d.byte i))),
        ((List.range (i - start + 1)).map fun j => ((start + j : Nat) : Int)) ++
          [int16 start + (i - start + stopWidth (d.byte i) : Nat),
            int16 start + (i - start + stopWidth (d.byte i) : Nat) + 1,
            int16 start + (i - start + stopWidth (d.byte i) : Nat) + 2,
            int16 start + (i - start + stopWidth (d.byte i) : Nat) + 3]) := by
  have hle := h.le
  have hroom := h.room
  have hi : start + (i - start) = i := by omega
  have hloop := parseLoop_of_stop (d := d) (d.size.toNat - 4 - start) start 0
    (k := i - start) (by omega) (by rw [hi]; exact h.stop)
    (fun j hj => h.before (start + j) (by omega) (by omega))
  rw [questionParse, hloop, hi, Nat.zero_add]

theorem questionParse_of_none (h : ∀ i, ¬ FirstStop d start i) :
    questionParse d start =
      (none, (List.range (d.size.toNat - 4 - start)).map fun j => ((start + j : Nat) : Int)) := by
  have hnone : ∀ j < d.size.toNat - 4 - start,
      d.byte (start + j : Nat) ≠ 0x00 ∧ d.byte (start + j : Nat) ≠ 0xc0 := by
    intro j
    induction j using Nat.strongRecOn with
    | ind j ih =>
      intro hj
      rw [← not_or]
      intro hstop
      refine h (start + j) ⟨by omega, by omega, hstop, fun k hk hlt => ?_⟩
      have hback := ih (k - start) (by omega) (by omega)
      rwa [show start + (k - start) = k by omega] at hback
  rw [questionParse, parseLoop_of_none _ _ _ hnone]

end

section

variable {answers : DnsQuestion → Bool} {d : Datagram} {start i : Nat}

theorem FirstStop.unique {i' : Nat} (h : FirstStop d start i) (h' : FirstStop d start i') :
    i = i' := by
  rcases Nat.lt_trichotomy i i' with hlt | heq | hgt
  · have hno := h'.before i h.le hlt
    exact absurd h.stop (not_or.mpr hno)
  · exact heq
  · have hno := h.before i' h'.le hgt
    exact absurd h'.stop (not_or.mpr hno)

theorem stopWidth_cases (b : UInt8) : stopWidth b = 1 ∨ stopWidth b = 2 := by
  unfold stopWidth
  split
  · exact .inl rfl
  · exact .inr rfl

/-- The offset behind a name is where the signed start leads, when the start is small. -/
theorem questionAt_eq {w : Nat} (hstart : start < 2 ^ 15) (hle : start ≤ i) :
    questionAt d start (i - start + w) =
      ⟨⟨start, d.word (i + w : Nat), d.word ((i + w : Nat) + 2)⟩, i + w + 4 - start⟩ := by
  have hoff : int16 start + (i - start + w : Nat) = (i + w : Nat) := by
    rw [int16, if_pos hstart]
    omega
  rw [questionAt, hoff, int16, if_pos hstart, show i - start + w + 4 = i + w + 4 - start by omega]

/-- What the loop has to do from the question at `start` on. -/
structure HandlesFrom (answers : DnsQuestion → Bool) (d : Datagram) (start n : Nat) (h : Handling) :
    Prop where
  inside : ∀ r ∈ h.reads, 0 ≤ r ∧ r < d.size.toNat
  walked : AreQuestions d start h.examined
  counted : h.dropped = true ∨ h.examined.length = n
  silent : IsResponse d → ∀ q ∈ h.examined, answers q.question = false

/-- The scan reads before the end of the packet. -/
theorem scan_inside {k : Nat} (hk : start + k ≤ d.size.toNat) :
    ∀ r ∈ (List.range k).map fun j => ((start + j : Nat) : Int), 0 ≤ r ∧ r < d.size.toNat := by
  intro r hr
  obtain ⟨j, hj, hjr⟩ := List.mem_map.mp hr
  rw [List.mem_range] at hj
  omega

/-- One question: the loop goes on behind it as it should exactly when its first stop is its end. -/
theorem handlesFrom_succ_iff {n : Nat} (hstop : FirstStop d start i) :
    HandlesFrom answers d start (n + 1) (questionLoop d (n + 1) start) ↔
      start < 2 ^ 15 ∧ NameEnds d start (i + stopWidth (d.byte i)) ∧
        i + stopWidth (d.byte i) + 4 ≤ d.size.toNat ∧
        (IsResponse d →
          answers ⟨start, d.word (i + stopWidth (d.byte i) : Nat),
            d.word ((i + stopWidth (d.byte i) : Nat) + 2)⟩ = false) ∧
        HandlesFrom answers d (i + stopWidth (d.byte i) + 4) n
          (questionLoop d n (i + stopWidth (d.byte i) + 4)) := by
  have hle := hstop.le
  have hroom := hstop.room
  have hsize := d.size.toNat_lt
  have hwidth := stopWidth_cases (d.byte i)
  rw [questionLoop, questionParse_of_stop hstop]
  generalize stopWidth (d.byte i) = w at hwidth ⊢
  constructor
  · intro h
    -- the four bytes behind the name lie in the packet, so the start is one of fifteen bits
    have hlow := h.inside (int16 start + (i - start + w : Nat)) (by simp)
    have hhigh := h.inside (int16 start + (i - start + w : Nat) + 3) (by simp)
    have hstart : start < 2 ^ 15 := by
      by_contra hge
      rw [int16, if_neg hge] at hlow
      omega
    rw [int16, if_pos hstart] at hhigh
    have hend : i + w + 4 ≤ d.size.toNat := by omega
    have hnext : (start + (questionAt d start (i - start + w)).len) % 2 ^ 16 = i + w + 4 := by
      rw [questionAt_eq hstart hle, Nat.mod_eq_of_lt] <;> dsimp only <;> omega
    have hgo : start + (i + w + 4 - start) = i + w + 4 := by omega
    have hwalked := h.walked
    have hsilent := h.silent
    have hcounted := h.counted
    have hinside := h.inside
    dsimp only at hwalked hsilent hcounted hinside
    rw [hnext] at hwalked hsilent hcounted hinside
    rw [questionAt_eq hstart hle] at hwalked hsilent
    obtain ⟨⟨e, hname, -, hlen, -⟩, hrest⟩ := hwalked
    dsimp only at hlen hrest
    rw [hgo] at hrest
    have he : e = i + w := by omega
    subst he
    refine ⟨hstart, hname, hend, fun hr => hsilent hr _ List.mem_cons_self, ?_, hrest, ?_, ?_⟩
    · exact fun r hr => hinside r (List.mem_append_right _ hr)
    · exact hcounted.imp_right Nat.succ.inj
    · exact fun hr q hq => hsilent hr q (List.mem_cons_of_mem _ hq)
  · intro h
    obtain ⟨hstart, hname, hend, hanswer, hrest⟩ := h
    have hoff : int16 start + (i - start + w : Nat) = (i + w : Nat) := by
      rw [int16, if_pos hstart]
      omega
    have hnext : (start + (questionAt d start (i - start + w)).len) % 2 ^ 16 = i + w + 4 := by
      rw [questionAt_eq hstart hle, Nat.mod_eq_of_lt] <;> dsimp only <;> omega
    have hgo : start + (i + w + 4 - start) = i + w + 4 := by omega
    constructor
    · dsimp only
      rw [hnext, hoff]
      intro r hr
      rcases List.mem_append.mp hr with hown | hlater
      · rcases List.mem_append.mp hown with hscan | htail
        · exact scan_inside (by omega) r hscan
        · simp only [List.mem_cons, List.not_mem_nil, or_false] at htail
          omega
      · exact hrest.inside r hlater
    · dsimp only
      rw [hnext, questionAt_eq hstart hle]
      refine ⟨⟨i + w, hname, hend, rfl, rfl⟩, ?_⟩
      rw [hgo]
      exact hrest.walked
    · dsimp only
      rw [hnext]
      exact hrest.counted.imp_right (congrArg Nat.succ)
    · dsimp only
      rw [hnext, questionAt_eq hstart hle]
      intro hr q hq
      rcases List.mem_cons.mp hq with hq | hq
      · subst hq
        exact hanswer hr
      · exact hrest.silent hr q hq

theorem handlesFrom_iff (n start : Nat) :
    HandlesFrom answers d start n (questionLoop d n start) ↔ QuestionsStand answers d n start := by
  induction n generalizing start with
  | zero =>
    refine iff_of_true ⟨?_, trivial, .inr rfl, ?_⟩ trivial
    · exact fun r hr => absurd hr List.not_mem_nil
    · exact fun _ q hq => absurd hq List.not_mem_nil
  | succ n ih =>
    rw [QuestionsStand]
    by_cases hstop : ∃ i, FirstStop d start i
    · obtain ⟨i, hi⟩ := hstop
      rw [handlesFrom_succ_iff hi, ih]
      constructor
      · intro h i' hi'
        rw [← hi.unique hi']
        exact h
      · exact fun h => h i hi
    · have hnone := not_exists.mp hstop
      rw [questionLoop, questionParse_of_none hnone]
      refine iff_of_true ⟨?_, trivial, .inl rfl, ?_⟩ fun i hi => absurd hi (hnone i)
      · intro r hr
        by_cases hstart : start ≤ d.size.toNat - 4
        · exact scan_inside (k := d.size.toNat - 4 - start) (by omega) r hr
        · rw [show d.size.toNat - 4 - start = 0 by omega] at hr
          exact absurd hr List.not_mem_nil
      · exact fun _ q hq => absurd hq List.not_mem_nil

/-- The fields of the header lie in a packet that has one. -/
theorem header_inside (h : sizeofDnsHeader ≤ d.size.toNat) {reads : List Int}
    (hreads : ∀ r ∈ reads, 0 ≤ r ∧ r < 6) : ∀ r ∈ reads, 0 ≤ r ∧ r < d.size.toNat := by
  intro r hr
  obtain ⟨hlow, hhigh⟩ := hreads r hr
  have hheader : 12 ≤ d.size.toNat := h
  omega

/-- A packet without a question that goes to `sendReply2`. -/
theorem handlesPacket_dropped {reads : List Int}
    (h : ∀ r ∈ reads, 0 ≤ r ∧ r < d.size.toNat) : HandlesPacket answers d ⟨true, [], reads⟩ where
  inside := h
  walked := trivial
  counted := .inl rfl
  silent _ _ hq := absurd hq List.not_mem_nil

end

/-- The handler keeps to a packet exactly when, in each question that it goes through, the first
byte `0x00` or `0xc0` is where the name ends, and a response that it takes is not answered. -/
theorem onPacket_handles_packet (answers : DnsQuestion → Bool) (info : IPv4RxInfo) (d : Datagram) :
    HandlesPacket answers d (onPacket info d) ↔
      (Taken info d → QuestionsStand answers d (d.word 4).toNat sizeofDnsHeader) := by
  unfold onPacket Taken getNumberOfQuestion
  by_cases hinfo : isMulticast info = true
  swap
  · rw [if_neg hinfo]
    refine iff_of_true (handlesPacket_dropped fun r hr => ?_) fun h => absurd h.1 hinfo
    exact absurd hr List.not_mem_nil
  rw [if_pos hinfo]
  by_cases hsize : d.size.toNat < sizeofDnsHeader
  · rw [if_pos hsize]
    refine iff_of_true (handlesPacket_dropped fun r hr => ?_) fun h =>
      absurd h.2.1 (Nat.not_le.mpr hsize)
    exact absurd hr List.not_mem_nil
  have hheader := Nat.not_lt.mp hsize
  rw [if_neg hsize]
  by_cases hflag : flag d &&& flagMaskQr ≠ 0 ∧ flag d &&& flagMaskOpcode ≠ 0 ∧
      flag d &&& flagMaskTc ≠ 0
  · rw [if_pos hflag]
    refine iff_of_true (handlesPacket_dropped ?_) fun h => absurd hflag h.2.2
    exact header_inside hheader (by decide)
  rw [if_neg hflag, ← handlesFrom_iff]
  have hreads : ∀ r ∈ [2, 3, 4, 5], (0 : Int) ≤ r ∧ r < d.size.toNat :=
    header_inside hheader (by decide)
  by_cases hnone : d.word 4 = 0
  · dsimp only
    rw [if_pos hnone, hnone]
    refine iff_of_true (handlesPacket_dropped hreads) fun _ => ⟨?_, trivial, .inr rfl, ?_⟩
    · exact fun r hr => absurd hr List.not_mem_nil
    · exact fun _ q hq => absurd hq List.not_mem_nil
  dsimp only
  rw [if_neg hnone]
  constructor
  · intro h _
    exact ⟨fun r hr => h.inside r (List.mem_append_right _ hr), h.walked, h.counted, h.silent⟩
  · intro h
    obtain ⟨hinside, hwalked, hcounted, hsilent⟩ := h ⟨hinfo, hheader, hflag⟩
    refine ⟨fun r hr => ?_, hwalked, hcounted, hsilent⟩
    rcases List.mem_append.mp hr with hown | hlater
    · exact hreads r hown
    · exact hinside r hlater

/-- A query with one question, a pointer for its name, and three bytes behind it. -/
def overread : Datagram where
  byte := fun r => [0, 0, 0, 0, 0, 1, 0, 0, 0, 0, 0, 0, 0xc0, 0x0c, 0, 12, 0].getD r.toNat 0
  size := 17

/-- The class of a question is read behind the end of the packet. -/
theorem not_onPacket_handles_packet :
    ¬ ∀ answers info d, HandlesPacket answers d (onPacket info d) := by
  intro h
  have hread := (h (fun _ => false) ⟨⟨0⟩, mcastIpaddr, mcastPort, mcastPort, 17⟩ overread).inside 17
    (by decide +kernel)
  exact absurd hread.2 (by decide)

end MDnsServer

end MiMic.Net
