import MiMic.Core.Text
import MiMic.Net.MDnsPacket

/-!
# The name of a question

`isEqualName` walks along the labels of the packet and along a dotted string at once, and takes
every label whose bytes come next in the string. Offsets go from the first byte of the packet.
-/
namespace MiMic.Net

/-- A string of the program: its text, the NUL, and what its array holds behind. -/
structure CString where
  text : List UInt8
  rest : List UInt8
  text_ne : ∀ c ∈ text, c ≠ 0

def CString.bytes (s : CString) : List UInt8 := s.text ++ 0 :: s.rest

/-- The bytes of a datagram from an offset on. -/
def Datagram.bytesAt (d : Datagram) (s n : Nat) : List UInt8 :=
  (List.range' s n).map fun k : Nat => d.byte k

/-- The first byte of a label as the length that it is. -/
def Datagram.len (d : Datagram) (q : Nat) : Nat := (d.byte q).toNat

namespace MDnsServer

/-- The loop of `getExtractNamePos`, which ends in front of its pointer number 33, and the
offsets it reads. -/
def extractLoop (d : Datagram) (start : Nat) : Nat → Nat → Option Nat × List Nat
  | 0, _ => (none, [])
  | n + 1, s =>
      if d.byte s = 0x00 then (none, [s])
      else if d.byte s = 0xc0 then
        if start ≤ d.len (s + 1) then (none, [s, s + 1])
        else
          let r := extractLoop d start n (d.len (s + 1))
          (r.1, s :: (s + 1) :: r.2)
      else (some s, [s])

/-- `getExtractNamePos`; `none` is its NULL. -/
def getExtractNamePos (d : Datagram) (s : Nat) : Option Nat × List Nat := extractLoop d s 33 s

/-- `memcmp` of a string and `n` bytes of the packet is 0. It is `none` when the array of the
string ends before a difference. -/
def memcmp (d : Datagram) : List UInt8 → Nat → Nat → Option Bool
  | _, _, 0 => some true
  | [], _, _ + 1 => none
  | c :: p, s, n + 1 => if c = d.byte s then memcmp d p (s + 1) n else some false

/-- `NyLPC_strnicmp` of the packet and all of a text is 0, with the offsets it reads. -/
def strnicmp (d : Datagram) : Nat → List UInt8 → Bool × List Nat
  | _, [] => (true, [])
  | s, c :: t =>
      if d.byte s ≠ c ∧ tolower (d.byte s) ≠ tolower c then (false, [s])
      else
        let r := strnicmp d (s + 1) t
        (r.1, s :: r.2)

/-- `"\5local\0"` -/
def localName : List UInt8 := [5, 0x6c, 0x6f, 0x63, 0x61, 0x6c, 0]

/-- The loop over the protocol, where `p` is what is left of its array. It reads `*p` also where
nothing is left: `none`. -/
def protocolLoop (d : Datagram) (s : Nat) (p : List UInt8) : Option Bool × List Nat :=
  match getExtractNamePos d s with
  | (none, reads) => (some false, reads)
  | (some q, reads) =>
      match p with
      | [] => (none, reads)
      | c :: p =>
          if c = 0 then
            if d.size.toNat < q + 7 + 4 then (some false, reads)
            else (memcmp d localName q 7, reads ++ List.range' q 7)
          else if d.size.toNat < q + 1 + d.len q + 4 then (some false, reads ++ [q])
          else if memcmp d (c :: p) (q + 1) (d.len q) = some true then
            let r := protocolLoop d (q + 1 + d.len q) (p.drop (d.len q))
            (r.1, reads ++ (List.range' q (1 + d.len q) ++ r.2))
          else (memcmp d (c :: p) (q + 1) (d.len q), reads ++ List.range' q (1 + d.len q))
termination_by p.length
decreasing_by
  rw [List.length_drop, List.length_cons]
  omega

/-- `NyLPC_TDnsQuestion_isEqualName`. -/
def isEqualName (d : Datagram) (qnamePos : Int) (name : Option CString) (protocol : CString) :
    Option Bool × List Nat :=
  let s := (qnamePos % 256).toNat
  match name with
  | none => protocolLoop d s protocol.bytes
  | some name =>
      match getExtractNamePos d s with
      | (none, reads) => (some false, reads)
      | (some q, reads) =>
          let tmp := UInt8.ofNat name.text.length
          if tmp ≠ d.byte q then (some false, reads ++ [q])
          else
            let c := strnicmp d (q + 1) (name.text.take tmp.toNat)
            if c.1 then
              let r := protocolLoop d (q + 1 + d.len q) protocol.bytes
              (r.1, reads ++ (q :: c.2 ++ r.2))
            else (some false, reads ++ q :: c.2)

/-- A pointer of two bytes, of which the first has both high bits set. -/
def pointerTarget (d : Datagram) (s : Nat) : Nat := (d.len s - 0xc0) * 256 + d.len (s + 1)

/-- The pointers from one offset lead to another one. They lead back, before `start`. -/
inductive Refers (d : Datagram) (start : Nat) : Nat → Nat → Prop
  | here {s : Nat} : s < d.size.toNat → Refers d start s s
  | jump {s q : Nat} : 0xc0 ≤ d.byte s → s + 1 < d.size.toNat → pointerTarget d s < start →
      Refers d start (pointerTarget d s) q → Refers d start s q

/-- The name at an offset is decoded: labels of up to 63 bytes, and then the root. -/
inductive NameAt (d : Datagram) : Nat → List (List UInt8) → Prop
  | root {s q : Nat} : Refers d s s q → d.byte q = 0 → NameAt d s []
  | label {s q : Nat} {ls : List (List UInt8)} : Refers d s s q → d.byte q ≠ 0 → d.byte q < 0x40 →
      q + 1 + d.len q ≤ d.size.toNat → NameAt d (q + 1 + d.len q) ls →
      NameAt d s (d.bytesAt (q + 1) (d.len q) :: ls)

/-- The labels of a protocol string. -/
def serviceLabels (protocol : CString) : List (List UInt8) :=
  if protocol.text = [] then [] else protocol.text.splitOn 0x2e

def localLabel : List UInt8 := [0x6c, 0x6f, 0x63, 0x61, 0x6c]

/-- The instance label, when a name is given; capital letters are not told apart in it. -/
def IsInstance : Option CString → List (List UInt8) → Prop
  | none, ls => ls = []
  | some name, ls => ∃ l, ls = [l] ∧ l.map tolower = name.text.map tolower

/-- The question asks for the service. -/
def Asks (d : Datagram) (pos : Int) (name : Option CString) (protocol : CString) : Prop :=
  0 ≤ pos ∧ ∃ ls, IsInstance name ls ∧
    NameAt d pos.toNat (ls ++ (serviceLabels protocol ++ [localLabel]))

/-- The function returns, stays in the packet, and is TRUE for the service that is asked for. -/
structure EqualName (d : Datagram) (pos : Int) (name : Option CString) (protocol : CString) :
    Prop where
  returns : (isEqualName d pos name protocol).1.isSome = true
  inside : ∀ r ∈ (isEqualName d pos name protocol).2, r < d.size.toNat
  equal : (isEqualName d pos name protocol).1 = some true ↔ Asks d pos name protocol

/-- Pointers `0xc0` lead from one offset to another one, as the function follows them. -/
inductive Leads (d : Datagram) (start : Nat) : Nat → Nat → Nat → Prop
  | here {s : Nat} : Leads d start s 0 s
  | jump {s n q : Nat} : d.byte s = 0xc0 → d.len (s + 1) < start →
      Leads d start (d.len (s + 1)) n q → Leads d start s (n + 1) q

/-- What the function takes for a label, behind at most 32 pointers. -/
def LabelAt (d : Datagram) (s q : Nat) : Prop :=
  ∃ n < 33, Leads d s s n q ∧ d.byte q ≠ 0x00 ∧ d.byte q ≠ 0xc0

/-- No pointer on the way leaves the packet. -/
def PointersInside (d : Datagram) (start s n : Nat) : Prop :=
  ∀ k < n, ∀ q, Leads d start s k q →
    q < d.size.toNat ∧ (d.byte q = 0xc0 → q + 1 < d.size.toNat)

/-- A round of the loop: the bytes of a label come next in the string, and four bytes follow the
label in the packet. -/
structure Round (d : Datagram) (s : Nat) (p : List UInt8) (q : Nat) : Prop where
  label : LabelAt d s q
  more : p.head? ≠ some 0
  room : q + 1 + d.len q + 4 ≤ d.size.toNat
  bytes : p.take (d.len q) = d.bytesAt (q + 1) (d.len q)

/-- The offsets and the rests of the string that the loop gets to. -/
inductive Reached (d : Datagram) : Nat → List UInt8 → Nat → List UInt8 → Prop
  | here {s : Nat} {p : List UInt8} : Reached d s p s p
  | round {s q s' : Nat} {p p' : List UInt8} : Round d s p q →
      Reached d (q + 1 + d.len q) (p.drop (d.len q + 1)) s' p' → Reached d s p s' p'

/-- The loop stays in the packet and in the array of the string. -/
structure RoundInside (d : Datagram) (s : Nat) (p : List UInt8) : Prop where
  pointers : PointersInside d s s 33
  string : ∀ q, LabelAt d s q → p ≠ [] ∧
    (p.head? ≠ some 0 → q + 1 + d.len q + 4 ≤ d.size.toNat →
      d.len q ≤ p.length ∨ p ≠ d.bytesAt (q + 1) p.length)

/-- The labels run along the string, one byte of it between each two, up to a zero byte; then
`local` follows. -/
inductive RunsAlong (d : Datagram) : Nat → List UInt8 → List (List UInt8) → Prop
  | last {s q : Nat} {p : List UInt8} : LabelAt d s q → p.head? = some 0 →
      q + 7 + 4 ≤ d.size.toNat → d.bytesAt q 7 = localName → RunsAlong d s p []
  | label {s q : Nat} {p : List UInt8} {ls : List (List UInt8)} : Round d s p q →
      RunsAlong d (q + 1 + d.len q) (p.drop (d.len q + 1)) ls →
      RunsAlong d s p (d.bytesAt (q + 1) (d.len q) :: ls)

/-- The labels and `local` are written plainly: behind pointers that the function follows, with
the root in its place, and four bytes behind every label. -/
inductive Plain (d : Datagram) : Nat → List (List UInt8) → Prop
  | last {s q : Nat} : LabelAt d s q → q + 7 + 4 ≤ d.size.toNat → d.bytesAt q 7 = localName →
      Plain d s []
  | label {s q : Nat} {ls : List (List UInt8)} : LabelAt d s q →
      q + 1 + d.len q + 4 ≤ d.size.toNat → Plain d (q + 1 + d.len q) ls →
      Plain d s (d.bytesAt (q + 1) (d.len q) :: ls)

/-- The protocol is looked for from the offset on: behind a label that agrees with the name, as
far as its length modulo 256 goes. -/
def Starts (d : Datagram) (s : Nat) : Option CString → Nat → Prop
  | none, s' => s' = s
  | some name, s' => ∃ q, LabelAt d s q ∧ d.byte q = UInt8.ofNat name.text.length ∧
      (d.bytesAt (q + 1) (d.len q)).map tolower = (name.text.take (d.len q)).map tolower ∧
      s' = q + 1 + d.len q

/-- The label that is compared with the name ends in the packet, or differs before. -/
def InstanceInside (d : Datagram) (s : Nat) : Option CString → Prop
  | none => True
  | some name => PointersInside d s s 33 ∧
      ∀ q, LabelAt d s q → d.byte q = UInt8.ofNat name.text.length → ∀ k < d.len q,
        (d.bytesAt (q + 1) k).map tolower = (name.text.take k).map tolower →
          q + 1 + k < d.size.toNat

/-- The question begins where eight bits reach, nothing is read outside, what is asked for is
written plainly, with a second zero behind the string, and labels that run along the string are
its parts. -/
structure NameStands (d : Datagram) (pos : Int) (name : Option CString) (protocol : CString) :
    Prop where
  offset : 0 ≤ pos ∧ pos < 256
  instanceInside : InstanceInside d pos.toNat name
  inside : ∀ s, Starts d pos.toNat name s →
    ∀ s' p', Reached d s protocol.bytes s' p' → RoundInside d s' p'
  plain : Asks d pos name protocol →
    (∃ s, Starts d pos.toNat name s ∧ Plain d s (serviceLabels protocol)) ∧
      (protocol.text ≠ [] → protocol.rest.head? = some 0)
  split : ∀ s ls, Starts d pos.toNat name s → RunsAlong d s protocol.bytes ls →
    ls = serviceLabels protocol ∧ (∀ l ∈ ls, l.length < 64) ∧
      ∀ n, name = some n → n.text.length < 64

section

variable {d : Datagram} {start : Nat}

theorem leads_of_ne {s n q : Nat} (h : Leads d start s n q) (hs : d.byte s ≠ 0xc0) :
    n = 0 ∧ q = s := by
  cases h with
  | here => exact ⟨rfl, rfl⟩
  | jump hc => exact absurd hc hs

/-- The loop returns the label that fewer than `n` pointers lead to. -/
theorem extractLoop_eq_some {n s q : Nat} : (extractLoop d start n s).1 = some q ↔
    ∃ k < n, Leads d start s k q ∧ d.byte q ≠ 0x00 ∧ d.byte q ≠ 0xc0 := by
  induction n generalizing s with
  | zero => simp [extractLoop]
  | succ n ih =>
    rw [extractLoop]
    by_cases h0 : d.byte s = 0x00
    · have hc : d.byte s ≠ 0xc0 := by rw [h0]; decide
      rw [if_pos h0]
      refine iff_of_false (by simp) ?_
      intro h
      obtain ⟨k, -, hl, hq, -⟩ := h
      rw [(leads_of_ne hl hc).2] at hq
      exact hq h0
    rw [if_neg h0]
    by_cases hc : d.byte s = 0xc0
    · rw [if_pos hc]
      by_cases hle : start ≤ d.len (s + 1)
      · rw [if_pos hle]
        refine iff_of_false (by simp) ?_
        intro h
        obtain ⟨k, -, hl, -, hq⟩ := h
        cases hl with
        | here => exact hq hc
        | jump _ hlt _ => omega
      · rw [if_neg hle]
        refine ih.trans ⟨?_, ?_⟩
        · intro h
          obtain ⟨k, hk, hl, hq⟩ := h
          exact ⟨k + 1, by omega, .jump hc (not_le.mp hle) hl, hq⟩
        · intro h
          obtain ⟨k, hk, hl, hq⟩ := h
          cases hl with
          | here => exact absurd hc hq.2
          | jump _ _ hl => exact ⟨_, by omega, hl, hq⟩
    · rw [if_neg hc]
      constructor
      · intro h
        obtain rfl := Option.some.inj h
        exact ⟨0, by omega, .here, h0, hc⟩
      · intro h
        obtain ⟨k, -, hl, -⟩ := h
        rw [(leads_of_ne hl hc).2]

theorem extractLoop_inside {n s : Nat} :
    (∀ r ∈ (extractLoop d start n s).2, r < d.size.toNat) ↔ PointersInside d start s n := by
  induction n generalizing s with
  | zero => simp [extractLoop, PointersInside]
  | succ n ih =>
    rw [extractLoop]
    by_cases hc : d.byte s = 0xc0
    · have h0 : d.byte s ≠ 0x00 := by rw [hc]; decide
      rw [if_neg h0, if_pos hc]
      by_cases hle : start ≤ d.len (s + 1)
      · rw [if_pos hle]
        simp only [List.mem_cons, List.not_mem_nil, or_false, forall_eq_or_imp, forall_eq]
        constructor
        · rintro ⟨hs, hs1⟩ k - q hl
          cases hl with
          | here => exact ⟨hs, fun _ => hs1⟩
          | jump _ hlt _ => omega
        · intro h
          have hs := h 0 (by omega) s .here
          exact ⟨hs.1, hs.2 hc⟩
      · rw [if_neg hle]
        simp only [List.mem_cons, forall_eq_or_imp, ih]
        constructor
        · rintro ⟨hs, hs1, h⟩ k hk q hl
          cases hl with
          | here => exact ⟨hs, fun _ => hs1⟩
          | jump _ _ hl => exact h _ (by omega) q hl
        · intro h
          have hs := h 0 (by omega) s .here
          refine ⟨hs.1, hs.2 hc, fun k hk q hl => ?_⟩
          exact h (k + 1) (by omega) q (.jump hc (not_le.mp hle) hl)
    · have hone : PointersInside d start s (n + 1) ↔ s < d.size.toNat := by
        constructor
        · exact fun h => (h 0 (by omega) s .here).1
        · intro hs k hk q hl
          rw [(leads_of_ne hl hc).2]
          exact ⟨hs, fun h => absurd h hc⟩
      rw [hone]
      by_cases h0 : d.byte s = 0x00
      · rw [if_pos h0]
        simp
      · rw [if_neg h0, if_neg hc]
        simp

theorem getExtractNamePos_eq_some {s q : Nat} :
    (getExtractNamePos d s).1 = some q ↔ LabelAt d s q := extractLoop_eq_some

theorem getExtractNamePos_inside {s : Nat} :
    (∀ r ∈ (getExtractNamePos d s).2, r < d.size.toNat) ↔ PointersInside d s s 33 :=
  extractLoop_inside

theorem getExtractNamePos_of_label {s q : Nat} (h : LabelAt d s q) :
    getExtractNamePos d s = (some q, (getExtractNamePos d s).2) :=
  Prod.ext (getExtractNamePos_eq_some.mpr h) rfl

theorem not_labelAt {s : Nat} (h : (getExtractNamePos d s).1 = none) (q : Nat) :
    ¬ LabelAt d s q := by
  intro hq
  rw [getExtractNamePos_eq_some.mpr hq] at h
  cases h

theorem LabelAt.unique {s q q' : Nat} (h : LabelAt d s q) (h' : LabelAt d s q') : q = q' := by
  rw [← getExtractNamePos_eq_some] at h h'
  exact Option.some.inj (h.symm.trans h')

end

theorem bytesAt_succ (d : Datagram) (s n : Nat) :
    d.bytesAt s (n + 1) = d.byte s :: d.bytesAt (s + 1) n := by
  rw [Datagram.bytesAt, List.range'_succ, List.map_cons]
  rfl

@[simp] theorem length_bytesAt (d : Datagram) (s n : Nat) : (d.bytesAt s n).length = n := by
  rw [Datagram.bytesAt, List.length_map, List.length_range']

theorem bytesAt_ne_nil {d : Datagram} {s n : Nat} (h : 0 < n) : d.bytesAt s n ≠ [] := by
  intro hnil
  rw [← length_bytesAt d s n, hnil] at h
  exact lt_irrefl 0 h

theorem bytesAt_add (d : Datagram) (s m n : Nat) :
    d.bytesAt s (m + n) = d.bytesAt s m ++ d.bytesAt (s + m) n := by
  rw [Datagram.bytesAt, ← List.range'_append_1, List.map_append]
  rfl

section

variable {d : Datagram} {p : List UInt8}

theorem memcmp_eq_true {s n : Nat} :
    memcmp d p s n = some true ↔ p.take n = d.bytesAt s n := by
  induction n generalizing s p with
  | zero => simp [memcmp, Datagram.bytesAt]
  | succ n ih =>
    rw [bytesAt_succ]
    cases p with
    | nil => simp [memcmp]
    | cons c p =>
      rw [memcmp, List.take_succ_cons, List.cons.injEq]
      by_cases hc : c = d.byte s
      · rw [if_pos hc, ih]
        exact (and_iff_right hc).symm
      · rw [if_neg hc]
        exact iff_of_false (by simp) fun h => hc h.1

/-- The array of the string ends before a difference. -/
theorem memcmp_eq_none {s n : Nat} :
    memcmp d p s n = none ↔ p.length < n ∧ p = d.bytesAt s p.length := by
  induction n generalizing s p with
  | zero => simp [memcmp]
  | succ n ih =>
    cases p with
    | nil => simp [memcmp, Datagram.bytesAt]
    | cons c p =>
      rw [memcmp, List.length_cons, bytesAt_succ, List.cons.injEq, Nat.add_lt_add_iff_right]
      by_cases hc : c = d.byte s
      · rw [if_pos hc, ih]
        simp only [hc, true_and]
      · rw [if_neg hc]
        exact iff_of_false (by simp) fun h => hc h.2.1

theorem strnicmp_eq_true {s : Nat} {t : List UInt8} : (strnicmp d s t).1 = true ↔
    (d.bytesAt s t.length).map tolower = t.map tolower := by
  induction t generalizing s with
  | nil => simp [strnicmp, Datagram.bytesAt]
  | cons c t ih =>
    rw [strnicmp, List.length_cons, bytesAt_succ, List.map_cons, List.map_cons, List.cons.injEq]
    by_cases hc : tolower (d.byte s) = tolower c
    · rw [if_neg fun h => h.2 hc, ← ih]
      exact (and_iff_right hc).symm
    · have hne : d.byte s ≠ c := fun h => hc (by rw [h])
      rw [if_pos ⟨hne, hc⟩]
      exact iff_of_false (by simp) fun h => hc h.1

theorem strnicmp_inside {s : Nat} {t : List UInt8} :
    (∀ r ∈ (strnicmp d s t).2, r < d.size.toNat) ↔ ∀ k < t.length,
      (d.bytesAt s k).map tolower = (t.take k).map tolower → s + k < d.size.toNat := by
  induction t generalizing s with
  | nil => simp [strnicmp]
  | cons c t ih =>
    have hzero : (d.bytesAt s 0).map tolower = ((c :: t).take 0).map tolower := rfl
    rw [strnicmp]
    by_cases hc : tolower (d.byte s) = tolower c
    · rw [if_neg fun h => h.2 hc]
      simp only [List.mem_cons, forall_eq_or_imp, ih, List.length_cons]
      constructor
      · rintro ⟨hs, h⟩ k hk heq
        cases k with
        | zero => exact hs
        | succ k =>
          rw [bytesAt_succ, List.take_succ_cons, List.map_cons, List.map_cons,
            List.cons.injEq] at heq
          have hin := h k (by omega) heq.2
          omega
      · intro h
        refine ⟨h 0 (by omega) hzero, fun k hk heq => ?_⟩
        have hin := h (k + 1) (by omega) (by
          rw [bytesAt_succ, List.take_succ_cons, List.map_cons, List.map_cons, hc, heq])
        omega
    · have hne : d.byte s ≠ c := fun h => hc (by rw [h])
      rw [if_pos ⟨hne, hc⟩]
      simp only [List.mem_cons, List.not_mem_nil, or_false, forall_eq, List.length_cons]
      constructor
      · intro hs k hk heq
        cases k with
        | zero => exact hs
        | succ k =>
          rw [bytesAt_succ, List.take_succ_cons, List.map_cons, List.map_cons,
            List.cons.injEq] at heq
          exact absurd heq.1 hc
      · exact fun h => h 0 (by omega) hzero

end

section

variable {d : Datagram} {s q : Nat} {p : List UInt8}

theorem len_pos (h : LabelAt d s q) : 0 < d.len q := by
  obtain ⟨n, -, -, h0, -⟩ := h
  exact Nat.pos_of_ne_zero fun hz => h0 (UInt8.toNat_inj.mp hz)

theorem ne_nil_of_round (h : Round d s p q) : p ≠ [] := by
  rintro rfl
  have hlen := congrArg List.length h.bytes
  rw [List.take_nil, length_bytesAt] at hlen
  exact absurd hlen.symm (len_pos h.label).ne'

theorem round_length (h : Round d s p q) : d.len q ≤ p.length := by
  have hlen := congrArg List.length h.bytes
  rw [List.length_take, length_bytesAt] at hlen
  omega

/-- Without a label the loop ends. -/
theorem protocolLoop_null (h : (getExtractNamePos d s).1 = none) :
    protocolLoop d s p = (some false, (getExtractNamePos d s).2) := by
  rw [protocolLoop.eq_def]
  rw [show getExtractNamePos d s = (none, (getExtractNamePos d s).2) from Prod.ext h rfl]

/-- One round of the loop over what is left of the string. -/
theorem protocolLoop_label (h : LabelAt d s q) (hp : p ≠ []) :
    protocolLoop d s p =
      if p.head? = some 0 then
        if d.size.toNat < q + 7 + 4 then (some false, (getExtractNamePos d s).2)
        else (memcmp d localName q 7, (getExtractNamePos d s).2 ++ List.range' q 7)
      else if d.size.toNat < q + 1 + d.len q + 4 then
        (some false, (getExtractNamePos d s).2 ++ [q])
      else if memcmp d p (q + 1) (d.len q) = some true then
        ((protocolLoop d (q + 1 + d.len q) (p.drop (d.len q + 1))).1,
          (getExtractNamePos d s).2 ++ (List.range' q (1 + d.len q) ++
            (protocolLoop d (q + 1 + d.len q) (p.drop (d.len q + 1))).2))
      else (memcmp d p (q + 1) (d.len q),
        (getExtractNamePos d s).2 ++ List.range' q (1 + d.len q)) := by
  obtain ⟨c, p', rfl⟩ := List.exists_cons_of_ne_nil hp
  rw [protocolLoop.eq_def]
  rw [getExtractNamePos_of_label h]
  simp only [List.head?_cons, Option.some.injEq, List.drop_succ_cons]

theorem protocolLoop_nil (h : LabelAt d s q) :
    protocolLoop d s [] = (none, (getExtractNamePos d s).2) := by
  rw [protocolLoop.eq_def]
  rw [getExtractNamePos_of_label h]

theorem range'_inside {n : Nat} (h : q + n ≤ d.size.toNat) :
    ∀ r ∈ List.range' q n, r < d.size.toNat := by
  intro r hr
  rw [List.mem_range'_1] at hr
  omega

theorem runsAlong_iff (h : LabelAt d s q) (hmore : p.head? ≠ some 0) :
    (∃ ls, RunsAlong d s p ls) ↔ Round d s p q ∧
      ∃ ls, RunsAlong d (q + 1 + d.len q) (p.drop (d.len q + 1)) ls := by
  constructor
  · intro h
    obtain ⟨ls, hr⟩ := h
    cases hr with
    | last _ hz => exact absurd hz hmore
    | label hround hr =>
      rw [← hround.label.unique h]
      exact ⟨hround, _, hr⟩
  · intro h
    obtain ⟨hround, ls, hr⟩ := h
    exact ⟨_, .label hround hr⟩

/-- The loop is TRUE when labels run along the string. -/
theorem protocolLoop_eq_true : (protocolLoop d s p).1 = some true ↔ ∃ ls, RunsAlong d s p ls := by
  induction hn : p.length using Nat.strongRecOn generalizing s p with
  | ind n ih =>
    cases hex : (getExtractNamePos d s).1 with
    | none =>
      have hno : ∀ q, ¬ LabelAt d s q := not_labelAt hex
      rw [protocolLoop_null hex]
      refine iff_of_false (by simp) ?_
      intro h
      obtain ⟨ls, hr⟩ := h
      cases hr with
      | last h => exact hno _ h
      | label h => exact hno _ h.label
    | some q =>
      have hq := getExtractNamePos_eq_some.mp hex
      by_cases hp : p = []
      · subst hp
        rw [protocolLoop_nil hq]
        refine iff_of_false (by simp) ?_
        intro h
        obtain ⟨ls, hr⟩ := h
        cases hr with
        | last _ hz => cases hz
        | label h => exact ne_nil_of_round h rfl
      rw [protocolLoop_label hq hp]
      by_cases hz : p.head? = some 0
      · rw [if_pos hz]
        have hlast : (∃ ls, RunsAlong d s p ls) ↔
            q + 7 + 4 ≤ d.size.toNat ∧ d.bytesAt q 7 = localName := by
          constructor
          · intro h
            obtain ⟨ls, hr⟩ := h
            cases hr with
            | last h _ hroom hl =>
              rw [← h.unique hq]
              exact ⟨hroom, hl⟩
            | label h => exact absurd hz h.more
          · intro h
            obtain ⟨hroom, hl⟩ := h
            exact ⟨[], .last hq hz hroom hl⟩
        rw [hlast]
        by_cases hroom : d.size.toNat < q + 7 + 4
        · rw [if_pos hroom]
          exact iff_of_false (by simp) fun h => by omega
        · rw [if_neg hroom, memcmp_eq_true]
          exact eq_comm.trans (and_iff_right (not_lt.mp hroom)).symm
      · rw [if_neg hz, runsAlong_iff hq hz]
        by_cases hroom : d.size.toNat < q + 1 + d.len q + 4
        · rw [if_pos hroom]
          exact iff_of_false (by simp) fun h => by have := h.1.room; omega
        rw [if_neg hroom]
        by_cases hm : memcmp d p (q + 1) (d.len q) = some true
        · rw [if_pos hm]
          have hround : Round d s p q := ⟨hq, hz, not_lt.mp hroom, memcmp_eq_true.mp hm⟩
          have hpos := List.length_pos_of_ne_nil hp
          rw [and_iff_right hround]
          exact ih _ (by rw [List.length_drop]; omega) rfl
        · rw [if_neg hm]
          exact iff_of_false hm fun h => hm (memcmp_eq_true.mpr h.1.bytes)

theorem reached_iff {P : Nat → List UInt8 → Prop} :
    (∀ s' p', Reached d s p s' p' → P s' p') ↔ P s p ∧ ∀ q, Round d s p q →
      ∀ s' p', Reached d (q + 1 + d.len q) (p.drop (d.len q + 1)) s' p' → P s' p' := by
  constructor
  · exact fun h => ⟨h s p .here, fun q hq s' p' hr => h s' p' (.round hq hr)⟩
  · rintro ⟨h, hnext⟩ s' p' hr
    cases hr with
    | here => exact h
    | round hq hr => exact hnext _ hq _ _ hr

theorem reads_inside_append {reads more : List Nat} :
    (∀ r ∈ reads ++ more, r < d.size.toNat) ↔
      (∀ r ∈ reads, r < d.size.toNat) ∧ ∀ r ∈ more, r < d.size.toNat := by
  simp only [List.mem_append, or_imp, forall_and]

/-- Where a label is found, its round is inside by the pointers before it and the string. -/
theorem roundInside_iff (h : LabelAt d s q) : RoundInside d s p ↔
    PointersInside d s s 33 ∧ p ≠ [] ∧
      (p.head? ≠ some 0 → q + 1 + d.len q + 4 ≤ d.size.toNat →
        d.len q ≤ p.length ∨ p ≠ d.bytesAt (q + 1) p.length) := by
  constructor
  · exact fun hr => ⟨hr.pointers, hr.string q h⟩
  · intro h
    obtain ⟨hp, hs⟩ := h
    refine ⟨hp, fun q' hq' => ?_⟩
    rw [hq'.unique h]
    exact hs

theorem label_lt (h : LabelAt d s q) (hp : PointersInside d s s 33) : q < d.size.toNat := by
  obtain ⟨n, hn, hl, -, -⟩ := h
  exact (hp n hn q hl).1

/-- Nothing is read outside when nothing is in any round that is reached. -/
theorem protocolLoop_inside : (protocolLoop d s p).1.isSome = true ∧
      (∀ r ∈ (protocolLoop d s p).2, r < d.size.toNat) ↔
    ∀ s' p', Reached d s p s' p' → RoundInside d s' p' := by
  induction hn : p.length using Nat.strongRecOn generalizing s p with
  | ind n ih =>
    rw [reached_iff]
    cases hex : (getExtractNamePos d s).1 with
    | none =>
      have hno : ∀ q, ¬ LabelAt d s q := not_labelAt hex
      rw [protocolLoop_null hex]
      constructor
      · intro h
        obtain ⟨-, hreads⟩ := h
        exact ⟨⟨getExtractNamePos_inside.mp hreads, fun q hq => absurd hq (hno q)⟩,
          fun q hq => absurd hq.label (hno q)⟩
      · intro h
        obtain ⟨hr, -⟩ := h
        exact ⟨rfl, getExtractNamePos_inside.mpr hr.pointers⟩
    | some q =>
      have hq := getExtractNamePos_eq_some.mp hex
      rw [roundInside_iff hq]
      by_cases hp : p = []
      · subst hp
        rw [protocolLoop_nil hq]
        exact iff_of_false (by simp) fun h => h.1.2.1 rfl
      rw [protocolLoop_label hq hp]
      have hnot : ∀ {P : Nat → Prop}, ¬ Round d s p q → ∀ q', Round d s p q' → P q' := by
        intro P hno q' hq'
        rw [hq'.label.unique hq] at hq'
        exact absurd hq' hno
      by_cases hz : p.head? = some 0
      · rw [if_pos hz]
        have hsome : (memcmp d localName q 7).isSome = true := by
          rw [Option.isSome_iff_ne_none, Ne, memcmp_eq_none]
          exact fun h => lt_irrefl _ h.1
        by_cases hroom : d.size.toNat < q + 7 + 4
        · rw [if_pos hroom, getExtractNamePos_inside]
          exact ⟨fun h => ⟨⟨h.2, hp, fun hmore => absurd hz hmore⟩,
            hnot fun h => h.more hz⟩, fun h => ⟨rfl, h.1.1⟩⟩
        · rw [if_neg hroom, reads_inside_append, getExtractNamePos_inside]
          exact ⟨fun h => ⟨⟨h.2.1, hp, fun hmore => absurd hz hmore⟩,
            hnot fun h => h.more hz⟩, fun h => ⟨hsome, h.1.1, range'_inside (by omega)⟩⟩
      rw [if_neg hz]
      by_cases hroom : d.size.toNat < q + 1 + d.len q + 4
      · rw [if_pos hroom, reads_inside_append, getExtractNamePos_inside]
        constructor
        · intro h
          obtain ⟨-, hpointers, -⟩ := h
          exact ⟨⟨hpointers, hp, fun _ h => by omega⟩,
            hnot fun h => by have := h.room; omega⟩
        · intro h
          obtain ⟨⟨hpointers, -⟩, -⟩ := h
          refine ⟨rfl, hpointers, fun r hr => ?_⟩
          rw [List.mem_singleton.mp hr]
          exact label_lt hq hpointers
      rw [if_neg hroom]
      have hlabel : ∀ r ∈ List.range' q (1 + d.len q), r < d.size.toNat :=
        range'_inside (by omega)
      by_cases hm : memcmp d p (q + 1) (d.len q) = some true
      · have hround : Round d s p q := ⟨hq, hz, not_lt.mp hroom, memcmp_eq_true.mp hm⟩
        have hpos := List.length_pos_of_ne_nil hp
        have hnext := ih _ (by rw [List.length_drop]; omega)
          (s := q + 1 + d.len q) (p := p.drop (d.len q + 1)) rfl
        rw [if_pos hm, reads_inside_append, reads_inside_append, getExtractNamePos_inside]
        constructor
        · intro h
          obtain ⟨hsome, hpointers, -, hreads⟩ := h
          refine ⟨⟨hpointers, hp, fun _ _ => .inl (round_length hround)⟩, fun q' hq' => ?_⟩
          rw [hq'.label.unique hq]
          exact hnext.mp ⟨hsome, hreads⟩
        · intro h
          obtain ⟨⟨hpointers, -⟩, hall⟩ := h
          obtain ⟨hsome, hreads⟩ := hnext.mpr (hall q hround)
          exact ⟨hsome, hpointers, hlabel, hreads⟩
      · rw [if_neg hm, reads_inside_append, getExtractNamePos_inside]
        have hsome : (memcmp d p (q + 1) (d.len q)).isSome = true ↔
            (d.len q ≤ p.length ∨ p ≠ d.bytesAt (q + 1) p.length) := by
          rw [Option.isSome_iff_ne_none, Ne, memcmp_eq_none, not_and_or, not_lt]
        rw [hsome]
        constructor
        · intro h
          obtain ⟨hs, hpointers, -⟩ := h
          exact ⟨⟨hpointers, hp, fun _ _ => hs⟩, hnot fun h => hm (memcmp_eq_true.mpr h.bytes)⟩
        · intro h
          obtain ⟨⟨hpointers, -, hs⟩, -⟩ := h
          exact ⟨hs hz (not_lt.mp hroom), hpointers, hlabel⟩

end

/-- Labels in a string, a dot between each two and a zero behind the last. -/
def dotted (rest : List UInt8) : List (List UInt8) → List UInt8
  | [] => rest
  | l :: ls => l ++ (if ls.isEmpty then 0 else 0x2e) :: dotted rest ls

/-- What the array holds behind the labels and their separators. -/
def behind (s : CString) : List UInt8 := if s.text = [] then 0 :: s.rest else s.rest

theorem dotted_eq {rest : List UInt8} {ls : List (List UInt8)} (h : ls ≠ []) :
    dotted rest ls = [0x2e].intercalate ls ++ 0 :: rest := by
  induction ls with
  | nil => exact absurd rfl h
  | cons l ls ih =>
    cases ls with
    | nil => simp [dotted]
    | cons l' ls =>
      rw [dotted, ih (List.cons_ne_nil l' ls), List.intercalate_cons_cons]
      simp

theorem bytes_eq (protocol : CString) :
    protocol.bytes = dotted (behind protocol) (serviceLabels protocol) := by
  unfold CString.bytes behind serviceLabels
  by_cases h : protocol.text = []
  · rw [if_pos h, if_pos h, h]
    rfl
  · rw [if_neg h, if_neg h, dotted_eq (List.splitOn_ne_nil _ _), List.intercalate_splitOn]

theorem behind_iff (protocol : CString) : (behind protocol).head? = some 0 ↔
    (protocol.text ≠ [] → protocol.rest.head? = some 0) := by
  unfold behind
  split
  · next h => simp [h]
  · next h => simp [h]

theorem mem_intercalate (sep : UInt8) {c : UInt8} {l : List UInt8} {ls : List (List UInt8)}
    (hl : l ∈ ls) (hc : c ∈ l) : c ∈ [sep].intercalate ls := by
  induction ls with
  | nil => cases hl
  | cons l' ls ih =>
    cases ls with
    | nil =>
      rw [List.mem_singleton.mp hl] at hc
      simpa using hc
    | cons l'' ls =>
      rw [List.intercalate_cons_cons]
      rcases List.mem_cons.mp hl with rfl | hl
      · simp [hc]
      · simp [ih hl]

theorem serviceLabels_ne {protocol : CString} {l : List UInt8} (h : l ∈ serviceLabels protocol) :
    ∀ c ∈ l, c ≠ 0 := by
  intro c hc
  unfold serviceLabels at h
  split at h
  · cases h
  · have hmem := mem_intercalate 0x2e h hc
    rw [List.intercalate_splitOn] at hmem
    exact protocol.text_ne c hmem

theorem take_dotted (rest l : List UInt8) (ls : List (List UInt8)) :
    (dotted rest (l :: ls)).take l.length = l := by
  rw [dotted, List.take_left]

theorem drop_dotted (rest l : List UInt8) (ls : List (List UInt8)) :
    (dotted rest (l :: ls)).drop (l.length + 1) = dotted rest ls := by
  rw [dotted, List.drop_length_add_append]
  rfl

theorem head_dotted {rest l : List UInt8} {ls : List (List UInt8)} (hl : l ≠ [])
    (hne : ∀ c ∈ l, c ≠ 0) : (dotted rest (l :: ls)).head? ≠ some 0 := by
  obtain ⟨c, l', rfl⟩ := List.exists_cons_of_ne_nil hl
  exact fun h => hne c List.mem_cons_self (Option.some.inj h)

section

variable {d : Datagram} {start s q : Nat} {rest : List UInt8} {ls : List (List UInt8)}

theorem pointerTarget_eq (hc : d.byte s = 0xc0) : pointerTarget d s = d.len (s + 1) := by
  have hlen : d.len s = 0xc0 := congrArg UInt8.toNat hc
  rw [pointerTarget, hlen]
  omega

/-- The pointers that the function follows are pointers. -/
theorem refers_of_leads {n : Nat} (h : Leads d start s n q)
    (hin : PointersInside d start s (n + 1)) : Refers d start s q := by
  induction h with
  | here => exact .here (hin 0 (by omega) _ .here).1
  | @jump s n q hc hlt hl ih =>
    have hs := (hin 0 (by omega) s .here).2 hc
    have htarget := pointerTarget_eq hc
    refine .jump (by rw [hc]; exact UInt8.le_refl _) hs (by rw [htarget]; exact hlt) ?_
    rw [htarget]
    exact ih fun k hk q hq => hin (k + 1) (by omega) q (.jump hc hlt hq)

theorem refers_of_label (h : LabelAt d s q) (hin : PointersInside d s s 33) : Refers d s s q := by
  obtain ⟨n, hn, hl, -⟩ := h
  exact refers_of_leads hl fun k hk => hin k (by omega)

/-- Where both find a label of fewer than `0xc0` bytes, it is the same. -/
theorem leads_eq_refers {n q' : Nat} (hl : Leads d start s n q) (hr : Refers d start s q')
    (hq : d.byte q < 0xc0) (hq' : d.byte q' < 0xc0) : q = q' := by
  induction hl with
  | here =>
    cases hr with
    | here => rfl
    | jump hc => exact absurd hq (UInt8.not_lt.mpr hc)
  | @jump s n q hc hlt hl ih =>
    cases hr with
    | here =>
      rw [hc] at hq'
      exact absurd hq' (UInt8.lt_irrefl _)
    | jump _ _ _ hr =>
      rw [pointerTarget_eq hc] at hr
      exact ih hr hq

/-- `local` with the root behind it is decoded as a name. -/
theorem nameAt_local (h : Refers d s s q) (hroom : q + 7 + 4 ≤ d.size.toNat)
    (hl : d.bytesAt q 7 = localName) : NameAt d s [localLabel] := by
  have hall : d.byte q :: (d.bytesAt (q + 1) 5 ++ d.bytesAt (q + 1 + 5) 1) =
      5 :: (localLabel ++ [0]) := by
    rw [← bytesAt_add, ← bytesAt_succ]
    exact hl
  obtain ⟨h5, htail⟩ := List.cons.inj hall
  obtain ⟨hlabel, hzero⟩ := List.append_inj htail (length_bytesAt d _ 5)
  have hlen : d.len q = 5 := congrArg UInt8.toNat h5
  have hroot : NameAt d (q + 1 + d.len q) [] := by
    rw [hlen]
    exact .root (.here (by omega)) (List.cons.inj hzero).1
  have hname := NameAt.label h (by rw [h5]; decide) (by rw [h5]; decide) (by omega) hroot
  rwa [hlen, hlabel] at hname

/-- Labels that run along the string are decoded as a name, when none is too long for one. -/
theorem nameAt_of_runsAlong {p : List UInt8} (h : RunsAlong d s p ls)
    (hin : ∀ s' p', Reached d s p s' p' → RoundInside d s' p')
    (hlen : ∀ l ∈ ls, l.length < 64) : NameAt d s (ls ++ [localLabel]) := by
  induction h with
  | last hq _ hroom hl => exact nameAt_local (refers_of_label hq (hin _ _ .here).pointers) hroom hl
  | @label s q p ls hround _ ih =>
    have hq := hround.label
    have hroom := hround.room
    have h64 : d.len q < 64 := by
      have := hlen _ List.mem_cons_self
      rwa [length_bytesAt] at this
    have hne : d.byte q ≠ 0 := fun h0 => (len_pos hq).ne' (congrArg UInt8.toNat h0)
    exact .label (refers_of_label hq (hin _ _ .here).pointers) hne h64 (by omega)
      (ih (fun s' p' hr => hin s' p' (.round hround hr)) fun l hl =>
        hlen l (List.mem_cons_of_mem _ hl))

/-- What is written plainly runs along the string, when a second zero ends it. -/
theorem runsAlong_of_plain (h : Plain d s ls) (hrest : rest.head? = some 0)
    (hne : ∀ l ∈ ls, ∀ c ∈ l, c ≠ 0) : RunsAlong d s (dotted rest ls) ls := by
  induction h with
  | last hq hroom hl => exact .last hq hrest hroom hl
  | @label s q ls hq hroom _ ih =>
    have hpos := len_pos hq
    have htake := take_dotted rest (d.bytesAt (q + 1) (d.len q)) ls
    have hdrop := drop_dotted rest (d.bytesAt (q + 1) (d.len q)) ls
    rw [length_bytesAt] at htake hdrop
    refine .label ⟨hq, ?_, hroom, htake⟩ ?_
    · exact head_dotted (bytesAt_ne_nil hpos) (hne _ List.mem_cons_self)
    · rw [hdrop]
      exact ih fun l hl => hne l (List.mem_cons_of_mem _ hl)

/-- A first byte from `0xc1` on would be a label of more bytes than a short string has. -/
theorem lt_pointer_of_len (h : LabelAt d s q) (hlen : d.len q < 193) : d.byte q < 0xc0 := by
  obtain ⟨-, -, -, -, hc⟩ := h
  have hne : d.len q ≠ 192 := fun h => hc (UInt8.toNat_inj.mp h)
  exact UInt8.lt_iff_toNat_lt.mpr (show d.len q < 192 by omega)

theorem exists_label_of_runsAlong {p : List UInt8} (h : RunsAlong d s p ls)
    (hshort : p.length < 193) : ∃ q, LabelAt d s q ∧ d.byte q < 0xc0 := by
  cases h with
  | @last s q p hq _ _ hl =>
    rw [bytesAt_succ] at hl
    exact ⟨q, hq, by rw [(List.cons.inj hl).1]; decide⟩
  | label hround =>
    exact ⟨_, hround.label,
      lt_pointer_of_len hround.label (lt_of_le_of_lt (round_length hround) hshort)⟩

theorem eq_of_refers {q' : Nat} (h : LabelAt d s q) (hr : Refers d s s q')
    (hq : d.byte q < 0xc0) (hq' : d.byte q' < 0xc0) : q = q' := by
  obtain ⟨n, -, hl, -⟩ := h
  exact leads_eq_refers hl hr hq hq'

/-- No label is found where a name ends. -/
theorem not_runsAlong_of_root {p : List UInt8} (h : NameAt d s []) (hshort : p.length < 193) :
    ¬ RunsAlong d s p ls := by
  intro hrun
  obtain ⟨q, hq, hlt⟩ := exists_label_of_runsAlong hrun hshort
  cases h with
  | root hr h0 =>
    rw [← eq_of_refers hq hr hlt (by rw [h0]; decide)] at h0
    obtain ⟨-, -, -, hne, -⟩ := hq
    exact hne h0

/-- A label in the name is the one that the round takes. -/
theorem round_of_name {p l : List UInt8} (hname : NameAt d s (l :: ls)) (hround : Round d s p q)
    (hshort : p.length < 193) :
    l = d.bytesAt (q + 1) (d.len q) ∧ d.len q < 64 ∧ NameAt d (q + 1 + d.len q) ls := by
  have hlt := lt_pointer_of_len hround.label (lt_of_le_of_lt (round_length hround) hshort)
  cases hname with
  | @label _ q' _ hr _ h64 _ hnext =>
    have hc : d.byte q' < 0xc0 := UInt8.lt_trans h64 (by decide)
    obtain rfl := eq_of_refers hround.label hr hlt hc
    exact ⟨rfl, h64, hnext⟩

/-- A name that is asked for and that the labels run along is written plainly, and they are its
labels. -/
theorem plain_of_runsAlong {ls' : List (List UInt8)} (hname : NameAt d s (ls ++ [localLabel]))
    (hrun : RunsAlong d s (dotted rest ls) ls') (hshort : (dotted rest ls).length < 193)
    (hne : ∀ l ∈ ls, ∀ c ∈ l, c ≠ 0) :
    Plain d s ls ∧ rest.head? = some 0 ∧ ls' = ls ∧ ∀ l ∈ ls, l.length < 64 := by
  induction ls generalizing s ls' with
  | nil =>
    cases hrun with
    | last hq hz hroom hl =>
      exact ⟨.last hq hroom hl, hz, rfl, fun l hl => absurd hl List.not_mem_nil⟩
    | label hround hnext =>
      obtain ⟨-, -, hroot⟩ := round_of_name hname hround hshort
      refine absurd hnext (not_runsAlong_of_root hroot ?_)
      rw [List.length_drop]
      exact lt_of_le_of_lt (Nat.sub_le _ _) hshort
  | cons l ls ih =>
    have hl : l ≠ [] := by
      cases hname with
      | label _ h0 => exact bytesAt_ne_nil (Nat.pos_of_ne_zero fun h => h0 (UInt8.toNat_inj.mp h))
    cases hrun with
    | last _ hz => exact absurd hz (head_dotted hl (hne l List.mem_cons_self))
    | @label _ q _ _ hround hnext =>
      obtain ⟨rfl, h64, hname⟩ := round_of_name hname hround hshort
      have hdrop := drop_dotted rest (d.bytesAt (q + 1) (d.len q)) ls
      rw [length_bytesAt] at hdrop
      rw [hdrop] at hnext
      have hlen : (dotted rest ls).length < 193 := by
        rw [← hdrop, List.length_drop]
        exact lt_of_le_of_lt (Nat.sub_le _ _) hshort
      obtain ⟨hplain, hz, rfl, hall⟩ :=
        ih hname hnext hlen fun l hl => hne l (List.mem_cons_of_mem _ hl)
      refine ⟨.label hround.label hround.room hplain, hz, rfl, fun l hl => ?_⟩
      rcases List.mem_cons.mp hl with rfl | hl
      · rw [length_bytesAt]
        exact h64
      · exact hall l hl

end

section

variable {d : Datagram} {s q : Nat} {name : CString}

/-- The name is compared as far as the label goes. -/
theorem take_length_of_len (h : d.byte q = UInt8.ofNat name.text.length) :
    (name.text.take (d.len q)).length = d.len q := by
  have hlen : d.len q = name.text.length % 256 := by
    rw [Datagram.len, h, UInt8.toNat_ofNat']
  rw [List.length_take, hlen]
  exact Nat.min_eq_left (Nat.mod_le _ _)

theorem len_eq_of_lt (h : d.byte q = UInt8.ofNat name.text.length) (hlt : name.text.length < 64) :
    d.len q = name.text.length := by
  rw [Datagram.len, h, UInt8.toNat_ofNat', Nat.mod_eq_of_lt (by omega)]

/-- What the function does at the label that it compares with the name. -/
theorem isEqualName_label {pos : Int} {protocol : CString} (hs : (pos % 256).toNat = s)
    (hq : LabelAt d s q) : isEqualName d pos (some name) protocol =
      if d.byte q ≠ UInt8.ofNat name.text.length then
        (some false, (getExtractNamePos d s).2 ++ [q])
      else if (strnicmp d (q + 1) (name.text.take (d.len q))).1 then
        ((protocolLoop d (q + 1 + d.len q) protocol.bytes).1, (getExtractNamePos d s).2 ++
          (q :: (strnicmp d (q + 1) (name.text.take (d.len q))).2 ++
            (protocolLoop d (q + 1 + d.len q) protocol.bytes).2))
      else (some false, (getExtractNamePos d s).2 ++
        q :: (strnicmp d (q + 1) (name.text.take (d.len q))).2) := by
  unfold isEqualName
  dsimp only
  rw [hs, getExtractNamePos_of_label hq]
  dsimp only
  by_cases htmp : d.byte q = UInt8.ofNat name.text.length
  · have hlen : (UInt8.ofNat name.text.length).toNat = d.len q := by rw [← htmp]; rfl
    rw [if_neg (not_not.mpr htmp.symm), if_neg (not_not.mpr htmp), hlen]
  · rw [if_pos (Ne.symm htmp), if_pos htmp]

theorem isEqualName_null {pos : Int} {protocol : CString} (hs : (pos % 256).toNat = s)
    (h : (getExtractNamePos d s).1 = none) :
    isEqualName d pos (some name) protocol = (some false, (getExtractNamePos d s).2) := by
  have hex : getExtractNamePos d s = (none, (getExtractNamePos d s).2) := Prod.ext h rfl
  unfold isEqualName
  dsimp only
  rw [hs, hex]

end

section

variable {d : Datagram} {s : Nat} {pos : Int} {name : Option CString} {protocol : CString}

theorem starts_some {name : CString} {q s' : Nat} (hq : LabelAt d s q) :
    Starts d s (some name) s' ↔ d.byte q = UInt8.ofNat name.text.length ∧
      (d.bytesAt (q + 1) (d.len q)).map tolower = (name.text.take (d.len q)).map tolower ∧
        s' = q + 1 + d.len q := by
  constructor
  · intro h
    obtain ⟨q', hq', h⟩ := h
    rw [hq'.unique hq] at h
    exact h
  · exact fun h => ⟨q, hq, h⟩

/-- The function is TRUE when labels run along the string from where the protocol starts. -/
theorem isEqualName_eq_true (hs : (pos % 256).toNat = s) :
    (isEqualName d pos name protocol).1 = some true ↔
      ∃ s' ls, Starts d s name s' ∧ RunsAlong d s' protocol.bytes ls := by
  cases name with
  | none =>
    unfold isEqualName
    rw [hs]
    simp only [Starts, exists_and_left, exists_eq_left]
    exact protocolLoop_eq_true
  | some name =>
    cases hex : (getExtractNamePos d s).1 with
    | none =>
      rw [isEqualName_null hs hex]
      refine iff_of_false (by simp) ?_
      intro h
      obtain ⟨s', ls, ⟨q, hq, -⟩, -⟩ := h
      exact not_labelAt hex q hq
    | some q =>
      have hq := getExtractNamePos_eq_some.mp hex
      rw [isEqualName_label hs hq]
      simp only [starts_some hq]
      by_cases htmp : d.byte q = UInt8.ofNat name.text.length
      swap
      · rw [if_pos htmp]
        refine iff_of_false (by simp) ?_
        intro h
        obtain ⟨s', ls, ⟨h, -⟩, -⟩ := h
        exact htmp h
      have hcmp := strnicmp_eq_true (d := d) (s := q + 1) (t := name.text.take (d.len q))
      rw [take_length_of_len htmp] at hcmp
      rw [if_neg (not_not.mpr htmp)]
      by_cases hc : (strnicmp d (q + 1) (name.text.take (d.len q))).1 = true
      · rw [if_pos hc]
        refine protocolLoop_eq_true.trans ⟨?_, ?_⟩
        · intro h
          obtain ⟨ls, hr⟩ := h
          exact ⟨_, ls, ⟨htmp, hcmp.mp hc, rfl⟩, hr⟩
        · intro h
          obtain ⟨s', ls, ⟨-, -, rfl⟩, hr⟩ := h
          exact ⟨ls, hr⟩
      · rw [if_neg hc]
        refine iff_of_false (by simp) ?_
        intro h
        obtain ⟨s', ls, ⟨-, h, -⟩, -⟩ := h
        exact hc (hcmp.mpr h)

/-- It returns and stays in the packet when the name and the rounds do. -/
theorem isEqualName_inside (hs : (pos % 256).toNat = s) :
    ((isEqualName d pos name protocol).1.isSome = true ∧
      ∀ r ∈ (isEqualName d pos name protocol).2, r < d.size.toNat) ↔
    InstanceInside d s name ∧ ∀ s', Starts d s name s' →
      ∀ s'' p, Reached d s' protocol.bytes s'' p → RoundInside d s'' p := by
  cases name with
  | none =>
    unfold isEqualName
    rw [hs]
    simp only [InstanceInside, Starts, true_and, forall_eq]
    exact protocolLoop_inside
  | some name =>
    cases hex : (getExtractNamePos d s).1 with
    | none =>
      have hno : ∀ q, ¬ LabelAt d s q := not_labelAt hex
      rw [isEqualName_null hs hex, getExtractNamePos_inside]
      constructor
      · intro h
        obtain ⟨-, hp⟩ := h
        exact ⟨⟨hp, fun q hq => absurd hq (hno q)⟩,
          fun s' ⟨q, hq, _⟩ => absurd hq (hno q)⟩
      · intro h
        obtain ⟨⟨hp, -⟩, -⟩ := h
        exact ⟨rfl, hp⟩
    | some q =>
      have hq := getExtractNamePos_eq_some.mp hex
      have hinst : InstanceInside d s (some name) ↔ PointersInside d s s 33 ∧
          (d.byte q = UInt8.ofNat name.text.length → ∀ k < d.len q,
            (d.bytesAt (q + 1) k).map tolower = (name.text.take k).map tolower →
              q + 1 + k < d.size.toNat) := by
        refine and_congr_right fun _ => ⟨fun h => h q hq, fun h q' hq' => ?_⟩
        rw [hq'.unique hq]
        exact h
      rw [isEqualName_label hs hq, hinst]
      simp only [starts_some hq]
      by_cases htmp : d.byte q = UInt8.ofNat name.text.length
      swap
      · rw [if_pos htmp, reads_inside_append, getExtractNamePos_inside]
        constructor
        · intro h
          obtain ⟨-, hp, -⟩ := h
          exact ⟨⟨hp, fun h => absurd h htmp⟩, fun s' h => absurd h.1 htmp⟩
        · intro h
          obtain ⟨⟨hp, -⟩, -⟩ := h
          refine ⟨rfl, hp, fun r hr => ?_⟩
          rw [List.mem_singleton.mp hr]
          exact label_lt hq hp
      have hcmp := strnicmp_eq_true (d := d) (s := q + 1) (t := name.text.take (d.len q))
      have hreads := strnicmp_inside (d := d) (s := q + 1) (t := name.text.take (d.len q))
      rw [take_length_of_len htmp] at hcmp hreads
      have hcompared : (∀ r ∈ (strnicmp d (q + 1) (name.text.take (d.len q))).2,
          r < d.size.toNat) ↔ ∀ k < d.len q,
            (d.bytesAt (q + 1) k).map tolower = (name.text.take k).map tolower →
              q + 1 + k < d.size.toNat := by
        rw [hreads]
        refine forall₂_congr fun k hk => ?_
        rw [List.take_take, Nat.min_eq_left hk.le]
      rw [if_neg (not_not.mpr htmp)]
      by_cases hc : (strnicmp d (q + 1) (name.text.take (d.len q))).1 = true
      · rw [if_pos hc, reads_inside_append, getExtractNamePos_inside, reads_inside_append,
          List.forall_mem_cons, hcompared]
        constructor
        · intro h
          obtain ⟨hsome, hp, ⟨-, hlabel⟩, hloop⟩ := h
          refine ⟨⟨hp, fun _ => hlabel⟩, fun s' h => ?_⟩
          rw [h.2.2]
          exact protocolLoop_inside.mp ⟨hsome, hloop⟩
        · intro h
          obtain ⟨⟨hp, hlabel⟩, hall⟩ := h
          obtain ⟨hsome, hloop⟩ :=
            protocolLoop_inside.mpr (hall _ ⟨htmp, hcmp.mp hc, rfl⟩)
          exact ⟨hsome, hp, ⟨label_lt hq hp, hlabel htmp⟩, hloop⟩
      · rw [if_neg hc, reads_inside_append, getExtractNamePos_inside, List.forall_mem_cons,
          hcompared]
        constructor
        · intro h
          obtain ⟨-, hp, -, hlabel⟩ := h
          exact ⟨⟨hp, fun _ => hlabel⟩, fun s' h => absurd (hcmp.mpr h.2.1) hc⟩
        · intro h
          obtain ⟨⟨hp, hlabel⟩, -⟩ := h
          exact ⟨rfl, hp, label_lt hq hp, hlabel htmp⟩

end

section

variable {d : Datagram} {s : Nat} {pos : Int} {name : Option CString} {protocol : CString}

theorem nameAt_lt {ls : List (List UInt8)} (h : NameAt d s ls) : s < d.size.toNat := by
  have hrefers : ∀ {q}, Refers d s s q → s < d.size.toNat := by
    intro q hr
    cases hr with
    | here hs => exact hs
    | jump _ hs => omega
  cases h with
  | root hr => exact hrefers hr
  | label hr => exact hrefers hr

/-- Behind the instance name of a question that asks for the service its labels follow. -/
theorem nameAt_of_asks {s' : Nat} (h : Asks d pos name protocol) (hs : Starts d pos.toNat name s') :
    NameAt d s' (serviceLabels protocol ++ [localLabel]) ∧
      ∀ n, name = some n → n.text.length < 64 := by
  obtain ⟨-, ls, hls, hname⟩ := h
  cases name with
  | none =>
    obtain rfl : ls = [] := hls
    obtain rfl : s' = pos.toNat := hs
    exact ⟨hname, fun n hn => by cases hn⟩
  | some name =>
    obtain ⟨l, rfl, hl⟩ := hls
    obtain ⟨q, hq, htmp, -, rfl⟩ := hs
    cases hname with
    | @label _ q' _ hr _ h64 _ hnext =>
      have hlen : name.text.length = d.len q' := by
        have := congrArg List.length hl
        rw [List.length_map, List.length_map, length_bytesAt] at this
        exact this.symm
      have hlt : name.text.length < 64 := by
        rw [hlen]
        exact h64
      have hq64 : d.byte q < 0xc0 := by
        have := len_eq_of_lt htmp hlt
        exact UInt8.lt_iff_toNat_lt.mpr (show d.len q < 192 by omega)
      obtain rfl := eq_of_refers hq hr hq64 (UInt8.lt_trans h64 (by decide))
      exact ⟨hnext, fun n hn => Option.some.inj hn ▸ hlt⟩

/-- The labels behind the instance name make the question ask for the service. -/
theorem asks_of_nameAt {s' : Nat} (hpos : 0 ≤ pos) (hin : InstanceInside d pos.toNat name)
    (hs : Starts d pos.toNat name s') (hname : NameAt d s' (serviceLabels protocol ++ [localLabel]))
    (hlt : ∀ n, name = some n → n.text.length < 64) : Asks d pos name protocol := by
  cases name with
  | none =>
    obtain rfl : s' = pos.toNat := hs
    exact ⟨hpos, [], rfl, hname⟩
  | some name =>
    obtain ⟨q, hq, htmp, heq, rfl⟩ := hs
    have hlen := len_eq_of_lt htmp (hlt name rfl)
    have h64 := hlt name rfl
    have hne : d.byte q ≠ 0 := fun h0 => (len_pos hq).ne' (congrArg UInt8.toNat h0)
    have hlt := nameAt_lt hname
    rw [hlen, List.take_length] at heq
    refine ⟨hpos, [d.bytesAt (q + 1) (d.len q)], ⟨_, rfl, by rw [hlen]; exact heq⟩, ?_⟩
    exact .label (refers_of_label hq hin.1) hne
      (UInt8.lt_iff_toNat_lt.mpr (show d.len q < 64 by omega)) (by omega) hname

/-- The comparison is right where the name stands as the function reads it. In the packets that
the function can reach with eight bits, and for strings that are shorter than a label from `0xc1`
on would be, it is right nowhere else. -/
theorem isEqualName_right (d : Datagram) (pos : Int) (name : Option CString) (protocol : CString) :
    (NameStands d pos name protocol → EqualName d pos name protocol) ∧
      (0 ≤ pos ∧ pos < 256 → protocol.bytes.length < 193 →
        EqualName d pos name protocol → NameStands d pos name protocol) := by
  have hoff : 0 ≤ pos ∧ pos < 256 → (pos % 256).toNat = pos.toNat := by
    intro h
    obtain ⟨h0, h256⟩ := h
    rw [Int.emod_eq_of_lt h0 h256]
  constructor
  · intro h
    have hs := hoff h.offset
    obtain ⟨hreturns, hinside⟩ := (isEqualName_inside hs).mpr ⟨h.instanceInside, h.inside⟩
    refine ⟨hreturns, hinside, (isEqualName_eq_true hs).trans ⟨?_, fun hasks => ?_⟩⟩
    · intro h
      obtain ⟨s', ls, hst, hrun⟩ := h
      obtain ⟨rfl, hlen, hname⟩ := h.split s' ls hst hrun
      exact asks_of_nameAt h.offset.1 h.instanceInside hst
        (nameAt_of_runsAlong hrun (h.inside s' hst) hlen) hname
    · obtain ⟨⟨s', hst, hplain⟩, hzero⟩ := h.plain hasks
      refine ⟨s', serviceLabels protocol, hst, ?_⟩
      rw [bytes_eq]
      exact runsAlong_of_plain hplain ((behind_iff protocol).mpr hzero) fun l => serviceLabels_ne
  · intro hpos hshort h
    have hs := hoff hpos
    obtain ⟨hinstance, hinside⟩ := (isEqualName_inside hs).mp ⟨h.returns, h.inside⟩
    have hplain : ∀ s' ls, Asks d pos name protocol → Starts d pos.toNat name s' →
        RunsAlong d s' protocol.bytes ls → Plain d s' (serviceLabels protocol) ∧
          (behind protocol).head? = some 0 ∧ ls = serviceLabels protocol ∧
            ∀ l ∈ serviceLabels protocol, l.length < 64 := by
      intro s' ls hasks hst hrun
      rw [bytes_eq] at hrun hshort
      exact plain_of_runsAlong (nameAt_of_asks hasks hst).1 hrun hshort fun l => serviceLabels_ne
    refine ⟨hpos, hinstance, hinside, fun hasks => ?_, fun s' ls hst hrun => ?_⟩
    · obtain ⟨s', ls, hst, hrun⟩ := (isEqualName_eq_true hs).mp (h.equal.mpr hasks)
      obtain ⟨hp, hzero, -, -⟩ := hplain s' ls hasks hst hrun
      exact ⟨⟨s', hst, hp⟩, (behind_iff protocol).mp hzero⟩
    · have hasks := h.equal.mp ((isEqualName_eq_true hs).mpr ⟨s', ls, hst, hrun⟩)
      obtain ⟨-, -, rfl, hlen⟩ := hplain s' ls hasks hst hrun
      exact ⟨rfl, hlen, (nameAt_of_asks hasks hst).2⟩

end

/-- `"_http._tcp\0"` -/
def httpService : CString where
  text := [0x5f, 0x68, 0x74, 0x74, 0x70, 0x2e, 0x5f, 0x74, 0x63, 0x70]
  rest := [0]
  text_ne := by decide

/-- A query for `local` under one label that holds the dot. -/
def dottedLabel : Datagram where
  byte := fun r => [0, 0, 0, 0, 0, 1, 0, 0, 0, 0, 0, 0,
    10, 0x5f, 0x68, 0x74, 0x74, 0x70, 0x2e, 0x5f, 0x74, 0x63, 0x70,
    5, 0x6c, 0x6f, 0x63, 0x61, 0x6c, 0, 0, 12, 0, 1].getD r.toNat 0
  size := 34

/-- The dot in a label is taken for the end of one. -/
theorem not_isEqualName_right : ¬ ∀ d pos name protocol, EqualName d pos name protocol := by
  intro h
  have hround : Round dottedLabel 12 httpService.bytes 12 :=
    ⟨⟨0, by decide, .here, by decide, by decide⟩, by decide, by decide, by decide⟩
  have hlast : RunsAlong dottedLabel 23 [0] [] :=
    .last ⟨0, by decide, .here, by decide, by decide⟩ rfl (by decide) (by decide)
  have hrun : ∃ s' ls, Starts dottedLabel 12 none s' ∧
      RunsAlong dottedLabel s' httpService.bytes ls := ⟨12, _, rfl, .label hround hlast⟩
  have hasks := (h dottedLabel 12 none httpService).equal.mp ((isEqualName_eq_true rfl).mpr hrun)
  have hlabels : serviceLabels httpService =
      [[0x5f, 0x68, 0x74, 0x74, 0x70], [0x5f, 0x74, 0x63, 0x70]] := by decide
  have hstarts : Starts dottedLabel 12 none 12 := rfl
  have hname := (nameAt_of_asks hasks hstarts).1
  rw [hlabels] at hname
  obtain ⟨hl, -⟩ := round_of_name hname hround (by decide)
  exact absurd (congrArg List.length hl) (by decide)

end MDnsServer

end MiMic.Net
