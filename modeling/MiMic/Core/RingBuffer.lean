import MiMic.Core.Stdlib
import MiMic.Lib.Ring

/-!
# The ring buffer

`NyLPC_cRingBuffer` over storage of its caller. The reader looks at what stands in one piece from
the read offset on and says later how much of it to drop.
-/
namespace MiMic

open Verif

/-- `NyLPC_TcRingBuffer`. The storage is what the pointer `buf` shows. -/
structure RingBuffer where
  buf : Memory
  bl : UInt16
  wo : UInt16
  ro : UInt16

namespace RingBuffer

/-- `NyLPC_cRingBuffer_initialize` -/
def init (buf : Memory) (sizeofBuf : UInt16) : RingBuffer where
  buf := buf
  bl := sizeofBuf
  wo := 0
  ro := 0

/-- `for(i=l-1;i>=0;i--){*(p++)=*(i_data++);}`, and the data behind the pointer afterwards. -/
def copy : Nat → Memory → Nat → List UInt8 → Memory × List UInt8
  | 0, buf, _, data => (buf, data)
  | l + 1, buf, p, data => copy l (Function.update buf p (data.headD 0)) (p + 1) data.tail

/-- The part of `write` at the left end of the storage or, when the reader is ahead, all of it. -/
def writeLeft (s : RingBuffer) (buf : Memory) (wo : UInt16) (l : Nat) (data : List UInt8) :
    RingBuffer :=
  if 0 < l then { s with buf := (copy l buf wo.toNat data).1, wo := wo + UInt16.ofNat l }
  else { s with buf := buf, wo := wo }

/-- What `write` stores at the right end of the storage, of `wsize` bytes in all. -/
def rightSize (s : RingBuffer) (wsize : UInt16) : Nat :=
  if wsize < s.bl - s.wo then wsize.toNat else (s.bl - s.wo).toNat

def writeRight (s : RingBuffer) (wsize : UInt16) (data : List UInt8) : RingBuffer :=
  let l := s.rightSize wsize
  let right := copy l s.buf s.wo.toNat data
  s.writeLeft right.1 (UInt16.ofNat ((s.wo.toNat + l) % s.bl.toNat)) (wsize.toNat - l) right.2

/-- `if(wsize>i_len){wsize=i_len;}` -/
def limit (wsize : UInt16) (data : List UInt8) : UInt16 :=
  if data.length < wsize.toNat then UInt16.ofNat data.length else wsize

/-- `NyLPC_cRingBuffer_write` and the size it returns. -/
def write (s : RingBuffer) (data : List UInt8) : RingBuffer × Nat :=
  if s.ro ≤ s.wo then
    let wsize := s.bl - (s.wo - s.ro) - 1
    if wsize < 1 then (s, 0)
    else (s.writeRight (limit wsize data) data, (limit wsize data).toNat)
  else
    let wsize := s.ro - s.wo - 1
    (s.writeLeft s.buf s.wo (limit wsize data).toNat data, (limit wsize data).toNat)

/-- `NyLPC_cRingBuffer_getReadableSize`. Its 16 bits are the same with and without a sign. -/
def getReadableSize (s : RingBuffer) : UInt16 := if s.ro ≤ s.wo then s.wo - s.ro else s.bl - s.ro

/-- `NyLPC_cRingBuffer_pread`: the offset of the pointer, and the length. -/
def pread (s : RingBuffer) : Nat × UInt16 := (s.ro.toNat, s.getReadableSize)

/-- `NyLPC_cRingBuffer_preadSeek`. Its assertion counts a failure and goes on. -/
def preadSeek (s : RingBuffer) (seek : UInt16) : RingBuffer :=
  { s with ro := UInt16.ofNat ((s.ro.toNat + seek.toNat) % s.bl.toNat) }

/-- A call of the interface with its arguments. -/
inductive Call
  | write (data : List UInt8)
  | pread
  | preadSeek (seek : UInt16)

def step (s : RingBuffer) : Call → RingBuffer
  | .write data => (s.write data).1
  | .pread => s
  | .preadSeek seek => s.preadSeek seek

def run (s : RingBuffer) (calls : List Call) : RingBuffer := calls.foldl step s

/-- What a call does to a queue of the given capacity. -/
def fifoStep (capacity : Nat) (q : List UInt8) : Call → List UInt8
  | .write data => q ++ data.take (capacity - q.length)
  | .pread => q
  | .preadSeek seek => q.drop seek.toNat

def fifo (capacity : Nat) (q : List UInt8) (calls : List Call) : List UInt8 :=
  calls.foldl (fifoStep capacity) q

/-- A seek does not go beyond what is unread. -/
def Call.Legal (q : List UInt8) : Call → Prop
  | .preadSeek seek => seek.toNat ≤ q.length
  | _ => True

instance (q : List UInt8) (c : Call) : Decidable (c.Legal q) :=
  match c with
  | .write _ => .isTrue trivial
  | .pread => .isTrue trivial
  | .preadSeek seek => inferInstanceAs (Decidable (seek.toNat ≤ q.length))

def LegalRun (capacity : Nat) : List UInt8 → List Call → Prop
  | _, [] => True
  | q, c :: cs => c.Legal q ∧ LegalRun capacity (fifoStep capacity q c) cs

/-- The buffer answers its calls as the queue does, one byte less than its storage long, and has
stored nothing outside of its storage. -/
structure Implements (buf : Memory) (len : UInt16) (s : RingBuffer) (q : List UInt8) : Prop where
  bl : s.bl = len
  wo_lt : s.wo < len
  ro_lt : s.ro < len
  bounded : q.length ≤ len.toNat - 1
  write : ∀ data : List UInt8, (s.write data).2 = min (len.toNat - 1 - q.length) data.length
  pread : s.buf.window s.pread.1 s.pread.2.toNat = q.take s.pread.2.toNat
  inside : s.pread.1 + s.pread.2.toNat ≤ len.toNat
  empty : s.pread.2 = 0 ↔ q = []
  outside : ∀ i, len.toNat ≤ i → s.buf i = buf i

def ring (s : RingBuffer) (len : UInt16) : Ring UInt8 len.toNat where
  rp := s.ro.toNat
  wp := s.wo.toNat
  slot := s.buf

structure Represents (buf : Memory) (len : UInt16) (s : RingBuffer) (q : List UInt8) : Prop where
  bl : s.bl = len
  inRange : (s.ring len).InRange
  items : (s.ring len).items = q
  outside : ∀ i, len.toNat ≤ i → s.buf i = buf i

theorem copy_rest (l : Nat) (buf : Memory) (p : Nat) (data : List UInt8) :
    (copy l buf p data).2 = data.drop l := by
  induction l generalizing buf p data with
  | zero => rfl
  | succ l ih =>
    rw [copy, ih]
    cases data with
    | nil => simp
    | cons b data => rfl

theorem copy_outside {l : Nat} {buf : Memory} {p : Nat} {data : List UInt8} {i : Nat}
    (h : i < p ∨ p + l ≤ i) : (copy l buf p data).1 i = buf i := by
  induction l generalizing buf p data with
  | zero => rfl
  | succ l ih =>
    rw [copy, ih (by omega)]
    exact Function.update_of_ne (by omega) _ _

/-- A copy that ends inside of the storage fills the slots from the write index on. -/
theorem pushAll_copy {N rp : Nat} {l : Nat} {buf : Memory} {p : Nat} {data : List UInt8}
    (hp : p < N) (hend : p + l ≤ N) (hl : l ≤ data.length) :
    ({ rp := rp, wp := p, slot := buf } : Ring UInt8 N).pushAll (data.take l) =
      { rp := rp, wp := (p + l) % N, slot := (copy l buf p data).1 } := by
  induction l generalizing buf p data with
  | zero =>
    rw [List.take_zero, Nat.add_zero, Nat.mod_eq_of_lt hp]
    rfl
  | succ l ih =>
    cases data with
    | nil => exact absurd hl (by simp)
    | cons b data =>
      rw [List.length_cons] at hl
      rw [List.take_succ_cons]
      show (({ rp := rp, wp := p, slot := buf } : Ring UInt8 N).push b).pushAll (data.take l) = _
      rcases Nat.lt_or_ge (p + 1) N with hnext | hnext
      · have hpush : ({ rp := rp, wp := p, slot := buf } : Ring UInt8 N).push b =
            { rp := rp, wp := p + 1, slot := Function.update buf p b } := by
          rw [Ring.push, Nat.mod_eq_of_lt hnext]
        have hsum : p + 1 + l = p + (l + 1) := by omega
        rw [hpush, ih hnext (by omega) (by omega), hsum]
        rfl
      · obtain rfl : l = 0 := by omega
        rfl

section

variable {buf : Memory} {len : UInt16} {s : RingBuffer} {q : List UInt8}

theorem represents_init (buf : Memory) (hlen : 0 < len) : Represents buf len (init buf len) [] where
  bl := rfl
  inRange := ⟨UInt16.lt_iff_toNat_lt.mp hlen, UInt16.lt_iff_toNat_lt.mp hlen⟩
  items := (Ring.items_eq_nil ⟨UInt16.lt_iff_toNat_lt.mp hlen, UInt16.lt_iff_toNat_lt.mp hlen⟩).mpr
    rfl
  outside := fun _ _ => rfl

theorem Represents.length_eq (h : Represents buf len s q) :
    q.length = (s.ring len).distance s.ro.toNat := by
  rw [← h.items, Ring.length_items h.inRange]
  rfl

theorem Represents.length_lt (h : Represents buf len s q) : q.length < len.toNat := by
  rw [← h.items]
  exact Ring.length_items_lt h.inRange

/-- The write offset is at the left end or before the reader. -/
theorem writeLeft_eq (t : RingBuffer) (m : Memory) {wo : UInt16} {l : Nat} {data : List UInt8}
    (hroom : wo.toNat + l < len.toNat) (hl : l ≤ data.length) :
    (t.writeLeft m wo l data).bl = t.bl ∧
      (t.writeLeft m wo l data).ring len =
        ({ rp := t.ro.toNat, wp := wo.toNat, slot := m } : Ring UInt8 len.toNat).pushAll
          (data.take l) ∧
      ∀ i, len.toNat ≤ i → (t.writeLeft m wo l data).buf i = m i := by
  have hlt := len.toNat_lt
  rw [pushAll_copy (by omega) (by omega) hl, Nat.mod_eq_of_lt hroom]
  unfold writeLeft
  split
  · have hwo : (wo + UInt16.ofNat l).toNat = wo.toNat + l := by
      have hl : l < len.toNat := by omega
      rw [UInt16.toNat_add, UInt16.toNat_ofNat_of_lt' (hl.trans hlt), Nat.mod_eq_of_lt (by omega)]
    refine ⟨rfl, ?_, fun i hi => copy_outside (by omega)⟩
    rw [ring, hwo]
  · obtain rfl : l = 0 := by omega
    exact ⟨rfl, rfl, fun _ _ => rfl⟩

theorem Represents.preadSeek (h : Represents buf len s q) {seek : UInt16}
    (hseek : seek.toNat ≤ q.length) : Represents buf len (s.preadSeek seek) (q.drop seek.toNat) := by
  have hro : (s.preadSeek seek).ring len = (s.ring len).advance seek.toNat := by
    have hlt := h.inRange.rp_lt
    have hmod := Nat.mod_lt (s.ro.toNat + seek.toNat) (Nat.zero_lt_of_lt hlt)
    show (⟨(UInt16.ofNat ((s.ro.toNat + seek.toNat) % s.bl.toNat)).toNat, _, _⟩ : Ring UInt8 _) = _
    rw [h.bl, UInt16.toNat_ofNat_of_lt' (hmod.trans len.toNat_lt)]
    rfl
  refine ⟨h.bl, hro ▸ h.inRange.advance _, ?_, h.outside⟩
  rw [hro, Ring.items_advance h.inRange (h.items.symm ▸ hseek), h.items]

theorem toNat_limit (wsize : UInt16) (data : List UInt8) :
    (limit wsize data).toNat = min wsize.toNat data.length := by
  unfold limit
  split
  · next h =>
    rw [UInt16.toNat_ofNat_of_lt' (h.trans wsize.toNat_lt)]
    omega
  · omega

theorem pushAll_append {N : Nat} (r : Ring UInt8 N) (xs ys : List UInt8) :
    r.pushAll (xs ++ ys) = (r.pushAll xs).pushAll ys := List.foldl_append

theorem toNat_sub_of_le {a b : UInt16} (h : b.toNat ≤ a.toNat) :
    (a - b).toNat = a.toNat - b.toNat :=
  UInt16.toNat_sub_of_le a b (UInt16.le_iff_toNat_le.mpr h)

theorem writeRight_eq (h : Represents buf len s q) {wsize : UInt16} {data : List UInt8}
    (hdata : wsize.toNat ≤ data.length) (hroom : wsize.toNat < len.toNat) :
    (s.writeRight wsize data).bl = len ∧
      (s.writeRight wsize data).ring len = (s.ring len).pushAll (data.take wsize.toNat) ∧
      ∀ i, len.toNat ≤ i → (s.writeRight wsize data).buf i = s.buf i := by
  have hwo : s.wo.toNat < len.toNat := h.inRange.wp_lt
  have hright : (s.bl - s.wo).toNat = len.toNat - s.wo.toNat := by
    rw [h.bl, toNat_sub_of_le hwo.le]
  have hsize : s.rightSize wsize = min wsize.toNat (len.toNat - s.wo.toNat) := by
    unfold rightSize
    split
    · next hlt =>
      have hlt := UInt16.lt_iff_toNat_lt.mp hlt
      omega
    · next hge =>
      have hge := mt UInt16.lt_iff_toNat_lt.mpr hge
      omega
  generalize hl : s.rightSize wsize = l at hsize
  have hmod : (s.wo.toNat + l) % len.toNat + (wsize.toNat - l) < len.toNat := by
    rcases Nat.lt_or_ge wsize.toNat (len.toNat - s.wo.toNat) with hlt | hge
    · rw [Nat.mod_eq_of_lt (by omega)]
      omega
    · rw [show s.wo.toNat + l = len.toNat by omega, Nat.mod_self]
      omega
  have hwrapped : (UInt16.ofNat ((s.wo.toNat + l) % s.bl.toNat)).toNat =
      (s.wo.toNat + l) % len.toNat := by
    rw [h.bl]
    exact UInt16.toNat_ofNat_of_lt' ((Nat.mod_lt _ (by omega)).trans len.toNat_lt)
  have hrest : wsize.toNat - l ≤ (copy l s.buf s.wo.toNat data).2.length := by
    rw [copy_rest, List.length_drop]
    omega
  obtain ⟨hbl, hring, hout⟩ := writeLeft_eq s (copy l s.buf s.wo.toNat data).1
    (show (UInt16.ofNat ((s.wo.toNat + l) % s.bl.toNat)).toNat + (wsize.toNat - l) < len.toNat by
      rw [hwrapped]; exact hmod) hrest
  have hsplit : data.take wsize.toNat = data.take l ++ (data.drop l).take (wsize.toNat - l) := by
    rw [← List.take_add]
    congr 1
    omega
  have hfirst : (s.ring len).pushAll (data.take l) =
      { rp := s.ro.toNat, wp := (s.wo.toNat + l) % len.toNat,
        slot := (copy l s.buf s.wo.toNat data).1 } :=
    pushAll_copy hwo (by omega) (by omega)
  rw [writeRight, hl]
  refine ⟨hbl.trans h.bl, ?_, fun i hi => (hout i hi).trans (copy_outside (by omega))⟩
  rw [hring, hsplit, pushAll_append, copy_rest, hwrapped, hfirst]

theorem Represents.write (h : Represents buf len s q) (data : List UInt8) :
    (s.write data).2 = min (len.toNat - 1 - q.length) data.length ∧
      Represents buf len (s.write data).1 (q ++ data.take (len.toNat - 1 - q.length)) := by
  have hq := h.length_eq
  have hlt := h.length_lt
  have hwo : s.wo.toNat < len.toNat := h.inRange.wp_lt
  have hro : s.ro.toNat < len.toNat := h.inRange.rp_lt
  have hbound := len.toNat_lt
  -- what has been stored is, in every case, so many pushes
  have hstored : ∀ {t : RingBuffer} {n : Nat}, n = min (len.toNat - 1 - q.length) data.length →
      t.bl = len ∧ t.ring len = (s.ring len).pushAll (data.take n) ∧
        (∀ i, len.toNat ≤ i → t.buf i = s.buf i) →
      n = min (len.toNat - 1 - q.length) data.length ∧
        Represents buf len t (q ++ data.take (len.toNat - 1 - q.length)) := by
    intro t n hn ht
    obtain ⟨hbl, hring, hout⟩ := ht
    have htake : data.take n = data.take (len.toNat - 1 - q.length) := by
      rw [hn, ← List.take_eq_take_min]
    have hitems : (s.ring len).items.length = q.length := by rw [h.items]
    refine ⟨hn, hbl, hring ▸ h.inRange.pushAll _, ?_, fun i hi => (hout i hi).trans (h.outside i hi)⟩
    rw [hring, Ring.items_pushAll h.inRange (by simp; omega), h.items, htake]
  by_cases hbefore : s.ro ≤ s.wo
  · have hle := UInt16.le_iff_toNat_le.mp hbefore
    rw [Ring.distance_of_le hwo hle] at hq
    have hused : (s.wo - s.ro).toNat = q.length := (toNat_sub_of_le hle).trans hq.symm
    have hrest : (len - (s.wo - s.ro)).toNat = len.toNat - q.length := by
      rw [toNat_sub_of_le (by omega), hused]
    have hfree : (s.bl - (s.wo - s.ro) - 1).toNat = len.toNat - 1 - q.length := by
      rw [h.bl, toNat_sub_of_le (show (1 : UInt16).toNat ≤ _ by rw [hrest]; show 1 ≤ _; omega), hrest]
      show len.toNat - q.length - 1 = _
      omega
    rw [RingBuffer.write, if_pos hbefore]
    by_cases hfull : s.bl - (s.wo - s.ro) - 1 < 1
    · have hzero : len.toNat - 1 - q.length = 0 := by
        rw [← hfree]
        exact Nat.lt_one_iff.mp (UInt16.lt_iff_toNat_lt.mp hfull)
      simp only [if_pos hfull]
      exact hstored (n := 0) (by omega) ⟨h.bl, rfl, fun _ _ => rfl⟩
    · have hn := toNat_limit (s.bl - (s.wo - s.ro) - 1) data
      rw [hfree] at hn
      simp only [if_neg hfull]
      exact hstored hn (writeRight_eq h (by omega) (by omega))
  · have hlt : s.wo.toNat < s.ro.toNat := by
      have := mt UInt16.le_iff_toNat_le.mpr hbefore
      omega
    rw [Ring.distance_of_lt hro hlt] at hq
    have hwp : (s.ring len).wp = s.wo.toNat := rfl
    have hfree : (s.ro - s.wo - 1).toNat = len.toNat - 1 - q.length := by
      have hgap := toNat_sub_of_le (a := s.ro) (b := s.wo) hlt.le
      rw [toNat_sub_of_le (show (1 : UInt16).toNat ≤ _ by rw [hgap]; show 1 ≤ _; omega), hgap]
      show s.ro.toNat - s.wo.toNat - 1 = _
      omega
    have hn := toNat_limit (s.ro - s.wo - 1) data
    rw [hfree] at hn
    have hroom : s.wo.toNat + (limit (s.ro - s.wo - 1) data).toNat < len.toNat := by omega
    have hdata : (limit (s.ro - s.wo - 1) data).toNat ≤ data.length := by omega
    obtain ⟨hbl, hring⟩ := writeLeft_eq s s.buf hroom hdata
    rw [RingBuffer.write, if_neg hbefore]
    exact hstored hn ⟨hbl.trans h.bl, hring⟩

theorem Represents.step (h : Represents buf len s q) {c : Call} (hc : c.Legal q) :
    Represents buf len (s.step c) (fifoStep (len.toNat - 1) q c) := by
  cases c with
  | write data => exact (h.write data).2
  | pread => exact h
  | preadSeek seek => exact h.preadSeek hc

theorem Represents.run {calls : List Call} (h : Represents buf len s q)
    (hcalls : LegalRun (len.toNat - 1) q calls) :
    Represents buf len (s.run calls) (fifo (len.toNat - 1) q calls) := by
  induction calls generalizing s q with
  | nil => exact h
  | cons c cs ih => exact ih (h.step hcalls.1) hcalls.2

/-- What the reader sees is the oldest bytes up to the write offset or the end of the storage. -/
theorem Represents.pread (h : Represents buf len s q) :
    s.buf.window s.pread.1 s.pread.2.toNat = q.take s.pread.2.toNat ∧
      s.pread.1 + s.pread.2.toNat ≤ len.toNat ∧ (s.pread.2 = 0 ↔ q = []) := by
  have hwo : s.wo.toNat < len.toNat := h.inRange.wp_lt
  have hro : s.ro.toNat < len.toNat := h.inRange.rp_lt
  have hq := h.length_eq
  have hsize : s.pread.2.toNat ≤ (s.ring len).distance s.ro.toNat ∧
      s.ro.toNat + s.pread.2.toNat ≤ len.toNat ∧ (s.pread.2.toNat = 0 ↔ q.length = 0) := by
    show s.getReadableSize.toNat ≤ _ ∧ s.ro.toNat + s.getReadableSize.toNat ≤ _ ∧
      (s.getReadableSize.toNat = 0 ↔ _)
    by_cases hbefore : s.ro ≤ s.wo
    · have hle := UInt16.le_iff_toNat_le.mp hbefore
      rw [Ring.distance_of_le hwo hle] at hq ⊢
      rw [getReadableSize, if_pos hbefore, toNat_sub_of_le hle, hq]
      show s.wo.toNat - s.ro.toNat ≤ s.wo.toNat - s.ro.toNat ∧ _ ∧
        (_ ↔ s.wo.toNat - s.ro.toNat = 0)
      omega
    · have hlt : s.wo.toNat < s.ro.toNat := by
        have := mt UInt16.le_iff_toNat_le.mpr hbefore
        omega
      have hsub : (s.bl - s.ro).toNat = len.toNat - s.ro.toNat := by
        rw [h.bl, toNat_sub_of_le hro.le]
      rw [Ring.distance_of_lt hro hlt] at hq ⊢
      rw [getReadableSize, if_neg hbefore, hsub, hq]
      omega
  obtain ⟨hle, hend, hzero⟩ := hsize
  refine ⟨?_, hend, ?_⟩
  · rw [← h.items, ← Ring.window_eq_take h.inRange hle]
    apply List.map_congr_left
    intro k hk
    have hk := List.mem_range.mp hk
    show s.buf (s.ro.toNat + k) = s.buf ((s.ro.toNat + k) % len.toNat)
    rw [Nat.mod_eq_of_lt (by omega)]
  · rw [← UInt16.toNat_inj, ← List.length_eq_zero_iff]
    exact hzero

theorem Represents.implements (h : Represents buf len s q) : Implements buf len s q where
  bl := h.bl
  wo_lt := UInt16.lt_iff_toNat_lt.mpr h.inRange.wp_lt
  ro_lt := UInt16.lt_iff_toNat_lt.mpr h.inRange.rp_lt
  bounded := Nat.le_sub_one_of_lt h.length_lt
  write := fun data => (h.write data).1
  pread := h.pread.1
  inside := h.pread.2.1
  empty := h.pread.2.2
  outside := h.outside

end

/-- Over any calls whose seeks stay within what is unread, the buffer is a queue. -/
theorem ringBuffer_implements_fifo (buf : Memory) (len : UInt16) (calls : List Call)
    (hlen : 0 < len) (hcalls : LegalRun (len.toNat - 1) [] calls) :
    Implements buf len ((init buf len).run calls) (fifo (len.toNat - 1) [] calls) :=
  ((represents_init buf hlen).run hcalls).implements

/-- Four bytes of storage take three of five bytes written; the rest goes around the end. -/
theorem ringBuffer_implements_fifo_wrapped :
    Implements (fun _ => 0) 4 ((init (fun _ => 0) 4).run
      [.write [1, 2, 3, 4, 5], .preadSeek 2, .write [6, 7, 8], .pread, .preadSeek 3])
      (fifo 3 [] [.write [1, 2, 3, 4, 5], .preadSeek 2, .write [6, 7, 8], .pread, .preadSeek 3]) :=
  ringBuffer_implements_fifo (fun _ => 0) 4
    [.write [1, 2, 3, 4, 5], .preadSeek 2, .write [6, 7, 8], .pread, .preadSeek 3] (by decide)
    ⟨trivial, by decide, trivial, trivial, by decide, trivial⟩

/-- A seek in an empty buffer shows three bytes that nobody has written. -/
theorem not_ringBuffer_implements_fifo :
    ¬ Implements (fun _ => 0) 4 ((init (fun _ => 0) 4).run [.preadSeek 1])
      (fifo 3 [] [.preadSeek 1]) := by
  intro h
  have hempty := h.empty.mpr rfl
  exact absurd hempty (by decide)

end RingBuffer

end MiMic
