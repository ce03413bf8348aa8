import MiMic.Lib.Ring

/-!
# The serial line of the Wi-Fi module

`NyLPC_cSnicSerialDevice`: the interrupt handler puts what the line brings into a ring of 256
bytes, the reader looks at a contiguous segment of it and moves the read index on. How many
bytes have come by the time of an access is given from outside, so that every way of cutting the
stream is covered. What is not in the ring yet waits in the line: when the ring is full the
handler leaves the bytes in the peripheral.
-/
namespace MiMic.Snic

open Verif

/-- `SIZE_OF_RX_BUF`. -/
def sizeOfRxBuf : Nat := 256

structure SerialDevice where
  ring : Ring UInt8 sizeOfRxBuf
  line : List UInt8
  cuts : List Nat
  inRange : ring.InRange

namespace SerialDevice

/-- The device behind `NyLPC_cSnicSerialDevice_initialize`. -/
def init (line : List UInt8) (cuts : List Nat) : SerialDevice where
  ring := { rp := 0, wp := 0, slot := fun _ => 0 }
  line := line
  cuts := cuts
  inRange := ⟨by decide, by decide⟩

/-- What no reader has passed yet. -/
def unread (d : SerialDevice) : List UInt8 := d.ring.items ++ d.line

/-- `uartHandler` when `n` bytes are readable. -/
def uartHandler : Nat → SerialDevice → SerialDevice
  | 0, d => d
  | n + 1, d =>
      match d.line with
      | [] => d
      | b :: rest =>
          if d.ring.full then d
          else uartHandler n
            { ring := d.ring.push b
              line := rest
              cuts := d.cuts
              inRange := d.inRange.push b }

/-- The bytes that come before the next access of the reader. -/
def arrive (d : SerialDevice) : SerialDevice :=
  uartHandler (d.cuts.headD 0) { d with cuts := d.cuts.tail }

/-- The length that `pread` gives: up to the write index or to the end of the memory. -/
def segmentLength (r : Ring UInt8 sizeOfRxBuf) : Nat :=
  if r.rp ≤ r.wp then r.wp - r.rp else sizeOfRxBuf - r.rp

/-- The bytes from `&rxbuf[rp]` on. -/
def segment (r : Ring UInt8 sizeOfRxBuf) : List UInt8 := r.window r.rp (segmentLength r)

/-- The wait of `pread` ends with a byte; `none` when none comes any more. -/
def pread (d : SerialDevice) : Option (List UInt8 × SerialDevice) :=
  if d.arrive.ring.rp ≠ d.arrive.ring.wp then some (segment d.arrive.ring, d.arrive)
  else if d.arrive.line = [] then none
  else some (segment (uartHandler 1 d.arrive).ring, uartHandler 1 d.arrive)

/-- The seek does not look at the write index. -/
def pseek (n : Nat) (d : SerialDevice) : SerialDevice :=
  { d.arrive with
    ring := d.arrive.ring.advance n
    inRange := d.arrive.inRange.advance n }

theorem items_push (d : SerialDevice) {b : UInt8} (hfull : ¬ d.ring.full = true) :
    (d.ring.push b).items = d.ring.items ++ [b] :=
  Ring.items_push d.inRange (by simpa using hfull) b

/-- An interrupt moves bytes from the line into the ring. -/
theorem unread_uartHandler (n : Nat) (d : SerialDevice) : (uartHandler n d).unread = d.unread := by
  induction n generalizing d with
  | zero => rfl
  | succ n ih =>
    rw [uartHandler]
    split
    · rfl
    · next b rest hline =>
      split
      · rfl
      · next hfull =>
        rw [ih]
        simp only [unread, items_push d hfull, hline, List.append_assoc, List.singleton_append]

@[simp] theorem unread_arrive (d : SerialDevice) : d.arrive.unread = d.unread :=
  unread_uartHandler _ _

@[simp] theorem unread_init (line : List UInt8) (cuts : List Nat) :
    (init line cuts).unread = line := rfl

/-- The ring only grows by an interrupt. -/
theorem items_uartHandler (n : Nat) (d : SerialDevice) :
    d.ring.items <+: (uartHandler n d).ring.items := by
  induction n generalizing d with
  | zero => exact List.prefix_rfl
  | succ n ih =>
    rw [uartHandler]
    split
    · exact List.prefix_rfl
    · next b rest hline =>
      split
      · exact List.prefix_rfl
      · next hfull =>
        refine List.IsPrefix.trans ?_ (ih _)
        rw [items_push d hfull]
        exact List.prefix_append _ _

theorem items_arrive (d : SerialDevice) : d.ring.items <+: d.arrive.ring.items :=
  items_uartHandler _ { d with cuts := d.cuts.tail }

/-- A waiting line brings a byte into an empty ring. -/
theorem rp_ne_wp_uartHandler {d : SerialDevice} (he : d.ring.rp = d.ring.wp) (hl : d.line ≠ []) :
    (uartHandler 1 d).ring.rp ≠ (uartHandler 1 d).ring.wp := by
  obtain ⟨b, rest, hline⟩ := List.exists_cons_of_ne_nil hl
  have hfull : ¬ d.ring.full = true := by
    intro hf
    have hlen := (Ring.full_iff d.inRange).mp hf
    rw [(Ring.items_eq_nil d.inRange).mpr he] at hlen
    exact absurd hlen (by decide)
  have hrun : (uartHandler 1 d).ring = d.ring.push b := by
    rw [uartHandler, hline]
    simp only [if_neg hfull, uartHandler]
  rw [hrun]
  intro h
  have hnil := (Ring.items_eq_nil (d.inRange.push b)).mpr h
  rw [items_push d hfull] at hnil
  exact List.append_ne_nil_of_right_ne_nil _ (List.cons_ne_nil _ _) hnil

/-- The segment is the front of the queue, and not empty when the queue is not. -/
theorem segment_prefix {r : Ring UInt8 sizeOfRxBuf} (h : r.InRange) (hne : r.rp ≠ r.wp) :
    segment r <+: r.items ∧ segment r ≠ [] := by
  have hr := h.rp_lt
  have hle : segmentLength r ≤ r.distance r.rp ∧ 0 < segmentLength r := by
    unfold segmentLength
    split
    · next hrw =>
      rw [Ring.distance_of_le h.wp_lt hrw]
      omega
    · next hrw =>
      rw [Ring.distance_of_lt hr (Nat.lt_of_not_le hrw)]
      omega
  constructor
  · rw [segment, Ring.window_eq_take h hle.1]
    exact List.take_prefix _ _
  · intro hnil
    have hlen := congrArg List.length hnil
    simp only [segment, Ring.window, List.length_map, List.length_range, List.length_nil] at hlen
    omega

/-- With bytes to come `pread` returns the next of them. -/
theorem pread_eq {d : SerialDevice} (h : d.unread ≠ []) :
    ∃ seg d', d.pread = some (seg, d') ∧ seg ≠ [] ∧ seg <+: d'.ring.items ∧
      d'.unread = d.unread ∧ d.ring.items.length ≤ d'.ring.items.length := by
  unfold pread
  by_cases hne : d.arrive.ring.rp ≠ d.arrive.ring.wp
  · obtain ⟨hpre, hseg⟩ := segment_prefix d.arrive.inRange hne
    exact ⟨_, _, if_pos hne, hseg, hpre, unread_arrive d, (items_arrive d).length_le⟩
  · have he := not_not.mp hne
    have hline : d.arrive.line ≠ [] := by
      intro hl
      rw [← unread_arrive, unread, (Ring.items_eq_nil d.arrive.inRange).mpr he, hl] at h
      exact h rfl
    obtain ⟨hpre, hseg⟩ :=
      segment_prefix (uartHandler 1 d.arrive).inRange (rp_ne_wp_uartHandler he hline)
    refine ⟨_, _, by rw [if_neg hne, if_neg hline], hseg, hpre, ?_, ?_⟩
    · rw [unread_uartHandler, unread_arrive]
    · exact ((items_arrive d).trans (items_uartHandler 1 d.arrive)).length_le

/-- With no bytes to come `pread` does not return. -/
theorem pread_eq_none {d : SerialDevice} (h : d.unread = []) : d.pread = none := by
  rw [← unread_arrive, unread, List.append_eq_nil_iff, Ring.items_eq_nil d.arrive.inRange] at h
  rw [pread, if_neg (not_not.mpr h.1), if_pos h.2]

/-- A seek over bytes that have come drops them. -/
theorem unread_pseek {d : SerialDevice} {n : Nat} (hn : n ≤ d.ring.items.length) :
    (d.pseek n).unread = d.unread.drop n := by
  have hlen : n ≤ d.arrive.ring.items.length := hn.trans (items_arrive d).length_le
  show (d.arrive.ring.advance n).items ++ d.arrive.line = _
  rw [Ring.items_advance d.arrive.inRange hlen, ← unread_arrive, unread,
    List.drop_append_of_le_length hlen]

end SerialDevice

end MiMic.Snic
