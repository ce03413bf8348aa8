import MiMic.Snic.Reception

/-!
# Received data on its way into a socket

A receive indication announces a number of bytes. The handler of the socket makes room for them at
the end of the socket's buffer before it reads them from the line. The buffer is the memory from
its first byte on, so that what is stored behind its end is seen.
-/
namespace MiMic.Snic

open Verif NetIf

/-- What a call of `waitForRead` leaves: its answer, the bytes from `i_buf` on, and the device. -/
structure Copied where
  ok : Bool
  bytes : List UInt8
  dev : SerialDevice

/-- `waitForRead`, also when the device has no more. The serial device does not return NULL then,
it waits, with the buffer as it is left here. -/
def copyLoop (len : UInt8) : Nat → UInt16 → SerialDevice → Copied
  | 0, _, d => ⟨false, [], d⟩
  | fuel + 1, wp, d =>
      match d.pread with
      | none => ⟨false, [], d⟩
      | some (seg, d) =>
          match meets len wp seg with
          | some k => ⟨true, seg.take k, d.pseek k⟩
          | none =>
              let c := copyLoop len fuel (wp + UInt16.ofNat seg.length) (d.pseek seg.length)
              { c with bytes := seg ++ c.bytes }

/-- `NyLPC_cSnicNetIf_readPayload`, with what it stores. -/
def copyPayload (len : UInt8) (d : SerialDevice) : Copied := copyLoop len 65536 0 d

/-- `NyLPC_TcFifoBuffer`, with the memory from `buf` on. -/
structure RxFifo where
  size : UInt16
  len : UInt16
  buf : Memory
  fits : len.toNat ≤ size.toNat

namespace RxFifo

/-- The buffer as its reader sees it. -/
def view (f : RxFifo) : FifoBuffer where
  size := f.size
  buf := f.buf.window 0 f.len.toNat
  fits := by
    rw [length_window]
    exact f.fits

def getSpace (f : RxFifo) : UInt16 := f.size - f.len

theorem getSpace_view (f : RxFifo) : f.view.getSpace = f.getSpace := by
  have hlen : f.view.getLength = f.len := by
    rw [FifoBuffer.getLength, view, length_window]
    exact UInt16.ofNat_toNat
  rw [FifoBuffer.getSpace, hlen]
  rfl

theorem toNat_getSpace (f : RxFifo) : f.getSpace.toNat = f.size.toNat - f.len.toNat := by
  rw [← getSpace_view, FifoBuffer.toNat_getSpace, view, length_window]

theorem toNat_len_add {f : RxFifo} {n : UInt16} (h : n.toNat ≤ f.getSpace.toNat) :
    (f.len + n).toNat = f.len.toNat + n.toNat ∧ f.len.toNat + n.toNat ≤ f.size.toNat := by
  have hsize := f.size.toNat_lt
  have hfits := f.fits
  rw [toNat_getSpace] at h
  rw [UInt16.toNat_add]
  omega

/-- The argument check of the source is the hypothesis. The pointer it returns is `f.len`. -/
def prePush (f : RxFifo) (n : UInt16) (h : n.toNat ≤ f.getSpace.toNat) : RxFifo where
  size := f.size
  len := f.len + n
  buf := f.buf
  fits := by
    rw [(toNat_len_add h).1]
    exact (toNat_len_add h).2

/-- Bytes at an offset of the area, whether they are inside it or not. -/
def store (f : RxFifo) (off : Nat) (bytes : List UInt8) : RxFifo :=
  { f with buf := f.buf.write off bytes }

/-- `NyLPC_cFifoBuffer_push`. -/
def push (f : RxFifo) (data : List UInt8) (h : (UInt16.ofNat data.length).toNat ≤ f.getSpace.toNat) :
    RxFifo :=
  (f.prePush (UInt16.ofNat data.length) h).store f.len.toNat data

end RxFifo

/-- What a handler leaves of an indication; `confirm` are the arguments of
`NyLPC_cSnicApi_sendIndicateConfirm`. -/
structure RxOutcome where
  ret : Bool
  fifo : RxFifo
  dev : SerialDevice
  confirm : Option (UInt8 × UInt8)

/-- The end of both handlers, behind a header that has been read: room for all of the announced
bytes, and a read whose length is a byte. -/
def RxFifo.receive (f : RxFifo) (datalen : UInt16) (h : datalen.toNat ≤ f.getSpace.toNat)
    (hd : Copied) : RxOutcome :=
  let c := copyPayload datalen.toUInt8 hd.dev
  { ret := c.ok
    fifo := (f.prePush datalen h).store f.len.toNat c.bytes
    dev := c.dev
    confirm := if c.ok then some (hd.bytes.getD 0 0 ||| 0x08, hd.bytes.getD 1 0) else none }

/-- What the handler reads of `NyLPC_TcSnicTcpSocket`. -/
structure SnicTcpSocket where
  flags : UInt8
  rxbuf : RxFifo

/-- What the handler reads of `NyLPC_TcSnicUdpSocket`. -/
structure SnicUdpSocket where
  lport : UInt16
  rxbuf : RxFifo

/-- The number that a TCP indication announces. -/
def tcpAnnounced (hd : List UInt8) : UInt16 := word16 (hd.getD 0 0) (hd.getD 1 0)

/-- The number that a UDP indication announces, behind address and port. -/
def udpAnnounced (hd : List UInt8) : UInt16 := word16 (hd.getD 6 0) (hd.getD 7 0)

/-- The handler of a TCP socket behind the read of its header. The lock is held over the sleep and
the reader's `pop` takes it, so the second look at the space finds what the first has found. -/
def SnicTcpSocket.afterHeader (s : SnicTcpSocket) (hd : Copied) : RxOutcome :=
  let datalen := tcpAnnounced hd.bytes
  if !hd.ok then ⟨false, s.rxbuf, hd.dev, none⟩
  else if h : s.rxbuf.getSpace.toNat < datalen.toNat then
    ⟨true, s.rxbuf, seekPayload datalen hd.dev, none⟩
  else s.rxbuf.receive datalen (Nat.le_of_not_lt h) hd

/-- `NyLPC_cSnicTcpSocket_onConnectionRecvInd`. -/
def SnicTcpSocket.onConnectionRecvInd (s : SnicTcpSocket) (d : SerialDevice) : RxOutcome :=
  if s.flags &&& enabledAndAccepted = enabledAndAccepted then ⟨false, s.rxbuf, d, none⟩
  else s.afterHeader (copyPayload 2 d)

/-- The record of a datagram from the header of its indication. -/
def SnicUdpSocket.rxInfo (s : SnicUdpSocket) (ip : IPv4Addr) (hd : List UInt8) : IPv4RxInfo where
  peerIp := ⟨(listMemory hd).u32 0⟩
  ip := ip
  peerPort := word16 (hd.getD 4 0) (hd.getD 5 0)
  port := s.lport
  size := udpAnnounced hd

theorem RxFifo.push_room {f : RxFifo} {info : IPv4RxInfo} {n : UInt16}
    (h : ¬ f.getSpace.toNat < n.toNat + sizeOfRxInfo) :
    (UInt16.ofNat info.bytes.length).toNat ≤ f.getSpace.toNat := by
  have hlen : (UInt16.ofNat info.bytes.length).toNat = sizeOfRxInfo := rfl
  omega

theorem RxFifo.receive_room {f : RxFifo} {info : IPv4RxInfo} {n : UInt16}
    (h : ¬ f.getSpace.toNat < n.toNat + sizeOfRxInfo) :
    n.toNat ≤ (f.push info.bytes (push_room h)).getSpace.toNat := by
  have hpush : (UInt16.ofNat info.bytes.length).toNat ≤ f.getSpace.toNat := push_room h
  have hlen := (toNat_len_add hpush).1
  have hrec : (UInt16.ofNat info.bytes.length).toNat = sizeOfRxInfo := rfl
  rw [toNat_getSpace] at h
  rw [toNat_getSpace]
  show n.toNat ≤ f.size.toNat - (f.len + UInt16.ofNat info.bytes.length).toNat
  omega

/-- The handler of a UDP socket behind the read of its header; `ip` is what
`NyLPC_cSnicNetIf_getLocalAddr` gives. -/
def SnicUdpSocket.afterHeader (s : SnicUdpSocket) (ip : IPv4Addr) (hd : Copied) : RxOutcome :=
  let datalen := udpAnnounced hd.bytes
  if !hd.ok then ⟨false, s.rxbuf, hd.dev, none⟩
  else if h : s.rxbuf.getSpace.toNat < datalen.toNat + sizeOfRxInfo then
    ⟨false, s.rxbuf, hd.dev, none⟩
  else
    (s.rxbuf.push (s.rxInfo ip hd.bytes).bytes (RxFifo.push_room h)).receive datalen
      (RxFifo.receive_room h) hd

/-- `NyLPC_cSnicUdpSocket_onConnectionRecvInd`. -/
def SnicUdpSocket.onConnectionRecvInd (s : SnicUdpSocket) (ip : IPv4Addr) (d : SerialDevice) :
    RxOutcome :=
  s.afterHeader ip (copyPayload 8 d)

/-- A read of `n` bytes from a line that brings `s`. -/
structure Copied.Of (c : Copied) (s : List UInt8) (n : Nat) : Prop where
  ok : c.ok = decide (n ≤ s.length)
  bytes : c.bytes = s.take n
  unread : c.dev.unread = s.drop n

theorem copyLoop_of (len : UInt8) (fuel : Nat) (wp : UInt16) (d : SerialDevice)
    (hfuel : toMeet len wp ≤ fuel) : (copyLoop len fuel wp d).Of d.unread (toMeet len wp) := by
  have hpos : 0 < toMeet len wp := Nat.succ_pos _
  induction fuel generalizing wp d with
  | zero => exact absurd hfuel (by omega)
  | succ fuel ih =>
    rw [copyLoop]
    by_cases hne : d.unread = []
    · rw [SerialDevice.pread_eq_none hne]
      exact ⟨by simp [hne, hpos.ne'], by simp [hne], by simp [hne]⟩
    · obtain ⟨seg, d₁, hrun, hseg, hpre, hun, -⟩ := SerialDevice.pread_eq hne
      have hlen : 0 < seg.length := List.length_pos_iff.mpr hseg
      obtain ⟨rest, hrest⟩ : seg <+: d.unread :=
        hun ▸ hpre.trans (List.prefix_append _ _)
      rw [hrun]
      dsimp only
      rw [meets_eq, ← hrest]
      by_cases hle : toMeet len wp ≤ seg.length
      · rw [if_pos hle]
        have hseek := SerialDevice.unread_pseek (hle.trans hpre.length_le)
        refine ⟨?_, ?_, ?_⟩
        · rw [List.length_append, decide_eq_true (by omega)]
        · rw [List.take_append_of_le_length hle]
        · rw [hseek, hun, ← hrest]
      · rw [if_neg hle]
        have hnext := toMeet_add len wp (show seg.length < toMeet len wp by omega)
        have hseek : (d₁.pseek seg.length).unread = rest := by
          rw [SerialDevice.unread_pseek hpre.length_le, hun, ← hrest, List.drop_left]
        have hrec := ih (wp + UInt16.ofNat seg.length) (d₁.pseek seg.length) (by omega) (by omega)
        rw [hseek, hnext] at hrec
        refine ⟨hrec.ok.trans ?_, ?_, hrec.unread.trans ?_⟩
        · rw [List.length_append]
          exact decide_eq_decide.mpr (by omega)
        · show seg ++ _ = _
          rw [hrec.bytes, List.take_append, List.take_of_length_le (Nat.le_of_not_le hle)]
        · rw [List.drop_append, List.drop_of_length_le (Nat.le_of_not_le hle), List.nil_append]

/-- A read takes what its length says, or all that comes when that is less. -/
theorem copyPayload_of (len : UInt8) (d : SerialDevice) :
    (copyPayload len d).Of d.unread (readCount len) := by
  rw [← toMeet_zero]
  refine copyLoop_of len 65536 0 d ?_
  rw [toMeet_zero]
  exact Behind.readCount_le len

theorem Copied.Of.length_le {c : Copied} {s : List UInt8} {n : Nat} (h : c.Of s n)
    (hok : c.ok = true) : n ≤ s.length :=
  of_decide_eq_true (h.ok.symm.trans hok)

/-- Only the lengths from 1 to 255 survive the byte they travel through. -/
theorem readCount_toUInt8_iff (n : UInt16) :
    readCount n.toUInt8 = n.toNat ↔ 1 ≤ n.toNat ∧ n.toNat ≤ 255 := by
  have hn := n.toNat_lt
  have hmod : n.toUInt8.toNat = n.toNat % 256 := UInt16.toNat_toUInt8 n
  have hzero : n.toUInt8 = 0 ↔ n.toNat % 256 = 0 := by
    rw [← UInt8.toNat_inj, hmod]
    rfl
  unfold readCount
  split
  · next h =>
    have h0 := hzero.mp h
    omega
  · next h =>
    have h0 := mt hzero.mpr h
    rw [hmod]
    omega

/-- The reader sees `bytes` behind what was there, and nothing is changed behind the area. -/
structure Appended (f f' : RxFifo) (bytes : List UInt8) : Prop where
  size : f'.size = f.size
  content : f'.view.buf = f.view.buf ++ bytes
  outside : ∀ i, f.size.toNat ≤ i → f'.buf i = f.buf i

namespace Appended

variable {f f' f₁ f₂ : RxFifo} {a b : List UInt8}

theorem nothing (f : RxFifo) : Appended f f [] :=
  ⟨rfl, (List.append_nil _).symm, fun _ _ => rfl⟩

theorem append (h₁ : Appended f f₁ a) (h₂ : Appended f₁ f₂ b) : Appended f f₂ (a ++ b) where
  size := h₂.size.trans h₁.size
  content := by rw [h₂.content, h₁.content, List.append_assoc]
  outside i hi := (h₂.outside i (h₁.size ▸ hi)).trans (h₁.outside i hi)

theorem length (h : Appended f f' a) : f'.len.toNat = f.len.toNat + a.length := by
  have hlen := congrArg List.length h.content
  simpa only [RxFifo.view, List.length_append, length_window] using hlen

end Appended

namespace RxFifo

variable {f : RxFifo} {n : UInt16} {bytes : List UInt8}

/-- Room for `n` bytes, and `bytes` stored there. -/
theorem view_reserve (h : n.toNat ≤ f.getSpace.toNat) :
    ((f.prePush n h).store f.len.toNat bytes).view.buf =
      f.view.buf ++ (f.buf.write f.len.toNat bytes).window f.len.toNat n.toNat := by
  show (f.buf.write f.len.toNat bytes).window 0 (f.len + n).toNat = _
  rw [(toNat_len_add h).1, window_add, Nat.zero_add,
    window_write_of_disjoint _ (Or.inl (Nat.zero_add _).le)]
  rfl

theorem store_outside (h : f.len.toNat + bytes.length ≤ f.size.toNat) (i : Nat)
    (hi : f.size.toNat ≤ i) : f.buf.write f.len.toNat bytes i = f.buf i :=
  if_neg (by omega)

/-- As many bytes as there is room made for. -/
theorem appended_reserve (h : n.toNat ≤ f.getSpace.toNat) (hlen : bytes.length = n.toNat) :
    Appended f ((f.prePush n h).store f.len.toNat bytes) bytes where
  size := rfl
  content := by rw [view_reserve, ← hlen, window_write_self]
  outside := store_outside (hlen ▸ (toNat_len_add h).2)

/-- What a read leaves in the buffer and on the line, behind a header of `k` bytes. -/
theorem receive_of {u : List UInt8} {k : Nat} {hd : Copied} (h : n.toNat ≤ f.getSpace.toNat)
    (hhd : hd.Of u k) (hk : k ≤ u.length) :
    (f.receive n h hd).ret = decide (k + readCount n.toUInt8 ≤ u.length) ∧
      (f.receive n h hd).dev.unread = u.drop (k + readCount n.toUInt8) ∧
      (f.receive n h hd).fifo =
        (f.prePush n h).store f.len.toNat ((u.drop k).take (readCount n.toUInt8)) := by
  have hc := copyPayload_of n.toUInt8 hd.dev
  rw [hhd.unread] at hc
  refine ⟨?_, ?_, ?_⟩
  · refine hc.ok.trans (decide_eq_decide.mpr ?_)
    rw [List.length_drop]
    omega
  · rw [← List.drop_drop]
    exact hc.unread
  · rw [← hc.bytes]
    rfl

end RxFifo

/-- What the handler owes to an indication with `n` bytes behind a header of `h` bytes. When they
come they are passed, and appended behind `record` if the space is enough for both; in every other
case the buffer is as it was. -/
def Delivered (f : RxFifo) (d : SerialDevice) (h n : Nat) (record : List UInt8) (o : RxOutcome) :
    Prop :=
  if h + n ≤ d.unread.length then
    o.dev.unread = d.unread.drop (h + n) ∧
      if record.length + n ≤ f.getSpace.toNat then
        o.ret = true ∧ Appended f o.fifo (record ++ (d.unread.drop h).take n)
      else Appended f o.fifo []
  else Appended f o.fifo []

namespace SnicTcpSocket

/-- The socket is open and accepted. -/
def Open (s : SnicTcpSocket) : Prop := s.flags &&& enabledAndAccepted = enabledAndAccepted

instance (s : SnicTcpSocket) : Decidable s.Open := inferInstanceAs (Decidable (_ = _))

/-- What the handler owes: delivery to an open socket, an unchanged buffer to any other. -/
def Delivers (s : SnicTcpSocket) (d : SerialDevice) : Prop :=
  if s.Open then
    Delivered s.rxbuf d 2 (tcpAnnounced d.unread).toNat [] (s.onConnectionRecvInd d)
  else Appended s.rxbuf (s.onConnectionRecvInd d).fifo []

/-- The socket with other bytes in its memory. -/
def withMemory (s : SnicTcpSocket) (m : Memory) : SnicTcpSocket :=
  { s with rxbuf := { s.rxbuf with buf := m } }

/-- An open socket has lost its data unless it would not have come anyway; one that is not open
takes no data that does not fit, and no more than fits of what follows an announcement of 0. -/
def InOrder (s : SnicTcpSocket) (d : SerialDevice) : Prop :=
  if s.Open then d.unread.length < 2 + (tcpAnnounced d.unread).toNat
  else
    d.unread.length < 2 ∨ s.rxbuf.getSpace.toNat < (tcpAnnounced d.unread).toNat ∨
      (tcpAnnounced d.unread).toNat = 0 ∧ d.unread.length - 2 ≤ s.rxbuf.getSpace.toNat

instance (s : SnicTcpSocket) (d : SerialDevice) : Decidable (s.InOrder d) :=
  inferInstanceAs (Decidable (if s.Open then _ < _ else _ < _ ∨ _ < _ ∨ _ = _ ∧ _ ≤ _))

end SnicTcpSocket

namespace SnicUdpSocket

def Delivers (s : SnicUdpSocket) (ip : IPv4Addr) (d : SerialDevice) : Prop :=
  Delivered s.rxbuf d 8 (udpAnnounced d.unread).toNat (s.rxInfo ip d.unread).bytes
    (s.onConnectionRecvInd ip d)

/-- The data fits, comes, and has a length from 1 to 255; or it does not fit, and is empty or does
not come; or not even the header comes. -/
def InOrder (s : SnicUdpSocket) (d : SerialDevice) : Prop :=
  let n := (udpAnnounced d.unread).toNat
  d.unread.length < 8 ∨
    (n + sizeOfRxInfo ≤ s.rxbuf.getSpace.toNat ∧ 1 ≤ n ∧ n ≤ 255 ∧ 8 + n ≤ d.unread.length) ∨
    (s.rxbuf.getSpace.toNat < n + sizeOfRxInfo ∧ (n = 0 ∨ d.unread.length < 8 + n))

instance (s : SnicUdpSocket) (d : SerialDevice) : Decidable (s.InOrder d) :=
  inferInstanceAs (Decidable (_ ∨ _ ∨ _))

end SnicUdpSocket

theorem getD_take {u : List UInt8} {n i : Nat} (h : i < n) : (u.take n).getD i 0 = u.getD i 0 := by
  rw [List.getD_eq_getElem?_getD, List.getElem?_take_of_lt h, ← List.getD_eq_getElem?_getD]

theorem tcpAnnounced_take (u : List UInt8) : tcpAnnounced (u.take 2) = tcpAnnounced u := by
  rw [tcpAnnounced, getD_take (by decide), getD_take (by decide)]
  rfl

theorem udpAnnounced_take (u : List UInt8) : udpAnnounced (u.take 8) = udpAnnounced u := by
  rw [udpAnnounced, getD_take (by decide), getD_take (by decide)]
  rfl

theorem rxInfo_take (s : SnicUdpSocket) (ip : IPv4Addr) (u : List UInt8) :
    s.rxInfo ip (u.take 8) = s.rxInfo ip u := by
  rw [SnicUdpSocket.rxInfo, udpAnnounced_take, getD_take (by decide), getD_take (by decide)]
  simp only [Memory.u32, listMemory]
  rw [getD_take (by decide), getD_take (by decide), getD_take (by decide), getD_take (by decide)]
  rfl

namespace SnicTcpSocket

variable {s : SnicTcpSocket} {d : SerialDevice}

theorem run_open (h : s.Open) : s.onConnectionRecvInd d = ⟨false, s.rxbuf, d, none⟩ := if_pos h

theorem run_closed (h : ¬ s.Open) :
    s.onConnectionRecvInd d = s.afterHeader (copyPayload 2 d) := if_neg h

/-- What the handler does behind the header of a line that brings `u`. -/
theorem afterHeader_cases (s : SnicTcpSocket) {u : List UInt8} {hd : Copied} (hof : hd.Of u 2) :
    (u.length < 2 ∧ (s.afterHeader hd).fifo = s.rxbuf) ∨
      (2 ≤ u.length ∧ s.rxbuf.getSpace.toNat < (tcpAnnounced u).toNat ∧
        (s.afterHeader hd).fifo = s.rxbuf) ∨
      (2 ≤ u.length ∧ ∃ h : (tcpAnnounced u).toNat ≤ s.rxbuf.getSpace.toNat,
        s.afterHeader hd = s.rxbuf.receive (tcpAnnounced u) h hd) := by
  have hann : tcpAnnounced hd.bytes = tcpAnnounced u := by rw [hof.bytes, tcpAnnounced_take]
  simp only [afterHeader, hann]
  cases hok : hd.ok with
  | false =>
    have hshort := of_decide_eq_false (hof.ok.symm.trans hok)
    exact .inl ⟨by omega, rfl⟩
  | true =>
    have hlen := hof.length_le hok
    by_cases hfull : s.rxbuf.getSpace.toNat < (tcpAnnounced u).toNat
    · refine .inr (.inl ⟨hlen, hfull, ?_⟩)
      simp only [Bool.not_true, Bool.false_eq_true, if_false, dif_pos hfull]
    · refine .inr (.inr ⟨hlen, Nat.le_of_not_lt hfull, ?_⟩)
      simp only [Bool.not_true, Bool.false_eq_true, if_false, dif_neg hfull]

/-- The data of an open socket stays on the line. -/
theorem delivers_open (h : s.Open) :
    s.Delivers d ↔ d.unread.length < 2 + (tcpAnnounced d.unread).toNat := by
  rw [Delivers, if_pos h, run_open h, Delivered]
  by_cases hcome : 2 + (tcpAnnounced d.unread).toNat ≤ d.unread.length
  · rw [if_pos hcome]
    refine iff_of_false (fun hd => ?_) (Nat.not_lt.mpr hcome)
    have hlen : d.unread.length = (d.unread.drop _).length := congrArg List.length hd.1
    rw [List.length_drop] at hlen
    omega
  · rw [if_neg hcome]
    exact iff_of_true (.nothing _) (Nat.lt_of_not_le hcome)

/-- Room for nothing, and what comes next behind it. -/
theorem appended_zero {f : RxFifo} {n : UInt16} {bytes : List UInt8}
    (h : n.toNat ≤ f.getSpace.toNat) (hn : n.toNat = 0)
    (hfit : bytes.length ≤ f.getSpace.toNat) :
    Appended f ((f.prePush n h).store f.len.toNat bytes) [] where
  size := rfl
  content := by
    rw [RxFifo.view_reserve, hn]
    rfl
  outside := by
    have hle := f.fits
    rw [RxFifo.toNat_getSpace] at hfit
    exact RxFifo.store_outside (by omega)

/-- A memory in which every stored byte is a change. -/
theorem exists_changed (off size : Nat) (bytes : List UInt8) (hoff : off ≤ size)
    (h : size < off + bytes.length) : ∃ m : Memory, m.write off bytes size ≠ m size := by
  refine ⟨fun i => bytes.getD (i - off) 0 + 1, ?_⟩
  rw [Memory.write, if_pos ⟨hoff, h⟩]
  intro heq
  have hmod := congrArg UInt8.toNat heq
  have hlt := (bytes.getD (size - off) 0).toNat_lt
  rw [UInt8.toNat_add] at hmod
  have hone : (1 : UInt8).toNat = 1 := rfl
  omega

/-- A socket that is not open, whatever its memory holds. -/
theorem delivers_closed (h : ¬ s.Open) :
    (∀ m, (s.withMemory m).Delivers d) ↔
      d.unread.length < 2 ∨ s.rxbuf.getSpace.toNat < (tcpAnnounced d.unread).toNat ∨
        (tcpAnnounced d.unread).toNat = 0 ∧ d.unread.length - 2 ≤ s.rxbuf.getSpace.toNat := by
  have hof : (copyPayload 2 d).Of d.unread 2 := copyPayload_of 2 d
  have hdel : ∀ m, (s.withMemory m).Delivers d ↔ Appended (s.withMemory m).rxbuf
      ((s.withMemory m).afterHeader (copyPayload 2 d)).fifo [] := fun m => by
    have hm : ¬ (s.withMemory m).Open := h
    rw [Delivers, if_neg hm, run_closed hm]
  simp only [hdel]
  generalize copyPayload 2 d = hd at hof
  by_cases hshort : d.unread.length < 2
  · refine iff_of_true (fun m => ?_) (.inl hshort)
    obtain ⟨-, hf⟩ | ⟨hlen, -⟩ | ⟨hlen, -⟩ := (s.withMemory m).afterHeader_cases hof
    · rw [hf]
      exact .nothing _
    · omega
    · omega
  by_cases hfull : s.rxbuf.getSpace.toNat < (tcpAnnounced d.unread).toNat
  · refine iff_of_true (fun m => ?_) (.inr (.inl hfull))
    obtain ⟨hlen, -⟩ | ⟨-, -, hf⟩ | ⟨-, hroom, -⟩ := (s.withMemory m).afterHeader_cases hof
    · exact absurd hlen hshort
    · rw [hf]
      exact .nothing _
    · exact absurd hroom (Nat.not_le.mpr hfull)
  have hroom := Nat.le_of_not_lt hfull
  have hfifo : ∀ m, ((s.withMemory m).afterHeader hd).fifo =
      (RxFifo.prePush (s.withMemory m).rxbuf (tcpAnnounced d.unread) hroom).store s.rxbuf.len.toNat
        ((d.unread.drop 2).take (readCount (tcpAnnounced d.unread).toUInt8)) := fun m => by
    obtain ⟨hlen, -⟩ | ⟨-, hlt, -⟩ | ⟨hlen, hr, hrun⟩ := (s.withMemory m).afterHeader_cases hof
    · exact absurd hlen hshort
    · exact absurd hlt hfull
    · rw [hrun]
      exact (RxFifo.receive_of hr hof hlen).2.2
  simp only [hfifo]
  rw [or_iff_right hshort, or_iff_right hfull]
  have hspace := s.rxbuf.toNat_getSpace
  have hfits := s.rxbuf.fits
  have hsize := s.rxbuf.size.toNat_lt
  constructor
  · intro hall
    have hzero : (tcpAnnounced d.unread).toNat = 0 := by
      have hlen := (hall s.rxbuf.buf).length
      have hadd := (RxFifo.toNat_len_add hroom).1
      have hnew : (s.rxbuf.len + tcpAnnounced d.unread).toNat = s.rxbuf.len.toNat + 0 := hlen
      omega
    refine ⟨hzero, Nat.le_of_not_lt fun hmore => ?_⟩
    have hcount : readCount (tcpAnnounced d.unread).toUInt8 = 65536 := by
      rw [UInt16.toNat_inj.mp (show _ = (0 : UInt16).toNat from hzero)]
      rfl
    obtain ⟨m, hm⟩ := exists_changed s.rxbuf.len.toNat s.rxbuf.size.toNat
      ((d.unread.drop 2).take (readCount (tcpAnnounced d.unread).toUInt8)) hfits (by
        rw [hcount, List.length_take, List.length_drop]
        omega)
    exact hm ((hall m).outside _ le_rfl)
  · rintro ⟨hzero, hfit⟩ m
    refine appended_zero (f := (s.withMemory m).rxbuf) hroom hzero ?_
    refine le_trans ?_ hfit
    rw [List.length_take, List.length_drop]
    exact min_le_right _ _

theorem delivers_iff (s : SnicTcpSocket) (d : SerialDevice) :
    (∀ m, (s.withMemory m).Delivers d) ↔ s.InOrder d := by
  unfold InOrder
  by_cases h : s.Open
  · have hall : ∀ m, (s.withMemory m).Open := fun _ => h
    simp only [delivers_open (hall _), if_pos h, forall_const]
  · rw [delivers_closed h, if_neg h]

end SnicTcpSocket

namespace SnicUdpSocket

variable {s : SnicUdpSocket} {ip : IPv4Addr} {d : SerialDevice}

theorem afterHeader_cases (s : SnicUdpSocket) (ip : IPv4Addr) {u : List UInt8} {hd : Copied}
    (hof : hd.Of u 8) :
    (u.length < 8 ∧ (s.afterHeader ip hd).fifo = s.rxbuf) ∨
      (8 ≤ u.length ∧ s.rxbuf.getSpace.toNat < (udpAnnounced u).toNat + sizeOfRxInfo ∧
        (s.afterHeader ip hd).fifo = s.rxbuf ∧ (s.afterHeader ip hd).dev.unread = u.drop 8) ∨
      (8 ≤ u.length ∧ ∃ h : ¬ s.rxbuf.getSpace.toNat < (udpAnnounced u).toNat + sizeOfRxInfo,
        s.afterHeader ip hd = (s.rxbuf.push (s.rxInfo ip u).bytes (RxFifo.push_room h)).receive
          (udpAnnounced u) (RxFifo.receive_room h) hd) := by
  have hann : udpAnnounced hd.bytes = udpAnnounced u := by rw [hof.bytes, udpAnnounced_take]
  have hinfo : s.rxInfo ip hd.bytes = s.rxInfo ip u := by rw [hof.bytes, rxInfo_take]
  simp only [afterHeader, hann, hinfo]
  cases hok : hd.ok with
  | false =>
    have hshort := of_decide_eq_false (hof.ok.symm.trans hok)
    exact .inl ⟨by omega, rfl⟩
  | true =>
    have hlen := hof.length_le hok
    by_cases hfull : s.rxbuf.getSpace.toNat < (udpAnnounced u).toNat + sizeOfRxInfo
    · refine .inr (.inl ⟨hlen, hfull, ?_⟩)
      simp only [Bool.not_true, Bool.false_eq_true, if_false, dif_pos hfull]
      exact ⟨trivial, hof.unread⟩
    · refine .inr (.inr ⟨hlen, hfull, ?_⟩)
      simp only [Bool.not_true, Bool.false_eq_true, if_false, dif_neg hfull]

/-- A datagram that fits. -/
theorem delivered_room {f : RxFifo} {n : UInt16} {info : IPv4RxInfo} {hd : Copied}
    (h : ¬ f.getSpace.toNat < n.toNat + sizeOfRxInfo) (hof : hd.Of d.unread 8)
    (hlen : 8 ≤ d.unread.length) :
    Delivered f d 8 n.toNat info.bytes
        ((f.push info.bytes (RxFifo.push_room h)).receive n (RxFifo.receive_room h) hd) ↔
      1 ≤ n.toNat ∧ n.toNat ≤ 255 ∧ 8 + n.toNat ≤ d.unread.length := by
  obtain ⟨hret, hun, hfifo⟩ :=
    RxFifo.receive_of (f := f.push info.bytes (RxFifo.push_room h)) (RxFifo.receive_room h) hof hlen
  have hrec : Appended f (f.push info.bytes (RxFifo.push_room h)) info.bytes :=
    RxFifo.appended_reserve (RxFifo.push_room h) rfl
  have hfit : info.bytes.length + n.toNat ≤ f.getSpace.toNat := by
    rw [IPv4RxInfo.length_bytes]
    omega
  unfold Delivered
  rw [hret, hun, hfifo, if_pos hfit]
  by_cases hcome : 8 + n.toNat ≤ d.unread.length
  · rw [if_pos hcome, and_iff_left hcome, ← readCount_toUInt8_iff]
    constructor
    · rintro ⟨hdrop, hok, -⟩
      have hle := of_decide_eq_true hok
      have heq := congrArg List.length hdrop
      rw [List.length_drop, List.length_drop] at heq
      omega
    · intro heq
      rw [heq]
      refine ⟨rfl, decide_eq_true hcome, hrec.append (RxFifo.appended_reserve _ ?_)⟩
      rw [List.length_take, List.length_drop]
      omega
  · -- room has been made for bytes that do not come
    rw [if_neg hcome]
    refine iff_of_false (fun happ => ?_) (fun hr => hcome hr.2.2)
    have hfirst := hrec.length
    have hroom : n.toNat ≤ (f.push info.bytes (RxFifo.push_room h)).getSpace.toNat :=
      RxFifo.receive_room h
    have hadd := (RxFifo.toNat_len_add hroom).1
    have hnew : ((f.push info.bytes (RxFifo.push_room h)).len + n).toNat = f.len.toNat + 0 :=
      happ.length
    omega

theorem delivers_iff (s : SnicUdpSocket) (ip : IPv4Addr) (d : SerialDevice) :
    s.Delivers ip d ↔ s.InOrder d := by
  have hof : (copyPayload 8 d).Of d.unread 8 := copyPayload_of 8 d
  unfold Delivers InOrder onConnectionRecvInd
  dsimp only
  generalize copyPayload 8 d = hd at hof ⊢
  obtain ⟨hlen, hf⟩ | ⟨hlen, hfull, hf, hun⟩ | ⟨hlen, hroom, hrun⟩ := s.afterHeader_cases ip hof
  · refine iff_of_true ?_ (.inl hlen)
    rw [Delivered, if_neg (by omega), hf]
    exact .nothing _
  · have hno : ¬ (s.rxInfo ip d.unread).bytes.length + (udpAnnounced d.unread).toNat ≤
        s.rxbuf.getSpace.toNat := by
      rw [IPv4RxInfo.length_bytes]
      omega
    rw [Delivered, hun, hf, if_neg hno, and_iff_left (Appended.nothing _)]
    by_cases hcome : 8 + (udpAnnounced d.unread).toNat ≤ d.unread.length
    · rw [if_pos hcome]
      constructor
      · intro hdrop
        have heq := congrArg List.length hdrop
        rw [List.length_drop, List.length_drop] at heq
        omega
      · intro hor
        rw [show (udpAnnounced d.unread).toNat = 0 by omega]
    · rw [if_neg hcome]
      exact iff_of_true (.nothing _) (by omega)
  · rw [hrun, delivered_room hroom hof hlen]
    omega

end SnicUdpSocket

/-- A read that has come to its end. -/
def Copied.result (c : Copied) : Option (List UInt8 × SerialDevice) :=
  match c.ok with
  | true => some (c.bytes, c.dev)
  | false => none

theorem waitForRead_eq_copyLoop (len : UInt8) (fuel : Nat) (wp : UInt16) (d : SerialDevice) :
    waitForRead len fuel wp d = (copyLoop len fuel wp d).result := by
  induction fuel generalizing wp d with
  | zero => rfl
  | succ fuel ih =>
    rw [waitForRead, copyLoop]
    cases d.pread with
    | none => rfl
    | some p =>
      dsimp only
      cases meets len wp p.1 with
      | some k => rfl
      | none =>
        dsimp only
        rw [ih]
        unfold Copied.result
        cases (copyLoop len fuel (wp + UInt16.ofNat p.1.length) (p.2.pseek p.1.length)).ok with
        | true => rfl
        | false => rfl

theorem readPayload_eq_copyPayload (len : UInt8) (d : SerialDevice) :
    readPayload len d = (copyPayload len d).result :=
  waitForRead_eq_copyLoop len 65536 0 d

/-- A handler of the message task takes from the line what this one does. -/
def Sees (r : Option (Bool × SerialDevice)) (o : RxOutcome) : Prop :=
  ∀ b d', r = some (b, d') → o.ret = b ∧ o.dev = d'

theorem sees_receive {f : RxFifo} {n : UInt16} (h : n.toNat ≤ f.getSpace.toNat) (hd : Copied) :
    Sees ((readPayload n.toUInt8 hd.dev).bind fun x => some (true, x.2)) (f.receive n h hd) := by
  intro b d' hrun
  rw [readPayload_eq_copyPayload, Copied.result] at hrun
  unfold RxFifo.receive
  dsimp only
  cases hok : (copyPayload n.toUInt8 hd.dev).ok with
  | false =>
    rw [hok] at hrun
    cases hrun
  | true =>
    rw [hok] at hrun
    cases hrun
    exact ⟨rfl, rfl⟩

theorem sees_tcp (s : SnicTcpSocket) (d : SerialDevice) :
    Sees (tcpOnConnectionRecvInd ⟨s.flags, s.rxbuf.getSpace, s.rxbuf.getSpace⟩ d)
      (s.onConnectionRecvInd d) := by
  intro b d' hrun
  unfold tcpOnConnectionRecvInd at hrun
  by_cases h : s.flags &&& enabledAndAccepted = enabledAndAccepted
  · rw [if_pos h] at hrun
    cases hrun
    rw [s.run_open h]
    exact ⟨rfl, rfl⟩
  · rw [if_neg h, readPayload_eq_copyPayload] at hrun
    rw [s.run_closed h]
    generalize copyPayload 2 d = hd at hrun ⊢
    unfold Copied.result at hrun
    unfold SnicTcpSocket.afterHeader
    cases hok : hd.ok with
    | false =>
      rw [hok] at hrun
      cases hrun
    | true =>
      have hann : word16 (hd.bytes.getD 0 0) (hd.bytes.getD 1 0) = tcpAnnounced hd.bytes := rfl
      simp only [hok, Option.bind_eq_bind, Option.bind_some, and_self, hann] at hrun
      by_cases hfull : s.rxbuf.getSpace < tcpAnnounced hd.bytes
      · rw [if_pos hfull] at hrun
        cases hrun
        simp only [Bool.not_true, Bool.false_eq_true, if_false,
          dif_pos (UInt16.lt_iff_toNat_lt.mp hfull)]
        exact ⟨trivial, trivial⟩
      · rw [if_neg hfull] at hrun
        simp only [Bool.not_true, Bool.false_eq_true, if_false,
          dif_neg (mt UInt16.lt_iff_toNat_lt.mpr hfull)]
        exact sees_receive _ hd b d' hrun

theorem sees_udp (s : SnicUdpSocket) (ip : IPv4Addr) (d : SerialDevice) (flags : UInt8)
    (spaceAfterSleep : UInt16) :
    Sees (udpOnConnectionRecvInd ⟨flags, s.rxbuf.getSpace, spaceAfterSleep⟩ d)
      (s.onConnectionRecvInd ip d) := by
  intro b d' hrun
  rw [udpOnConnectionRecvInd, readPayload_eq_copyPayload] at hrun
  unfold SnicUdpSocket.onConnectionRecvInd
  generalize copyPayload 8 d = hd at hrun ⊢
  unfold Copied.result at hrun
  unfold SnicUdpSocket.afterHeader
  cases hok : hd.ok with
  | false =>
    rw [hok] at hrun
    cases hrun
  | true =>
    have hann : word16 (hd.bytes.getD 6 0) (hd.bytes.getD 7 0) = udpAnnounced hd.bytes := rfl
    simp only [hok, Option.bind_eq_bind, Option.bind_some, hann] at hrun
    by_cases hfull : s.rxbuf.getSpace.toNat < (udpAnnounced hd.bytes).toNat + sizeOfRxInfo
    · rw [if_pos hfull] at hrun
      cases hrun
      simp only [Bool.not_true, Bool.false_eq_true, if_false, dif_pos hfull]
      exact ⟨trivial, trivial⟩
    · rw [if_neg hfull] at hrun
      simp only [Bool.not_true, Bool.false_eq_true, if_false, dif_neg hfull]
      exact sees_receive _ hd b d' hrun

/-- Data on its way into a socket: exactly when the handlers do what they owe. -/
theorem received_data (ip : IPv4Addr) (d : SerialDevice) :
    (∀ s : SnicTcpSocket, (∀ m, (s.withMemory m).Delivers d) ↔ s.InOrder d) ∧
      ∀ s : SnicUdpSocket, s.Delivers ip d ↔ s.InOrder d :=
  ⟨fun s => s.delivers_iff d, fun s => s.delivers_iff ip d⟩

theorem emptyFifo_fits : 0 ≤ 512 := Nat.zero_le 512

/-- An empty buffer of 512 bytes. -/
def emptyFifo : RxFifo := ⟨512, 0, fun _ => 0, emptyFifo_fits⟩

/-- Three bytes for an accepted connection are left on the line; of 260 bytes of a datagram four
are taken. -/
theorem not_received_data :
    (¬ ∀ (s : SnicTcpSocket) (d : SerialDevice), s.Delivers d) ∧
      ¬ ∀ (s : SnicUdpSocket) (ip : IPv4Addr) (d : SerialDevice), s.Delivers ip d := by
  constructor
  · intro h
    have hin := (SnicTcpSocket.delivers_iff ⟨0x03, emptyFifo⟩ (.init [0, 3, 97, 98, 99] [5])).mp
      fun m => h _ _
    exact absurd hin (by decide)
  · intro h
    have hin := (SnicUdpSocket.delivers_iff ⟨1000, emptyFifo⟩ ⟨0⟩
      (.init ([192, 168, 0, 7, 0, 53, 1, 4] ++ List.replicate 260 0) [])).mp (h _ _ _)
    exact absurd hin (by decide +kernel)

end MiMic.Snic
