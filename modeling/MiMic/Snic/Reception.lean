import MiMic.Snic.MessageTask

/-!
# What the message task takes of a frame

How many bytes each handler takes of a payload is a matter of the payload and the tables alone,
however the stream is cut.
-/
namespace MiMic.Snic

open Verif
open NetIf (sizeOfRxInfo)

/-- How many bytes `waitForRead` copies for a length. -/
def readCount (len : UInt8) : Nat := if len = 0 then 65536 else len.toNat

/-- How far the write index is from meeting the length. -/
def toMeet (len : UInt8) (wp : UInt16) : Nat := (len.toUInt16 - wp - 1).toNat + 1

theorem toMeet_zero (len : UInt8) : toMeet len 0 = readCount len := by
  unfold toMeet readCount
  split
  · next h => rw [h]; rfl
  · next h =>
    have hpos : 0 < len.toNat := by
      rcases Nat.eq_zero_or_pos len.toNat with h0 | h0
      · exact absurd (UInt8.toNat_inj.mp h0) h
      · exact h0
    have hle : (1 : UInt16) ≤ len.toUInt16 := by
      rw [UInt16.le_iff_toNat_le, UInt8.toNat_toUInt16]
      exact hpos
    rw [UInt16.sub_zero, UInt16.toNat_sub_of_le _ _ hle, UInt8.toNat_toUInt16]
    show len.toNat - 1 + 1 = len.toNat
    omega

theorem toMeet_add (len : UInt8) (wp : UInt16) {n : Nat} (hn : n < toMeet len wp) :
    toMeet len (wp + UInt16.ofNat n) = toMeet len wp - n := by
  unfold toMeet at hn ⊢
  have hlt := (len.toUInt16 - wp - 1).toNat_lt
  have hofNat : (UInt16.ofNat n).toNat = n := UInt16.toNat_ofNat_of_lt' (by show n < 65536; omega)
  have hle : UInt16.ofNat n ≤ len.toUInt16 - wp - 1 := by
    rw [UInt16.le_iff_toNat_le, hofNat]
    omega
  rw [show len.toUInt16 - (wp + UInt16.ofNat n) - 1 = len.toUInt16 - wp - 1 - UInt16.ofNat n by grind,
    UInt16.toNat_sub_of_le _ _ hle, hofNat]
  omega

theorem toMeet_eq_one {len : UInt8} {wp : UInt16} : toMeet len wp = 1 ↔ wp + 1 = len.toUInt16 := by
  unfold toMeet
  constructor
  · intro h
    have h0 : len.toUInt16 - wp - 1 = 0 := UInt16.toNat_inj.mp (by simpa using h)
    calc wp + 1 = wp + 1 + (len.toUInt16 - wp - 1) := by rw [h0]; grind
      _ = len.toUInt16 := by grind
  · intro h
    rw [← h, show wp + 1 - wp - 1 = (0 : UInt16) by grind]
    rfl

/-- The copying loop ends inside a segment that reaches so far. -/
theorem meets_eq (len : UInt8) (wp : UInt16) (seg : List UInt8) :
    meets len wp seg = if toMeet len wp ≤ seg.length then some (toMeet len wp) else none := by
  induction seg generalizing wp with
  | nil => rw [meets, if_neg (by simp [toMeet])]
  | cons b rest ih =>
    rw [meets]
    by_cases h : wp + 1 = len.toUInt16
    · rw [if_pos h, toMeet_eq_one.mpr h, if_pos (by simp)]
    · have hne : toMeet len wp ≠ 1 := fun he => h (toMeet_eq_one.mp he)
      have hpos : 0 < toMeet len wp := Nat.succ_pos _
      have hnext : toMeet len (wp + 1) = toMeet len wp - 1 :=
        toMeet_add len wp (show 1 < toMeet len wp by omega)
      obtain ⟨m, hm⟩ := Nat.exists_eq_add_of_lt hpos
      rw [if_neg h, ih, hnext, List.length_cons, hm, Nat.zero_add, Nat.add_sub_cancel]
      by_cases hle : m ≤ rest.length
      · rw [if_pos hle, if_pos (Nat.succ_le_succ hle), Option.map_some]
      · rw [if_neg hle, if_neg (fun h => hle (Nat.le_of_succ_le_succ h)), Option.map_none]

/-- The reader has passed `k` bytes of `s` since `n` bytes of it had come. -/
structure Behind (s : List UInt8) (n k : Nat) (d : SerialDevice) : Prop where
  unread : d.unread = s.drop k
  arrived : n ≤ k + d.ring.items.length

theorem Behind.start (d : SerialDevice) : Behind d.unread d.ring.items.length 0 d :=
  ⟨rfl, by omega⟩

namespace Behind

variable {s : List UInt8} {n k : Nat} {d d' : SerialDevice}

/-- A seek over bytes that have come. -/
theorem pseek (h : Behind s n k d) {j : Nat} (hj : j ≤ d.ring.items.length) :
    Behind s n (k + j) (d.pseek j) := by
  constructor
  · rw [SerialDevice.unread_pseek hj, h.unread, List.drop_drop]
  · have hle := (SerialDevice.items_arrive d).length_le
    have hlen : (d.pseek j).ring.items.length = d.arrive.ring.items.length - j := by
      show (d.arrive.ring.advance j).items.length = _
      rw [Ring.items_advance d.arrive.inRange (hj.trans hle), List.length_drop]
    have harr := h.arrived
    omega

/-- A look at the ring passes nothing. -/
theorem pread (h : Behind s n k d) (hk : k < s.length) :
    ∃ seg d', d.pread = some (seg, d') ∧ seg ≠ [] ∧ seg <+: s.drop k ∧
      seg.length ≤ d'.ring.items.length ∧ Behind s n k d' := by
  have hne : d.unread ≠ [] := by
    rw [h.unread]
    exact fun hnil => absurd (List.drop_eq_nil_iff.mp hnil) (by omega)
  obtain ⟨seg, d', hrun, hseg, hpre, hun, hgrow⟩ := SerialDevice.pread_eq hne
  refine ⟨seg, d', hrun, hseg, ?_, hpre.length_le, ⟨hun.trans h.unread, ?_⟩⟩
  · rw [← h.unread, ← hun]
    exact hpre.trans (List.prefix_append _ _)
  · exact h.arrived.trans (by omega)

/-- The loop of `waitForRead` copies the same bytes however they come. -/
theorem waitForRead (len : UInt8) (fuel : Nat) (wp : UInt16) (h : Behind s n k d)
    (hfuel : toMeet len wp ≤ fuel) (hlen : k + toMeet len wp ≤ s.length) :
    ∃ d', Snic.waitForRead len fuel wp d = some ((s.drop k).take (toMeet len wp), d') ∧
      Behind s n (k + toMeet len wp) d' := by
  have hpos : 0 < toMeet len wp := Nat.succ_pos _
  induction fuel generalizing wp k d with
  | zero => exact absurd hfuel (by omega)
  | succ fuel ih =>
    obtain ⟨seg, d₁, hrun, hseg, hpre, hcome, hb⟩ := h.pread (by omega)
    obtain ⟨rest, hrest⟩ := hpre
    have hseglen : 0 < seg.length := List.length_pos_iff.mpr hseg
    rw [Snic.waitForRead, hrun]
    dsimp only
    rw [meets_eq]
    by_cases hle : toMeet len wp ≤ seg.length
    · rw [if_pos hle]
      refine ⟨_, ?_, hb.pseek (hle.trans hcome)⟩
      rw [← hrest, List.take_append_of_le_length hle]
    · rw [if_neg hle]
      have hnext := toMeet_add len wp (show seg.length < toMeet len wp by omega)
      have hdrop : s.drop (k + seg.length) = rest := by
        rw [← List.drop_drop, ← hrest, List.drop_left]
      obtain ⟨d', hrec, hb'⟩ := ih (wp + UInt16.ofNat seg.length) (hb.pseek hcome) (by omega)
        (by omega) (by omega)
      refine ⟨d', ?_, ?_⟩
      · dsimp only
        rw [hrec, hdrop, Option.map_some, hnext, ← hrest, List.take_append,
          List.take_of_length_le (show seg.length ≤ toMeet len wp by omega)]
      · rwa [hnext, show k + seg.length + (toMeet len wp - seg.length) = k + toMeet len wp by
          omega] at hb'

/-- One byte is passed, and compared. -/
theorem waitforRawByte (byte : UInt8) (h : Behind s n k d) (hk : k < s.length) :
    ∃ d', Snic.waitforRawByte byte d = some (s.getD k 0 == byte, d') ∧ Behind s n (k + 1) d' := by
  obtain ⟨seg, d₁, hrun, hseg, ⟨rest, hrest⟩, hcome, hb⟩ := h.pread hk
  obtain ⟨b, seg', rfl⟩ := List.exists_cons_of_ne_nil hseg
  refine ⟨d₁.pseek 1, ?_, hb.pseek (le_trans (Nat.succ_le_succ (Nat.zero_le _)) hcome)⟩
  have hhead : s.getD k 0 = b := by
    rw [List.getD_eq_getElem?_getD, ← Nat.add_zero k, ← List.getElem?_drop, ← hrest]
    rfl
  rw [Snic.waitforRawByte, hrun, hhead]
  rfl

theorem readCount_le (len : UInt8) : readCount len ≤ 65536 := by
  have hlt := len.toNat_lt
  unfold readCount
  split <;> omega

/-- A read inside the payload gives its bytes. -/
theorem read {p rest : List UInt8} {len : UInt8} (h : Behind (p ++ rest) n k d)
    (hlen : k + readCount len ≤ p.length) :
    ∃ buf d', readPayload len d = some (buf, d') ∧
      (∀ i < readCount len, buf.getD i 0 = p.getD (k + i) 0) ∧
      Behind (p ++ rest) n (k + readCount len) d' := by
  have hmeet := toMeet_zero len
  obtain ⟨d', hrun, hb⟩ := h.waitForRead len 65536 0 (hmeet ▸ readCount_le len)
    (by rw [hmeet, List.length_append]; omega)
  rw [hmeet] at hrun hb
  refine ⟨_, d', hrun, ?_, hb⟩
  intro i hi
  rw [List.getD_eq_getElem?_getD, List.getElem?_take_of_lt hi, List.getElem?_drop,
    List.getElem?_append_left (by omega), ← List.getD_eq_getElem?_getD]

end Behind

/-- What a handler takes of a payload: the bytes it reads, the bytes it seeks over behind them,
and whether it is content. -/
structure Layout where
  reads : Nat
  skips : Nat
  accepted : Bool

/-- `NyLPC_cSnicTcpSocket_onConnectionRecvInd`. -/
def tcpLayout (s : SocketState) (p : List UInt8) : Layout :=
  let datalen := word16 (p.getD 3 0) (p.getD 4 0)
  if s.flags &&& enabledAndAccepted = enabledAndAccepted then ⟨3, 0, false⟩
  else if s.space < datalen ∧ s.spaceAfterSleep < datalen then ⟨5, datalen.toNat, true⟩
  else ⟨5 + readCount datalen.toUInt8, 0, true⟩

/-- `NyLPC_cSnicUdpSocket_onConnectionRecvInd`. -/
def udpLayout (s : SocketState) (p : List UInt8) : Layout :=
  let datalen := word16 (p.getD 9 0) (p.getD 10 0)
  if s.space.toNat < datalen.toNat + sizeOfRxInfo then ⟨11, 0, false⟩
  else ⟨11 + readCount datalen.toUInt8, 0, true⟩

/-- Data for a socket that is not known. -/
def passOverLayout (p : List UInt8) : Layout :=
  ⟨5, (word16 (p.getD 3 0) (p.getD 4 0)).toNat, true⟩

def indicationLayout (t : RxTables) (p : List UInt8) : Layout :=
  if p.getD 0 0 = 0x21 then
    if t.getTcpListenerBySocket (p.getD 2 0) then ⟨10, 0, true⟩ else ⟨3, 7, true⟩
  else if p.getD 0 0 = 0x20 then ⟨1, 0, false⟩
  else if p.getD 0 0 = 0x22 then
    match t.getTcpSocketBySocket (p.getD 2 0) with
    | some s => tcpLayout s p
    | none => passOverLayout p
  else if p.getD 0 0 = 0x23 then
    match t.getUdpSocketBySocket (p.getD 2 0) with
    | some s => udpLayout s p
    | none => passOverLayout p
  else if p.getD 0 0 = 0x24 ∨ p.getD 0 0 = 0x25 then ⟨1, 0, false⟩
  else ⟨1, 0, true⟩

def requestLayout (t : RxTables) (p : List UInt8) : Layout :=
  match answered t (p.getD 0 0) (p.getD 1 0), payloadLen (p.getD 0 0) with
  | none, _ | _, none => ⟨3, 0, false⟩
  | some _, some n =>
      if p.getD 0 0 = 0x00 ||| responseBit then ⟨3 + n, 0, p.getD 2 0 == 0⟩
      else if p.getD 2 0 ≠ 0 then ⟨3, 0, false⟩
      else ⟨3 + n, 0, true⟩

def apiLayout (t : RxTables) (p : List UInt8) : Layout :=
  if p.getD 0 0 &&& 0x20 ≠ 0 then indicationLayout t p else requestLayout t p

def wifiLayout (t : RxTables) (p : List UInt8) : Layout :=
  match answered t (p.getD 0 0) (p.getD 1 0) with
  | none => ⟨3, 0, false⟩
  | some _ =>
      if p.getD 0 0 = 0x80 ∨ p.getD 0 0 = 0x81 ∨ p.getD 0 0 = 0x82 ∨ p.getD 0 0 = 0x83 then
        ⟨3, 0, p.getD 2 0 == 0⟩
      else ⟨3, 0, false⟩

def generalLayout (t : RxTables) (p : List UInt8) : Layout :=
  match answered t (p.getD 0 0) (p.getD 1 0) with
  | none => ⟨3, 0, false⟩
  | some inst =>
      if p.getD 0 0 = 0x88 then
        if p.getD 2 0 ≠ 0 then ⟨4, 0, false⟩
        else if (p.getD 3 0).toNat + 1 < inst.bufLen.toNat then ⟨4 + readCount (p.getD 3 0), 0, true⟩
        else ⟨4, (p.getD 3 0).toNat, true⟩
      else ⟨3, 0, false⟩

def RxHandler.layout (t : RxTables) (p : List UInt8) : RxHandler → Layout
  | general => generalLayout t p
  | snicApi => apiLayout t p
  | snicWifi => wifiLayout t p

namespace Layout

/-- All that is taken lies in the payload, and what is passed over is among the first `n` bytes,
those that have come. -/
structure Fits (l : Layout) (p : List UInt8) (n : Nat) : Prop where
  inside : l.reads + l.skips ≤ p.length
  arrived : l.skips = 0 ∨ l.reads + l.skips ≤ n

/-- A handler that takes just this. -/
def Taken (l : Layout) (s : List UInt8) (n : Nat) (r : Option (Bool × SerialDevice)) : Prop :=
  ∃ d', r = some (l.accepted, d') ∧ Behind s n (l.reads + l.skips) d'

variable {p rest : List UInt8} {n k : Nat} {d : SerialDevice}

theorem taken_of_behind {b : Bool} (h : Behind (p ++ rest) n k d) :
    Taken ⟨k, 0, b⟩ (p ++ rest) n (some (b, d)) := ⟨d, rfl, h⟩

theorem taken_seek {j : Nat} {b : Bool} (h : Behind (p ++ rest) n k d)
    (hfit : Fits ⟨k, j, b⟩ p n) : Taken ⟨k, j, b⟩ (p ++ rest) n (some (b, d.pseek j)) := by
  refine ⟨_, rfl, h.pseek ?_⟩
  have harr := h.arrived
  have hcome : j = 0 ∨ k + j ≤ n := hfit.arrived
  show j ≤ d.ring.items.length
  omega

theorem taken_read {len : UInt8} {b : Bool} (h : Behind (p ++ rest) n k d)
    (hfit : Fits ⟨k + readCount len, 0, b⟩ p n) :
    Taken ⟨k + readCount len, 0, b⟩ (p ++ rest) n
      ((readPayload len d).bind fun x => some (b, x.2)) := by
  obtain ⟨buf, d', hrun, -, hb⟩ := h.read hfit.inside
  exact ⟨d', by rw [hrun]; rfl, hb⟩

end Layout

section handlers

open Layout

variable {p rest : List UInt8} {n : Nat} {d : SerialDevice}

theorem taken_passOver (h : Behind (p ++ rest) n 3 d) (hfit : (passOverLayout p).Fits p n) :
    (passOverLayout p).Taken (p ++ rest) n (passOver d) := by
  have hlen : 5 ≤ p.length := le_trans (Nat.le_add_right _ _) hfit.inside
  obtain ⟨buf, d', hrun, hbuf, hb⟩ := h.read (show 3 + readCount 2 ≤ p.length from hlen)
  have h0 : buf.getD 0 0 = p.getD 3 0 := hbuf 0 (by decide)
  have h1 : buf.getD 1 0 = p.getD 4 0 := hbuf 1 (by decide)
  rw [passOver, hrun]
  simp only [Option.bind_eq_bind, Option.bind_some, h0, h1]
  exact taken_seek hb hfit

theorem taken_tcp (s : SocketState) (h : Behind (p ++ rest) n 3 d) (hfit : (tcpLayout s p).Fits p n) :
    (tcpLayout s p).Taken (p ++ rest) n (tcpOnConnectionRecvInd s d) := by
  unfold tcpLayout at hfit ⊢
  unfold tcpOnConnectionRecvInd
  by_cases hflags : s.flags &&& enabledAndAccepted = enabledAndAccepted
  · simp only [if_pos hflags] at hfit ⊢
    exact taken_of_behind h
  · simp only [if_neg hflags] at hfit ⊢
    have hlen : 5 ≤ p.length := by
      refine le_trans ?_ hfit.inside
      split
      · exact Nat.le_add_right _ _
      · exact Nat.le_add_right _ _
    obtain ⟨buf, d', hrun, hbuf, hb⟩ := h.read (show 3 + readCount 2 ≤ p.length from hlen)
    have h0 : buf.getD 0 0 = p.getD 3 0 := hbuf 0 (by decide)
    have h1 : buf.getD 1 0 = p.getD 4 0 := hbuf 1 (by decide)
    rw [hrun]
    simp only [Option.bind_eq_bind, Option.bind_some, h0, h1]
    split at hfit
    · next hfull =>
      simp only [if_pos hfull]
      exact taken_seek hb hfit
    · next hroom =>
      simp only [if_neg hroom]
      exact taken_read hb hfit

theorem taken_udp (s : SocketState) (h : Behind (p ++ rest) n 3 d) (hfit : (udpLayout s p).Fits p n) :
    (udpLayout s p).Taken (p ++ rest) n (udpOnConnectionRecvInd s d) := by
  unfold udpLayout at hfit ⊢
  have hlen : 11 ≤ p.length := by
    refine le_trans ?_ hfit.inside
    dsimp only
    split
    · exact le_refl _
    · exact Nat.le_add_right _ _
  obtain ⟨buf, d', hrun, hbuf, hb⟩ := h.read (show 3 + readCount 8 ≤ p.length from hlen)
  have h6 : buf.getD 6 0 = p.getD 9 0 := hbuf 6 (by decide)
  have h7 : buf.getD 7 0 = p.getD 10 0 := hbuf 7 (by decide)
  rw [udpOnConnectionRecvInd, hrun]
  simp only [Option.bind_eq_bind, Option.bind_some, h6, h7] at hfit ⊢
  split at hfit
  · next hfull =>
    simp only [if_pos hfull]
    exact taken_of_behind hb
  · next hroom =>
    simp only [if_neg hroom]
    exact taken_read hb hfit

theorem three_le_passOver (hfit : (passOverLayout p).Fits p n) : 3 ≤ p.length :=
  le_trans (le_trans (by decide) (Nat.le_add_right 5 _)) hfit.inside

theorem three_le_tcp {s : SocketState} (hfit : (tcpLayout s p).Fits p n) : 3 ≤ p.length := by
  refine le_trans ?_ hfit.inside
  unfold tcpLayout
  dsimp only
  split
  · exact le_refl _
  · split
    · exact le_trans (by decide) (Nat.le_add_right 5 _)
    · show 3 ≤ 5 + _ + 0
      omega

theorem three_le_udp {s : SocketState} (hfit : (udpLayout s p).Fits p n) : 3 ≤ p.length := by
  refine le_trans ?_ hfit.inside
  unfold udpLayout
  dsimp only
  split
  · decide
  · show 3 ≤ 11 + _ + 0
    omega

/-- Behind its sequence number and its socket a packet goes where its lookup says. -/
theorem taken_indication (t : RxTables) (h : Behind (p ++ rest) n 1 d)
    (hfit : (indicationLayout t p).Fits p n) :
    (indicationLayout t p).Taken (p ++ rest) n (indicationHandler t (p.getD 0 0) d) := by
  have hread (hlen : 3 ≤ p.length) : ∃ buf d', readPayload 2 d = some (buf, d') ∧
      buf.getD 1 0 = p.getD 2 0 ∧ Behind (p ++ rest) n 3 d' := by
    obtain ⟨buf, d', hrun, hbuf, hb⟩ := h.read (show 1 + readCount 2 ≤ p.length from hlen)
    exact ⟨buf, d', hrun, hbuf 1 (by decide), hb⟩
  unfold indicationLayout at hfit ⊢
  unfold indicationHandler
  by_cases hclient : p.getD 0 0 = 0x21
  · simp only [if_pos hclient] at hfit ⊢
    have hlen : 3 ≤ p.length := by
      refine le_trans ?_ hfit.inside
      split <;> decide
    obtain ⟨buf, d', hrun, hsock, hb⟩ := hread hlen
    rw [hrun]
    simp only [Option.bind_eq_bind, Option.bind_some, hsock]
    split at hfit
    · next hlistener =>
      simp only [if_pos hlistener]
      obtain ⟨_, d'', hrun', -, hb'⟩ := hb.read (show 3 + readCount 7 ≤ p.length from hfit.inside)
      exact ⟨d'', by rw [onClientSocketInd, hrun']; rfl, hb'⟩
    · next hnone =>
      simp only [if_neg hnone]
      exact taken_seek hb hfit
  simp only [if_neg hclient] at hfit ⊢
  by_cases hstatus : p.getD 0 0 = 0x20
  · simp only [if_pos hstatus] at hfit ⊢
    exact taken_of_behind h
  simp only [if_neg hstatus] at hfit ⊢
  by_cases hrecv : p.getD 0 0 = 0x22
  · simp only [if_pos hrecv] at hfit ⊢
    cases hs : t.getTcpSocketBySocket (p.getD 2 0) with
    | none =>
      simp only [hs] at hfit ⊢
      obtain ⟨buf, d', hrun, hsock, hb⟩ := hread (three_le_passOver hfit)
      rw [hrun]
      simp only [Option.bind_eq_bind, Option.bind_some, hsock, hs]
      exact taken_passOver hb hfit
    | some s =>
      simp only [hs] at hfit ⊢
      obtain ⟨buf, d', hrun, hsock, hb⟩ := hread (three_le_tcp hfit)
      rw [hrun]
      simp only [Option.bind_eq_bind, Option.bind_some, hsock, hs]
      exact taken_tcp s hb hfit
  simp only [if_neg hrecv] at hfit ⊢
  by_cases hudp : p.getD 0 0 = 0x23
  · simp only [if_pos hudp] at hfit ⊢
    cases hs : t.getUdpSocketBySocket (p.getD 2 0) with
    | none =>
      simp only [hs] at hfit ⊢
      obtain ⟨buf, d', hrun, hsock, hb⟩ := hread (three_le_passOver hfit)
      rw [hrun]
      simp only [Option.bind_eq_bind, Option.bind_some, hsock, hs]
      exact taken_passOver hb hfit
    | some s =>
      simp only [hs] at hfit ⊢
      obtain ⟨buf, d', hrun, hsock, hb⟩ := hread (three_le_udp hfit)
      rw [hrun]
      simp only [Option.bind_eq_bind, Option.bind_some, hsock, hs]
      exact taken_udp s hb hfit
  simp only [if_neg hudp] at hfit ⊢
  split
  · exact taken_of_behind h
  · exact taken_of_behind h

theorem payloadLen_le {cmd : UInt8} {j : Nat} (h : payloadLen cmd = some j) : j ≤ 18 := by
  unfold payloadLen at h
  split_ifs at h <;> simp_all <;> omega

theorem readCount_ofNat {j : Nat} (hpos : 0 < j) (hle : j ≤ 18) : readCount (UInt8.ofNat j) = j := by
  have hof : (UInt8.ofNat j).toNat = j := UInt8.toNat_ofNat_of_lt' (by show j < 256; omega)
  have hne : UInt8.ofNat j ≠ 0 := by
    intro h0
    rw [h0] at hof
    exact absurd hof (show (0 : Nat) ≠ j by omega)
  rw [readCount, if_neg hne, hof]

theorem taken_request (t : RxTables) (h : Behind (p ++ rest) n 1 d)
    (hfit : (requestLayout t p).Fits p n) :
    (requestLayout t p).Taken (p ++ rest) n (requestHandler t (p.getD 0 0) d) := by
  have hlen : 3 ≤ p.length := by
    refine le_trans ?_ hfit.inside
    unfold requestLayout
    split
    · exact le_refl _
    · exact le_refl _
    · split
      · exact le_trans (Nat.le_add_right _ _) (Nat.le_add_right _ _)
      · split
        · exact le_refl _
        · exact le_trans (Nat.le_add_right _ _) (Nat.le_add_right _ _)
  obtain ⟨buf, d', hrun, hbuf, hb⟩ := h.read (show 1 + readCount 2 ≤ p.length from hlen)
  have hb3 : Behind (p ++ rest) n 3 d' := hb
  have h0 : buf.getD 0 0 = p.getD 1 0 := hbuf 0 (by decide)
  have h1 : buf.getD 1 0 = p.getD 2 0 := hbuf 1 (by decide)
  unfold requestLayout at hfit ⊢
  rw [requestHandler, hrun]
  simp only [Option.bind_eq_bind, Option.bind_some, h0, h1]
  cases ha : answered t (p.getD 0 0) (p.getD 1 0) with
  | none => exact taken_of_behind hb3
  | some inst =>
    cases hn : payloadLen (p.getD 0 0) with
    | none => exact taken_of_behind hb3
    | some j =>
      simp only [ha, hn] at hfit ⊢
      have hj := payloadLen_le hn
      by_cases hinit : p.getD 0 0 = 0x00 ||| responseBit
      · simp only [if_pos hinit] at hfit ⊢
        have h4 : j = 4 := by
          rw [hinit] at hn
          exact (Option.some.inj hn).symm
        subst h4
        exact taken_read hb3 hfit
      simp only [if_neg hinit] at hfit ⊢
      by_cases hstatus : p.getD 2 0 ≠ 0
      · simp only [if_pos hstatus] at hfit ⊢
        exact taken_of_behind hb3
      simp only [if_neg hstatus] at hfit ⊢
      by_cases hzero : j = 0
      · subst hzero
        exact taken_of_behind hb3
      · simp only [if_neg hzero]
        have hfit' : Fits ⟨3 + readCount (UInt8.ofNat j), 0, true⟩ p n := by
          rwa [readCount_ofNat (Nat.pos_of_ne_zero hzero) hj]
        have hread := taken_read hb3 hfit'
        rwa [readCount_ofNat (Nat.pos_of_ne_zero hzero) hj] at hread

theorem apiLayout_nil (t : RxTables) : apiLayout t [] = ⟨3, 0, false⟩ := by
  show requestLayout t [] = _
  unfold requestLayout
  cases answered t (([] : List UInt8).getD 0 0) (([] : List UInt8).getD 1 0) <;> rfl

theorem one_le_api (t : RxTables) (hfit : (apiLayout t p).Fits p n) : 1 ≤ p.length := by
  cases p with
  | nil =>
    have hle := hfit.inside
    rw [apiLayout_nil] at hle
    exact absurd hle (by decide)
  | cons b rest => exact Nat.succ_le_succ (Nat.zero_le _)

/-- `NyLPC_cSnicApi_rxHandler` takes what the layout of the payload says. -/
theorem taken_api (t : RxTables) (h : Behind (p ++ rest) n 0 d) (hfit : (apiLayout t p).Fits p n) :
    (apiLayout t p).Taken (p ++ rest) n (apiRxHandler t d) := by
  obtain ⟨buf, d', hrun, hbuf, hb⟩ := h.read (show 0 + readCount 1 ≤ p.length from one_le_api t hfit)
  have hb1 : Behind (p ++ rest) n 1 d' := hb
  have h0 : buf.getD 0 0 = p.getD 0 0 := hbuf 0 (by decide)
  unfold apiLayout at hfit ⊢
  rw [apiRxHandler, hrun]
  simp only [Option.bind_eq_bind, Option.bind_some, h0]
  split at hfit
  · next hind =>
    simp only [if_pos hind]
    exact taken_indication t hb1 hfit
  · next hreq =>
    simp only [if_neg hreq]
    exact taken_request t hb1 hfit

theorem three_le_wifi (t : RxTables) (hfit : (wifiLayout t p).Fits p n) : 3 ≤ p.length := by
  refine le_trans ?_ hfit.inside
  unfold wifiLayout
  split
  · exact le_refl _
  · split <;> exact le_refl _

/-- `NyLPC_cSnicWifi_rxHandler` takes three bytes. -/
theorem taken_wifi (t : RxTables) (h : Behind (p ++ rest) n 0 d) (hfit : (wifiLayout t p).Fits p n) :
    (wifiLayout t p).Taken (p ++ rest) n (wifiRxHandler t d) := by
  obtain ⟨buf, d', hrun, hbuf, hb⟩ := h.read (show 0 + readCount 3 ≤ p.length from three_le_wifi t hfit)
  have hb3 : Behind (p ++ rest) n 3 d' := hb
  have h0 : buf.getD 0 0 = p.getD 0 0 := hbuf 0 (by decide)
  have h1 : buf.getD 1 0 = p.getD 1 0 := hbuf 1 (by decide)
  have h2 : buf.getD 2 0 = p.getD 2 0 := hbuf 2 (by decide)
  unfold wifiLayout
  rw [wifiRxHandler, hrun]
  simp only [Option.bind_eq_bind, Option.bind_some, h0, h1, h2]
  cases answered t (p.getD 0 0) (p.getD 1 0) with
  | none => exact taken_of_behind hb3
  | some inst =>
    dsimp only
    split
    · exact taken_of_behind hb3
    · exact taken_of_behind hb3

theorem three_le_general (t : RxTables) (hfit : (generalLayout t p).Fits p n) : 3 ≤ p.length := by
  refine le_trans ?_ hfit.inside
  unfold generalLayout
  split
  · exact le_refl _
  · split
    · split
      · decide
      · split
        · show 3 ≤ 4 + _ + 0
          omega
        · show 3 ≤ 4 + _
          omega
    · exact le_refl _

/-- `NyLPC_cSnicGeneral_rxHandler` takes what the layout of the payload says. -/
theorem taken_general (t : RxTables) (h : Behind (p ++ rest) n 0 d)
    (hfit : (generalLayout t p).Fits p n) :
    (generalLayout t p).Taken (p ++ rest) n (generalRxHandler t d) := by
  obtain ⟨buf, d', hrun, hbuf, hb⟩ :=
    h.read (show 0 + readCount 3 ≤ p.length from three_le_general t hfit)
  have hb3 : Behind (p ++ rest) n 3 d' := hb
  have h0 : buf.getD 0 0 = p.getD 0 0 := hbuf 0 (by decide)
  have h1 : buf.getD 1 0 = p.getD 1 0 := hbuf 1 (by decide)
  have h2 : buf.getD 2 0 = p.getD 2 0 := hbuf 2 (by decide)
  unfold generalLayout at hfit ⊢
  rw [generalRxHandler, hrun]
  simp only [Option.bind_eq_bind, Option.bind_some, h0, h1, h2]
  cases ha : answered t (p.getD 0 0) (p.getD 1 0) with
  | none => exact taken_of_behind hb3
  | some inst =>
    simp only [ha] at hfit ⊢
    by_cases hcmd : p.getD 0 0 = 0x88
    · simp only [if_pos hcmd] at hfit ⊢
      have hlen : 4 ≤ p.length := by
        refine le_trans ?_ hfit.inside
        split
        · decide
        · split
          · show 4 ≤ 4 + _ + 0
            omega
          · show 4 ≤ 4 + _
            omega
      obtain ⟨len, d'', hrun', hlen', hb'⟩ := hb3.read (show 3 + readCount 1 ≤ p.length from hlen)
      have h3 : len.getD 0 0 = p.getD 3 0 := hlen' 0 (by decide)
      rw [hrun']
      simp only [Option.bind_some, h3]
      split at hfit
      · next hstatus =>
        simp only [if_pos hstatus]
        exact taken_of_behind hb'
      · next hok =>
        simp only [if_neg hok]
        split at hfit
        · next hroom =>
          simp only [if_pos hroom]
          exact taken_read hb' hfit
        · next hfull =>
          simp only [if_neg hfull, seekPayload, UInt8.toNat_toUInt16]
          exact taken_seek hb' hfit
    · simp only [if_neg hcmd]
      exact taken_of_behind hb3

/-- Every handler takes what the layout of the payload says, however the stream is cut. -/
theorem taken_run (t : RxTables) (hd : RxHandler) (h : Behind (p ++ rest) n 0 d)
    (hfit : (hd.layout t p).Fits p n) : (hd.layout t p).Taken (p ++ rest) n (hd.run t d) := by
  cases hd with
  | general => exact taken_general t h hfit
  | snicApi => exact taken_api t h hfit
  | snicWifi => exact taken_wifi t h hfit

end handlers

/-- The frame at the head of the line finds its handler, with all that this one takes inside the
payload; no start byte is behind that, and what the handler seeks over has come when the turn
begins. -/
structure Sound (t : RxTables) (f : UartFrame) (d : SerialDevice) (hd : RxHandler) : Prop where
  cmd : RxHandler.ofCmd (f.cmd &&& 0x7f) = some hd
  inside : (hd.layout t f.payload).reads + (hd.layout t f.payload).skips ≤ f.payload.length
  arrived : (hd.layout t f.payload).skips = 0 ∨
    4 + ((hd.layout t f.payload).reads + (hd.layout t f.payload).skips) ≤ d.ring.items.length
  som_not_mem : dataSom ∉ f.payload.drop ((hd.layout t f.payload).reads +
    (hd.layout t f.payload).skips + (hd.layout t f.payload).accepted.toNat)

/-- The condition on a turn: a frame at the head of the line is sound. -/
def Resynchronises (m : MessageTask) (t : RxTables) : Prop :=
  ∀ f : UartFrame, f.wire <+: m.dev.unread → ∃ hd, Sound t f m.dev hd

/-- The call for a frame, with `tail` behind the frame: its handler begins with the payload and
ends inside it. -/
def CallFor (f : UartFrame) (tail : List UInt8) (c : RxCall) : Prop :=
  RxHandler.ofCmd (f.cmd &&& 0x7f) = some c.handler ∧
    c.before = f.payload ++ (f.trailer ++ tail) ∧
    ∃ k ≤ f.payload.length, c.after = c.before.drop k

/-- One call for each of the first frames, in their order. -/
def Served (fs : List UartFrame) (calls : List RxCall) : Prop :=
  calls.length ≤ fs.length ∧
    ∀ i f c, fs[i]? = some f → calls[i]? = some c →
      CallFor f (UartFrame.stream (fs.drop (i + 1))) c

namespace MessageTask

/-- A byte in front of the frames is passed. -/
theorem turn_skip {m : MessageTask} {b : UInt8} {rest : List UInt8} (t : RxTables)
    (hun : m.dev.unread = b :: rest) (hb : b ≠ dataSom) :
    ∃ m', m.turn t = some m' ∧ m'.dev.unread = rest ∧ m'.calls = m.calls := by
  obtain ⟨d', hrun, hbeh⟩ := (Behind.start m.dev).waitforRawByte dataSom
    (by rw [hun]; exact Nat.succ_pos _)
  have hne : (m.dev.unread.getD 0 0 == dataSom) = false := by
    rw [hun]
    exact beq_false_of_ne hb
  rw [hne] at hrun
  refine ⟨{ m with dev := d' }, ?_, ?_, rfl⟩
  · rw [turn, hrun]
    rfl
  · rw [show ({ m with dev := d' } : MessageTask).dev.unread = d'.unread from rfl, hbeh.unread, hun]
    rfl

/-- The end of a turn passes one byte more. -/
theorem awaitEsc_eq {m : MessageTask} {s : List UInt8} {n k : Nat} (h : Behind s n k m.dev)
    (hk : k < s.length) :
    ∃ m', m.awaitEsc = some m' ∧ m'.calls = m.calls ∧ Behind s n (k + 1) m'.dev := by
  obtain ⟨d', hrun, hb⟩ := h.waitforRawByte dataEsc hk
  exact ⟨{ m with dev := d' }, by rw [awaitEsc, hrun]; rfl, rfl, hb⟩

/-- The header of a frame leads to its handler. -/
theorem turn_header {m : MessageTask} {t : RxTables} {f : UartFrame} {tail : List UInt8}
    {hd : RxHandler} (hun : m.dev.unread = f.wire ++ tail)
    (hcmd : RxHandler.ofCmd (f.cmd &&& 0x7f) = some hd) :
    ∃ d, Behind (f.payload ++ (f.trailer ++ tail)) (m.dev.ring.items.length - 4) 0 d ∧
      m.turn t = (hd.run t d).bind fun x =>
        if x.1 then awaitEsc ⟨x.2, m.calls ++ [⟨hd, d.unread, x.2.unread⟩]⟩
        else some ⟨x.2, m.calls ++ [⟨hd, d.unread, x.2.unread⟩]⟩ := by
  have hstart := Behind.start m.dev
  rw [hun] at hstart
  have hwire : 4 ≤ f.wire.length := by
    rw [f.length_wire]
    omega
  obtain ⟨d₁, hsom, hb₁⟩ := hstart.waitforRawByte dataSom (by rw [List.length_append]; omega)
  obtain ⟨buf, d₂, hread, hbuf, hb₂⟩ := hb₁.read (show 0 + 1 + readCount 3 ≤ f.wire.length from hwire)
  have hid : (UartFrameFormatHeader.ofBytes buf).getCmd = f.cmd &&& 0x7f := by
    have h2 : buf.getD 2 0 = 0x80 ||| f.cmd := hbuf 2 (by decide)
    rw [← UartFrame.getCmd_header]
    show buf.getD 2 0 &&& 0x7f = (0x80 ||| f.cmd) &&& 0x7f
    rw [h2]
  refine ⟨d₂, ⟨?_, ?_⟩, ?_⟩
  · rw [hb₂.unread, UartFrame.wire_eq, List.cons_append, List.append_assoc, List.append_assoc,
      List.drop_zero]
    rfl
  · have harr := hb₂.arrived
    rw [show 0 + 1 + readCount 3 = 4 from rfl] at harr
    omega
  · rw [turn, hsom]
    simp only [Option.bind_eq_bind, Option.bind_some]
    rw [hread]
    simp only [Option.bind_some, hid, hcmd]
    rfl

/-- A sound frame is served, and what is left of it holds no start byte. -/
theorem turn_frame {m : MessageTask} {t : RxTables} {f : UartFrame} {tail : List UInt8}
    {hd : RxHandler} (hun : m.dev.unread = f.wire ++ tail) (hs : Sound t f m.dev hd) :
    ∃ m' c junk, m.turn t = some m' ∧ m'.calls = m.calls ++ [c] ∧ CallFor f tail c ∧
      m'.dev.unread = junk ++ tail ∧ dataSom ∉ junk ∧ junk.length < f.wire.length := by
  obtain ⟨d, hb, hturn⟩ := turn_header (t := t) hun hs.cmd
  have harr := hs.arrived
  obtain ⟨d', hrun, hb'⟩ := taken_run t hd hb ⟨hs.inside, by omega⟩
  have hin := hs.inside
  have hsom := hs.som_not_mem
  generalize (hd.layout t f.payload).reads + (hd.layout t f.payload).skips = k at hb' hin hsom
  generalize (hd.layout t f.payload).accepted = ok at hrun hsom
  have hcall : CallFor f tail ⟨hd, d.unread, d'.unread⟩ := by
    refine ⟨hs.cmd, hb.unread, k, hin, ?_⟩
    show d'.unread = d.unread.drop k
    rw [hb.unread, hb'.unread, List.drop_zero]
  have hjunk : dataSom ∉ (f.payload ++ f.trailer).drop (k + ok.toNat) := by
    rw [List.drop_append]
    intro hmem
    rcases List.mem_append.mp hmem with hp | ht
    · exact hsom hp
    · exact f.som_not_mem_trailer (List.mem_of_mem_drop ht)
  have hlen : k + ok.toNat ≤ (f.payload ++ f.trailer).length := by
    have hok := Bool.toNat_le ok
    rw [List.length_append, show f.trailer.length = 2 from rfl]
    omega
  have hshort : ((f.payload ++ f.trailer).drop (k + ok.toNat)).length < f.wire.length := by
    rw [List.length_drop, f.length_wire]
    omega
  have hleft : (f.payload ++ (f.trailer ++ tail)).drop (k + ok.toNat) =
      (f.payload ++ f.trailer).drop (k + ok.toNat) ++ tail := by
    rw [← List.append_assoc, List.drop_append_of_le_length hlen]
  rw [hrun] at hturn
  cases ok with
  | false =>
    refine ⟨_, _, _, hturn, rfl, hcall, ?_, hjunk, hshort⟩
    rw [← hleft]
    exact hb'.unread
  | true =>
    obtain ⟨m', hesc, hcalls, hb''⟩ :=
      awaitEsc_eq (m := ⟨d', m.calls ++ [⟨hd, d.unread, d'.unread⟩]⟩) hb' (by
        rw [List.length_append, List.length_append, show f.trailer.length = 2 from rfl]
        omega)
    refine ⟨m', _, _, hturn.trans hesc, hcalls, hcall, ?_, hjunk, hshort⟩
    rw [← hleft]
    exact hb''.unread

theorem turn_eq_none {m : MessageTask} (t : RxTables) (h : m.dev.unread = []) :
    m.turn t = none := by
  rw [turn, Snic.waitforRawByte, SerialDevice.pread_eq_none h]
  rfl

end MessageTask

theorem Served.append {fs : List UartFrame} {calls : List RxCall} {f : UartFrame} {c : RxCall}
    (h : Served fs calls) (hf : fs[calls.length]? = some f)
    (hc : CallFor f (UartFrame.stream (fs.drop (calls.length + 1))) c) :
    Served fs (calls ++ [c]) := by
  constructor
  · have hlt := (List.getElem?_eq_some_iff.mp hf).1
    rw [List.length_append]
    exact hlt
  · intro i f' c' hf' hc'
    rcases Nat.lt_trichotomy i calls.length with hlt | heq | hgt
    · rw [List.getElem?_append_left hlt] at hc'
      exact h.2 i f' c' hf' hc'
    · subst heq
      rw [List.getElem?_concat_length] at hc'
      rw [Option.some.inj (hf'.symm.trans hf), ← Option.some.inj hc']
      exact hc
    · rw [List.getElem?_eq_none (by rw [List.length_append]; exact hgt)] at hc'
      cases hc'

/-- What is unread are the frames that have had no call, behind bytes that start none. -/
structure InStep (fs : List UartFrame) (m : MessageTask) : Prop where
  served : Served fs m.calls
  unread : ∃ junk, m.dev.unread = junk ++ UartFrame.stream (fs.drop m.calls.length) ∧
    dataSom ∉ junk

/-- A turn keeps step and shortens what is unread. -/
theorem InStep.turn {fs : List UartFrame} {m : MessageTask} {t : RxTables} (h : InStep fs m)
    (ht : Resynchronises m t) (hne : m.dev.unread ≠ []) :
    ∃ m', m.turn t = some m' ∧ InStep fs m' ∧ m'.dev.unread.length < m.dev.unread.length := by
  obtain ⟨junk, hun, hjunk⟩ := h.unread
  cases junk with
  | cons b junk =>
    obtain ⟨m', hturn, hun', hcalls⟩ :=
      m.turn_skip t hun (Ne.symm (List.ne_of_not_mem_cons hjunk))
    have hrest := List.not_mem_of_not_mem_cons hjunk
    refine ⟨m', hturn, ⟨hcalls ▸ h.served, junk, hcalls ▸ hun', hrest⟩, ?_⟩
    rw [hun', hun, List.cons_append, List.length_cons]
    exact Nat.lt_succ_self _
  | nil =>
    rw [List.nil_append] at hun
    cases hdrop : fs.drop m.calls.length with
    | nil =>
      rw [hdrop] at hun
      exact absurd hun hne
    | cons f rest =>
      rw [hdrop, UartFrame.stream_cons] at hun
      obtain ⟨hd, hs⟩ := ht f (hun ▸ List.prefix_append _ _)
      obtain ⟨m', c, junk', hturn, hcalls, hc, hun', hjunk', hshort⟩ := m.turn_frame hun hs
      have hget : fs[m.calls.length]? = some f := by
        rw [← Nat.add_zero m.calls.length, ← List.getElem?_drop, hdrop]
        rfl
      have hrest : fs.drop (m.calls.length + 1) = rest := by
        rw [← List.drop_drop, hdrop]
        rfl
      refine ⟨m', hturn, ⟨?_, junk', ?_, hjunk'⟩, ?_⟩
      · rw [hcalls]
        exact h.served.append hget (hrest ▸ hc)
      · rw [hcalls, List.length_append, List.length_singleton, hrest]
        exact hun'
      · rw [hun', hun, List.length_append, List.length_append]
        omega

/-- What the message task owes to the frames `fs`: one call for each in turn, no frame left out
when the line has been read, and no turn without progress. -/
structure Received (ok : MessageTask → RxTables → Prop) (fs : List UartFrame) (m : MessageTask) :
    Prop where
  served : Served fs m.calls
  complete : m.dev.unread = [] → m.calls.length = fs.length
  progress : ∀ t, ok m t → m.dev.unread ≠ [] →
    ∃ m', m.turn t = some m' ∧ m'.dev.unread.length < m.dev.unread.length

theorem InStep.received {fs : List UartFrame} {m : MessageTask} (h : InStep fs m) :
    Received Resynchronises fs m where
  served := h.served
  complete hnil := by
    obtain ⟨junk, hun, -⟩ := h.unread
    rw [hnil] at hun
    have hrest := (List.append_eq_nil_iff.mp hun.symm).2
    cases hdrop : fs.drop m.calls.length with
    | nil => exact le_antisymm h.served.1 (List.drop_eq_nil_iff.mp hdrop)
    | cons f rest =>
      rw [hdrop, UartFrame.stream_cons, UartFrame.wire_eq] at hrest
      cases hrest
  progress t ht hne := by
    obtain ⟨m', hturn, -, hlt⟩ := h.turn ht hne
    exact ⟨m', hturn, hlt⟩

theorem inStep_of_reaches {fs : List UartFrame} {m : MessageTask}
    (h : (messageTask fs).Reaches Resynchronises m) : InStep fs m := by
  refine h.invariant ?_ ?_
  · intro m ⟨cuts, hm⟩
    subst hm
    refine ⟨⟨Nat.zero_le _, ?_⟩, [], ?_, List.not_mem_nil⟩
    · intro i f c _ hc
      cases hc
    · exact SerialDevice.unread_init _ _
  · intro m t m' hin ht hturn
    by_cases hnil : m.dev.unread = []
    · rw [show (messageTask fs).step m t = m.turn t from rfl, m.turn_eq_none t hnil] at hturn
      cases hturn
    · obtain ⟨m'', hturn', hin', -⟩ := hin.turn ht hnil
      rw [show (messageTask fs).step m t = m.turn t from rfl, hturn'] at hturn
      exact Option.some.inj hturn ▸ hin'

/-- Frames are received one by one as long as each frame that comes to the head of the line is
sound; a header keeps its length below 512 and its command below 128. -/
theorem frames_received (fs : List UartFrame) (m : MessageTask) (cmd : UInt8) (len : UInt16) :
    ((messageTask fs).Reaches Resynchronises m → Received Resynchronises fs m) ∧
      (HeaderKept cmd len ↔ len.toNat < 512 ∧ cmd.toNat < 128) :=
  ⟨fun h => (inStep_of_reaches h).received, headerKept_iff⟩

/-- One frame at the head of the line is the only one. -/
theorem Sound.resynchronises {m : MessageTask} {t : RxTables} {f : UartFrame} {hd : RxHandler}
    (h : Sound t f m.dev hd) (hf : f.wire <+: m.dev.unread) : Resynchronises m t := by
  intro g hg
  obtain ⟨hpayload, hcmd⟩ := UartFrame.payload_eq_of_prefix hf hg
  exact ⟨hd, hcmd ▸ h.cmd, hpayload ▸ h.inside, hpayload ▸ h.arrived, hpayload ▸ h.som_not_mem⟩

/-- An accepted connection on socket 5, with room in its queue. -/
def acceptedSocket : RxTables where
  lockObjectById _ := none
  getTcpListenerBySocket _ := false
  getTcpSocketBySocket i_sock := if i_sock = 5 then some ⟨0x03, 512, 512⟩ else none
  getUdpSocketBySocket _ := none

/-- A new connection to the listener on socket 1. -/
def listening : RxTables where
  lockObjectById _ := none
  getTcpListenerBySocket i_sock := i_sock == 1
  getTcpSocketBySocket _ := none
  getUdpSocketBySocket _ := none

def clientFrame : UartFrame where
  cmd := 0x70
  payload := [0x21, 0x02, 0x01, 0x05, 0x02, 0x04, 0x10, 0x02, 0x1f, 0x90]
  length_lt := by decide

theorem frames_received_client :
    ∃ m, m.calls.length = 1 ∧ Received Resynchronises [clientFrame] m ∧
      (HeaderKept 0x70 10 ↔ (10 : UInt16).toNat < 512 ∧ (0x70 : UInt8).toNat < 128) := by
  let m₀ : MessageTask := ⟨.init (UartFrame.stream [clientFrame]) [5, 0, 3], []⟩
  have hsound : Sound listening clientFrame m₀.dev .snicApi :=
    ⟨by decide, by decide, .inl rfl, by decide⟩
  have hturn : (m₀.turn listening).any (fun m => decide (m.calls.length = 1)) = true := by
    decide +kernel
  obtain ⟨m, hm, hcalls⟩ := (Option.any_eq_true _ _).mp hturn
  have hinit : (messageTask [clientFrame]).Reaches Resynchronises m₀ := .init ⟨_, rfl⟩
  have hhead : clientFrame.wire <+: m₀.dev.unread := List.prefix_append _ _
  have hreach := hinit.step (hsound.resynchronises hhead) hm
  obtain ⟨hreceived, hheader⟩ := frames_received [clientFrame] m 0x70 10
  exact ⟨m, of_decide_eq_true hcalls, hreceived hreach, hheader⟩

/-- Six bytes for socket 5 that look like a frame. -/
def frameInside : UartFrame where
  cmd := 0x70
  payload := [0x22, 0x01, 0x05, 0x00, 0x06, 0x02, 0x80, 0x80, 0xf0, 0x20, 0x00]
  length_lt := by decide

/-- The data of an accepted connection is dropped unread, and its bytes are taken for a frame. -/
theorem not_frames_received :
    (¬ ∀ fs m, (messageTask fs).Reaches System.anyStep m → Received System.anyStep fs m) ∧
      ¬ ∀ cmd len, HeaderKept cmd len := by
  constructor
  · intro h
    obtain ⟨m, hreach, hcalls⟩ := System.exists_of_run
      (S := messageTask [frameInside])
      (s := ⟨.init (UartFrame.stream [frameInside]) [], []⟩)
      (p := fun m => decide (m.calls.length = 2)) ⟨[], rfl⟩
      (show (((messageTask [frameInside]).run _ (List.replicate 4 acceptedSocket)).any _) = true by
        decide +kernel)
    have hle := (h _ m hreach).served.1
    rw [of_decide_eq_true hcalls] at hle
    exact absurd hle (by decide)
  · intro h
    have hkept := headerKept_iff.mp (h 0x70 512)
    exact absurd hkept.1 (by decide)

end MiMic.Snic
