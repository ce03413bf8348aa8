import MiMic.NetIf.Arp

/-!
# Frames in a transmit block

A block is the memory from its first byte on; the source passes pointers into it, which
are offsets here. A frame handed to the driver is an offset and a length.
-/
namespace MiMic

/-- The memory after `bytes` have been stored at `off`. -/
def Memory.write (m : Memory) (off : Nat) (bytes : List UInt8) : Memory :=
  fun i => if off ≤ i ∧ i < off + bytes.length then bytes.getD (i - off) 0 else m i

theorem window_write_self (m : Memory) (off : Nat) (bytes : List UInt8) :
    (m.write off bytes).window off bytes.length = bytes := by
  apply List.ext_getElem
  · simp
  · intro i hi _
    have hi' : i < bytes.length := by simpa using hi
    simp [Memory.window, Memory.write, hi', List.getD_eq_getElem?_getD]

theorem window_write_of_disjoint (m : Memory) {off : Nat} {bytes : List UInt8} {o n : Nat}
    (h : o + n ≤ off ∨ off + bytes.length ≤ o) :
    (m.write off bytes).window o n = m.window o n := by
  apply List.map_congr_left
  intro i hi
  have hi := List.mem_range.mp hi
  apply if_neg
  omega

theorem window_add (m : Memory) (off a b : Nat) :
    m.window off (a + b) = m.window off a ++ m.window (off + a) b := by
  simp only [Memory.window, List.range_add, List.map_append, List.map_map]
  congr 1
  apply List.map_congr_left
  intro i _
  exact congrArg m (Nat.add_assoc off a i).symm

/-- The memory holds a byte string at an offset. -/
def Memory.Holds (m : Memory) (off : Nat) (bytes : List UInt8) : Prop :=
  m.window off bytes.length = bytes

theorem Memory.Holds.split {m : Memory} {off : Nat} {a b : List UInt8} (h : m.Holds off (a ++ b)) :
    m.Holds off a ∧ m.Holds (off + a.length) b := by
  unfold Memory.Holds at *
  rw [List.length_append, window_add] at h
  exact List.append_inj h (by simp)

theorem Memory.Holds.byte {m : Memory} {off : Nat} {bytes : List UInt8} (h : m.Holds off bytes)
    {i : Nat} (hi : i < bytes.length) : m (off + i) = bytes[i] := by
  have hg := List.getElem_of_eq h (i := i) (by simpa using hi)
  simpa [Memory.window] using hg

theorem Memory.Holds.u16 {m : Memory} {off : Nat} {n : UInt16} (h : m.Holds off (u16Bytes n)) :
    m.u16 off = n := by
  have hn := n.toNat_lt
  have h0 : m off = UInt8.ofNat n.toNat := h.byte (i := 0) (by simp)
  have h1 : m (off + 1) = UInt8.ofNat (n.toNat / 256) := h.byte (i := 1) (by simp)
  apply UInt16.toNat_inj.mp
  rw [Memory.u16, h0, h1]
  simp only [UInt16.toNat_ofNat', UInt8.toNat_ofNat']
  omega

theorem Memory.Holds.u32 {m : Memory} {off : Nat} {n : UInt32} (h : m.Holds off (u32Bytes n)) :
    m.u32 off = n := by
  have hn := n.toNat_lt
  have h0 : m off = UInt8.ofNat n.toNat := h.byte (i := 0) (by simp)
  have h1 : m (off + 1) = UInt8.ofNat (n.toNat / 256) := h.byte (i := 1) (by simp)
  have h2 : m (off + 2) = UInt8.ofNat (n.toNat / 65536) := h.byte (i := 2) (by simp)
  have h3 : m (off + 3) = UInt8.ofNat (n.toNat / 16777216) := h.byte (i := 3) (by simp)
  apply UInt32.toNat_inj.mp
  rw [Memory.u32, h0, h1, h2, h3]
  simp only [UInt32.toNat_ofNat', UInt8.toNat_ofNat']
  omega

end MiMic

namespace MiMic.NetIf

/-- `NyLPC_TEthernetIIHeader_TYPE_ARP`. -/
def ethernetTypeArp : UInt16 := 0x0806

structure EthernetIIHeader where
  dest : EthAddr
  src : EthAddr
  type : UInt16
deriving DecidableEq, Repr

def EthAddr.bytes (a : EthAddr) : List UInt8 := a.addr.toList

def EthernetIIHeader.bytes (h : EthernetIIHeader) : List UInt8 :=
  h.dest.bytes ++ h.src.bytes ++ u16Bytes h.type

def ArpHeader.bytes (h : ArpHeader) : List UInt8 :=
  u16Bytes h.hwtype ++ u16Bytes h.protocol ++ [h.hwlen, h.protolen] ++ u16Bytes h.opcode ++
    h.shwaddr.bytes ++ u32Bytes h.sipaddr.v ++ h.dhwaddr.bytes ++ u32Bytes h.dipaddr.v

/-- `NyLPC_TEthAddr_BROADCAST`. -/
def ethAddrBroadcast : EthAddr := ⟨Vector.replicate 6 0xff⟩

@[simp] theorem EthAddr.length_bytes (a : EthAddr) : a.bytes.length = 6 := by
  simp [EthAddr.bytes]

@[simp] theorem EthernetIIHeader.length_bytes (h : EthernetIIHeader) : h.bytes.length = 14 := by
  simp [EthernetIIHeader.bytes]

@[simp] theorem ArpHeader.length_bytes (h : ArpHeader) : h.bytes.length = 28 := by
  simp [ArpHeader.bytes]

/-- An Ethernet address as it is read from memory. -/
def ethAddrAt (m : Memory) (off : Nat) : EthAddr := ⟨Vector.ofFn fun i : Fin 6 => m (off + i)⟩

/-- The Ethernet header at an offset. -/
def ethHeaderAt (m : Memory) (off : Nat) : EthernetIIHeader where
  dest := ethAddrAt m off
  src := ethAddrAt m (off + 6)
  type := m.u16 (off + 12)

/-- The ARP packet at an offset. -/
def arpAt (m : Memory) (off : Nat) : ArpHeader where
  hwtype := m.u16 off
  protocol := m.u16 (off + 2)
  hwlen := m (off + 4)
  protolen := m (off + 5)
  opcode := m.u16 (off + 6)
  shwaddr := ethAddrAt m (off + 8)
  sipaddr := ⟨m.u32 (off + 14)⟩
  dhwaddr := ethAddrAt m (off + 18)
  dipaddr := ⟨m.u32 (off + 24)⟩

/-- `NyLPC_TEthernetIIHeader_setArpTx`: the addresses follow from the opcode behind the
header. -/
def setArpTx (m : Memory) (eth : Nat) (myEthAddr : EthAddr) : Memory × UInt16 :=
  let arph := arpAt m (eth + sizeOfEthernetIIHeader.toNat)
  let m := m.write (eth + 12) (u16Bytes (htons ethernetTypeArp))
  let m :=
    if arph.opcode = htons arpReply then
      (m.write (eth + 6) myEthAddr.bytes).write eth arph.dhwaddr.bytes
    else if arph.opcode = htons arpRequest then
      (m.write eth ethAddrBroadcast.bytes).write (eth + 6) myEthAddr.bytes
    else m
  (m, sizeOfEthernetIIHeader + sizeOfArpHeader)

/-- `NyLPC_TArpHeader_setArpRequest`. -/
def setArpRequest (saddr : IPv4Addr) (srceth : EthAddr) (reqAddr : IPv4Addr) : ArpHeader where
  hwtype := htons arpHwtypeEth
  protocol := htons ethernetTypeIp
  hwlen := 6
  protolen := 4
  opcode := htons arpRequest
  shwaddr := srceth
  sipaddr := saddr
  dhwaddr := ⟨Vector.replicate 6 0⟩
  dipaddr := reqAddr

/-- `NyLPC_TEthernetIIHeader_setIPv4Tx`: the size of the frame, zero for a protocol that is
not one of the three. -/
def setIPv4Tx (m : Memory) (eth : Nat) (srcEthAddr destEthAddr : EthAddr) : Memory × UInt16 :=
  let iph : Memory := fun i => m (eth + sizeOfEthernetIIHeader.toNat + i)
  let m := m.write (eth + 12) (u16Bytes (htons ethernetTypeIp))
  let m := (m.write eth destEthAddr.bytes).write (eth + 6) srcEthAddr.bytes
  if iph 9 = uipProtoTcp ∨ iph 9 = uipProtoUdp ∨ iph 9 = uipProtoIcmp then
    (m, sizeOfEthernetIIHeader + htons (iph.u16 2))
  else (m, 0)

/-- `sendTxEthFrame` of the drivers, for a block that is not in flight: what goes on the wire of
a frame at `off`. -/
def sendTxEthFrame (m : Memory) (off : Nat) (size : UInt16) : List (List UInt8) :=
  if size = 0 then [] else [m.window off size.toNat]

/-- `NyLPC_cMiMicIpNetIf_allocSysTxBuf` and `allocTxBuf` return the payload, behind the room
for an Ethernet header. -/
def txPayload : Nat := sizeOfEthernetIIHeader.toNat

theorem ethAddrAt_of_holds {m : Memory} {off : Nat} {a : EthAddr} (h : m.Holds off a.bytes) :
    ethAddrAt m off = a := by
  have hv : (Vector.ofFn fun i : Fin 6 => m (off + i)) = a.addr := by
    apply Vector.ext
    intro i hi
    rw [Vector.getElem_ofFn]
    exact h.byte (by rw [EthAddr.length_bytes]; exact hi)
  cases a
  exact congrArg EthAddr.mk hv

theorem ethHeaderAt_of_holds {m : Memory} {off : Nat} {h : EthernetIIHeader}
    (hb : m.Holds off h.bytes) : ethHeaderAt m off = h := by
  obtain ⟨hb, htype⟩ := hb.split
  obtain ⟨hdest, hsrc⟩ := hb.split
  simp only [List.length_append, EthAddr.length_bytes] at hsrc htype
  rw [ethHeaderAt, ethAddrAt_of_holds hdest, ethAddrAt_of_holds hsrc, htype.u16]

theorem arpAt_of_holds {m : Memory} {off : Nat} {h : ArpHeader} (hb : m.Holds off h.bytes) :
    arpAt m off = h := by
  obtain ⟨hb, hdip⟩ := hb.split
  obtain ⟨hb, hdhw⟩ := hb.split
  obtain ⟨hb, hsip⟩ := hb.split
  obtain ⟨hb, hshw⟩ := hb.split
  obtain ⟨hb, hop⟩ := hb.split
  obtain ⟨hb, hlens⟩ := hb.split
  obtain ⟨hhw, hproto⟩ := hb.split
  simp only [List.length_append, EthAddr.length_bytes, length_u16Bytes, length_u32Bytes,
    List.length_cons, List.length_nil] at hproto hlens hop hshw hsip hdhw hdip
  have hhwlen : m (off + 4) = h.hwlen := hlens.byte (i := 0) (by simp)
  have hprotolen : m (off + 5) = h.protolen := hlens.byte (i := 1) (by simp)
  rw [arpAt, hhw.u16, hproto.u16, hhwlen, hprotolen, hop.u16, ethAddrAt_of_holds hshw, hsip.u32,
    ethAddrAt_of_holds hdhw, hdip.u32]

theorem window_header {m : Memory} {eth : Nat} {h : EthernetIIHeader}
    (hd : m.window eth 6 = h.dest.bytes) (hs : m.window (eth + 6) 6 = h.src.bytes)
    (ht : m.window (eth + 12) 2 = u16Bytes h.type) : m.window eth 14 = h.bytes := by
  rw [window_add m eth 12 2, window_add m eth 6 6, hd, hs, ht]
  rfl

section

variable (m : Memory) (eth : Nat) (dest src : EthAddr) (type : UInt16)

/-- The three stores of a header, the source address before or after the other. -/
def writeHeader : Memory :=
  ((m.write (eth + 12) (u16Bytes type)).write eth dest.bytes).write (eth + 6) src.bytes

def writeHeaderSrcFirst : Memory :=
  ((m.write (eth + 12) (u16Bytes type)).write (eth + 6) src.bytes).write eth dest.bytes

theorem window_writeHeader :
    (writeHeader m eth dest src type).window eth 14 = (EthernetIIHeader.mk dest src type).bytes := by
  have hl := fun a : EthAddr => a.length_bytes
  apply window_header
  · rw [writeHeader, window_write_of_disjoint _ (Or.inl le_rfl)]
    have hw := window_write_self (m.write (eth + 12) (u16Bytes type)) eth dest.bytes
    rwa [hl] at hw
  · have hw := window_write_self ((m.write (eth + 12) (u16Bytes type)).write eth dest.bytes)
      (eth + 6) src.bytes
    rwa [hl] at hw
  · rw [writeHeader, window_write_of_disjoint _ (Or.inr (by rw [hl])),
      window_write_of_disjoint _ (Or.inr (by rw [hl]; omega))]
    exact window_write_self _ _ _

theorem window_writeHeaderSrcFirst :
    (writeHeaderSrcFirst m eth dest src type).window eth 14 =
      (EthernetIIHeader.mk dest src type).bytes := by
  have hl := fun a : EthAddr => a.length_bytes
  apply window_header
  · have hw := window_write_self ((m.write (eth + 12) (u16Bytes type)).write (eth + 6) src.bytes)
      eth dest.bytes
    rwa [hl] at hw
  · rw [writeHeaderSrcFirst, window_write_of_disjoint _ (Or.inr (by rw [hl]))]
    have hw := window_write_self (m.write (eth + 12) (u16Bytes type)) (eth + 6) src.bytes
    rwa [hl] at hw
  · rw [writeHeaderSrcFirst, window_write_of_disjoint _ (Or.inr (by rw [hl]; omega)),
      window_write_of_disjoint _ (Or.inr (by rw [hl]))]
    exact window_write_self _ _ _

/-- Bytes outside the header stay. -/
theorem window_writeHeader_other {o n : Nat} (h : o + n ≤ eth ∨ eth + 14 ≤ o) :
    (writeHeader m eth dest src type).window o n = m.window o n := by
  have hl := fun a : EthAddr => a.length_bytes
  rw [writeHeader, window_write_of_disjoint _ (by rw [hl]; omega),
    window_write_of_disjoint _ (by rw [hl]; omega),
    window_write_of_disjoint _ (by rw [length_u16Bytes]; omega)]

theorem window_writeHeaderSrcFirst_other {o n : Nat} (h : o + n ≤ eth ∨ eth + 14 ≤ o) :
    (writeHeaderSrcFirst m eth dest src type).window o n = m.window o n := by
  have hl := fun a : EthAddr => a.length_bytes
  rw [writeHeaderSrcFirst, window_write_of_disjoint _ (by rw [hl]; omega),
    window_write_of_disjoint _ (by rw [hl]; omega),
    window_write_of_disjoint _ (by rw [length_u16Bytes]; omega)]

end

theorem setArpTx_request {m : Memory} {eth : Nat} (mac : EthAddr)
    (h : (arpAt m (eth + 14)).opcode = htons arpRequest) :
    setArpTx m eth mac =
      (writeHeader m eth ethAddrBroadcast mac (htons ethernetTypeArp), 42) := by
  have hne : ¬ (arpAt m (eth + 14)).opcode = htons arpReply := by
    rw [h]
    decide
  have h' : (arpAt m (eth + sizeOfEthernetIIHeader.toNat)).opcode = htons arpRequest := h
  have hne' : ¬ (arpAt m (eth + sizeOfEthernetIIHeader.toNat)).opcode = htons arpReply := hne
  simp only [setArpTx]
  rw [if_neg hne', if_pos h']
  rfl

theorem setArpTx_reply {m : Memory} {eth : Nat} (mac : EthAddr)
    (h : (arpAt m (eth + 14)).opcode = htons arpReply) :
    setArpTx m eth mac =
      (writeHeaderSrcFirst m eth (arpAt m (eth + 14)).dhwaddr mac (htons ethernetTypeArp), 42) := by
  have h' : (arpAt m (eth + sizeOfEthernetIIHeader.toNat)).opcode = htons arpReply := h
  simp only [setArpTx]
  rw [if_pos h']
  rfl

end MiMic.NetIf
