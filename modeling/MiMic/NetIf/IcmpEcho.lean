import MiMic.NetIf.UdpSend

/-!
# The echo reply

The reply is the request with its type, its checksum and its addresses written over. The
checksum is not computed again: the missing type is added to it, with an end-around carry in the
byte order of the CPU.
-/
namespace MiMic.NetIf

open Verif MiMic.Driver

/-- The checksum field after the type has gone from eight to zero. -/
def updateIcmpChksum (chksum : UInt16) : UInt16 :=
  if chksum ≥ htons (0xffff - 0x0800) then chksum + (htons 0x0800 + 1) else chksum + htons 0x0800

/-- The packet that `NyLPC_cIPv4IComp_rx` builds in the block it was given. -/
def echoReply (config : IPv4Config) (iph block : Memory) : Memory :=
  let tx := block.write 0 (iph.window 0 (ipPacketLength iph).toNat)
  let payload := (ipHeaderLength tx).toNat
  let tx := tx.write payload [0]
  let tx := tx.write (payload + 2) (u16Bytes (updateIcmpChksum (tx.u16 (payload + 2))))
  let tx := tx.write 16 (u32Bytes (tx.u32 12))
  tx.write 12 (u32Bytes config.ipAddr.v)

/-- `NyLPC_cIPv4IComp_rx` from the test of the packet on; `block` is what stands in the blocks
behind the room for an Ethernet header. -/
def icompReply (config : IPv4Config) (iph : Memory) (mm : EthernetMM) (block : BlockId → Memory) :
    Option Memory :=
  match icompRx config iph with
  | .icmpEcho len =>
      (allocTxBuf mm len).bind fun tx =>
        if tx.2 < len then none else some (echoReply config iph (block tx.1))
  | _ => none

/-- A packet that holds an IP header and the eight bytes of an echo header. -/
structure HoldsEcho (iph : Memory) : Prop where
  ihl_ge : 5 ≤ ihl iph
  covers : 4 * ihl iph + 8 ≤ totalLength iph

/-- The sum over the segment is all ones. -/
def IcmpVerifies (iph : Memory) : Prop :=
  OnesComplement.foldCarries (OnesComplement.wordTotal (segmentBytes iph)) = 65535

def IpHeaderVerifies (iph : Memory) : Prop :=
  OnesComplement.foldCarries (OnesComplement.wordTotal (ipHeaderBytes iph)) = 65535

/-- Identifier, sequence number and payload. -/
def echoBody (iph : Memory) : List UInt8 :=
  iph.window (4 * ihl iph + 4) (totalLength iph - (4 * ihl iph + 4))

structure EchoReplyOk (iph tx : Memory) : Prop where
  src : srcIpAddr tx = destIpAddr iph
  dest : destIpAddr tx = srcIpAddr iph
  type : ipPayload tx 0 = 0
  body : echoBody tx = echoBody iph
  length : totalLength tx = totalLength iph
  icmp : IcmpVerifies tx
  ip : IpHeaderVerifies tx

/-- The field grows by the word of the type, up to a lap of the end-around carry, and it is never
all ones afterwards. -/
theorem updateIcmpChksum_spec (chksum : UInt16) :
    ((ntohs (updateIcmpChksum chksum)).toNat = (ntohs chksum).toNat + 2048 ∨
      (ntohs (updateIcmpChksum chksum)).toNat + 65535 = (ntohs chksum).toNat + 2048) ∧
    (ntohs (updateIcmpChksum chksum)).toNat ≠ 65535 := by
  have hn := chksum.toNat_lt
  have hlimit : htons (0xffff - 0x0800) = 0xfff7 := by decide
  have hword : htons 0x0800 = 8 := by decide
  unfold updateIcmpChksum
  rw [hlimit, hword]
  simp only [ntohs, toNat_uint16Bswap]
  by_cases hc : chksum ≥ 0xfff7
  · rw [if_pos hc]
    have hge : 65527 ≤ chksum.toNat := UInt16.le_iff_toNat_le.mp hc
    have hadd : (chksum + (8 + 1)).toNat = (chksum.toNat + 9) % 65536 := UInt16.toNat_add _ _
    rw [hadd]
    omega
  · rw [if_neg hc]
    have hlt : chksum.toNat < 65527 := UInt16.lt_iff_toNat_lt.mp (UInt16.not_le.mp hc)
    have hadd : (chksum + 8).toNat = (chksum.toNat + 8) % 65536 := UInt16.toNat_add _ _
    rw [hadd]
    omega

theorem u32Bytes_u32 (m : Memory) (off : Nat) : u32Bytes (m.u32 off) = m.window off 4 := by
  have h0 := (m off).toNat_lt
  have h1 := (m (off + 1)).toNat_lt
  have h2 := (m (off + 2)).toNat_lt
  have h3 := (m (off + 3)).toNat_lt
  have hv : (m.u32 off).toNat = (m off).toNat + 256 * (m (off + 1)).toNat +
      65536 * (m (off + 2)).toNat + 16777216 * (m (off + 3)).toNat :=
    Nat.mod_eq_of_lt (by omega)
  have hwin : m.window off 4 = [m off, m (off + 1), m (off + 2), m (off + 3)] := rfl
  rw [u32Bytes, hv, hwin]
  have hbyte : ∀ (b : UInt8) (n : Nat), n % 256 = b.toNat → UInt8.ofNat n = b := by
    intro b n h
    apply UInt8.toNat_inj.mp
    rw [UInt8.toNat_ofNat']
    exact h
  rw [hbyte (m off) _ (by omega), hbyte (m (off + 1)) _ (by omega),
    hbyte (m (off + 2)) _ (by omega), hbyte (m (off + 3)) _ (by omega)]

theorem u16_congr {m m' : Memory} {off : Nat} (h : m.window off 2 = m'.window off 2) :
    m.u16 off = m'.u16 off := by
  have hwin : ∀ m : Memory, m.window off 2 = [m off, m (off + 1)] := fun _ => rfl
  rw [hwin, hwin] at h
  obtain ⟨h0, h1⟩ := List.cons.inj h
  rw [Memory.u16, Memory.u16, h0, (List.cons.inj h1).1]

theorem u32_congr {m m' : Memory} {off off' : Nat} (h : m.window off 4 = m'.window off' 4) :
    m.u32 off = m'.u32 off' := by
  have hwin : ∀ (m : Memory) off, m.window off 4 = [m off, m (off + 1), m (off + 2), m (off + 3)] :=
    fun _ _ => rfl
  rw [hwin, hwin] at h
  simp only [List.cons.injEq, and_true] at h
  obtain ⟨h0, h1, h2, h3⟩ := h
  rw [Memory.u32, Memory.u32, h0, h1, h2, h3]

section

variable (config : IPv4Config) (iph block : Memory)

/-- The packet as it was copied into the block. -/
def echoCopy : Memory := block.write 0 (iph.window 0 (totalLength iph))

theorem window_echoCopy {off n : Nat} (h : off + n ≤ totalLength iph) :
    (echoCopy iph block).window off n = iph.window off n := by
  apply List.map_congr_left
  intro i hi
  have hi := List.mem_range.mp hi
  have hin : off + i < totalLength iph := by omega
  simp [echoCopy, Memory.write, hin, Memory.window]

variable {iph} in
/-- The five writes over the copy. -/
theorem echoReply_eq (h : HoldsEcho iph) :
    echoReply config iph block =
      ((((echoCopy iph block).write (4 * ihl iph) [0]).write (4 * ihl iph + 2)
        (u16Bytes (updateIcmpChksum (iph.u16 (4 * ihl iph + 2))))).write 16
        (iph.window 12 4)).write 12 (u32Bytes config.ipAddr.v) := by
  obtain ⟨hihl, hcovers⟩ := h
  have hcopy : block.write 0 (iph.window 0 (ipPacketLength iph).toNat) = echoCopy iph block := by
    rw [ipPacketLength_eq]
    rfl
  have hfirst : (echoCopy iph block).window 0 1 = iph.window 0 1 :=
    window_echoCopy iph block (by omega)
  have hvhl : echoCopy iph block 0 = iph 0 := List.singleton_inj.mp hfirst
  have hhl : (ipHeaderLength (echoCopy iph block)).toNat = 4 * ihl iph := by
    rw [← ipHeaderLength_eq, ipHeaderLength, ipHeaderLength, hvhl]
  have hchk : ((echoCopy iph block).write (4 * ihl iph) [0]).u16 (4 * ihl iph + 2) =
      iph.u16 (4 * ihl iph + 2) := by
    apply u16_congr
    rw [window_write_of_disjoint _ (Or.inr (by simp)), window_echoCopy _ _ (by omega)]
  simp only [echoReply, hcopy, hhl, hchk]
  rw [u32Bytes_u32, window_write_of_disjoint _ (Or.inl (by omega)),
    window_write_of_disjoint _ (Or.inl (by omega)), window_echoCopy _ _ (by omega)]

/-- The reply piece by piece. -/
structure ReplyPieces (tx : Memory) : Prop where
  front : tx.window 0 12 = iph.window 0 12
  src : tx.window 12 4 = u32Bytes config.ipAddr.v
  dest : tx.window 16 4 = iph.window 12 4
  options : tx.window 20 (4 * ihl iph - 20) = iph.window 20 (4 * ihl iph - 20)
  type : tx.window (4 * ihl iph) 1 = [0]
  code : tx.window (4 * ihl iph + 1) 1 = iph.window (4 * ihl iph + 1) 1
  chksum : tx.window (4 * ihl iph + 2) 2 =
    u16Bytes (updateIcmpChksum (iph.u16 (4 * ihl iph + 2)))
  body : tx.window (4 * ihl iph + 4) (totalLength iph - (4 * ihl iph + 4)) = echoBody iph

variable {iph} in
theorem replyPieces (h : HoldsEcho iph) :
    ReplyPieces config iph (echoReply config iph block) := by
  rw [echoReply_eq config block h]
  obtain ⟨hihl, hcovers⟩ := h
  have hcopied : ∀ {off n : Nat}, off + n ≤ totalLength iph →
      (echoCopy iph block).window off n = iph.window off n := window_echoCopy iph block
  generalize echoCopy iph block = m at hcopied
  generalize hchksum : updateIcmpChksum (iph.u16 (4 * ihl iph + 2)) = chksum
  have hkeep : ∀ {off n : Nat}, off + n ≤ 12 ∨ 20 ≤ off →
      ((((m.write (4 * ihl iph) [0]).write (4 * ihl iph + 2) (u16Bytes chksum)).write 16
        (iph.window 12 4)).write 12 (u32Bytes config.ipAddr.v)).window off n =
        ((m.write (4 * ihl iph) [0]).write (4 * ihl iph + 2) (u16Bytes chksum)).window off n := by
    intro off n ho
    rw [window_write_of_disjoint _ (by simp only [length_u32Bytes]; omega),
      window_write_of_disjoint _ (by simp only [length_window]; omega)]
  constructor
  · rw [hkeep (by omega), window_write_of_disjoint _ (by omega),
      window_write_of_disjoint _ (by omega), hcopied (by omega)]
  · exact window_write_self _ 12 (u32Bytes config.ipAddr.v)
  · rw [window_write_of_disjoint _ (Or.inr (by simp))]
    have hself := window_write_self ((m.write (4 * ihl iph) [0]).write (4 * ihl iph + 2)
      (u16Bytes chksum)) 16 (iph.window 12 4)
    rwa [length_window] at hself
  · rw [hkeep (by omega), window_write_of_disjoint _ (by omega),
      window_write_of_disjoint _ (by omega), hcopied (by omega)]
  · rw [hkeep (by omega), window_write_of_disjoint _ (by omega)]
    exact window_write_self m (4 * ihl iph) [0]
  · rw [hkeep (by omega), window_write_of_disjoint _ (by omega),
      window_write_of_disjoint _ (by simp), hcopied (by omega)]
  · rw [hkeep (by omega), hchksum]
    exact window_write_self _ _ (u16Bytes chksum)
  · rw [hkeep (by omega), window_write_of_disjoint _ (by simp only [length_u16Bytes]; omega),
      window_write_of_disjoint _ (by simp only [List.length_singleton]; omega),
      hcopied (by omega)]
    rfl

end

section

variable {config : IPv4Config} {iph tx : Memory}

/-- The reply has the lengths of the request. -/
theorem ReplyPieces.lengths (p : ReplyPieces config iph tx) :
    ihl tx = ihl iph ∧ totalLength tx = totalLength iph := by
  have hbyte : ∀ {i : Nat}, i < 12 → tx i = iph i := by
    intro i hi
    have hg := List.getElem_of_eq p.front (i := i) (by simpa using hi)
    simpa [Memory.window] using hg
  rw [ihl, ihl, totalLength, totalLength, hbyte (by decide), hbyte (by decide), hbyte (by decide)]
  exact ⟨rfl, rfl⟩

/-- A segment of an echo: type, code, checksum and body. -/
theorem segmentBytes_eq (h : HoldsEcho iph) :
    segmentBytes iph = [iph (4 * ihl iph), iph (4 * ihl iph + 1)] ++
      (iph.window (4 * ihl iph + 2) 2 ++ echoBody iph) := by
  have hcovers := h.covers
  have hlen : segmentLength iph = 2 + (2 + (totalLength iph - (4 * ihl iph + 4))) := by
    unfold segmentLength
    omega
  rw [segmentBytes, hlen, window_add, window_add]
  rfl

theorem ipHeaderBytes_eq (h : HoldsEcho iph) :
    ipHeaderBytes iph = iph.window 0 12 ++ (iph.window 12 4 ++ (iph.window 16 4 ++
      iph.window 20 (4 * ihl iph - 20))) := by
  have hihl := h.ihl_ge
  have hlen : 4 * ihl iph = 12 + (4 + (4 + (4 * ihl iph - 20))) := by omega
  have hwin := window_add iph 0 12 (4 + (4 + (4 * ihl iph - 20)))
  rw [ipHeaderBytes]
  conv_lhs => rw [hlen]
  rw [hwin, window_add, window_add]

/-- Two words of a packet, the field read as a number. -/
theorem wordTotal_window_two (m : Memory) (off : Nat) :
    OnesComplement.wordTotal (m.window off 2) = (ntohs (m.u16 off)).toNat := by
  have hwin : m.window off 2 = [m off, m (off + 1)] := rfl
  rw [hwin, toNat_ntohs_u16]
  simp [OnesComplement.wordTotal]

/-- The words of a segment: type and code, the checksum, and the rest. -/
theorem wordTotal_segmentBytes (h : HoldsEcho iph) :
    OnesComplement.wordTotal (segmentBytes iph) =
      (iph (4 * ihl iph)).toNat * 256 + (iph (4 * ihl iph + 1)).toNat +
        ((ntohs (iph.u16 (4 * ihl iph + 2))).toNat + OnesComplement.wordTotal (echoBody iph)) := by
  rw [segmentBytes_eq h, OnesComplement.wordTotal_append _ (by simp),
    OnesComplement.wordTotal_append _ (by simp), wordTotal_window_two]
  simp [OnesComplement.wordTotal]

theorem ReplyPieces.wordTotal_segment (p : ReplyPieces config iph tx) (h : HoldsEcho iph) :
    OnesComplement.wordTotal (segmentBytes tx) = (iph (4 * ihl iph + 1)).toNat +
      ((ntohs (updateIcmpChksum (iph.u16 (4 * ihl iph + 2)))).toNat +
        OnesComplement.wordTotal (echoBody iph)) := by
  obtain ⟨hihl, hlen⟩ := p.lengths
  have htx : HoldsEcho tx := ⟨by rw [hihl]; exact h.ihl_ge, by rw [hihl, hlen]; exact h.covers⟩
  have htype : tx (4 * ihl iph) = 0 := List.singleton_inj.mp p.type
  have hcode : tx (4 * ihl iph + 1) = iph (4 * ihl iph + 1) := List.singleton_inj.mp p.code
  rw [segmentBytes_eq htx, echoBody, hihl, hlen, htype, hcode, p.chksum, p.body,
    OnesComplement.wordTotal_append _ (by simp), OnesComplement.wordTotal_append _ (by simp),
    Tcp.wordTotal_u16Bytes]
  simp [OnesComplement.wordTotal]

/-- Something but type and checksum is not zero. -/
def HasContent (iph : Memory) : Prop := ∃ b ∈ iph (4 * ihl iph + 1) :: echoBody iph, b ≠ 0

theorem wordTotal_eq_zero {data : List UInt8} (h : ∀ b ∈ data, b = 0) :
    OnesComplement.wordTotal data = 0 := by
  induction data using OnesComplement.wordTotal.induct with
  | case1 => rfl
  | case2 a =>
    rw [OnesComplement.wordTotal, h a List.mem_cons_self]
    rfl
  | case3 a b rest ih =>
    rw [OnesComplement.wordTotal, ih fun c hc => h c (by simp [hc]), h a (by simp), h b (by simp)]
    rfl

theorem hasContent_iff :
    HasContent iph ↔
      0 < (iph (4 * ihl iph + 1)).toNat + OnesComplement.wordTotal (echoBody iph) := by
  constructor
  · rintro ⟨b, hb, hne⟩
    rcases List.mem_cons.mp hb with rfl | hmem
    · have hpos : (iph (4 * ihl iph + 1)).toNat ≠ 0 := fun h0 => hne (UInt8.toNat_inj.mp h0)
      omega
    · have hpos := wordTotal_pos ⟨b, hmem, hne⟩
      omega
  · intro hpos
    by_contra hno
    have hzero : ∀ b ∈ iph (4 * ihl iph + 1) :: echoBody iph, b = 0 := by
      intro b hb
      by_contra hne
      exact hno ⟨b, hb, hne⟩
    have hcode : iph (4 * ihl iph + 1) = 0 := hzero _ List.mem_cons_self
    rw [hcode, wordTotal_eq_zero fun b hb => hzero b (List.mem_cons_of_mem _ hb)] at hpos
    exact absurd hpos (by decide)

/-- The reply verifies exactly if the request does and has some content. -/
theorem ReplyPieces.icmpVerifies_iff (p : ReplyPieces config iph tx) (h : HoldsEcho iph)
    (htype : iph (4 * ihl iph) = icmpEcho) :
    IcmpVerifies tx ↔ IcmpVerifies iph ∧ HasContent iph := by
  obtain ⟨hstep, hones⟩ := updateIcmpChksum_spec (iph.u16 (4 * ihl iph + 2))
  have hmax := (ntohs (iph.u16 (4 * ihl iph + 2))).toNat_lt
  have hmax' := (ntohs (updateIcmpChksum (iph.u16 (4 * ihl iph + 2)))).toNat_lt
  have h8 : icmpEcho.toNat = 8 := rfl
  rw [IcmpVerifies, IcmpVerifies, OnesComplement.foldCarries_eq, OnesComplement.foldCarries_eq,
    OnesComplement.normalize_eq_ones, OnesComplement.normalize_eq_ones, hasContent_iff,
    p.wordTotal_segment h, wordTotal_segmentBytes h, htype, h8]
  omega

theorem ReplyPieces.srcIpAddr_eq (p : ReplyPieces config iph tx) : srcIpAddr tx = config.ipAddr := by
  have hholds : tx.Holds 12 (u32Bytes config.ipAddr.v) := p.src
  rw [srcIpAddr, hholds.u32]

theorem ReplyPieces.destIpAddr_eq (p : ReplyPieces config iph tx) : destIpAddr tx = srcIpAddr iph := by
  rw [destIpAddr, srcIpAddr, u32_congr p.dest]

/-- The sum over an IP header, by its pieces. -/
theorem wordTotal_ipHeaderBytes (h : HoldsEcho iph) :
    OnesComplement.wordTotal (ipHeaderBytes iph) = OnesComplement.wordTotal (iph.window 0 12) +
      (OnesComplement.wordTotal (iph.window 12 4) + (OnesComplement.wordTotal (iph.window 16 4) +
        OnesComplement.wordTotal (iph.window 20 (4 * ihl iph - 20)))) := by
  rw [ipHeaderBytes_eq h, OnesComplement.wordTotal_append _ (by simp),
    OnesComplement.wordTotal_append _ (by simp), OnesComplement.wordTotal_append _ (by simp)]

/-- Exchanging the addresses leaves the sum of the header as it was. -/
theorem ReplyPieces.ipHeaderVerifies (p : ReplyPieces config iph tx) (h : HoldsEcho iph)
    (hown : destIpAddr iph = config.ipAddr) (hip : IpHeaderVerifies iph) : IpHeaderVerifies tx := by
  obtain ⟨hihl, hlen⟩ := p.lengths
  have htx : HoldsEcho tx := ⟨by rw [hihl]; exact h.ihl_ge, by rw [hihl, hlen]; exact h.covers⟩
  have hsrc : tx.window 12 4 = iph.window 16 4 := by
    rw [p.src, ← hown, destIpAddr, u32Bytes_u32]
  have htotal : OnesComplement.wordTotal (ipHeaderBytes tx) =
      OnesComplement.wordTotal (ipHeaderBytes iph) := by
    rw [wordTotal_ipHeaderBytes htx, wordTotal_ipHeaderBytes h, hihl, p.front, hsrc, p.dest,
      p.options]
    omega
  rw [IpHeaderVerifies, htotal]
  exact hip

/-- What the IP layer has accepted has a right header sum. -/
theorem ipHeaderVerifies_of_attached {size : UInt16} (h : HoldsEcho iph)
    (ha : attachRxBuf iph size = true) : IpHeaderVerifies iph := by
  unfold attachRxBuf at ha
  split at ha
  · cases ha
  · next hv =>
    have hv : iph 0 &&& 0xf0 = 0x40 := not_not.mp hv
    split at ha
    · cases ha
    · split at ha
      · cases ha
      · refine (isCorrectIpCheckSum_iff ⟨iph 0, ?_, ?_⟩).mp ha
        · rw [ipHeaderBytes_eq h]
          exact List.mem_append_left _ List.mem_cons_self
        · intro h0
          rw [h0] at hv
          exact absurd hv (by decide)

end

theorem icompReply_some {config : IPv4Config} {iph : Memory} {mm : EthernetMM}
    {block : BlockId → Memory} {tx : Memory} (h : icompReply config iph mm block = some tx) :
    ipPayload iph 0 = icmpEcho ∧ ∃ b, tx = echoReply config iph (block b) := by
  unfold icompReply icompRx at h
  by_cases hdest : config.ipAddr ≠ ⟨0⟩ ∧ destIpAddr iph ≠ config.ipAddr
  · simp only [if_pos hdest] at h
    cases h
  · by_cases htype : ipPayload iph 0 = icmpEcho
    · simp only [if_neg hdest, htype, ne_eq, not_true_eq_false, ↓reduceIte] at h
      obtain ⟨r, -, h⟩ := Option.bind_eq_some_iff.mp h
      split at h
      · cases h
      · exact ⟨htype, r.1, (Option.some.inj h).symm⟩
    · simp only [if_neg hdest, ne_eq, htype, not_false_eq_true, ↓reduceIte] at h
      cases h

/-- The reply is right exactly if the request was for the own address, had a right checksum
itself, and holds something that is not zero besides its type and checksum. -/
theorem icmp_echo_reply {config : IPv4Config} {iph : Memory} {size : UInt16} {mm : EthernetMM}
    {block : BlockId → Memory} {tx : Memory} (ha : attachRxBuf iph size = true)
    (hecho : HoldsEcho iph) (h : icompReply config iph mm block = some tx) :
    EchoReplyOk iph tx ↔
      destIpAddr iph = config.ipAddr ∧ IcmpVerifies iph ∧ HasContent iph := by
  obtain ⟨htype, b, rfl⟩ := icompReply_some h
  have p := replyPieces config (block b) hecho
  obtain ⟨hihl, hlen⟩ := p.lengths
  have htype : iph (4 * ihl iph) = icmpEcho := by
    rw [← htype, ipPayload, ipHeaderLength_eq]
    rfl
  have hsums := p.icmpVerifies_iff hecho htype
  constructor
  · intro hok
    exact ⟨hok.src.symm.trans p.srcIpAddr_eq, hsums.mp hok.icmp⟩
  · rintro ⟨hown, hicmp⟩
    constructor
    · rw [p.srcIpAddr_eq, hown]
    · exact p.destIpAddr_eq
    · have hzero : (echoReply config iph (block b)) (4 * ihl iph) = 0 :=
        List.singleton_inj.mp p.type
      rw [ipPayload, ipHeaderLength_eq, hihl]
      exact hzero
    · rw [echoBody, hihl, hlen]
      exact p.body
    · exact hlen
    · exact hsums.mpr hicmp
    · exact p.ipHeaderVerifies hecho hown (ipHeaderVerifies_of_attached hecho ha)

/-- 192.168.0.7 asks 192.168.0.2 with three bytes of payload. -/
def pingAbc : Memory :=
  listMemory ([69, 0, 0, 31, 0, 1, 0, 0, 64, 1, 249, 131, 192, 168, 0, 7, 192, 168, 0, 2] ++
    [8, 0, 51, 154, 0, 1, 0, 2, 97, 98, 99])

/-- The same with nothing but zeros in it. -/
def pingNothing : Memory :=
  listMemory ([69, 0, 0, 28, 0, 1, 0, 0, 64, 1, 249, 134, 192, 168, 0, 7, 192, 168, 0, 2] ++
    [8, 0, 247, 255, 0, 0, 0, 0])

def pingedConfig : IPv4Config := ⟨⟨htonl 0xc0a80002⟩, 1460⟩

theorem exists_reply (iph : Memory)
    (h : (icompReply pingedConfig iph .initialized fun _ _ => 0).isSome = true) :
    ∃ tx, icompReply pingedConfig iph .initialized (fun _ _ => 0) = some tx :=
  Option.isSome_iff_exists.mp h

theorem icmp_echo_reply_abc : ∃ tx, EchoReplyOk pingAbc tx := by
  obtain ⟨tx, htx⟩ := exists_reply pingAbc (by decide +kernel)
  have hecho : HoldsEcho pingAbc := ⟨by decide +kernel, by decide +kernel⟩
  have hverifies : IcmpVerifies pingAbc := by
    rw [IcmpVerifies, OnesComplement.foldCarries_eq]
    decide +kernel
  have hcontent : HasContent pingAbc := hasContent_iff.mpr (by decide +kernel)
  have hown : destIpAddr pingAbc = pingedConfig.ipAddr := by decide +kernel
  have hsize : attachRxBuf pingAbc 46 = true := by decide +kernel
  exact ⟨tx, (icmp_echo_reply hsize hecho htx).mpr ⟨hown, hverifies, hcontent⟩⟩

/-- The checksum of the reply to a correct request becomes zero, and the sum over the reply too. -/
theorem icmp_reply_of_zeros :
    ¬ ∀ config iph size mm block tx, attachRxBuf iph size = true → HoldsEcho iph →
      destIpAddr iph = config.ipAddr → IcmpVerifies iph →
      icompReply config iph mm block = some tx → EchoReplyOk iph tx := by
  intro h
  obtain ⟨tx, htx⟩ := exists_reply pingNothing (by decide +kernel)
  have hecho : HoldsEcho pingNothing := ⟨by decide +kernel, by decide +kernel⟩
  have hverifies : IcmpVerifies pingNothing := by
    rw [IcmpVerifies, OnesComplement.foldCarries_eq]
    decide +kernel
  have hok := h pingedConfig pingNothing 46 .initialized (fun _ _ => 0) tx (by decide +kernel) hecho
    (by decide +kernel) hverifies htx
  obtain ⟨htype, b, rfl⟩ := icompReply_some htx
  have htype' : pingNothing (4 * ihl pingNothing) = icmpEcho := by decide +kernel
  have hsums := (replyPieces pingedConfig ((fun _ _ => 0 : BlockId → Memory) b) hecho).icmpVerifies_iff
    hecho htype'
  have hcontent := hasContent_iff.mp (hsums.mp hok.icmp).2
  exact absurd hcontent (by decide +kernel)

end MiMic.NetIf
