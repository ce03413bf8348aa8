import MiMic.Core.Stdlib
import MiMic.Lib.OnesComplement

/-!
# IP and TCP headers, checksums and the TCP option walk

Header fields hold the numbers the CPU sees, multi-byte ones in network order.
The checksum functions read memory from the IP header on, so the same definition
serves a packet that is being built and a frame that was received.
-/
namespace MiMic

open Verif

def tcpFin : UInt8 := 0x01
def tcpSyn : UInt8 := 0x02
def tcpRst : UInt8 := 0x04
def tcpPsh : UInt8 := 0x08
def tcpAck : UInt8 := 0x10

/-- `(flags & mask) != 0`. -/
def hasFlag (flags mask : UInt8) : Bool := flags &&& mask != 0

def uipProtoIcmp : UInt8 := 1
def uipProtoTcp : UInt8 := 6
def uipProtoUdp : UInt8 := 17
def uipDefaultIpTtl : UInt8 := 64
def tcpOptEnd : UInt8 := 0
def tcpOptNoop : UInt8 := 1
def tcpOptMss : UInt8 := 2
def tcpOptMssLen : UInt8 := 4

/-- An address in network order. -/
structure IPv4Addr where
  v : UInt32
deriving DecidableEq, Repr

structure IPv4Header where
  vhl : UInt8
  tos : UInt8
  len16 : UInt16
  ipid16 : UInt16
  ipoffset : UInt16
  ttl : UInt8
  proto : UInt8
  ipchksum : UInt16
  srcipaddr : IPv4Addr
  destipaddr : IPv4Addr

structure TcpHeader where
  srcport : UInt16
  destport : UInt16
  seqno32 : UInt32
  ackno32 : UInt32
  tcpoffset : UInt8
  flags : UInt8
  wnd16 : UInt16
  tcpchksum : UInt16
  urgp : UInt16

def IPv4Header.bytes (h : IPv4Header) : List UInt8 :=
  [h.vhl, h.tos] ++ u16Bytes h.len16 ++ u16Bytes h.ipid16 ++ u16Bytes h.ipoffset ++
    [h.ttl, h.proto] ++ u16Bytes h.ipchksum ++ u32Bytes h.srcipaddr.v ++ u32Bytes h.destipaddr.v

/-- The sixteen bytes of a TCP header before its checksum field. -/
def TcpHeader.front (h : TcpHeader) : List UInt8 :=
  u16Bytes h.srcport ++ u16Bytes h.destport ++ u32Bytes h.seqno32 ++ u32Bytes h.ackno32 ++
    [h.tcpoffset, h.flags] ++ u16Bytes h.wnd16

def TcpHeader.bytes (h : TcpHeader) : List UInt8 :=
  h.front ++ u16Bytes h.tcpchksum ++ u16Bytes h.urgp

@[simp] theorem IPv4Header.length_bytes (h : IPv4Header) : h.bytes.length = 20 := rfl
@[simp] theorem TcpHeader.length_front (h : TcpHeader) : h.front.length = 16 := rfl
@[simp] theorem TcpHeader.length_bytes (h : TcpHeader) : h.bytes.length = 20 := rfl

/-- One word added with its carry, as the accumulator of the source does it. -/
def chksumWord (sum t : UInt16) : UInt16 :=
  let sum := sum + t
  if sum < t then sum + 1 else sum

def uipChksum : UInt16 → List UInt8 → UInt16
  | sum, [] => sum
  | sum, [a] => chksumWord sum (a.toUInt16 <<< (8 : UInt16))
  | sum, a :: b :: rest => uipChksum (chksumWord sum ((a.toUInt16 <<< (8 : UInt16)) + b.toUInt16)) rest

/-- `NyLPC_TIPv4Header_getHeaderLength`. -/
def ipHeaderLength (iph : Memory) : UInt16 := (iph 0 &&& 0x0f).toUInt16 * 4

/-- `NyLPC_TIPv4Header_getPacketLength`. -/
def ipPacketLength (iph : Memory) : UInt16 := ntohs (iph.u16 2)

/-- `NyLPC_TTcpHeader_getHeaderLength`. -/
def tcpHeaderLength (tcph : Memory) : UInt16 := (tcph 12 >>> (4 : UInt8)).toUInt16 * 4

def makeIpChecksum (iph : Memory) : UInt16 :=
  let sum := uipChksum 0 (iph.window 0 (ipHeaderLength iph).toNat)
  if sum = 0 then 0xffff else htons sum

def isCorrectIpCheckSum (iph : Memory) : Bool := makeIpChecksum iph == 0xffff

def makeTcpChecksum (iph : Memory) : UInt16 :=
  let iphLen := ipHeaderLength iph
  let len := ipPacketLength iph - iphLen
  let sum := len + (iph 9).toUInt16
  let sum := uipChksum sum (iph.window 12 8)
  let sum := uipChksum sum (iph.window iphLen.toNat len.toNat)
  if sum = 0 then 0xffff else htons sum

/-- `NyLPC_TIPv4Header_writeTxIpHeader`; the value of the packet counter is an argument. -/
def writeTxIpHeader (h : IPv4Header) (proto : UInt8) (pid : UInt16) : IPv4Header :=
  { h with
    proto := proto
    ttl := uipDefaultIpTtl
    tos := 0
    ipid16 := pid
    ipoffset := 0
    ipchksum := 0 }

/-- `NyLPC_TTcpHeader_setMmsOpt`. -/
def setMmsOpt (mms : UInt16) : List UInt8 :=
  [tcpOptMss, tcpOptMssLen, UInt8.ofNat (mms.toNat / 256), UInt8.ofNat (mms.toNat % 256)]

/-- The option loop; `none` when the given number of iterations does not finish it. -/
def tcpOptWalk (optBuf : Memory) (limit : Nat) (id : UInt8) : Nat → Nat → Option (Option Nat)
  | 0, _ => none
  | fuel + 1, c =>
      if c < limit then
        if optBuf c = id then some (some c)
        else if optBuf c = tcpOptNoop then tcpOptWalk optBuf limit id fuel c
        else if optBuf c = tcpOptEnd then some none
        else if optBuf (c + 1) = 0 then some none
        else tcpOptWalk optBuf limit id fuel (c + (optBuf (c + 1)).toNat)
      else some none

/-- `NyLPC_TTcpHeader_getTcpOptFragmentPtr`: the offset of the option behind the
fixed header. A step that advances moves by at least one byte, so `none` after
`limit + 1` iterations is a loop that never ends. -/
def getTcpOptFragmentPtr (tcph : Memory) (id : UInt8) : Option (Option Nat) :=
  if tcph 12 &&& 0xf0 > 0x50 then
    let limit := ((tcph 12 >>> (4 : UInt8)).toNat - 5) * 4
    tcpOptWalk (fun i => tcph (20 + i)) limit id (limit + 1) 0
  else some none

/-- `NyLPC_TTcpHeader_getTcpMmsOpt`; `none` when the option walk does not return. -/
def getTcpMmsOpt (tcph : Memory) : Option (Option UInt16) :=
  match getTcpOptFragmentPtr tcph tcpOptMss with
  | none => none
  | some none => some none
  | some (some c) =>
      if tcph (20 + c + 1) = tcpOptMssLen then
        some (some (((tcph (20 + c + 2)).toUInt16 <<< (8 : UInt16)) ||| (tcph (20 + c + 3)).toUInt16))
      else some none

theorem toNat_wordOf (a b : UInt8) :
    ((a.toUInt16 <<< (8 : UInt16)) + b.toUInt16).toNat = a.toNat * 256 + b.toNat := by
  have ha := a.toNat_lt
  have hb := b.toNat_lt
  rw [UInt16.toNat_add, UInt16.toNat_shiftLeft, show (8 : UInt16).toNat % 16 = 8 from rfl,
    Nat.shiftLeft_eq, UInt8.toNat_toUInt16, UInt8.toNat_toUInt16]
  omega

theorem toNat_chksumWord (sum t : UInt16) :
    (chksumWord sum t).toNat = OnesComplement.add sum.toNat t.toNat := by
  have hs := sum.toNat_lt
  have ht := t.toNat_lt
  unfold chksumWord OnesComplement.add
  simp only [UInt16.lt_iff_toNat_lt, UInt16.toNat_add]
  split
  · rw [if_neg (by omega), UInt16.toNat_add, UInt16.toNat_add, show (1 : UInt16).toNat = 1 from rfl]
    omega
  · rw [UInt16.toNat_add]
    split <;> omega

/-- From a partial sum in carried form the accumulator ends in the carried form of the total. -/
theorem toNat_uipChksum (data : List UInt8) :
    ∀ (sum : UInt16) (n : Nat), sum.toNat = OnesComplement.normalize n →
      (uipChksum sum data).toNat = OnesComplement.normalize (n + OnesComplement.wordTotal data) := by
  induction data using OnesComplement.wordTotal.induct with
  | case1 => intro sum n h; simpa [uipChksum, OnesComplement.wordTotal] using h
  | case2 a =>
    intro sum n h
    have hw : (a.toUInt16 <<< (8 : UInt16)).toNat = a.toNat * 256 := by
      simpa using toNat_wordOf a 0
    have ha := a.toNat_lt
    rw [uipChksum, toNat_chksumWord, h, hw, OnesComplement.add_normalize _ _ (by omega)]
    rfl
  | case3 a b rest ih =>
    intro sum n h
    have ha := a.toNat_lt
    have hb := b.toNat_lt
    rw [uipChksum, ih _ (n + (a.toNat * 256 + b.toNat)), OnesComplement.wordTotal]
    · congr 1
      omega
    · rw [toNat_chksumWord, h, toNat_wordOf, OnesComplement.add_normalize _ _ (by omega)]

end MiMic
