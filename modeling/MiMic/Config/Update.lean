import MiMic.Config.NetConfig
import MiMic.Flash.Configulation

/-!
# The network configuration from flash

`update` of `NyLPC_cNetConfig` copies a stored configuration into the settings.
-/
namespace MiMic.Config

open Flash NetIf

/-- `ETHERNET_FRAME_LEN`. -/
def ethernetFrameLen : UInt16 := 1400

/-- `NyLPC_cIPv4Config_initialzeForEthernet`; a segment is a frame without the three headers. -/
def EthConfig.initialzeForEthernet (ea : EthAddr) (frameLen : UInt16) : EthConfig where
  ipAddr := ipZero
  defaultMss := frameLen - (14 + 20 + 20)
  ethMac := ea
  netmask := ipZero
  drAddr := ipZero

/-- `update`; `strcpy` takes the host name up to its terminator. -/
def TcNetConfig.update (pdata : MiMicConfigulation) : TcNetConfig :=
  let ea := EthAddr.set [((pdata.mac00010203 >>> 24) &&& 0xff).toUInt8,
    ((pdata.mac00010203 >>> 16) &&& 0xff).toUInt8, ((pdata.mac00010203 >>> 8) &&& 0xff).toUInt8,
    ((pdata.mac00010203 >>> 0) &&& 0xff).toUInt8, ((pdata.mac0405xxxx >>> 24) &&& 0xff).toUInt8,
    ((pdata.mac0405xxxx >>> 16) &&& 0xff).toUInt8]
  let ip : IPv4Addr := ⟨htonl pdata.ipv4AddrNet⟩
  let mask : IPv4Addr := ⟨htonl pdata.ipv4MaskNet⟩
  let drt : IPv4Addr := ⟨htonl pdata.ipv4DrutNet⟩
  { super := ((EthConfig.initialzeForEthernet ea ethernetFrameLen).setDefaultRoute drt).setIp ip mask
    hostname := cString (List.ofFn pdata.hostname)
    flags := pdata.srvFlags
    httpPort := pdata.httpPort
    tcpMode := pdata.ipv4Flags }

def wordAt (ws : List UInt32) (i : Nat) : UInt32 := ws.getD i 0

/-- The address is the first word and the upper half of the second. -/
def macNumber (ws : List UInt32) : Nat := (wordAt ws 0).toNat * 2 ^ 16 + (wordAt ws 1).toNat / 2 ^ 16

/-- The port is the upper half of the last word. -/
def portNumber (ws : List UInt32) : Nat := (wordAt ws 7).toNat / 2 ^ 16

/-- The settings that a host name and eight words stand for. -/
def settingsOf (host : List UInt8) (ws : List UInt32) : TcNetConfig where
  super :=
    { ipAddr := ⟨htonl (wordAt ws 3)⟩
      defaultMss := 1346
      ethMac := EthAddr.set (List.ofFn fun i : Fin 6 => UInt8.ofNat (macNumber ws / 256 ^ (5 - i.val)))
      netmask := ⟨htonl (wordAt ws 4)⟩
      drAddr := ⟨htonl (wordAt ws 5)⟩ }
  hostname := host
  tcpMode := wordAt ws 2
  flags := wordAt ws 6
  httpPort := UInt16.ofNat (portNumber ws)

/-- A configuration in which the host name and the words stand where `update` takes them from. -/
structure HasSettings (pdata : MiMicConfigulation) (host : List UInt8) (ws : List UInt32) : Prop where
  hostname : cString (List.ofFn pdata.hostname) = host
  mac00010203 : pdata.mac00010203 = wordAt ws 0
  mac0405xxxx : pdata.mac0405xxxx = wordAt ws 1
  ipv4Flags : pdata.ipv4Flags = wordAt ws 2
  ipv4AddrNet : pdata.ipv4AddrNet = wordAt ws 3
  ipv4MaskNet : pdata.ipv4MaskNet = wordAt ws 4
  ipv4DrutNet : pdata.ipv4DrutNet = wordAt ws 5
  srvFlags : pdata.srvFlags = wordAt ws 6
  httpPort : pdata.httpPort = UInt16.ofNat (portNumber ws)

theorem octet_eq (w n : UInt32) {k : Nat} (hn : n.toNat = k) (hk : k < 32) :
    ((w >>> n) &&& 0xff).toUInt8 = UInt8.ofNat (w.toNat / 2 ^ k) := by
  have hmask : (w.toNat >>> k) &&& 255 = (w.toNat >>> k) % 2 ^ 8 := Nat.and_two_pow_sub_one_eq_mod _ 8
  apply UInt8.toNat_inj.mp
  rw [UInt32.toNat_toUInt8, UInt32.toNat_and, UInt32.toNat_shiftRight, hn, Nat.mod_eq_of_lt hk,
    UInt8.toNat_ofNat']
  show (w.toNat >>> k &&& 255) % 2 ^ 8 = _
  rw [hmask, Nat.shiftRight_eq_div_pow, Nat.mod_mod]

/-- The first word and the upper half of the second are the octets of the address. -/
theorem update_ethMac {pdata : MiMicConfigulation} {ws : List UInt32}
    (h0 : pdata.mac00010203 = wordAt ws 0) (h1 : pdata.mac0405xxxx = wordAt ws 1) :
    (TcNetConfig.update pdata).super.ethMac =
      EthAddr.set (List.ofFn fun i : Fin 6 => UInt8.ofNat (macNumber ws / 256 ^ (5 - i.val))) := by
  have hlt := (wordAt ws 1).toNat_lt
  have hoctet : ∀ (i k : Nat) (w n : UInt32), n.toNat = k → k < 32 →
      w.toNat / 2 ^ k % 2 ^ 8 = macNumber ws / 256 ^ (5 - i) % 2 ^ 8 →
      ((w >>> n) &&& 0xff).toUInt8 = UInt8.ofNat (macNumber ws / 256 ^ (5 - i)) := by
    intro i k w n hn hk heq
    rw [octet_eq w n hn hk]
    apply UInt8.toNat_inj.mp
    rw [UInt8.toNat_ofNat', UInt8.toNat_ofNat']
    exact heq
  have e0 := hoctet 0 24 (wordAt ws 0) 24 rfl (by decide) (by rw [macNumber]; omega)
  have e1 := hoctet 1 16 (wordAt ws 0) 16 rfl (by decide) (by rw [macNumber]; omega)
  have e2 := hoctet 2 8 (wordAt ws 0) 8 rfl (by decide) (by rw [macNumber]; omega)
  have e3 := hoctet 3 0 (wordAt ws 0) 0 rfl (by decide) (by rw [macNumber]; omega)
  have e4 := hoctet 4 24 (wordAt ws 1) 24 rfl (by decide) (by rw [macNumber]; omega)
  have e5 := hoctet 5 16 (wordAt ws 1) 16 rfl (by decide) (by rw [macNumber]; omega)
  show EthAddr.set _ = _
  rw [h0, h1, e0, e1, e2, e3, e4, e5]
  rfl

theorem update_eq {pdata : MiMicConfigulation} {host : List UInt8} {ws : List UInt32}
    (h : HasSettings pdata host ws) : TcNetConfig.update pdata = settingsOf host ws := by
  have hmac := update_ethMac h.mac00010203 h.mac0405xxxx
  have hsuper : (TcNetConfig.update pdata).super = (settingsOf host ws).super := by
    show EthConfig.mk ⟨⟨htonl pdata.ipv4AddrNet⟩, _⟩ (TcNetConfig.update pdata).super.ethMac
      ⟨htonl pdata.ipv4MaskNet⟩ ⟨htonl pdata.ipv4DrutNet⟩ = _
    rw [hmac, h.ipv4AddrNet, h.ipv4MaskNet, h.ipv4DrutNet]
    rfl
  show TcNetConfig.mk (TcNetConfig.update pdata).super (cString (List.ofFn pdata.hostname))
    pdata.ipv4Flags pdata.srvFlags pdata.httpPort = _
  rw [hsuper, h.hostname, h.ipv4Flags, h.srvFlags, h.httpPort]
  rfl

end MiMic.Config
