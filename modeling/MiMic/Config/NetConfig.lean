import MiMic.Core.FormatWriter
import MiMic.NetIf.Apipa

/-!
# The network configuration

`NyLPC_TcNetConfig` and the class around it, which keeps copies of two settings: the port in the
service record, and the node field of the UPnP identifier.
-/
namespace MiMic.Config

open NetIf

/-- `NyLPC_TcNetConfig_HOSTNAME_LEN`. -/
def hostnameLen : Nat := 32

/-- `NyLPC_TcNetConfig_IPV4_FLAG_MODE_MANUAL`. -/
def modeManual : UInt32 := 0x00000000

/-- `NyLPC_TcNetConfig_IPV4_FLAG_MODE_APIPA`. -/
def modeApipa : UInt32 := 0x00000001 ||| 0x00000002

/-- `NyLPC_TcNetConfig_SERVICE_FLAG_MDNS`. -/
def flagMdns : UInt32 := 0x00000001

/-- `NyLPC_TcNetConfig_SERVICE_FLAG_UPNP`. -/
def flagUPnP : UInt32 := 0x00000002

/-- `hostname` is the text in front of the terminator. -/
structure TcNetConfig where
  super : EthConfig
  hostname : List UInt8
  tcpMode : UInt32
  flags : UInt32
  httpPort : UInt16

/-- `udnNode` are the last twelve characters of `_udn`. -/
structure NetConfig where
  inst : TcNetConfig
  srvRecordPort : UInt16
  udnNode : List UInt8

/-- `NyLPC_TEthAddr_set`. -/
def EthAddr.set (v : List UInt8) : EthAddr := ⟨Vector.ofFn fun i => v.getD i 0⟩

/-- The four octets as arguments of `NyLPC_TIPv4Addr_set`. -/
def addrOf (v : List UInt8) : IPv4Addr :=
  IPv4Addr.set (v.getD 0 0).toUInt32 (v.getD 1 0).toUInt32 (v.getD 2 0).toUInt32 (v.getD 3 0).toUInt32

namespace NetConfig

def setZeroconf (v : Bool) (cfg : NetConfig) : NetConfig :=
  { cfg with inst := { cfg.inst with tcpMode := if v then modeApipa else modeManual } }

def setIpAddr (v : List UInt8) (cfg : NetConfig) : NetConfig :=
  { cfg with inst := { cfg.inst with super := { cfg.inst.super with ipAddr := addrOf v } } }

def setNetMask (v : List UInt8) (cfg : NetConfig) : NetConfig :=
  { cfg with inst := { cfg.inst with super := { cfg.inst.super with netmask := addrOf v } } }

def setGateway (v : List UInt8) (cfg : NetConfig) : NetConfig :=
  { cfg with inst := { cfg.inst with super := { cfg.inst.super with drAddr := addrOf v } } }

def setEmac (v : List UInt8) (cfg : NetConfig) : NetConfig :=
  { cfg with
    inst := { cfg.inst with super := { cfg.inst.super with ethMac := EthAddr.set v } }
    udnNode := (EthAddr.set v).addr.toList.flatMap fun b => uitoa2 b.toUInt32 16 2 }

def setSrvHttpPort (port : UInt16) (cfg : NetConfig) : NetConfig :=
  { cfg with inst := { cfg.inst with httpPort := port }, srvRecordPort := port }

/-- A bit of `services.flags`. -/
def setFlag (bit : UInt32) (enable : Bool) (cfg : NetConfig) : NetConfig :=
  { cfg with inst := { cfg.inst with
      flags := if enable then cfg.inst.flags ||| bit else cfg.inst.flags &&& ~~~bit } }

def setSrvMdns (enable : Bool) (cfg : NetConfig) : NetConfig := cfg.setFlag flagMdns enable

def setSrvUPnP (enable : Bool) (cfg : NetConfig) : NetConfig := cfg.setFlag flagUPnP enable

/-- The name that is given is copied as far as there is room in front of the terminator. -/
def setHostName (name : List UInt8) (cfg : NetConfig) : NetConfig :=
  { cfg with inst := { cfg.inst with hostname := name.take (hostnameLen - 1) } }

end NetConfig

/-- A call of a setter, with its argument. -/
inductive Setting where
  | emac (v : List UInt8)
  | ipAddr (v : List UInt8)
  | zeroconf (v : Bool)
  | netMask (v : List UInt8)
  | gateway (v : List UInt8)
  | srvHttpPort (port : UInt16)
  | srvMdns (enable : Bool)
  | srvUPnP (enable : Bool)
  | hostName (name : List UInt8)
deriving DecidableEq, Repr

def NetConfig.set (cfg : NetConfig) : Setting → NetConfig
  | .emac v => cfg.setEmac v
  | .ipAddr v => cfg.setIpAddr v
  | .zeroconf v => cfg.setZeroconf v
  | .netMask v => cfg.setNetMask v
  | .gateway v => cfg.setGateway v
  | .srvHttpPort port => cfg.setSrvHttpPort port
  | .srvMdns enable => cfg.setSrvMdns enable
  | .srvUPnP enable => cfg.setSrvUPnP enable
  | .hostName name => cfg.setHostName name

def NetConfig.setAll (cfg : NetConfig) (calls : List Setting) : NetConfig := calls.foldl NetConfig.set cfg

theorem NetConfig.setAll_append (cfg : NetConfig) (calls later : List Setting) :
    cfg.setAll (calls ++ later) = (cfg.setAll calls).setAll later := List.foldl_append

/-- A setting has the value of the call. -/
def Setting.InForce : Setting → TcNetConfig → Prop
  | .emac v, c => c.super.ethMac = EthAddr.set v
  | .ipAddr v, c => c.super.ipAddr = addrOf v
  | .zeroconf v, c => c.tcpMode = if v then modeApipa else modeManual
  | .netMask v, c => c.super.netmask = addrOf v
  | .gateway v, c => c.super.drAddr = addrOf v
  | .srvHttpPort port, c => c.httpPort = port
  | .srvMdns enable, c => (c.flags &&& flagMdns != 0) = enable
  | .srvUPnP enable, c => (c.flags &&& flagUPnP != 0) = enable
  | .hostName name, c => c.hostname = name.take (hostnameLen - 1)

theorem flag_set (flags bit : UInt32) (hbit : bit ≠ 0) (enable : Bool) :
    ((if enable then flags ||| bit else flags &&& ~~~bit) &&& bit != 0) = enable := by
  cases enable with
  | false =>
    have hclear : flags &&& ~~~bit &&& bit = 0 := by
      rw [UInt32.and_assoc, UInt32.not_and_self, UInt32.and_zero]
    simp [hclear]
  | true =>
    have hset : (flags ||| bit) &&& bit = bit := by
      rw [UInt32.and_comm, UInt32.or_comm]
      exact UInt32.eq_of_toBitVec_eq (by ext i; simp; grind)
    simp [hset, hbit]

/-- A setter leaves its setting in force. -/
theorem Setting.inForce_set (s : Setting) (cfg : NetConfig) : s.InForce (cfg.set s).inst := by
  cases s with
  | srvMdns enable => exact flag_set _ _ (by decide) enable
  | srvUPnP enable => exact flag_set _ _ (by decide) enable
  | emac | ipAddr | zeroconf | netMask | gateway | srvHttpPort | hostName => rfl

/-- No setting is in force in every configuration. -/
theorem Setting.exists_not_inForce (s : Setting) : ∃ cfg : NetConfig, ¬s.InForce cfg.inst := by
  have hip : ∀ a : IPv4Addr, ∃ b : IPv4Addr, b ≠ a := fun a => by
    by_cases ha : a.v = 0
    · exact ⟨⟨1⟩, fun h => by rw [← h] at ha; exact absurd ha (by decide)⟩
    · exact ⟨⟨0⟩, fun h => ha (by rw [← h])⟩
  let mac : EthAddr := ⟨Vector.replicate 6 0⟩
  let base : TcNetConfig := ⟨⟨⟨⟨0⟩, 0⟩, mac, ⟨0⟩, ⟨0⟩⟩, [], 0, 0, 0⟩
  cases s with
  | emac v =>
    by_cases hv : EthAddr.set v = mac
    · refine ⟨⟨{ base with super := { base.super with ethMac := ⟨Vector.replicate 6 1⟩ } }, 0, []⟩, ?_⟩
      intro h
      exact absurd (h.trans hv) (by decide)
    · exact ⟨⟨base, 0, []⟩, fun h => hv h.symm⟩
  | ipAddr v =>
    obtain ⟨b, hb⟩ := hip (addrOf v)
    exact ⟨⟨{ base with super := { base.super with ipAddr := b } }, 0, []⟩, hb⟩
  | netMask v =>
    obtain ⟨b, hb⟩ := hip (addrOf v)
    exact ⟨⟨{ base with super := { base.super with netmask := b } }, 0, []⟩, hb⟩
  | gateway v =>
    obtain ⟨b, hb⟩ := hip (addrOf v)
    exact ⟨⟨{ base with super := { base.super with drAddr := b } }, 0, []⟩, hb⟩
  | zeroconf v =>
    refine ⟨⟨{ base with tcpMode := 4 }, 0, []⟩, ?_⟩
    show ¬(4 : UInt32) = if v then modeApipa else modeManual
    cases v <;> decide
  | srvHttpPort port =>
    by_cases hport : port = 0
    · exact ⟨⟨{ base with httpPort := 1 }, 0, []⟩, fun h => absurd (h.trans hport) (by decide)⟩
    · exact ⟨⟨base, 0, []⟩, fun h => hport h.symm⟩
  | srvMdns enable =>
    refine ⟨⟨{ base with flags := if enable then 0 else flagMdns }, 0, []⟩, ?_⟩
    show ¬((if enable then 0 else flagMdns) &&& flagMdns != 0) = enable
    cases enable <;> decide
  | srvUPnP enable =>
    refine ⟨⟨{ base with flags := if enable then 0 else flagUPnP }, 0, []⟩, ?_⟩
    show ¬((if enable then 0 else flagUPnP) &&& flagUPnP != 0) = enable
    cases enable <;> decide
  | hostName name =>
    refine ⟨⟨{ base with hostname := 0 :: name }, 0, []⟩, fun h => ?_⟩
    have hlen := congrArg List.length h
    rw [List.length_cons, List.length_take] at hlen
    omega

/-- Calls change no configuration only when there are none. -/
theorem setAll_eq_self_iff {calls : List Setting} :
    (∀ cfg : NetConfig, cfg.setAll calls = cfg) ↔ calls = [] := by
  constructor
  · intro h
    rcases List.eq_nil_or_concat calls with rfl | ⟨calls, s, rfl⟩
    · rfl
    · obtain ⟨cfg, hcfg⟩ := s.exists_not_inForce
      refine absurd ?_ hcfg
      rw [← h cfg, List.concat_eq_append, NetConfig.setAll_append]
      exact s.inForce_set _
  · rintro rfl cfg
    rfl

end MiMic.Config
