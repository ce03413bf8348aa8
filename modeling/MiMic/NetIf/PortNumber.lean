import MiMic.NetIf.Connections

/-!
# The port of an outgoing connection

The loop that looks for a port counts an unsigned index down from zero, so it ends after one
port. That port is compared in host order with tables that are in network order.
-/
namespace MiMic.NetIf

open MiMic.Tcp

/-- The loop of `NyLPC_cIPv4_getNewPortNumber`; `none` when it is not over yet. -/
def newPortLoop (net : MiMicIpNetIf) : Nat → UInt16 → UInt16 → Option (UInt16 × UInt16)
  | 0, _, _ => none
  | fuel + 1, i, counter =>
      if i < 0x0fff then
        let counter := UInt16.ofNat ((counter.toNat + 1) % 0x0fff)
        let n := counter + 49152
        if isClosedTcpPort net n then some (counter, n) else newPortLoop net fuel (i - 1) counter
      else some (counter, 0)

/-- The loop ends in its second turn at the latest. -/
theorem newPortLoop_eq (net : MiMicIpNetIf) (fuel : Nat) :
    newPortLoop net (fuel + 2) 0 net.tcpPortCounter = some (getNewPortNumber net) := by
  have hfirst : (0 : UInt16) < 0x0fff := by decide
  have hsecond : ¬ (0 - 1 : UInt16) < 0x0fff := by decide
  simp only [newPortLoop, if_pos hfirst, if_neg hsecond, getNewPortNumber]
  split <;> rfl

/-- An open socket or a listener has the port. -/
def UsedByTcp (net : MiMicIpNetIf) (port : UInt16) : Prop :=
  (∃ w ∈ net.tcp, w.isOpen = true ∧ w.sock.uipConnr.lport = htons port) ∨
    ∃ e ∈ net.listeners, e.used = true ∧ e.listener.port = htons port

def UsedByUdp (net : MiMicIpNetIf) (port : UInt16) : Prop :=
  ∃ e ∈ net.udp ++ net.udpNb, e.used = true ∧ e.socket.lport = htons port

def PortInUse (net : MiMicIpNetIf) (port : UInt16) : Prop :=
  UsedByTcp net port ∨ UsedByUdp net port

/-- The ports that the counter runs through. -/
def InPortRange (port : UInt16) : Prop := 49152 ≤ port.toNat ∧ port.toNat < 49152 + 0x0fff

structure NewPortOk (net : MiMicIpNetIf) (port : UInt16) : Prop where
  fresh : port ≠ 0 → InPortRange port ∧ ¬ PortInUse net port
  failed : port = 0 → ∀ p, InPortRange p → PortInUse net p

/-- The port that the counter comes to. -/
def nextPort (net : MiMicIpNetIf) : UInt16 :=
  UInt16.ofNat ((net.tcpPortCounter.toNat + 1) % 0x0fff) + 49152

theorem toNat_nextPort (net : MiMicIpNetIf) :
    (nextPort net).toNat = 49152 + (net.tcpPortCounter.toNat + 1) % 0x0fff := by
  have hlt : (net.tcpPortCounter.toNat + 1) % 0x0fff < 0x0fff := Nat.mod_lt _ (by decide)
  rw [nextPort, UInt16.toNat_add, UInt16.toNat_ofNat']
  show (_ % 2 ^ 16 + 49152) % 2 ^ 16 = _
  omega

theorem inPortRange_nextPort (net : MiMicIpNetIf) : InPortRange (nextPort net) := by
  have hlt : (net.tcpPortCounter.toNat + 1) % 0x0fff < 0x0fff := Nat.mod_lt _ (by decide)
  rw [InPortRange, toNat_nextPort]
  omega

theorem getNewPortNumber_port (net : MiMicIpNetIf) :
    (getNewPortNumber net).2 = if isClosedTcpPort net (nextPort net) then nextPort net else 0 := rfl

/-- The test is about the port with its bytes exchanged. -/
theorem isClosedTcpPort_iff (net : MiMicIpNetIf) (n : UInt16) :
    isClosedTcpPort net n = true ↔ ¬ UsedByTcp net (ntohs n) := by
  simp only [isClosedTcpPort, UsedByTcp, htons_ntohs, Bool.and_eq_true, Bool.not_eq_true',
    List.any_eq_false, beq_iff_eq, not_or, not_exists, not_and]

/-- The port is right exactly if the first one that is tried is free and passes the test, or
fails it and there is no free port at all. -/
theorem new_port_number (net : MiMicIpNetIf) :
    (∀ fuel, newPortLoop net (fuel + 2) 0 net.tcpPortCounter = some (getNewPortNumber net)) ∧
    (NewPortOk net (getNewPortNumber net).2 ↔
      ¬ UsedByTcp net (ntohs (nextPort net)) ∧ ¬ PortInUse net (nextPort net) ∨
        UsedByTcp net (ntohs (nextPort net)) ∧ ∀ p, InPortRange p → PortInUse net p) := by
  refine ⟨newPortLoop_eq net, ?_⟩
  have hrange := inPortRange_nextPort net
  have hne : nextPort net ≠ 0 := by
    intro h0
    have hlow := hrange.1
    rw [h0] at hlow
    exact absurd hlow (by decide)
  rw [getNewPortNumber_port]
  by_cases hc : isClosedTcpPort net (nextPort net) = true
  · have hfree := (isClosedTcpPort_iff net (nextPort net)).mp hc
    rw [if_pos hc]
    constructor
    · intro h
      exact Or.inl ⟨hfree, (h.fresh hne).2⟩
    · rintro (⟨-, hunused⟩ | ⟨hused, -⟩)
      · exact ⟨fun _ => ⟨hrange, hunused⟩, fun h0 => absurd h0 hne⟩
      · exact absurd hused hfree
  · have hused : UsedByTcp net (ntohs (nextPort net)) := by
      by_contra hno
      exact hc ((isClosedTcpPort_iff net (nextPort net)).mpr hno)
    rw [if_neg hc]
    constructor
    · intro h
      exact Or.inr ⟨hused, h.failed rfl⟩
    · rintro (⟨hfree, -⟩ | ⟨-, hall⟩)
      · exact absurd hused hfree
      · exact ⟨fun h0 => absurd rfl h0, fun _ => hall⟩

/-- Tables with one listener and nothing else. -/
def oneListener (port : UInt16) : MiMicIpNetIf where
  config := none
  tcpPortCounter := 0
  tcp := []
  udp := []
  udpNb := []
  listeners := [⟨true, ⟨htons port, ⟨0, Vector.replicate numberOfQ ⟨⟨0⟩, 0, 0, 0⟩⟩⟩⟩]

theorem usedByTcp_oneListener {port p : UInt16} : UsedByTcp (oneListener port) p ↔ p = port := by
  have hinj : htons port = htons p ↔ p = port := by
    constructor
    · intro h
      have hswap := congrArg ntohs h
      rw [ntohs_htons, ntohs_htons] at hswap
      exact hswap.symm
    · rintro rfl
      rfl
  simp [UsedByTcp, oneListener, hinj]

/-- The port of the listener is handed out, and with a listener on port 448, whose bytes are those
of 49153 exchanged, there is no port. -/
theorem new_port_number_wrong :
    (¬ ∀ net, (getNewPortNumber net).2 ≠ 0 → ¬ PortInUse net (getNewPortNumber net).2) ∧
      ¬ ∀ net, (getNewPortNumber net).2 = 0 → ∀ p, InPortRange p → PortInUse net p := by
  constructor
  · intro h
    have hport : (getNewPortNumber (oneListener 49153)).2 = 49153 := by decide +kernel
    exact h (oneListener 49153) (by rw [hport]; decide)
      (by rw [hport]; exact Or.inl (usedByTcp_oneListener.mpr rfl))
  · intro h
    have hport : (getNewPortNumber (oneListener 448)).2 = 0 := by decide +kernel
    have hrange : InPortRange 50000 := by
      constructor <;> decide
    rcases h (oneListener 448) hport 50000 hrange with hused | ⟨e, he, -⟩
    · exact absurd (usedByTcp_oneListener.mp hused) (by decide)
    · cases he

end MiMic.NetIf
