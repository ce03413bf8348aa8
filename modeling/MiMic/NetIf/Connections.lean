import MiMic.Lib.System
import MiMic.Lib.Registry
import MiMic.Tcp.Teardown
import MiMic.NetIf.Receive

/-!
# Connections over the socket table

All sockets of the table run together with the listeners. A connection is named by
its local port, remote address and remote port; the keys of the open sockets and of
the SYNs that wait in a listen queue are counted in one list. The lookups of `tcp_rx`
hold no lock, so the other tasks may run between a lookup and the handler it found.
-/
namespace MiMic.Tcp

open Verif

/-- Local port, remote address and remote port. -/
abbrev ConnKey := UInt16 × IPv4Addr × UInt16

def World.key (w : World) : ConnKey :=
  (w.sock.uipConnr.lport, w.sock.uipConnr.ripaddr, w.sock.uipConnr.rport)

/-- The connection that a call sets up. -/
def Act.opens : Act → Option ConnKey
  | .connect addr peerPort lport => some (htons lport, addr, htons peerPort)
  | .listenSyn lq lport => some (lport, lq.srcaddr, lq.rport)
  | _ => none

/-- The key an open socket holds. -/
def World.openKey (w : World) : List ConnKey := if w.isOpen then [w.key] else []

theorem isOpen_iff {w : World} :
    w.isOpen = true ↔ w.used = true ∧ w.sock.tcpstateflags ≠ .closed := by
  simp [World.isOpen]

/-- The application of an unused entry has no steps. -/
theorem used_of_step {w w' : World} {a : Act} {env : Env} (ha : a.ofApp = true)
    (h : step w (a, env) = some w') : w.used = true := by
  by_contra hu
  have hidle : w.app = .finalized ∧ w.appOps = [] := by
    simpa [World.used, List.isEmpty_iff] using hu
  cases a <;> simp [Act.ofApp] at ha <;> simp [step, hidle.1, hidle.2, contStep] at h

theorem runOp_key {w w₁ : World} {env : Env} {op : Op} {ops : List Op}
    (h : runOp w env op = some (w₁, ops)) : w₁.key = w.key := by
  obtain ⟨pool, mem, n, rfl⟩ := runOp_changes h
  rfl

/-- A call that sets up a connection finds the socket closed; every other step keeps the key. -/
theorem transition_key {w w' : World} {a : Act} {env : Env} (h : Transition w env a w')
    (ho : w'.sock.tcpstateflags ≠ .closed) :
    w.sock.tcpstateflags ≠ .closed ∧ w'.key = w.key ∨
      w.sock.tcpstateflags = .closed ∧ a.opens = some w'.key := by
  have hrx : ∀ {seg : TcpSegment} {r : RxResult}, parseRx w.sock w.mem env.now seg = some r →
      w'.sock = r.sock → w.sock.tcpstateflags ≠ .closed ∧ w'.key = w.key := by
    intro seg r hr hw
    obtain ⟨-, hl, hrp, hip⟩ := parseRx_conn hr
    refine ⟨fun hc => ho ?_, ?_⟩
    · rw [hw]
      exact parseRx_closed hr hc
    · rw [World.key, World.key, hw, hl, hrp, hip]
  cases h with
  | rx _ hr => exact Or.inl (hrx hr rfl)
  | rxReply _ hr => exact Or.inl (hrx hr rfl)
  | periodicAbort => exact absurd rfl ho
  | stop => exact absurd rfl ho
  | start _ _ hc => exact absurd hc ho
  | ipOp _ hr =>
    have hk := runOp_key hr
    exact Or.inl ⟨(runOp_frame hr).2.1 ▸ ho, hk⟩
  | appOp _ hr =>
    have hk := runOp_key hr
    exact Or.inl ⟨(runOp_frame hr).2.1 ▸ ho, hk⟩
  | create => exact absurd rfl ho
  | connect _ hc =>
    refine Or.inr ⟨(connectOpen_spec hc).1, ?_⟩
    unfold connectOpen at hc
    split at hc
    · cases hc
    · split at hc
      · cases hc
      · obtain ⟨rfl, -⟩ := Prod.mk.inj (Option.some.inj hc)
        rfl
  | listenSyn _ hl =>
    refine Or.inr ⟨(listenSyn_spec hl).1, ?_⟩
    unfold listenSyn at hl
    split at hl
    · obtain ⟨rfl, -⟩ := Prod.mk.inj (Option.some.inj hl)
      rfl
    · cases hl
  | close _ hs =>
    refine Or.inl ⟨fun hc => ?_, rfl⟩
    rw [hc] at hs
    cases hs
  | closeDone => exact absurd rfl ho
  | forceClose => exact absurd rfl ho
  | _ => exact Or.inl ⟨ho, rfl⟩

theorem used_of_used {w w' : World} {a : Act} {env : Env} (h : step w (a, env) = some w')
    (ho : w'.sock.tcpstateflags ≠ .closed) (hu : w'.used = true) : w.used = true := by
  cases ha : a.ofApp with
  | true => exact used_of_step ha h
  | false =>
    have hsame : w'.app = w.app → w'.appOps = w.appOps → w.used = true := by
      intro happ hops
      rw [World.used, ← happ, ← hops]
      exact hu
    cases step_transition h with
    | ipOp _ hr => exact hsame (runOp_frame hr).2.2.2.1 (runOp_frame hr).2.2.2.2.1
    | create => exact absurd rfl ho
    | rx => exact hsame rfl rfl
    | rxReply => exact hsame rfl rfl
    | periodicIdle => exact hu
    | periodicFree => exact hsame rfl rfl
    | periodicResend => exact hsame rfl rfl
    | periodicAbort => exact hsame rfl rfl
    | stopClosed => exact hu
    | stop => exact hsame rfl rfl
    | start => exact hsame rfl rfl
    | callNothing hofApp =>
      rw [ha] at hofApp
      cases hofApp
    | goto hofApp =>
      rw [ha] at hofApp
      cases hofApp
    | _ => cases ha

/-- The keys of an entry after a step: no more than before, or the one the call opens. -/
theorem step_openKey {w w' : World} {a : Act} {env : Env} (h : step w (a, env) = some w') :
    w'.openKey.Sublist w.openKey ∨
      ∃ k, a.opens = some k ∧ w.openKey = [] ∧ w'.openKey = [k] := by
  unfold World.openKey
  cases ho' : w'.isOpen with
  | false => exact Or.inl (List.nil_sublist _)
  | true =>
    obtain ⟨hu', hc'⟩ := isOpen_iff.mp ho'
    have hu := used_of_used h hc' hu'
    rcases transition_key (step_transition h) hc' with ⟨hc, hk⟩ | ⟨hc, hk⟩
    · rw [if_pos (isOpen_iff.mpr ⟨hu, hc⟩), hk]
      exact Or.inl (List.Sublist.refl _)
    · have hno : w.isOpen ≠ true := fun ho => (isOpen_iff.mp ho).2 hc
      exact Or.inr ⟨w'.key, hk, if_neg hno, if_pos rfl⟩

end MiMic.Tcp

namespace MiMic.NetIf

open Verif MiMic.Tcp

/-- The item waits for `listen`. -/
def pendingSyn (port : UInt16) (item : TcpSocketSynParam) : List ConnKey :=
  if item.rport != 0 then [(port, item.srcaddr, item.rport)] else []

/-- The keys of the SYNs in the queue of a listener. -/
def ListenerEntry.waitingKeys (e : ListenerEntry) : List ConnKey :=
  if e.used then heldKeys (pendingSyn e.listener.port) e.listener.listenQ.item.toList else []

def openKeys (net : MiMicIpNetIf) : List ConnKey := heldKeys World.openKey net.tcp

def waitingKeys (net : MiMicIpNetIf) : List ConnKey :=
  heldKeys ListenerEntry.waitingKeys net.listeners

/-- The step of one socket of the table. -/
def stepAt (net : MiMicIpNetIf) (i : Nat) (e : Act × Env) : Option MiMicIpNetIf :=
  match net.tcp[i]? with
  | none => none
  | some w => (step w e).map fun w' => { net with tcp := net.tcp.set i w' }

def setListener (net : MiMicIpNetIf) (j : Nat) (e : ListenerEntry) : MiMicIpNetIf :=
  { net with listeners := net.listeners.set j e }

/-- `NyLPC_cMiMicIpTcpListener_synPacket` for a packet it has room for. -/
def queuesSyn (l : TcpListener) (iph : Memory) : Bool :=
  hasFlag (ipPayload iph 13) tcpSyn && (ipPayload iph).u16 0 != 0 && l.listenQ.isFree

/-- `none` when the option walk over the SYN does not return. -/
def synPacket (net : MiMicIpNetIf) (j : Nat) (iph : Memory) : Option MiMicIpNetIf :=
  match net.listeners[j]? with
  | none => none
  | some e =>
      if queuesSyn e.listener iph then
        (synParam iph).map fun item =>
          setListener net j { e with listener.listenQ := e.listener.listenQ.add item }
      else some net

/-- `NyLPC_cIPv4_getNewPortNumber`: its loop counts down from zero in a `uint16_t`, so it
tries one port. -/
def getNewPortNumber (net : MiMicIpNetIf) : UInt16 × UInt16 :=
  let counter := UInt16.ofNat ((net.tcpPortCounter.toNat + 1) % 0x0fff)
  let n := counter + 49152
  (counter, if isClosedTcpPort net n then n else 0)

def connectStep (net : MiMicIpNetIf) (i : Nat) (addr : IPv4Addr) (peerPort : UInt16) (env : Env) :
    Option MiMicIpNetIf :=
  match net.tcp[i]? with
  | none => none
  | some w =>
      let (counter, lport) := getNewPortNumber net
      let net := if w.sock.tcpstateflags = .closed then { net with tcpPortCounter := counter } else net
      stepAt net i (.connect addr peerPort lport, env)

/-- `listen` of listener `j` for socket `i`. With an empty queue it waits. -/
def listenStep (net : MiMicIpNetIf) (j i : Nat) (env : Env) : Option MiMicIpNetIf :=
  match net.listeners[j]?, net.tcp[i]? with
  | some e, some w =>
      if e.used = false ∨ w.used = false then none
      else if w.sock.tcpstateflags ≠ .closed then some net
      else
        match e.listener.listenQ.getLastIndex with
        | none => some net
        | some t =>
            (stepAt net i (.listenSyn (e.listener.listenQ.item.get t) e.listener.port, env)).map fun net =>
              setListener net j { e with listener.listenQ := e.listener.listenQ.remove t }
  | _, _ => none

/-- The calls of the IP task on a socket that is in use, and what it left to do. -/
def ipTaskAct : Act → Bool
  | .periodic => true
  | .stopService => true
  | .startService _ _ => true
  | _ => false

inductive NetAct
  | rx (iph : Memory) (rxSize : UInt16)
  | rxHandler
  | ipTask (i : Nat) (a : Act)
  | ipOp (i : Nat)
  | app (i : Nat) (a : Act)
  | connect (i : Nat) (addr : IPv4Addr) (peerPort : UInt16)
  | listen (j i : Nat)
  | start (config : IPv4Config)
  | stop
  | createTcpSocket
  | createTcpListener (port : UInt16)
  | finalizeTcpListener (j : Nat)

/-- The tables, and the packet that the IP task has looked up but not handed on yet. -/
structure NetTasks where
  net : MiMicIpNetIf
  found : Option (Memory × RxOutcome)

/-- The IP task is done with the last packet and with what a call left to do. -/
def NetTasks.ipTaskFree (s : NetTasks) : Bool :=
  s.found.isNone && s.net.tcp.all (·.ipOps.isEmpty)

/-- A step that leaves the packet of the IP task alone. -/
def NetTasks.onTables (s : NetTasks) (net : Option MiMicIpNetIf) : Option NetTasks :=
  net.map fun net => { s with net := net }

/-- `NyLPC_cIPv4_rx` up to the handler. -/
def rxPacketStep (s : NetTasks) (iph : Memory) (rxSize : UInt16) : Option NetTasks :=
  if s.ipTaskFree then some { s with found := some (iph, ipv4Rx s.net iph rxSize) } else none

/-- The handler takes the lock of its socket or listener. -/
def rxHandler (net : MiMicIpNetIf) (iph : Memory) (env : Env) : RxOutcome → Option MiMicIpNetIf
  | .socket i seg => stepAt net i (.rx seg, env)
  | .listener j => synPacket net j iph
  | _ => some net

def rxHandlerStep (s : NetTasks) (env : Env) : Option NetTasks :=
  match s.found with
  | none => none
  | some (iph, outcome) => (rxHandler s.net iph env outcome).map fun net => ⟨net, none⟩

def createTcpListener (net : MiMicIpNetIf) (port : UInt16) : Option MiMicIpNetIf :=
  (net.listeners.findIdx? fun e => !e.used).bind fun j =>
    (net.listeners[j]?).map fun e =>
      setListener net j ⟨true, ⟨htons port, e.listener.listenQ.init⟩⟩

def netStep (s : NetTasks) (e : NetAct × Env) : Option NetTasks :=
  match e.1 with
  | .rx iph rxSize => rxPacketStep s iph rxSize
  | .rxHandler => rxHandlerStep s e.2
  | .ipTask i a =>
      if ipTaskAct a ∧ (s.net.tcp[i]?).any World.used ∧ s.ipTaskFree then
        s.onTables (stepAt s.net i (a, e.2))
      else none
  | .ipOp i => s.onTables (stepAt s.net i (.ipOp, e.2))
  | .app i a =>
      if a.ofApp ∧ a.opens = none then s.onTables (stepAt s.net i (a, e.2)) else none
  | .connect i addr peerPort => s.onTables (connectStep s.net i addr peerPort e.2)
  | .listen j i => s.onTables (listenStep s.net j i e.2)
  | .start config => some { s with net.config := some config }
  | .stop => some { s with net.config := none }
  | .createTcpSocket =>
      s.onTables ((s.net.tcp.findIdx? fun w => !w.used).bind fun i =>
        stepAt s.net i (.create, e.2))
  | .createTcpListener port => s.onTables (createTcpListener s.net port)
  | .finalizeTcpListener j =>
      s.onTables ((s.net.listeners[j]?).map fun l => setListener s.net j { l with used := false })

/-- The zeroed static tables, of any size; no entry is in use. -/
structure Booted (s : NetTasks) : Prop where
  config_eq : s.net.config = none
  tcp_eq : ∃ n, s.net.tcp = List.replicate n { World.zeroed with app := .finalized }
  listeners_unused : ∀ e ∈ s.net.listeners, e.used = false
  found_eq : s.found = none

def netSystem : System NetTasks (NetAct × Env) where
  init := Booted
  step := netStep

/-- No key is held twice. -/
def KeysDistinct (net : MiMicIpNetIf) : Prop := (openKeys net ++ waitingKeys net).Nodup

/-- A SYN is queued only while its connection neither waits nor is open, and `connect` gets a
port whose connection neither waits nor is open. -/
structure KeepsApart (s : NetTasks) (e : NetAct × Env) : Prop where
  syn : ∀ iph j l, e.1 = .rxHandler → s.found = some (iph, .listener j) →
    s.net.listeners[j]? = some l → l.used = true → queuesSyn l.listener iph = true →
    (l.listener.port, srcIpAddr iph, (ipPayload iph).u16 0) ∉ openKeys s.net ++ waitingKeys s.net
  connect : ∀ i addr peerPort, e.1 = .connect i addr peerPort →
    (htons (getNewPortNumber s.net).2, addr, htons peerPort) ∉
      openKeys s.net ++ waitingKeys s.net

/-- No two open sockets share a key, so the lookup finds the one socket there is. -/
structure ConnUnique (net : MiMicIpNetIf) : Prop where
  unique : ∀ (i j : Nat) (w v : World), net.tcp[i]? = some w → net.tcp[j]? = some v → w.isOpen = true →
    v.isOpen = true → w.key = v.key → i = j
  lookup : ∀ (i : Nat) (w : World), net.tcp[i]? = some w → w.isOpen = true →
    getMatchTcpSocket net w.sock.uipConnr.lport w.sock.uipConnr.ripaddr w.sock.uipConnr.rport =
      some i

/-- A step of a socket adds at most the key that the call opens. -/
theorem stepAt_keys {net net' : MiMicIpNetIf} {i : Nat} {a : Act} {env : Env}
    (h : stepAt net i (a, env) = some net') :
    net'.listeners = net.listeners ∧
      ((openKeys net').Sublist (openKeys net) ∨
        ∃ k, a.opens = some k ∧ (openKeys net').Perm (k :: openKeys net)) := by
  unfold stepAt at h
  split at h
  · cases h
  · next w hw =>
    obtain ⟨w', hs, rfl⟩ := Option.map_eq_some_iff.mp h
    refine ⟨rfl, ?_⟩
    rcases step_openKey hs with hsub | ⟨k, hk, hno, hyes⟩
    · exact Or.inl (heldKeys_keep hw hsub)
    · refine Or.inr ⟨k, hk, heldKeys_acquire hw ?_⟩
      rw [hno, hyes]

theorem waitingKeys_of_listeners {net net' : MiMicIpNetIf} (h : net'.listeners = net.listeners) :
    waitingKeys net' = waitingKeys net := by
  rw [waitingKeys, waitingKeys, h]

theorem keysDistinct_keep {net net' : MiMicIpNetIf} (hd : KeysDistinct net)
    (ho : (openKeys net').Sublist (openKeys net))
    (hw : (waitingKeys net').Sublist (waitingKeys net)) : KeysDistinct net' :=
  hd.sublist (ho.append hw)

/-- A step of a socket whose call opens nothing, or a key that nobody holds. -/
theorem keysDistinct_stepAt {net net' : MiMicIpNetIf} {i : Nat} {a : Act} {env : Env}
    (hd : KeysDistinct net) (h : stepAt net i (a, env) = some net')
    (hk : ∀ k, a.opens = some k → k ∉ openKeys net ++ waitingKeys net) : KeysDistinct net' := by
  obtain ⟨hl, hsub | ⟨k, hak, hperm⟩⟩ := stepAt_keys h
  · exact keysDistinct_keep hd hsub (waitingKeys_of_listeners hl ▸ List.Sublist.refl _)
  · unfold KeysDistinct
    rw [waitingKeys_of_listeners hl]
    have hp : (openKeys net' ++ waitingKeys net).Perm (k :: (openKeys net ++ waitingKeys net)) :=
      hperm.append_right _
    exact hp.nodup_iff.mpr (List.nodup_cons.mpr ⟨hk k hak, hd⟩)

/-- The keys that wait at a listener once a SYN is queued. -/
theorem waitingKeys_add {e : ListenerEntry} {item : TcpSocketSynParam} (hu : e.used = true)
    (hf : e.listener.listenQ.isFree = true) (hr : item.rport ≠ 0) :
    (ListenerEntry.waitingKeys
        { e with listener.listenQ := e.listener.listenQ.add item }).Perm
      ((e.listener.port, item.srcaddr, item.rport) :: e.waitingKeys) := by
  unfold ListenerEntry.waitingKeys ListenQ.add
  simp only [hu, hf, if_true]
  rw [Vector.toList_set]
  refine heldKeys_acquire (a := e.listener.listenQ.item.get e.listener.listenQ.wp) ?_ ?_
  · simp only [Vector.getElem?_toList, Vector.getElem?_eq_getElem (Fin.isLt _)]
    rfl
  · have hfree :
        pendingSyn e.listener.port (e.listener.listenQ.item.get e.listener.listenQ.wp) = [] :=
      if_neg (by simpa [ListenQ.isFree] using hf)
    have hnew : pendingSyn e.listener.port item = [(e.listener.port, item.srcaddr, item.rport)] :=
      if_pos (bne_iff_ne.mpr hr)
    rw [hfree, hnew]

/-- The SYN that `listen` takes out of the queue waited there. -/
theorem waitingKeys_remove {e : ListenerEntry} {t : Fin numberOfQ} (hu : e.used = true)
    (hr : (e.listener.listenQ.item.get t).rport ≠ 0) :
    e.waitingKeys.Perm ((e.listener.port, (e.listener.listenQ.item.get t).srcaddr,
      (e.listener.listenQ.item.get t).rport) :: ListenerEntry.waitingKeys
        { e with listener.listenQ := e.listener.listenQ.remove t }) := by
  unfold ListenerEntry.waitingKeys ListenQ.remove
  simp only [hu, if_true]
  rw [Vector.toList_set]
  refine heldKeys_release (a := e.listener.listenQ.item.get t) ?_ ?_
  · simp only [Vector.getElem?_toList, Vector.getElem?_eq_getElem (Fin.isLt _)]
    rfl
  · have hold : pendingSyn e.listener.port (e.listener.listenQ.item.get t) =
        [(e.listener.port, (e.listener.listenQ.item.get t).srcaddr,
          (e.listener.listenQ.item.get t).rport)] := if_pos (bne_iff_ne.mpr hr)
    rw [hold]
    exact List.Perm.refl _

theorem matchesConn_iff {lport rport : UInt16} {rip : IPv4Addr} {w : World} :
    matchesConn lport rip rport w = true ↔ w.isOpen = true ∧ (lport, rip, rport) = w.key := by
  simp only [matchesConn, World.key, Bool.and_eq_true, beq_iff_eq, Prod.mk.injEq]
  tauto

theorem mem_openKey {w : World} {k : ConnKey} :
    k ∈ w.openKey ↔ w.isOpen = true ∧ k = w.key := by
  unfold World.openKey
  split
  · next h => simp [h]
  · next h => simp [h]

/-- The SYN is queued at the listener that was looked up, whatever that is by now. -/
theorem keysDistinct_syn {net net' : MiMicIpNetIf} {iph : Memory} {j : Nat} (hd : KeysDistinct net)
    (hok : ∀ l, net.listeners[j]? = some l → l.used = true → queuesSyn l.listener iph = true →
      (l.listener.port, srcIpAddr iph, (ipPayload iph).u16 0) ∉ openKeys net ++ waitingKeys net)
    (h : synPacket net j iph = some net') : KeysDistinct net' := by
  unfold synPacket at h
  split at h
  · cases h
  · next e he =>
    split at h
    · next hq =>
      obtain ⟨item, hitem, rfl⟩ := Option.map_eq_some_iff.mp h
      obtain ⟨mss, -, rfl⟩ := Option.map_eq_some_iff.mp hitem
      by_cases hu : e.used = true
      · obtain ⟨⟨-, hr⟩, hf⟩ : (_ ∧ (ipPayload iph).u16 0 ≠ 0) ∧ e.listener.listenQ.isFree = true := by
          simpa [queuesSyn] using hq
        let item : TcpSocketSynParam :=
          ⟨srcIpAddr iph, (ipPayload iph).u16 0, mss.getD 0, ntohl ((ipPayload iph).u32 4) + 1⟩
        have hadd : (ListenerEntry.waitingKeys
            { e with listener.listenQ := e.listener.listenQ.add item }).Perm
            ((e.listener.port, item.srcaddr, item.rport) :: e.waitingKeys) :=
          waitingKeys_add hu hf hr
        have hperm := heldKeys_acquire he hadd
        have hall := (hperm.append_left (openKeys net)).trans List.perm_middle
        exact hall.nodup_iff.mpr (List.nodup_cons.mpr ⟨hok e he hu hq, hd⟩)
      · -- a listener that was finalized holds no key, with the SYN or without it
        refine keysDistinct_keep hd (List.Sublist.refl _) (heldKeys_keep he ?_)
        rw [ListenerEntry.waitingKeys, if_neg hu]
        exact List.nil_sublist _
    · obtain rfl := Option.some.inj h
      exact hd

theorem keysDistinct_handler {s s' : NetTasks} {env : Env} (hd : KeysDistinct s.net)
    (hok : KeepsApart s (.rxHandler, env)) (h : rxHandlerStep s env = some s') :
    KeysDistinct s'.net := by
  unfold rxHandlerStep at h
  split at h
  · cases h
  · next iph outcome hfound =>
    obtain ⟨net, hnet, rfl⟩ := Option.map_eq_some_iff.mp h
    cases outcome with
    | socket i seg =>
      refine keysDistinct_stepAt hd hnet fun k hk => ?_
      cases hk
    | listener j =>
      exact keysDistinct_syn hd (fun l hl hu hq => hok.syn iph j l rfl hfound hl hu hq) hnet
    | _ =>
      obtain rfl := Option.some.inj hnet
      exact hd

theorem keysDistinct_connect {net net' : MiMicIpNetIf} {env : Env} {i : Nat} {addr : IPv4Addr}
    {peerPort : UInt16} (hd : KeysDistinct net)
    (hok : (htons (getNewPortNumber net).2, addr, htons peerPort) ∉ openKeys net ++ waitingKeys net)
    (h : connectStep net i addr peerPort env = some net') : KeysDistinct net' := by
  have hfree : ∀ k, (Act.connect addr peerPort (getNewPortNumber net).2).opens = some k →
      k ∉ openKeys net ++ waitingKeys net := by
    intro k hk
    obtain rfl := Option.some.inj hk
    exact hok
  unfold connectStep at h
  split at h
  · cases h
  · dsimp only at h
    split at h
    · -- the counter is in no key
      have hd' : KeysDistinct { net with tcpPortCounter := (getNewPortNumber net).1 } := hd
      exact keysDistinct_stepAt hd' h hfree
    · exact keysDistinct_stepAt hd h hfree

/-- `listen` hands the key of the SYN over to the socket. -/
theorem keysDistinct_listen {net net' : MiMicIpNetIf} {env : Env} {j i : Nat}
    (hd : KeysDistinct net) (h : listenStep net j i env = some net') : KeysDistinct net' := by
  unfold listenStep at h
  split at h
  · next e w he hw =>
    split at h
    · cases h
    · next hused =>
      split at h
      · obtain rfl := Option.some.inj h
        exact hd
      · split at h
        · obtain rfl := Option.some.inj h
          exact hd
        · next t ht =>
          obtain ⟨net₁, hstep, rfl⟩ := Option.map_eq_some_iff.mp h
          have hu : e.used = true := by
            by_contra hno
            exact hused (Or.inl (by simpa using hno))
          have hr : (e.listener.listenQ.item.get t).rport ≠ 0 := by
            simpa using List.find?_some ht
          obtain ⟨hl, hkeys⟩ := stepAt_keys hstep
          have he₁ : net₁.listeners[j]? = some e := by rw [hl, he]
          have hrel := heldKeys_release he₁ (waitingKeys_remove hu hr)
          have hw₁ : waitingKeys net = heldKeys ListenerEntry.waitingKeys net₁.listeners := by
            rw [waitingKeys, hl]
          rw [← hw₁] at hrel
          rcases hkeys with hsub | ⟨k, hk, hperm⟩
          · have hd₁ := hd.sublist (hsub.append (List.Sublist.refl _))
            exact (List.nodup_cons.mp
              (((hrel.append_left _).trans List.perm_middle).nodup_iff.mp hd₁)).2
          · obtain rfl := Option.some.inj hk
            have hall := (hperm.append_right _).trans
              (List.perm_middle.symm.trans (hrel.symm.append_left (openKeys net)))
            exact hall.nodup_iff.mpr hd
  · cases h

theorem keysDistinct_createListener {net net' : MiMicIpNetIf} {port : UInt16}
    (hd : KeysDistinct net) (h : createTcpListener net port = some net') : KeysDistinct net' := by
  obtain ⟨j, -, h⟩ := Option.bind_eq_some_iff.mp h
  obtain ⟨e, he, rfl⟩ := Option.map_eq_some_iff.mp h
  refine keysDistinct_keep hd (List.Sublist.refl _) (heldKeys_keep he ?_)
  -- the queue of a new listener is empty
  have hempty : ListenerEntry.waitingKeys ⟨true, ⟨htons port, e.listener.listenQ.init⟩⟩ = [] := by
    refine List.flatMap_eq_nil_iff.mpr fun item hitem => ?_
    obtain ⟨old, -, rfl⟩ := Vector.mem_map.mp (Vector.mem_toList_iff.mp hitem)
    rfl
  rw [hempty]
  exact List.nil_sublist _

theorem keysDistinct_step {s s' : NetTasks} {e : NetAct × Env} (hd : KeysDistinct s.net)
    (hok : KeepsApart s e) (h : netStep s e = some s') : KeysDistinct s'.net := by
  obtain ⟨a, env⟩ := e
  have hnone : ∀ {a : Act}, a.opens = none →
      ∀ k, a.opens = some k → k ∉ openKeys s.net ++ waitingKeys s.net := by
    intro a ha k hk
    rw [ha] at hk
    cases hk
  have htables : ∀ {net : Option MiMicIpNetIf}, s.onTables net = some s' →
      (∀ net', net = some net' → KeysDistinct net') → KeysDistinct s'.net := by
    intro net h hk
    obtain ⟨net', hnet, rfl⟩ := Option.map_eq_some_iff.mp h
    exact hk net' hnet
  cases a with
  | rx iph rxSize =>
    simp only [netStep, rxPacketStep] at h
    split at h
    · -- the lookup changes no table
      obtain rfl := Option.some.inj h
      exact hd
    · cases h
  | rxHandler => exact keysDistinct_handler hd hok h
  | ipTask i a =>
    simp only [netStep] at h
    split at h
    · next hg =>
      refine htables h fun net' hs => keysDistinct_stepAt hd hs (hnone ?_)
      have ha := hg.1
      cases a <;> first | rfl | cases ha
    · cases h
  | ipOp i => exact htables h fun net' hs => keysDistinct_stepAt hd hs (hnone rfl)
  | app i a =>
    simp only [netStep] at h
    split at h
    · next hg => exact htables h fun net' hs => keysDistinct_stepAt hd hs (hnone hg.2)
    · cases h
  | connect i addr peerPort =>
    exact htables h fun net' hs =>
      keysDistinct_connect hd (hok.connect i addr peerPort rfl) hs
  | listen j i => exact htables h fun net' hs => keysDistinct_listen hd hs
  | start config =>
    obtain rfl := Option.some.inj h
    exact hd
  | stop =>
    obtain rfl := Option.some.inj h
    exact hd
  | createTcpSocket =>
    refine htables h fun net' hs => ?_
    obtain ⟨i, -, hs⟩ := Option.bind_eq_some_iff.mp hs
    exact keysDistinct_stepAt hd hs (hnone rfl)
  | createTcpListener port => exact htables h fun net' hs => keysDistinct_createListener hd hs
  | finalizeTcpListener j =>
    refine htables h fun net' hs => ?_
    obtain ⟨l, hl, rfl⟩ := Option.map_eq_some_iff.mp hs
    exact keysDistinct_keep hd (List.Sublist.refl _) (heldKeys_keep hl (List.nil_sublist _))

theorem keysDistinct_booted {s : NetTasks} (h : Booted s) : KeysDistinct s.net := by
  obtain ⟨n, hn⟩ := h.tcp_eq
  have ho : openKeys s.net = [] := by
    rw [openKeys, hn]
    exact heldKeys_replicate n rfl
  have hw : waitingKeys s.net = [] :=
    List.flatMap_eq_nil_iff.mpr fun e he => by
      rw [ListenerEntry.waitingKeys, h.listeners_unused e he]
      rfl
  rw [KeysDistinct, ho, hw]
  exact List.nodup_nil

theorem reaches_keysDistinct {s : NetTasks} (h : netSystem.Reaches KeepsApart s) :
    KeysDistinct s.net :=
  h.invariant (P := fun s => KeysDistinct s.net) (fun _ hi => keysDistinct_booted hi)
    fun _ _ _ hd hok hs => keysDistinct_step hd hok hs

/-- Keys that are all different name one socket each. -/
theorem connUnique_of_keys {net : MiMicIpNetIf} (hd : KeysDistinct net) : ConnUnique net := by
  have hopen : (openKeys net).Nodup := (List.nodup_append.mp hd).1
  have hunique : ∀ (i j : Nat) (w v : World), net.tcp[i]? = some w → net.tcp[j]? = some v →
      w.isOpen = true → v.isOpen = true → w.key = v.key → i = j := by
    intro i j w v hi hj hw hv hk
    exact holder_unique hopen hi hj (mem_openKey.mpr ⟨hw, rfl⟩) (mem_openKey.mpr ⟨hv, hk⟩)
  refine ⟨hunique, fun i w hi hw => ?_⟩
  cases hm : getMatchTcpSocket net w.sock.uipConnr.lport w.sock.uipConnr.ripaddr
      w.sock.uipConnr.rport with
  | none =>
    have hno := searchDown_none hm hi
    rw [matchesConn_iff.mpr ⟨hw, rfl⟩] at hno
    cases hno
  | some j =>
    obtain ⟨v, hj, hv⟩ := searchDown_some hm
    obtain ⟨ho, hk⟩ := matchesConn_iff.mp hv
    rw [hunique j i v w hj hi ho hw hk.symm]

/-- Connection uniqueness: in every run whose SYNs and ports are kept apart. -/
theorem connection_unique {s : NetTasks} (h : netSystem.Reaches KeepsApart s) :
    ConnUnique s.net :=
  connUnique_of_keys (reaches_keysDistinct h)

/-- Tables for two sockets and one listener. -/
def smallTables : NetTasks where
  net :=
    { config := none
      tcpPortCounter := 0
      tcp := List.replicate 2 { World.zeroed with app := .finalized }
      udp := []
      udpNb := []
      listeners := [⟨false, ⟨0, ⟨0, Vector.replicate numberOfQ ⟨⟨0⟩, 0, 0, 0⟩⟩⟩⟩] }
  found := none

theorem smallTables_booted : Booted smallTables :=
  ⟨rfl, ⟨2, rfl⟩, fun _ he => by rw [List.mem_singleton.mp he], rfl⟩

/-- The SYN of 192.168.0.7 port 7 for port 80. -/
def synFrame : Memory :=
  listMemory ([69, 0, 0, 40, 0, 1, 0, 0, 64, 6, 249, 117, 192, 168, 0, 7, 192, 168, 0, 2] ++
    [0, 7, 0, 80, 0, 0, 0, 99, 0, 0, 0, 0, 80, 2, 3, 232, 41, 231, 0, 0])

/-- Port 80 is served by two sockets, and the SYN has come. -/
def synArrives : List (NetAct × Env) :=
  [(.createTcpListener 80, quietEnv), (.createTcpSocket, quietEnv), (.createTcpSocket, quietEnv),
    (.start ⟨⟨htonl 0xc0a80002⟩, 1460⟩, quietEnv),
    (.ipTask 0 (.startService ⟨htonl 0xc0a80002⟩ 1460), quietEnv),
    (.ipTask 1 (.startService ⟨htonl 0xc0a80002⟩ 1460), quietEnv), (.rx synFrame 46, quietEnv),
    (.rxHandler, quietEnv)]

/-- The SYN is repeated before `listen` takes it, and two sockets open the same connection. -/
theorem syn_queued_twice : ¬ ∀ s, netSystem.Reaches System.anyStep s → ConnUnique s.net := by
  intro h
  have hrun : (netSystem.run smallTables (synArrives ++
      [(.rx synFrame 46, quietEnv), (.rxHandler, quietEnv), (.listen 0 0, quietEnv),
        (.listen 0 1, quietEnv)])).any
      (fun s : NetTasks => (s.net.tcp[0]?).any (matchesConn (htons 80) ⟨htonl 0xc0a80007⟩ (htons 7))
        && (s.net.tcp[1]?).any (matchesConn (htons 80) ⟨htonl 0xc0a80007⟩ (htons 7))) = true := by
    decide +kernel
  obtain ⟨s, hs, hp⟩ := System.exists_of_run smallTables_booted hrun
  obtain ⟨h0, h1⟩ := Bool.and_eq_true_iff.mp hp
  obtain ⟨w, hw, hmw⟩ := (Option.any_eq_true _ _).mp h0
  obtain ⟨v, hv, hmv⟩ := (Option.any_eq_true _ _).mp h1
  obtain ⟨how, hkw⟩ := matchesConn_iff.mp hmw
  obtain ⟨hov, hkv⟩ := matchesConn_iff.mp hmv
  have heq := (h s hs).unique 0 1 w v hw hv how hov (hkw.symm.trans hkv)
  omega

/-- `KeepsApart` for the steps of a replay, computed. -/
def keepsApart (s : NetTasks) (e : NetAct × Env) : Bool :=
  match e.1, s.found with
  | .rxHandler, some (iph, .listener j) =>
      (s.net.listeners[j]?).all fun l => !queuesSyn l.listener iph ||
        decide ((l.listener.port, srcIpAddr iph, (ipPayload iph).u16 0) ∉
          openKeys s.net ++ waitingKeys s.net)
  | .connect _ addr peerPort, _ =>
      decide ((htons (getNewPortNumber s.net).2, addr, htons peerPort) ∉
        openKeys s.net ++ waitingKeys s.net)
  | _, _ => true

theorem keepsApart_sound {s : NetTasks} {e : NetAct × Env} (h : keepsApart s e = true) :
    KeepsApart s e := by
  obtain ⟨a, env⟩ := e
  constructor
  · rintro iph j l rfl hfound hl - hq
    rw [keepsApart, hfound] at h
    simpa [hl, hq] using h
  · rintro i addr peerPort rfl
    exact of_decide_eq_true h

/-- One socket accepts, the SYN comes again, the other socket connects. -/
theorem connection_unique_pair :
    ∃ s : NetTasks, (openKeys s.net).length = 2 ∧ ConnUnique s.net := by
  have hrun : (netSystem.runChecked keepsApart smallTables (synArrives ++
      [(.listen 0 0, quietEnv), (.rx synFrame 46, quietEnv),
        (.rxHandler, { quietEnv with buf := 2 }), (.connect 1 ⟨htonl 0xc0a80007⟩ 80, quietEnv)])).any
      (fun s => (openKeys s.net).length == 2) = true := by decide +kernel
  obtain ⟨s, hs, hp⟩ :=
    System.exists_of_runChecked (fun _ _ => keepsApart_sound) smallTables_booted hrun
  exact ⟨s, beq_iff_eq.mp hp, connection_unique hs⟩

end MiMic.NetIf
