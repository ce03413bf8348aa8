import MiMic.Lib.System
import MiMic.Tcp.LockSections

/-!
# The application thread and the IP task over one socket

A step is one lock section, one unlocked read of the state, or one call of the
network interface (allocate, send, release). What a task still has to do after it
dropped the lock stands in its list of pending operations, so the other task may
run in between. The environment supplies the clock, the packet counter, the buffer
that an allocation returns and whether a timer has expired.
-/
namespace MiMic.Tcp

open Verif

/-- A call of the network interface that a task makes without the socket lock;
the `rst` operations are the body of `sendRst`. -/
inductive Op
  | release (buf : BufId)
  | send (buf : BufId)
  | rstAlloc
  | rstLock (buf : BufId)
  | rstBuild (buf : BufId)
deriving DecidableEq, Repr

/-- Who called `sendWithRetransmit`. -/
inductive Caller
  | connect | accept | closeActive | closePassive
deriving DecidableEq, Repr

/-- What `sendWithRetransmit` waits for when it takes the lock again. -/
inductive SwrWait
  | none | window | queue
deriving DecidableEq, Repr

/-- Who called `allocSendBuf`: the application, or `send` with its data. -/
inductive AllocUse
  | user
  | send (data : List UInt8)
deriving DecidableEq, Repr

/-- Where the application thread stands. -/
inductive AppPc
  | idle
  | swrAlloc (k : Caller) (tcpf : UInt8) (data : List UInt8)
  | swrLock (k : Caller) (tcpf : UInt8) (data : List UInt8) (buf : BufId) (size : UInt16)
      (wait : SwrWait)
  | waitForTxRemove (k : Caller) (sq : UInt32) (retry : Bool)
  | closeLoop (retry : Bool)
  | closeCheck
  | forceClose
  | allocState (use : AllocUse)
  | allocTry (use : AllocUse)
  | allocWindow (buf : BufId) (size : UInt16) (use : AllocUse)
  | allocWindowRetry (buf : BufId) (size : UInt16) (use : AllocUse)
  | psendState (buf : BufId) (data : List UInt8) (inSend : Bool)
  | psendLock (buf : BufId) (data : List UInt8) (inSend : Bool) (retry : Bool)
  | pseekLock (buf : BufId) (seek : Nat)
  | finalized
deriving DecidableEq, Repr

/-- `pool` lists the transmit buffers that were allocated for this socket and not
released yet, `held` the payload areas that `allocSendBuf` gave to the application. -/
structure World where
  sock : TcpSocket
  mem : TxMemory
  pool : List BufId
  held : List (BufId × UInt16)
  app : AppPc
  appOps : List Op
  ipOps : List Op

structure Env where
  now : UInt32
  pid : UInt16
  buf : BufId
  size : UInt16
  allocOk : Bool
  expired : Bool

inductive Act
  | rx (seg : TcpSegment)
  | periodic
  | stopService
  | startService (ipAddr : IPv4Addr) (defaultMss : UInt16)
  | ipOp
  | connect (addr : IPv4Addr) (peerPort lport : UInt16)
  | listenSyn (lq : TcpSocketSynParam) (lport : UInt16)
  | accept
  | close
  | allocSendBuf
  | psend (buf : BufId) (data : List UInt8)
  | send (data : List UInt8)
  | releaseSendBuf (buf : BufId)
  | precv
  | pseek (seek : Nat)
  | finalize
  | create
  | app

/-- The block sizes of the Ethernet memory manager, less the Ethernet header. -/
def txBufSizes : List UInt16 := [114, 242, 498, 1500]

/-- The memory manager returns a block that nobody refers to. -/
def World.fresh (w : World) (env : Env) : Bool := !w.pool.contains env.buf

def releases (dlist : List BufId) : List Op := dlist.map Op.release

/-- One pending operation, by either task: the new world and what replaces it. -/
def runOp (w : World) (env : Env) : Op → Option (World × List Op)
  | .release b => some ({ w with pool := w.pool.erase b }, [])
  | .send _ => some (w, [])
  | .rstAlloc => if w.fresh env then some ({ w with pool := env.buf :: w.pool }, [.rstLock env.buf]) else none
  | .rstLock b =>
      some ({ w with sock.uipConnr.sndNxt32 := w.sock.uipConnr.sndNxt32 + 1 }, [.rstBuild b])
  | .rstBuild b =>
      some ({ w with mem := Function.update w.mem b (setTxPacket w.sock env.pid (w.mem b) (tcpRst ||| tcpAck) []) },
        [.send b, .release b])

/-- An operation changes the buffers, and of the socket no more than its send position. -/
theorem runOp_changes {w w₁ : World} {env : Env} {op : Op} {ops : List Op}
    (h : runOp w env op = some (w₁, ops)) :
    ∃ pool mem n, w₁ = { w with pool := pool, mem := mem, sock.uipConnr.sndNxt32 := n } := by
  cases op with
  | rstAlloc =>
    simp only [runOp] at h
    split at h
    · obtain ⟨rfl, -⟩ := Prod.mk.inj (Option.some.inj h)
      exact ⟨_, _, _, rfl⟩
    · cases h
  | _ =>
    obtain ⟨rfl, -⟩ := Prod.mk.inj (Option.some.inj h)
    exact ⟨_, _, _, rfl⟩

def rxStep (w : World) (env : Env) (seg : TcpSegment) : Option World :=
  match parseRx w.sock w.mem env.now seg with
  | none => none
  | some r =>
      if r.reply then
        if w.fresh env then
          some { w with
            sock := r.sock
            mem := Function.update r.mem env.buf (setTxPacket r.sock env.pid (r.mem env.buf) tcpAck [])
            pool := env.buf :: w.pool
            ipOps := releases r.dlist ++ [.send env.buf, .release env.buf] }
        else none
      else some { w with sock := r.sock, mem := r.mem, ipOps := releases r.dlist }

def periodicStep (w : World) (env : Env) : World :=
  match periodic w.sock env.now with
  | (sock, .idle) => { w with sock := sock }
  | (sock, .free dlist) => { w with sock := sock, ipOps := releases dlist }
  | (sock, .resend _) => { w with sock := sock }
  | (sock, .abort dlist) => { w with sock := sock, ipOps := releases dlist ++ [.rstAlloc] }

def stopStep (w : World) : World :=
  match stopService w.sock with
  | none => w
  | some (sock, dlist) => { w with sock := sock, ipOps := releases dlist ++ [.rstAlloc] }

/-- Started only on a closed socket that no other call is using. -/
def startStep (w : World) (ipAddr : IPv4Addr) (defaultMss : UInt16) : Option World :=
  match w.app, w.appOps, w.sock.tcpstateflags with
  | .idle, [], .closed => some { w with sock := startService w.sock ipAddr defaultMss }
  | _, _, _ => none

def ipStep (w : World) (env : Env) : Act → Option World
  | .rx seg => rxStep w env seg
  | .periodic => some (periodicStep w env)
  | .stopService => some (stopStep w)
  | .startService ipAddr defaultMss => startStep w ipAddr defaultMss
  | _ => none

/-- The state of a closing socket and the caller that sends the FIN. -/
def closeStart (s : TcpState) : Option (TcpState × Caller) :=
  match s with
  | .established => some (.finWait1, .closeActive)
  | .closeWait => some (.lastAck, .closePassive)
  | _ => none

def callStep (w : World) (env : Env) : Act → Option World
  | .connect addr peerPort lport =>
      match connectOpen w.sock addr peerPort lport with
      | none => some w
      | some (sock, dlist) =>
          some { w with sock := sock, appOps := releases dlist, app := .swrAlloc .connect tcpSyn [] }
  | .listenSyn lq lport =>
      match listenSyn w.sock lq lport with
      | none => some w
      | some (sock, dlist) => some { w with sock := sock, appOps := releases dlist }
  | .accept =>
      if w.sock.tcpstateflags = .synRcvd then
        some { w with app := .swrAlloc .accept (tcpSyn ||| tcpAck) [] }
      else some w
  | .close =>
      if w.sock.tcpstateflags = .closed then some w
      else
        match closeStart w.sock.tcpstateflags with
        | some (s, k) =>
            some { w with sock.tcpstateflags := s, app := .swrAlloc k (tcpFin ||| tcpAck) [] }
        | none => some { w with app := .forceClose }
  | .allocSendBuf => some { w with app := .allocState .user }
  | .psend buf data =>
      if w.held.any fun h => h.1 == buf && data.length ≤ h.2.toNat then
        some { w with app := .psendState buf data false }
      else none
  | .send data => if data = [] then some w else some { w with app := .allocState (.send data) }
  | .releaseSendBuf buf =>
      if w.held.any fun h => h.1 == buf then
        some { w with held := w.held.eraseP (·.1 == buf), appOps := [.release buf] }
      else none
  | .precv => some w
  | .pseek seek =>
      if seek = 0 then some w
      else if seek ≤ w.sock.rxbuf.buf.length ∧ w.fresh env then
        some { w with pool := env.buf :: w.pool, app := .pseekLock env.buf seek }
      else none
  | .finalize =>
      let (txbuf, dlist) := resetTxQIfUsed w.sock.txbuf
      some { w with sock.txbuf := txbuf, appOps := releases dlist, app := .finalized }
  | _ => none

def swrAllocStep (w : World) (env : Env) (k : Caller) (tcpf : UInt8) (data : List UInt8) :
    Option World :=
  if env.allocOk then
    if w.fresh env ∧ env.size ∈ txBufSizes then
      some { w with pool := env.buf :: w.pool, app := .swrLock k tcpf data env.buf env.size .none }
    else none
  else if env.expired then some { w with app := .forceClose }
  else some w

/-- The lock sections of `sendWithRetransmit`. An expired wait for the window returns
without releasing the buffer, an expired wait for a queue slot releases it. -/
def swrLockStep (w : World) (env : Env) (k : Caller) (tcpf : UInt8) (data : List UInt8)
    (buf : BufId) (size : UInt16) (wait : SwrWait) : World :=
  if wait = .window ∧ env.expired then { w with app := .forceClose }
  else if wait ≠ .queue ∧ data ≠ [] ∧ w.sock.uipConnr.peerWin = 0 then
    { w with app := .swrLock k tcpf data buf size .window }
  else if wait = .queue ∧ env.expired then { w with app := .forceClose, appOps := [.release buf] }
  else
    match getTxQ w.sock with
    | .closed => { w with app := .forceClose, appOps := [.release buf] }
    | .full => { w with app := .swrLock k tcpf data buf size .queue }
    | .free =>
        let r := sendWithRetransmitQueue w.sock w.mem env.now env.pid tcpf data buf size
        let s := swrSize w.sock.uipConnr size (UInt16.ofNat data.length)
        let ack := htonl (swrNextAck w.sock.uipConnr tcpf s)
        { w with
          sock := r.1
          mem := r.2
          appOps := [.send buf]
          app := if s = 0 then .waitForTxRemove k ack false else .forceClose }

/-- Where a caller goes on once its packet has left the queue. -/
def Caller.acked : Caller → AppPc
  | .connect => .idle
  | .accept => .idle
  | .closeActive => .closeLoop false
  | .closePassive => .closeCheck

def waitStep (w : World) (env : Env) (k : Caller) (sq : UInt32) (retry : Bool) : World :=
  if retry ∧ env.expired then { w with app := .forceClose }
  else if isPacketAcked w.sock.txbuf sq then
    if w.sock.tcpstateflags = .closed then { w with app := .forceClose }
    else { w with app := k.acked }
  else { w with app := .waitForTxRemove k sq true }

def closeLoopStep (w : World) (env : Env) (retry : Bool) : World :=
  if retry ∧ env.expired then { w with app := .forceClose }
  else
    match w.sock.tcpstateflags with
    | .timeWait => { w with sock.tcpstateflags := .closed, app := .idle }
    | .closed => { w with app := .idle }
    | .finWait1 => { w with app := .closeLoop true }
    | .finWait2 => { w with app := .closeLoop true }
    | .closing => { w with app := .closeLoop true }
    | _ => { w with app := .forceClose }

def forceCloseStep (w : World) : World :=
  if w.sock.tcpstateflags = .closed then { w with app := .idle }
  else { w with sock.tcpstateflags := .closed, appOps := [.rstAlloc], app := .idle }

def allocTryStep (w : World) (env : Env) (use : AllocUse) : Option World :=
  if env.allocOk then
    if w.fresh env ∧ env.size ∈ txBufSizes then
      some { w with pool := env.buf :: w.pool, app := .allocWindow env.buf env.size use }
    else none
  else if env.expired then some { w with app := .idle }
  else some { w with app := .allocState use }

def allocWindowStep (w : World) (buf : BufId) (size : UInt16) (use : AllocUse) : World :=
  if w.sock.uipConnr.peerWin = 0 then { w with app := .allocWindowRetry buf size use }
  else
    let s := sendSize w.sock.uipConnr size
    match use with
    | .user => { w with held := (buf, s) :: w.held, app := .idle }
    | .send data => { w with app := .psendState buf (data.take s.toNat) true }

/-- A failing `psend` leaves the buffer with its caller; `send` then releases it. -/
def psendFail (w : World) (buf : BufId) (inSend : Bool) : World :=
  if inSend then { w with app := .idle, appOps := [.release buf] } else { w with app := .idle }

/-- What the application still holds once the buffer is no longer the caller's. -/
def psendTake (held : List (BufId × UInt16)) (buf : BufId) (inSend : Bool) :
    List (BufId × UInt16) :=
  if inSend then held else held.eraseP (·.1 == buf)

def psendStateStep (w : World) (buf : BufId) (data : List UInt8) (inSend : Bool) : World :=
  if w.sock.tcpstateflags ≠ .established then psendFail w buf inSend
  else if data = [] then
    { w with held := psendTake w.held buf inSend, app := .idle, appOps := [.release buf] }
  else { w with app := .psendLock buf data inSend false }

def psendLockStep (w : World) (env : Env) (buf : BufId) (data : List UInt8) (inSend retry : Bool) :
    World :=
  if retry ∧ env.expired then psendFail w buf inSend
  else
    match getTxQ w.sock with
    | .closed => psendFail w buf inSend
    | .full => { w with app := .psendLock buf data inSend true }
    | .free =>
        let r := psendQueue w.sock w.mem env.now env.pid buf data
        { w with
          sock := r.1
          mem := r.2
          held := psendTake w.held buf inSend
          app := .idle
          appOps := [.send buf] }

def contStep (w : World) (env : Env) : Option World :=
  match w.app with
  | .idle => none
  | .finalized => none
  | .swrAlloc k tcpf data => swrAllocStep w env k tcpf data
  | .swrLock k tcpf data buf size wait => some (swrLockStep w env k tcpf data buf size wait)
  | .waitForTxRemove k sq retry => some (waitStep w env k sq retry)
  | .closeLoop retry => some (closeLoopStep w env retry)
  | .closeCheck =>
      some { w with app := if w.sock.tcpstateflags = .closed then .idle else .forceClose }
  | .forceClose => some (forceCloseStep w)
  | .allocState use =>
      some { w with app := if w.sock.tcpstateflags = .established then .allocTry use else .idle }
  | .allocTry use => allocTryStep w env use
  | .allocWindow buf size use => some (allocWindowStep w buf size use)
  | .allocWindowRetry buf size use =>
      if env.expired ∨ w.sock.tcpstateflags ≠ .established then
        some { w with app := .idle, appOps := [.release buf] }
      else some { w with app := .allocWindow buf size use }
  | .psendState buf data inSend => some (psendStateStep w buf data inSend)
  | .psendLock buf data inSend retry => some (psendLockStep w env buf data inSend retry)
  | .pseekLock buf seek =>
      let r := pseekPop w.sock w.mem env.pid buf seek
      some { w with sock := r.1, mem := r.2, app := .idle, appOps := [.send buf, .release buf] }

def ipOpStep (w : World) (env : Env) : Option World :=
  match w.ipOps with
  | [] => none
  | op :: rest => (runOp w env op).map fun r => { r.1 with ipOps := r.2 ++ rest }

def appOpStep (w : World) (env : Env) (op : Op) (rest : List Op) : Option World :=
  (runOp w env op).map fun r => { r.1 with appOps := r.2 ++ rest }

/-- The IP task handles one event at a time, the application makes one call at a time. -/
def step (w : World) (e : Act × Env) : Option World :=
  match e.1 with
  | .ipOp => ipOpStep w e.2
  | .app =>
      match w.appOps with
      | [] => contStep w e.2
      | op :: rest => appOpStep w e.2 op rest
  | .create =>
      match w.app, w.appOps with
      | .finalized, [] => some { w with sock := initializeSocket w.sock, app := .idle }
      | _, _ => none
  | .rx _ | .periodic | .stopService | .startService _ _ =>
      if w.ipOps.isEmpty then ipStep w e.2 e.1 else none
  | _ =>
      match w.app, w.appOps with
      | .idle, [] => callStep w e.2 e.1
      | _, _ => none

/-- A socket as `initialize` leaves it, with nothing allocated. -/
structure World.Initial (w : World) : Prop where
  closed : w.sock.tcpstateflags = .closed
  rp_eq : w.sock.txbuf.rp = 0
  wp_eq : w.sock.txbuf.wp = 0
  rxbuf_eq : w.sock.rxbuf.buf = []
  pool_eq : w.pool = []
  held_eq : w.held = []
  app_eq : w.app = .idle
  appOps_eq : w.appOps = []
  ipOps_eq : w.ipOps = []

/-- The first socket of the statically allocated, zeroed socket table. -/
def World.zeroed : World where
  sock :=
    { uipConnr := ⟨⟨0⟩, ⟨0⟩, 0, 0, 0, 0, 0, 0, 0, 0⟩
      rxbuf := ⟨512, [], Nat.zero_le _⟩
      txbuf := ⟨0, 0, fun _ => ⟨0, 0, 0, 0⟩⟩
      tcpstateflags := .closed }
  mem := fun _ => ⟨⟨0, 0, 0, 0, 0, 0, 0, 0, ⟨0⟩, ⟨0⟩⟩, ⟨0, 0, 0, 0, 0, 0, 0, 0, 0⟩, []⟩
  pool := []
  held := []
  app := .idle
  appOps := []
  ipOps := []

theorem World.zeroed_initial : World.zeroed.Initial := ⟨rfl, rfl, rfl, rfl, rfl, rfl, rfl, rfl, rfl⟩

def system : System World (Act × Env) where
  init := World.Initial
  step := step

end MiMic.Tcp
