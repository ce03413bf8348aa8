import MiMic.Tcp.Tasks

/-!
# What a step can do

`Transition` lists the outcomes of one step with the guards under which each is
taken, and `step_transition` reads them off the step function once. The invariants
of the later modules are case analyses over these lists.
-/
namespace MiMic.Tcp

open Verif

/-- The application stands at `pc` with nothing left over from its last lock section. -/
structure World.At (w : World) (pc : AppPc) : Prop where
  app_eq : w.app = pc
  appOps_eq : w.appOps = []

/-- The steps that the application thread takes on the socket it holds open. -/
def Act.ofApp : Act → Bool
  | .rx _ => false
  | .periodic => false
  | .stopService => false
  | .startService _ _ => false
  | .ipOp => false
  | .create => false
  | _ => true

/-- Steps of the application that change nothing but its own position. -/
inductive Goto (w : World) (env : Env) : AppPc → Prop
  | accept : w.At .idle → w.sock.tcpstateflags = .synRcvd →
      Goto w env (.swrAlloc .accept (tcpSyn ||| tcpAck) [])
  | close : w.At .idle → w.sock.tcpstateflags ≠ .closed →
      closeStart w.sock.tcpstateflags = none → Goto w env .forceClose
  | allocSendBuf : w.At .idle → Goto w env (.allocState .user)
  | send {data} : w.At .idle → data ≠ [] → Goto w env (.allocState (.send data))
  | psend {buf data size} : w.At .idle → (buf, size) ∈ w.held → data.length ≤ size.toNat →
      Goto w env (.psendState buf data false)
  | swrAllocFail {k tcpf data} : w.At (.swrAlloc k tcpf data) → Goto w env .forceClose
  | swrWindowExpired {k tcpf data buf size} : w.At (.swrLock k tcpf data buf size .window) →
      Goto w env .forceClose
  | swrWindow {k tcpf data buf size wait} : w.At (.swrLock k tcpf data buf size wait) →
      data ≠ [] → Goto w env (.swrLock k tcpf data buf size .window)
  | swrFull {k tcpf data buf size wait} : w.At (.swrLock k tcpf data buf size wait) →
      Goto w env (.swrLock k tcpf data buf size .queue)
  | waitExpired {k sq} : w.At (.waitForTxRemove k sq true) → Goto w env .forceClose
  | waitClosed {k sq retry} : w.At (.waitForTxRemove k sq retry) →
      w.sock.tcpstateflags = .closed → Goto w env .forceClose
  | waitAcked {k sq retry} : w.At (.waitForTxRemove k sq retry) →
      isPacketAcked w.sock.txbuf sq = true → w.sock.tcpstateflags ≠ .closed → Goto w env k.acked
  | waitMore {k sq retry} : w.At (.waitForTxRemove k sq retry) →
      isPacketAcked w.sock.txbuf sq = false → Goto w env (.waitForTxRemove k sq true)
  | closeLoopEnd {retry} : w.At (.closeLoop retry) → Goto w env .forceClose
  | closeLoopClosed {retry} : w.At (.closeLoop retry) → w.sock.tcpstateflags = .closed →
      Goto w env .idle
  | closeLoopMore {retry} : w.At (.closeLoop retry) → Goto w env (.closeLoop true)
  | closeCheckClosed : w.At .closeCheck → w.sock.tcpstateflags = .closed → Goto w env .idle
  | closeCheckForce : w.At .closeCheck → Goto w env .forceClose
  | forceCloseIdle : w.At .forceClose → w.sock.tcpstateflags = .closed → Goto w env .idle
  | allocStateTry {use} : w.At (.allocState use) → w.sock.tcpstateflags = .established →
      Goto w env (.allocTry use)
  | allocStateFail {use} : w.At (.allocState use) → Goto w env .idle
  | allocTryFail {use} : w.At (.allocTry use) → Goto w env .idle
  | allocTryAgain {use} : w.At (.allocTry use) → Goto w env (.allocState use)
  | allocWindow {buf size use} : w.At (.allocWindow buf size use) →
      Goto w env (.allocWindowRetry buf size use)
  | allocWindowSend {buf size data} : w.At (.allocWindow buf size (.send data)) →
      Goto w env (.psendState buf (data.take (sendSize w.sock.uipConnr size).toNat) true)
  | allocWindowAgain {buf size use} : w.At (.allocWindowRetry buf size use) →
      Goto w env (.allocWindow buf size use)
  | psendStateFail {buf data} : w.At (.psendState buf data false) → Goto w env .idle
  | psendStateLock {buf data inSend} : w.At (.psendState buf data inSend) →
      w.sock.tcpstateflags = .established → Goto w env (.psendLock buf data inSend false)
  | psendLockFail {buf data retry} : w.At (.psendLock buf data false retry) → Goto w env .idle
  | psendFull {buf data inSend retry} : w.At (.psendLock buf data inSend retry) →
      Goto w env (.psendLock buf data inSend true)

/-- Failing returns that give back the buffer the thread owns. -/
inductive GiveUp (w : World) : BufId → AppPc → Prop
  | swr {k tcpf data buf size wait} : w.At (.swrLock k tcpf data buf size wait) →
      GiveUp w buf .forceClose
  | allocWindowRetry {buf size use} : w.At (.allocWindowRetry buf size use) → GiveUp w buf .idle
  | psendState {buf data} : w.At (.psendState buf data true) → GiveUp w buf .idle
  | psendLock {buf data retry} : w.At (.psendLock buf data true retry) → GiveUp w buf .idle

/-- The outcomes of a step. -/
inductive Transition (w : World) (env : Env) : Act → World → Prop
  | rx {seg r} : w.ipOps = [] → parseRx w.sock w.mem env.now seg = some r → r.reply = false →
      Transition w env (.rx seg)
        { w with sock := r.sock, mem := r.mem, ipOps := releases r.dlist }
  | rxReply {seg r} : w.ipOps = [] → parseRx w.sock w.mem env.now seg = some r →
      env.buf ∉ w.pool →
      Transition w env (.rx seg)
        { w with
          sock := r.sock
          mem := Function.update r.mem env.buf
            (setTxPacket r.sock env.pid (r.mem env.buf) tcpAck [])
          pool := env.buf :: w.pool
          ipOps := releases r.dlist ++ [.send env.buf, .release env.buf] }
  | periodicIdle : w.ipOps = [] → periodic w.sock env.now = (w.sock, .idle) →
      Transition w env .periodic w
  | periodicFree : w.ipOps = [] → w.sock.tcpstateflags = .closed →
      Transition w env .periodic
        { w with
          sock.txbuf := (resetTxQ w.sock.txbuf).1
          ipOps := releases (resetTxQ w.sock.txbuf).2 }
  | periodicResend {bufs} : w.ipOps = [] → w.sock.tcpstateflags ≠ .closed →
      w.sock.txbuf.rp ≠ w.sock.txbuf.wp →
      periodic w.sock env.now =
        ({ w.sock with txbuf := restamp w.sock.txbuf env.now }, .resend bufs) →
      Transition w env .periodic { w with sock.txbuf := restamp w.sock.txbuf env.now }
  | periodicAbort {dlist} : w.ipOps = [] → w.sock.tcpstateflags ≠ .closed →
      w.sock.txbuf.rp ≠ w.sock.txbuf.wp →
      periodic w.sock env.now =
        ({ w.sock with
            tcpstateflags := .closed
            txbuf := (resetTxQ (restamp w.sock.txbuf env.now)).1 }, .abort dlist) →
      dlist = (resetTxQ (restamp w.sock.txbuf env.now)).2 →
      Transition w env .periodic
        { w with
          sock.tcpstateflags := .closed
          sock.txbuf := (resetTxQ (restamp w.sock.txbuf env.now)).1
          ipOps := releases dlist ++ [.rstAlloc] }
  | stopClosed : w.ipOps = [] → w.sock.tcpstateflags = .closed → Transition w env .stopService w
  | stop : w.ipOps = [] → w.sock.tcpstateflags ≠ .closed →
      Transition w env .stopService
        { w with
          sock.tcpstateflags := .closed
          sock.txbuf := (resetTxQ w.sock.txbuf).1
          ipOps := releases (resetTxQ w.sock.txbuf).2 ++ [.rstAlloc] }
  | start {ipAddr defaultMss} : w.ipOps = [] → w.At .idle → w.sock.tcpstateflags = .closed →
      Transition w env (.startService ipAddr defaultMss)
        { w with sock := startService w.sock ipAddr defaultMss }
  | ipOp {op rest w₁ ops} : w.ipOps = op :: rest → runOp w env op = some (w₁, ops) →
      Transition w env .ipOp { w₁ with ipOps := ops ++ rest }
  | appOp {op rest w₁ ops} : w.appOps = op :: rest → runOp w env op = some (w₁, ops) →
      Transition w env .app { w₁ with appOps := ops ++ rest }
  | create : w.At .finalized →
      Transition w env .create { w with sock := initializeSocket w.sock, app := .idle }
  | callNothing {a} : a.ofApp = true → w.At .idle → Transition w env a w
  | connect {addr peerPort lport sock dlist} : w.At .idle →
      connectOpen w.sock addr peerPort lport = some (sock, dlist) →
      Transition w env (.connect addr peerPort lport)
        { w with sock := sock, appOps := releases dlist, app := .swrAlloc .connect tcpSyn [] }
  | listenSyn {lq lport sock dlist} : w.At .idle → listenSyn w.sock lq lport = some (sock, dlist) →
      Transition w env (.listenSyn lq lport) { w with sock := sock, appOps := releases dlist }
  | close {s k} : w.At .idle → closeStart w.sock.tcpstateflags = some (s, k) →
      Transition w env .close
        { w with sock.tcpstateflags := s, app := .swrAlloc k (tcpFin ||| tcpAck) [] }
  | releaseSendBuf {buf size} : w.At .idle → (buf, size) ∈ w.held →
      Transition w env (.releaseSendBuf buf)
        { w with held := w.held.eraseP (·.1 == buf), appOps := [.release buf] }
  | pseek {seek} : w.At .idle → seek ≤ w.sock.rxbuf.buf.length → env.buf ∉ w.pool →
      Transition w env (.pseek seek)
        { w with pool := env.buf :: w.pool, app := .pseekLock env.buf seek }
  | finalize : w.At .idle →
      Transition w env .finalize
        { w with
          sock.txbuf := (resetTxQIfUsed w.sock.txbuf).1
          appOps := releases (resetTxQIfUsed w.sock.txbuf).2
          app := .finalized }
  | stay {pc} : w.At pc → Transition w env .app w
  | goto {a pc} : a.ofApp = true → Goto w env pc → Transition w env a { w with app := pc }
  | giveUp {buf pc} : GiveUp w buf pc →
      Transition w env .app { w with app := pc, appOps := [.release buf] }
  | swrAlloc {k tcpf data} : w.At (.swrAlloc k tcpf data) → env.buf ∉ w.pool →
      env.size ∈ txBufSizes →
      Transition w env .app
        { w with pool := env.buf :: w.pool, app := .swrLock k tcpf data env.buf env.size .none }
  | swrQueue {k tcpf data buf size wait s} :
      w.At (.swrLock k tcpf data buf size wait) → getTxQ w.sock = .free →
      s = swrSize w.sock.uipConnr size (UInt16.ofNat data.length) →
      Transition w env .app
        { w with
          sock := (sendWithRetransmitQueue w.sock w.mem env.now env.pid tcpf data buf size).1
          mem := (sendWithRetransmitQueue w.sock w.mem env.now env.pid tcpf data buf size).2
          appOps := [.send buf]
          app :=
            if s = 0 then .waitForTxRemove k (htonl (swrNextAck w.sock.uipConnr tcpf s)) false
            else .forceClose }
  | closeDone {retry} : w.At (.closeLoop retry) → w.sock.tcpstateflags = .timeWait →
      Transition w env .app { w with sock.tcpstateflags := .closed, app := .idle }
  | forceClose : w.At .forceClose → w.sock.tcpstateflags ≠ .closed →
      Transition w env .app
        { w with sock.tcpstateflags := .closed, appOps := [.rstAlloc], app := .idle }
  | allocTry {use} : w.At (.allocTry use) → env.buf ∉ w.pool → env.size ∈ txBufSizes →
      Transition w env .app
        { w with pool := env.buf :: w.pool, app := .allocWindow env.buf env.size use }
  | allocUser {buf size} : w.At (.allocWindow buf size .user) → w.sock.uipConnr.peerWin ≠ 0 →
      Transition w env .app
        { w with held := (buf, sendSize w.sock.uipConnr size) :: w.held, app := .idle }
  | psendEmpty {buf inSend} : w.At (.psendState buf [] inSend) →
      Transition w env .app
        { w with held := psendTake w.held buf inSend, app := .idle, appOps := [.release buf] }
  | psendQueue {buf data inSend retry} : w.At (.psendLock buf data inSend retry) →
      getTxQ w.sock = .free → ¬ (retry = true ∧ env.expired = true) →
      Transition w env .app
        { w with
          sock := (psendQueue w.sock w.mem env.now env.pid buf data).1
          mem := (psendQueue w.sock w.mem env.now env.pid buf data).2
          held := psendTake w.held buf inSend
          app := .idle
          appOps := [.send buf] }
  | pseekPop {buf seek} : w.At (.pseekLock buf seek) →
      Transition w env .app
        { w with
          sock := (pseekPop w.sock w.mem env.pid buf seek).1
          mem := (pseekPop w.sock w.mem env.pid buf seek).2
          app := .idle
          appOps := [.send buf, .release buf] }

theorem fresh_iff {w : World} {env : Env} : w.fresh env = true ↔ env.buf ∉ w.pool := by
  simp [World.fresh]

theorem mem_of_any_eq {held : List (BufId × UInt16)} {buf : BufId} {p : BufId × UInt16 → Bool}
    (h : held.any (fun x => x.1 == buf && p x) = true) :
    ∃ size, (buf, size) ∈ held ∧ p (buf, size) = true := by
  obtain ⟨⟨b, size⟩, hmem, hp⟩ := List.any_eq_true.mp h
  simp only [Bool.and_eq_true, beq_iff_eq] at hp
  obtain ⟨rfl, hp⟩ := hp
  exact ⟨size, hmem, hp⟩

theorem rxStep_transition {w w' : World} {env : Env} {seg : TcpSegment} (hops : w.ipOps = [])
    (h : rxStep w env seg = some w') : Transition w env (.rx seg) w' := by
  unfold rxStep at h
  cases hr : parseRx w.sock w.mem env.now seg with
  | none => simp [hr] at h
  | some r =>
    simp only [hr] at h
    by_cases hreply : r.reply = true
    · by_cases hf : w.fresh env = true
      · rw [if_pos hreply, if_pos hf] at h
        obtain rfl := Option.some.inj h
        exact .rxReply hops hr (fresh_iff.mp hf)
      · rw [if_pos hreply, if_neg hf] at h
        cases h
    · rw [if_neg hreply] at h
      obtain rfl := Option.some.inj h
      exact .rx hops hr (by simpa using hreply)

theorem periodicStep_transition {w : World} {env : Env} (hops : w.ipOps = []) :
    Transition w env .periodic (periodicStep w env) := by
  unfold periodicStep
  by_cases hc : w.sock.tcpstateflags = .closed
  · have hp : periodic w.sock env.now =
        ({ w.sock with txbuf := (resetTxQ w.sock.txbuf).1 }, .free (resetTxQ w.sock.txbuf).2) := by
      rw [periodic, if_pos hc]
    rw [hp]
    exact .periodicFree hops hc
  · by_cases he : w.sock.txbuf.rp = w.sock.txbuf.wp
    · have hp : periodic w.sock env.now = (w.sock, .idle) := by
        rw [periodic, if_neg hc, if_pos he]
      rw [hp]
      exact .periodicIdle hops hp
    · by_cases hw : w.sock.uipConnr.peerWin = 0
      · have hp : periodic w.sock env.now = (w.sock, .idle) := by
          rw [periodic, if_neg hc, if_neg he, if_pos hw]
        rw [hp]
        exact .periodicIdle hops hp
      · by_cases ht : elapseInMsec env.now (w.sock.txbuf.slot w.sock.txbuf.rp).tickOfSent >
            (w.sock.txbuf.slot w.sock.txbuf.rp).rto32
        · by_cases hm : ((restamp w.sock.txbuf env.now).slot
              (restamp w.sock.txbuf env.now).rp).rto32 > uipIpRtoMaxRto
          · have hp : periodic w.sock env.now = ({ w.sock with
                tcpstateflags := .closed
                txbuf := (resetTxQ (restamp w.sock.txbuf env.now)).1 },
                .abort (resetTxQ (restamp w.sock.txbuf env.now)).2) := by
              simp only [periodic, if_neg hc, if_neg he, if_neg hw, if_pos ht]
              exact if_pos hm
            rw [hp]
            exact .periodicAbort hops hc he hp rfl
          · have hp : periodic w.sock env.now =
                ({ w.sock with txbuf := restamp w.sock.txbuf env.now },
                  .resend ((restamp w.sock.txbuf env.now).items.map (·.packet))) := by
              simp only [periodic, if_neg hc, if_neg he, if_neg hw, if_pos ht]
              exact if_neg hm
            rw [hp]
            exact .periodicResend hops hc he hp
        · have hp : periodic w.sock env.now = (w.sock, .idle) := by
            rw [periodic, if_neg hc, if_neg he, if_neg hw, if_neg ht]
          rw [hp]
          exact .periodicIdle hops hp

theorem stopStep_transition {w : World} {env : Env} (hops : w.ipOps = []) :
    Transition w env .stopService (stopStep w) := by
  unfold stopStep stopService
  by_cases hc : w.sock.tcpstateflags = .closed
  · rw [if_pos hc]
    exact .stopClosed hops hc
  · rw [if_neg hc]
    exact .stop hops hc

theorem ipStep_transition {w w' : World} {env : Env} {a : Act} (hops : w.ipOps = [])
    (h : ipStep w env a = some w') : Transition w env a w' := by
  cases a with
  | rx seg => exact rxStep_transition hops h
  | periodic =>
    obtain rfl := Option.some.inj h
    exact periodicStep_transition hops
  | stopService =>
    obtain rfl := Option.some.inj h
    exact stopStep_transition hops
  | startService ipAddr defaultMss =>
    simp only [ipStep, startStep] at h
    split at h
    · next happ hao hc =>
      obtain rfl := Option.some.inj h
      exact .start hops ⟨happ, hao⟩ hc
    · cases h
  | _ => cases h

theorem callStep_transition {w w' : World} {env : Env} {a : Act} (hat : w.At .idle)
    (h : callStep w env a = some w') : Transition w env a w' := by
  cases a with
  | connect addr peerPort lport =>
    simp only [callStep] at h
    split at h
    · obtain rfl := Option.some.inj h
      exact .callNothing rfl hat
    · next sock dlist hc =>
      obtain rfl := Option.some.inj h
      exact .connect hat hc
  | listenSyn lq lport =>
    simp only [callStep] at h
    split at h
    · obtain rfl := Option.some.inj h
      exact .callNothing rfl hat
    · next sock dlist hc =>
      obtain rfl := Option.some.inj h
      exact .listenSyn hat hc
  | accept =>
    simp only [callStep] at h
    split at h
    · next hs =>
      obtain rfl := Option.some.inj h
      exact .goto rfl (.accept hat hs)
    · obtain rfl := Option.some.inj h
      exact .callNothing rfl hat
  | close =>
    simp only [callStep] at h
    split at h
    · obtain rfl := Option.some.inj h
      exact .callNothing rfl hat
    · next hc =>
      split at h
      · next s k hs =>
        obtain rfl := Option.some.inj h
        exact .close hat hs
      · next hs =>
        obtain rfl := Option.some.inj h
        exact .goto rfl (.close hat hc hs)
  | allocSendBuf =>
    obtain rfl := Option.some.inj h
    exact .goto rfl (.allocSendBuf hat)
  | psend buf data =>
    simp only [callStep] at h
    split at h
    · next hh =>
      obtain rfl := Option.some.inj h
      obtain ⟨size, hmem, hlen⟩ := mem_of_any_eq hh
      exact .goto rfl (.psend hat hmem (of_decide_eq_true hlen))
    · cases h
  | send data =>
    simp only [callStep] at h
    split at h
    · obtain rfl := Option.some.inj h
      exact .callNothing rfl hat
    · next hd =>
      obtain rfl := Option.some.inj h
      exact .goto rfl (.send hat hd)
  | releaseSendBuf buf =>
    simp only [callStep] at h
    split at h
    · next hh =>
      obtain rfl := Option.some.inj h
      obtain ⟨⟨b, size⟩, hmem, hb⟩ := List.any_eq_true.mp hh
      obtain rfl := beq_iff_eq.mp hb
      exact .releaseSendBuf hat hmem
    · cases h
  | precv =>
    obtain rfl := Option.some.inj h
    exact .callNothing rfl hat
  | pseek seek =>
    simp only [callStep] at h
    split at h
    · obtain rfl := Option.some.inj h
      exact .callNothing rfl hat
    · split at h
      · next hg =>
        obtain rfl := Option.some.inj h
        exact .pseek hat hg.1 (fresh_iff.mp hg.2)
      · cases h
  | finalize =>
    obtain rfl := Option.some.inj h
    exact .finalize hat
  | _ => cases h

theorem swrLockStep_transition {w : World} {env : Env} {k : Caller} {tcpf : UInt8}
    {data : List UInt8} {buf : BufId} {size : UInt16} {wait : SwrWait}
    (hat : w.At (.swrLock k tcpf data buf size wait)) :
    Transition w env .app (swrLockStep w env k tcpf data buf size wait) := by
  unfold swrLockStep
  split
  · next hw =>
    rw [hw.1] at hat
    exact .goto rfl (.swrWindowExpired hat)
  · split
    · next hw => exact .goto rfl (.swrWindow hat hw.2.1)
    · split
      · exact .giveUp (.swr hat)
      · split
        · exact .giveUp (.swr hat)
        · exact .goto rfl (.swrFull hat)
        · next hq => exact .swrQueue hat hq rfl

theorem waitStep_transition {w : World} {env : Env} {k : Caller} {sq : UInt32} {retry : Bool}
    (hat : w.At (.waitForTxRemove k sq retry)) :
    Transition w env .app (waitStep w env k sq retry) := by
  unfold waitStep
  split
  · next hr =>
    rw [show retry = true from hr.1] at hat
    exact .goto rfl (.waitExpired hat)
  · split
    · next ha =>
      split
      · next hc => exact .goto rfl (.waitClosed hat hc)
      · next hc => exact .goto rfl (.waitAcked hat ha hc)
    · next ha => exact .goto rfl (.waitMore hat (by simpa using ha))

theorem closeLoopStep_transition {w : World} {env : Env} {retry : Bool}
    (hat : w.At (.closeLoop retry)) : Transition w env .app (closeLoopStep w env retry) := by
  unfold closeLoopStep
  split
  · exact .goto rfl (.closeLoopEnd hat)
  · split
    · next hs => exact .closeDone hat hs
    · next hs => exact .goto rfl (.closeLoopClosed hat hs)
    · exact .goto rfl (.closeLoopMore hat)
    · exact .goto rfl (.closeLoopMore hat)
    · exact .goto rfl (.closeLoopMore hat)
    · exact .goto rfl (.closeLoopEnd hat)

theorem psendStateStep_transition {w : World} {env : Env} {buf : BufId} {data : List UInt8}
    {inSend : Bool} (hat : w.At (.psendState buf data inSend)) :
    Transition w env .app (psendStateStep w buf data inSend) := by
  unfold psendStateStep
  split
  · cases inSend with
    | false => exact .goto rfl (.psendStateFail hat)
    | true => exact .giveUp (.psendState hat)
  · next hs =>
    split
    · next hd =>
      rw [hd] at hat
      exact .psendEmpty hat
    · exact .goto rfl (.psendStateLock hat (not_not.mp hs))

theorem psendLockStep_transition {w : World} {env : Env} {buf : BufId} {data : List UInt8}
    {inSend retry : Bool} (hat : w.At (.psendLock buf data inSend retry)) :
    Transition w env .app (psendLockStep w env buf data inSend retry) := by
  have hfail : Transition w env .app (psendFail w buf inSend) := by
    cases inSend with
    | false => exact .goto rfl (.psendLockFail hat)
    | true => exact .giveUp (.psendLock hat)
  unfold psendLockStep
  split
  · exact hfail
  · next hwait =>
    split
    · exact hfail
    · exact .goto rfl (.psendFull hat)
    · next hq => exact .psendQueue hat hq hwait

theorem contStep_transition {w w' : World} {env : Env} (hops : w.appOps = [])
    (h : contStep w env = some w') : Transition w env .app w' := by
  unfold contStep at h
  split at h
  · cases h
  · cases h
  · next k tcpf data happ =>
    have hat : w.At (.swrAlloc k tcpf data) := ⟨happ, hops⟩
    unfold swrAllocStep at h
    split at h
    · split at h
      · next hg =>
        obtain rfl := Option.some.inj h
        exact .swrAlloc hat (fresh_iff.mp hg.1) hg.2
      · cases h
    · split at h
      · obtain rfl := Option.some.inj h
        exact .goto rfl (.swrAllocFail hat)
      · obtain rfl := Option.some.inj h
        exact .stay hat
  · next happ =>
    obtain rfl := Option.some.inj h
    exact swrLockStep_transition ⟨happ, hops⟩
  · next happ =>
    obtain rfl := Option.some.inj h
    exact waitStep_transition ⟨happ, hops⟩
  · next happ =>
    obtain rfl := Option.some.inj h
    exact closeLoopStep_transition ⟨happ, hops⟩
  · next happ =>
    obtain rfl := Option.some.inj h
    by_cases hc : w.sock.tcpstateflags = .closed
    · rw [if_pos hc]
      exact .goto rfl (.closeCheckClosed ⟨happ, hops⟩ hc)
    · rw [if_neg hc]
      exact .goto rfl (.closeCheckForce ⟨happ, hops⟩)
  · next happ =>
    obtain rfl := Option.some.inj h
    unfold forceCloseStep
    split
    · next hc => exact .goto rfl (.forceCloseIdle ⟨happ, hops⟩ hc)
    · next hc => exact .forceClose ⟨happ, hops⟩ hc
  · next use happ =>
    obtain rfl := Option.some.inj h
    by_cases hs : w.sock.tcpstateflags = .established
    · rw [if_pos hs]
      exact .goto rfl (.allocStateTry ⟨happ, hops⟩ hs)
    · have hat : w.At (.allocState use) := ⟨happ, hops⟩
      rw [if_neg hs]
      exact .goto rfl (.allocStateFail hat)
  · next use happ =>
    have hat : w.At (.allocTry use) := ⟨happ, hops⟩
    unfold allocTryStep at h
    split at h
    · split at h
      · next hg =>
        obtain rfl := Option.some.inj h
        exact .allocTry hat (fresh_iff.mp hg.1) hg.2
      · cases h
    · split at h
      · obtain rfl := Option.some.inj h
        exact .goto rfl (.allocTryFail hat)
      · obtain rfl := Option.some.inj h
        exact .goto rfl (.allocTryAgain hat)
  · next buf size use happ =>
    obtain rfl := Option.some.inj h
    unfold allocWindowStep
    split
    · exact .goto rfl (.allocWindow ⟨happ, hops⟩)
    · next hw =>
      cases use with
      | user => exact .allocUser ⟨happ, hops⟩ hw
      | send data => exact .goto rfl (.allocWindowSend ⟨happ, hops⟩)
  · next buf size use happ =>
    split at h
    · obtain rfl := Option.some.inj h
      exact .giveUp (.allocWindowRetry ⟨happ, hops⟩)
    · obtain rfl := Option.some.inj h
      exact .goto rfl (.allocWindowAgain ⟨happ, hops⟩)
  · next happ =>
    obtain rfl := Option.some.inj h
    exact psendStateStep_transition ⟨happ, hops⟩
  · next happ =>
    obtain rfl := Option.some.inj h
    exact psendLockStep_transition ⟨happ, hops⟩
  · next happ =>
    obtain rfl := Option.some.inj h
    exact .pseekPop ⟨happ, hops⟩

/-- Every step of the system is one of the listed outcomes. -/
theorem call_transition {w w' : World} {env : Env} {a : Act}
    (h : (match w.app, w.appOps with
      | .idle, [] => callStep w env a
      | _, _ => none) = some w') : Transition w env a w' := by
  split at h
  · next happ hao => exact callStep_transition ⟨happ, hao⟩ h
  · cases h

theorem ip_transition {w w' : World} {env : Env} {a : Act}
    (h : (if w.ipOps.isEmpty then ipStep w env a else none) = some w') : Transition w env a w' := by
  split at h
  · next he => exact ipStep_transition (List.isEmpty_iff.mp he) h
  · cases h

theorem step_transition {w w' : World} {e : Act × Env} (h : step w e = some w') :
    Transition w e.2 e.1 w' := by
  obtain ⟨a, env⟩ := e
  cases a with
  | ipOp =>
    simp only [step, ipOpStep] at h
    split at h
    · cases h
    · next op rest hops =>
      obtain ⟨⟨w₁, ops⟩, hr, rfl⟩ := Option.map_eq_some_iff.mp h
      exact .ipOp hops hr
  | app =>
    simp only [step] at h
    split at h
    · next hao => exact contStep_transition hao h
    · next op rest hops =>
      obtain ⟨⟨w₁, ops⟩, hr, rfl⟩ := Option.map_eq_some_iff.mp h
      exact .appOp hops hr
  | create =>
    simp only [step] at h
    split at h
    · next happ hao =>
      obtain rfl := Option.some.inj h
      exact .create ⟨happ, hao⟩
    · cases h
  | rx seg => exact ip_transition h
  | periodic => exact ip_transition h
  | stopService => exact ip_transition h
  | startService ipAddr defaultMss => exact ip_transition h
  | _ => exact call_transition h

end MiMic.Tcp
