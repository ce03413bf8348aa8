import MiMic.Tcp.Handshake
import MiMic.Tcp.SendWindow

/-!
# The closing handshake

`close` leaves ESTABLISHED or CLOSE_WAIT in one lock section and queues its FIN in
a later one. From then on nothing is queued behind the FIN, so a queue that is
not empty ends in it.
-/
namespace MiMic.Tcp

open Verif

theorem rxState_teardown (sock : TcpSocket) (seg : TcpSegment) (isNew : Bool) (n : Nat)
    (h : sock.tcpstateflags.teardown = true) :
    (rxState sock seg isNew n).tcpstateflags.teardown = true ∨
      (rxState sock seg isNew n).tcpstateflags = .closed := by
  unfold rxState
  split
  · next hs => rw [hs] at h; cases h
  · next hs => rw [hs] at h; cases h
  · next hs => rw [hs] at h; cases h
  · split
    · exact Or.inr rfl
    · exact Or.inl h
  · unfold rxFinWait1
    split
    · split
      · dsimp only
        split <;> exact Or.inl rfl
      · exact Or.inl h
    · split
      · exact Or.inl rfl
      · exact Or.inl h
  · split
    · exact Or.inl rfl
    · exact Or.inl h
  · split
    · exact Or.inl rfl
    · exact Or.inl h
  · exact Or.inl h
  · exact Or.inl h
  · next hs => rw [hs] at h; cases h

theorem rxState_not_teardown (sock : TcpSocket) (seg : TcpSegment) (isNew : Bool) (n : Nat)
    (h : sock.tcpstateflags.teardown = false) :
    (rxState sock seg isNew n).tcpstateflags.teardown = false := by
  have hest : ∀ s : TcpSocket, s.tcpstateflags = .established →
      (rxEstablished s seg isNew).tcpstateflags.teardown = false := by
    intro s hs
    rcases rxEstablished_state seg isNew hs with he | he <;> (rw [he]; rfl)
  unfold rxState
  split
  · split
    · split
      · exact hest _ rfl
      · rfl
    · exact h
  · next hs => exact hest _ hs
  · exact h
  · next hs => rw [hs] at h; cases h
  · next hs => rw [hs] at h; cases h
  · next hs => rw [hs] at h; cases h
  · next hs => rw [hs] at h; cases h
  · exact h
  · next hs => rw [hs] at h; cases h
  · split
    · rfl
    · exact h

/-- A segment neither begins nor ends a teardown, except by closing the socket. -/
theorem parseRx_teardown {sock : TcpSocket} {mem : TxMemory} {now : UInt32} {seg : TcpSegment}
    {r : RxResult} (h : parseRx sock mem now seg = some r) (hc : r.sock.tcpstateflags ≠ .closed) :
    r.sock.tcpstateflags.teardown = sock.tcpstateflags.teardown := by
  rcases parseRx_cases h with ⟨_, rfl⟩ | ⟨_, mms, _, rfl⟩
  · exact absurd rfl hc
  · cases ht : sock.tcpstateflags.teardown with
    | true =>
      exact (rxState_teardown (withMms sock mms) seg _ _ ht).resolve_right hc
    | false => exact rxState_not_teardown (withMms sock mms) seg _ _ ht

theorem parseRx_closed {sock : TcpSocket} {mem : TxMemory} {now : UInt32} {seg : TcpSegment}
    {r : RxResult} (h : parseRx sock mem now seg = some r) (hc : sock.tcpstateflags = .closed) :
    r.sock.tcpstateflags = .closed := by
  rcases parseRx_cases h with ⟨_, rfl⟩ | ⟨_, mms, _, rfl⟩
  · rfl
  · have hkeep : (withMms sock mms).tcpstateflags = .closed := hc
    show (rxState (withMms sock mms) seg _ _).tcpstateflags = .closed
    simp only [rxState, hkeep]

def Op.isRst : Op → Bool
  | .rstAlloc => true
  | .rstLock _ => true
  | .rstBuild _ => true
  | _ => false

/-- `sendRst` moves `snd_nxt32`: it runs on a closed socket, or on one that the
application has opened again before the IP task got to it. -/
structure RstQuiet (w : World) : Prop where
  ip : w.ipOps.any Op.isRst = true →
    w.sock.tcpstateflags = .closed ∨ w.sock.tcpstateflags.opening = true
  app : w.appOps.any Op.isRst = true → w.sock.tcpstateflags = .closed

theorem any_isRst_releases (dlist : List BufId) : (releases dlist).any Op.isRst = false := by
  induction dlist with
  | nil => rfl
  | cons b dlist ih => exact ih

theorem runOp_isRst {w w₁ : World} {env : Env} {op : Op} {ops rest : List Op}
    (h : runOp w env op = some (w₁, ops)) (hr : (ops ++ rest).any Op.isRst = true) :
    (op :: rest).any Op.isRst = true := by
  cases op with
  | release b =>
    obtain ⟨-, rfl⟩ := Prod.mk.inj (Option.some.inj h)
    exact hr
  | send b =>
    obtain ⟨-, rfl⟩ := Prod.mk.inj (Option.some.inj h)
    exact hr
  | _ => rfl

theorem runOp_snd {w w₁ : World} {env : Env} {op : Op} {ops : List Op}
    (h : runOp w env op = some (w₁, ops)) (hr : op.isRst = false) :
    w₁.sock = w.sock := by
  cases op with
  | release b =>
    obtain ⟨rfl, -⟩ := Prod.mk.inj (Option.some.inj h)
    rfl
  | send b =>
    obtain ⟨rfl, -⟩ := Prod.mk.inj (Option.some.inj h)
    rfl
  | _ => cases hr

theorem rstQuiet_of_closed {w : World} (h : w.sock.tcpstateflags = .closed) : RstQuiet w :=
  ⟨fun _ => Or.inl h, fun _ => h⟩

theorem rstQuiet_same {w w' : World} (hq : RstQuiet w)
    (hs : w'.sock.tcpstateflags = w.sock.tcpstateflags) (hi : w'.ipOps = w.ipOps)
    (ha : w'.appOps.any Op.isRst = true → w.appOps.any Op.isRst = true) : RstQuiet w' := by
  constructor
  · intro hr
    rw [hs]
    exact hq.ip (hi ▸ hr)
  · intro hr
    rw [hs]
    exact hq.app (ha hr)

/-- The IP task has nothing pending when it handles a segment. -/
theorem rstQuiet_rx {w w' : World} {now : UInt32} {seg : TcpSegment} {r : RxResult}
    (hq : RstQuiet w) (hr : parseRx w.sock w.mem now seg = some r) (hs : w'.sock = r.sock)
    (hi : w'.ipOps.any Op.isRst = false) (ha : w'.appOps = w.appOps) : RstQuiet w' := by
  constructor
  · intro h
    rw [hi] at h
    cases h
  · intro h
    rw [hs]
    exact parseRx_closed hr (hq.app (ha ▸ h))

theorem rstQuiet_step {w w' : World} {a : Act} {env : Env} (hq : RstQuiet w)
    (h : Transition w env a w') : RstQuiet w' := by
  cases h with
  | rx hops hr => exact rstQuiet_rx hq hr rfl (any_isRst_releases _) rfl
  | rxReply hops hr =>
    refine rstQuiet_rx hq hr rfl ?_ rfl
    rw [List.any_append, any_isRst_releases]
    rfl
  | periodicFree hops hc => exact rstQuiet_of_closed hc
  | periodicAbort => exact rstQuiet_of_closed rfl
  | stop => exact rstQuiet_of_closed rfl
  | start hops hat hc => exact rstQuiet_of_closed hc
  | ipOp hops hr =>
    obtain ⟨-, hs, -, -, hao, -⟩ := runOp_frame hr
    constructor
    · intro hany
      rw [hs]
      exact hq.ip (hops ▸ runOp_isRst hr hany)
    · intro hany
      rw [hs]
      exact hq.app (hao ▸ hany)
  | appOp hops hr =>
    obtain ⟨-, hs, -, -, -, hio⟩ := runOp_frame hr
    constructor
    · intro hany
      rw [hs]
      exact hq.ip (hio ▸ hany)
    · intro hany
      rw [hs]
      exact hq.app (hops ▸ runOp_isRst hr hany)
  | create => exact rstQuiet_of_closed rfl
  | connect hat hc =>
    refine ⟨fun _ => Or.inr ?_, fun hany => ?_⟩
    · rw [(connectOpen_spec hc).2.1]
      rfl
    · rw [any_isRst_releases] at hany
      cases hany
  | listenSyn hat hl =>
    refine ⟨fun _ => Or.inr ?_, fun hany => ?_⟩
    · rw [(listenSyn_spec hl).2.1]
      rfl
    · rw [any_isRst_releases] at hany
      cases hany
  | close hat hs =>
    constructor
    · intro hany
      exfalso
      rcases hq.ip hany with hc | hc
      · obtain ⟨he, -⟩ | ⟨he, -⟩ := closeStart_cases hs <;> (rw [he] at hc; cases hc)
      · obtain ⟨he, -⟩ | ⟨he, -⟩ := closeStart_cases hs <;> (rw [he] at hc; cases hc)
    · intro hany
      rw [show w.appOps = [] from hat.appOps_eq] at hany
      cases hany
  | releaseSendBuf => exact rstQuiet_same hq rfl rfl fun hany => by cases hany
  | finalize =>
    refine rstQuiet_same hq rfl rfl fun hany => ?_
    rw [any_isRst_releases] at hany
    cases hany
  | giveUp => exact rstQuiet_same hq rfl rfl fun hany => by cases hany
  | swrQueue => exact rstQuiet_same hq rfl rfl fun hany => by cases hany
  | closeDone => exact rstQuiet_of_closed rfl
  | forceClose => exact rstQuiet_of_closed rfl
  | psendEmpty => exact rstQuiet_same hq rfl rfl fun hany => by cases hany
  | psendQueue => exact rstQuiet_same hq rfl rfl fun hany => by cases hany
  | pseekPop => exact rstQuiet_same hq rfl rfl fun hany => by cases hany
  | _ => exact rstQuiet_same hq rfl rfl id

theorem reaches_rstQuiet {ok : World → Act × Env → Prop} {w : World}
    (h : system.Reaches ok w) : RstQuiet w := by
  refine h.invariant (P := RstQuiet) ?_ ?_
  · intro s hs
    exact rstQuiet_of_closed hs.closed
  · intro s e s' hq _ hs
    exact rstQuiet_step hq (step_transition hs)

def Caller.closes : Caller → Bool
  | .closeActive => true
  | .closePassive => true
  | _ => false

/-- Where the application stands while the socket closes; `fin` is the FIN it has queued. -/
def AppPc.Closing (fin : Option UInt32) : AppPc → Prop
  | .swrAlloc k tcpf _ => k.closes = true ∧ hasFlag tcpf tcpFin = true ∧ fin = none
  | .swrLock k tcpf _ _ _ _ => k.closes = true ∧ hasFlag tcpf tcpFin = true ∧ fin = none
  | .waitForTxRemove k _ _ => k.closes = true
  | .closeLoop _ => True
  | .closeCheck => True
  | .forceClose => True
  | _ => False

/-- The application is about to queue a FIN. -/
def AppPc.sendsFin : AppPc → Bool
  | .swrAlloc _ tcpf _ => hasFlag tcpf tcpFin
  | .swrLock _ tcpf _ _ _ _ => hasFlag tcpf tcpFin
  | _ => false

structure FinLast (w : World) (fin : Option UInt32) : Prop where
  closing : w.sock.tcpstateflags.teardown = true → w.app.Closing fin
  fresh : w.sock.tcpstateflags.teardown = false → w.sock.tcpstateflags ≠ .closed →
    fin = none ∧ w.app.sendsFin = false
  last : w.sock.tcpstateflags.teardown = true → ∀ sq, fin = some sq →
    sq = htonl w.sock.uipConnr.sndNxt32 ∧
      (w.pending = [] ∨ ∃ before b, w.pending = before ++ [(b, sq)])

def teardownSystem : System (World × Option UInt32) (Act × Env) :=
  system.observe none (noteQueued tcpFin)

theorem finLast_of_closed {w : World} {fin : Option UInt32}
    (hc : w.sock.tcpstateflags = .closed) : FinLast w fin := by
  refine ⟨fun h => ?_, fun _ h => absurd hc h, fun h => ?_⟩
  · rw [hc] at h
    cases h
  · rw [hc] at h
    cases h

/-- A step that leaves the socket alone and moves the application along. -/
theorem finLast_move {w w' : World} {fin : Option UInt32} {a : Act} {env : Env}
    (hf : FinLast w fin) (hs : w'.sock.tcpstateflags = w.sock.tcpstateflags)
    (hsnd : w.sock.tcpstateflags.teardown = true →
      w'.sock.uipConnr.sndNxt32 = w.sock.uipConnr.sndNxt32)
    (hp : w'.pending = w.pending)
    (hclosing : w.sock.tcpstateflags.teardown = true → w.app.Closing fin → w'.app.Closing fin)
    (hfresh : w.app.sendsFin = false → w'.app.sendsFin = false) :
    FinLast w' (noteQueued tcpFin fin w (a, env) w') := by
  rw [noteQueued_same hs hp]
  refine ⟨fun h => ?_, fun h hc => ?_, fun h => ?_⟩
  · rw [hs] at h
    exact hclosing h (hf.closing h)
  · rw [hs] at h hc
    obtain ⟨hnone, hsend⟩ := hf.fresh h hc
    exact ⟨hnone, hfresh hsend⟩
  · rw [hs] at h
    rw [hsnd h, hp]
    exact hf.last h

theorem acked_closing {k : Caller} {fin : Option UInt32} (h : k.closes = true) :
    k.acked.Closing fin := by
  cases k with
  | closeActive => trivial
  | closePassive => trivial
  | _ => cases h

theorem closing_goto {w : World} {env : Env} {pc : AppPc} {fin : Option UInt32}
    (ht : w.sock.tcpstateflags.teardown = true) (hc : w.app.Closing fin) (h : Goto w env pc) :
    pc.Closing fin := by
  cases h with
  | accept hat => rw [hat.app_eq] at hc; exact absurd hc id
  | close hat => trivial
  | allocSendBuf hat => rw [hat.app_eq] at hc; exact absurd hc id
  | send hat => rw [hat.app_eq] at hc; exact absurd hc id
  | psend hat => rw [hat.app_eq] at hc; exact absurd hc id
  | swrAllocFail => trivial
  | swrWindowExpired => trivial
  | swrWindow hat => rw [hat.app_eq] at hc; exact hc
  | swrFull hat => rw [hat.app_eq] at hc; exact hc
  | waitExpired => trivial
  | waitClosed => trivial
  | waitAcked hat => rw [hat.app_eq] at hc; exact acked_closing hc
  | waitMore hat => rw [hat.app_eq] at hc; exact hc
  | closeLoopEnd => trivial
  | closeLoopClosed hat hs => rw [hs] at ht; cases ht
  | closeLoopMore => trivial
  | closeCheckClosed hat hs => rw [hs] at ht; cases ht
  | closeCheckForce => trivial
  | forceCloseIdle hat hs => rw [hs] at ht; cases ht
  | allocStateTry hat => rw [hat.app_eq] at hc; exact absurd hc id
  | allocStateFail hat => rw [hat.app_eq] at hc; exact absurd hc id
  | allocTryFail hat => rw [hat.app_eq] at hc; exact absurd hc id
  | allocTryAgain hat => rw [hat.app_eq] at hc; exact absurd hc id
  | allocWindow hat => rw [hat.app_eq] at hc; exact absurd hc id
  | allocWindowSend hat => rw [hat.app_eq] at hc; exact absurd hc id
  | allocWindowAgain hat => rw [hat.app_eq] at hc; exact absurd hc id
  | psendStateFail hat => rw [hat.app_eq] at hc; exact absurd hc id
  | psendStateLock hat => rw [hat.app_eq] at hc; exact absurd hc id
  | psendLockFail hat => rw [hat.app_eq] at hc; exact absurd hc id
  | psendFull hat => rw [hat.app_eq] at hc; exact absurd hc id

theorem sendsFin_goto {w : World} {env : Env} {pc : AppPc} (hs : w.app.sendsFin = false)
    (h : Goto w env pc) : pc.sendsFin = false := by
  cases h with
  | accept => rfl
  | swrWindow hat => rw [hat.app_eq] at hs; exact hs
  | swrFull hat => rw [hat.app_eq] at hs; exact hs
  | @waitAcked k => cases k <;> rfl
  | _ => rfl

theorem finLast_rx {w w' : World} {fin : Option UInt32} {now : UInt32} {seg : TcpSegment}
    {r : RxResult} (ho : Owned w) (hf : FinLast w fin)
    (hr : parseRx w.sock w.mem now seg = some r) (hs : w'.sock = r.sock) (ha : w'.app = w.app) :
    FinLast w' fin := by
  by_cases hc : r.sock.tcpstateflags = .closed
  · exact finLast_of_closed (by rw [hs]; exact hc)
  · have ht := parseRx_teardown hr hc
    refine ⟨fun h => ?_, fun h _ => ?_, fun h sq hsq => ?_⟩
    · rw [ha]
      rw [hs, ht] at h
      exact hf.closing h
    · rw [ha]
      rw [hs, ht] at h
      exact hf.fresh h fun hcl => hc (parseRx_closed hr hcl)
    · rw [hs, ht] at h
      obtain ⟨hsnd, hlast⟩ := hf.last h sq hsq
      obtain ⟨k, hk⟩ := pending_rx ho hr
      rw [World.pending, hs, (parseRx_conn hr).1, hk]
      refine ⟨hsnd, ?_⟩
      rcases hlast with hnil | ⟨before, b, hb⟩
      · exact Or.inl (by rw [hnil, List.drop_nil])
      · rw [hb]
        rcases Nat.lt_or_ge before.length k with hlt | hge
        · exact Or.inl (List.drop_eq_nil_of_le (by simp; omega))
        · exact Or.inr ⟨before.drop k, b, List.drop_append_of_le_length hge⟩

/-- A pending operation moves `snd_nxt32` only where no FIN can be queued. -/
theorem snd_runOp {w w₁ : World} {env : Env} {op : Op} {ops : List Op}
    (hr : runOp w env op = some (w₁, ops)) (ht : w.sock.tcpstateflags.teardown = true)
    (hq : op.isRst = true →
      w.sock.tcpstateflags = .closed ∨ w.sock.tcpstateflags.opening = true) :
    w₁.sock.uipConnr.sndNxt32 = w.sock.uipConnr.sndNxt32 := by
  cases hrst : op.isRst with
  | false => rw [runOp_snd hr hrst]
  | true =>
    exfalso
    rcases hq hrst with hc | hc
    · rw [hc] at ht
      cases ht
    · rcases opening_cases hc with hs | hs <;> (rw [hs] at ht; cases ht)

/-- The FIN goes to the end of the queue, and nothing was noted before it. -/
theorem finLast_swrQueue {w w' : World} {fin : Option UInt32} {env : Env} {k : Caller}
    {tcpf : UInt8} {data : List UInt8} {buf : BufId} {size : UInt16} {wait : SwrWait} {it : TxQItem}
    (ho : Owned w) (hf : FinLast w fin) (hat : w.At (.swrLock k tcpf data buf size wait))
    (hfree : getTxQ w.sock = .free) (hs : w'.sock.tcpstateflags = w.sock.tcpstateflags)
    (ht : w'.sock.txbuf = w.sock.txbuf.push it)
    (hack : it.ackno = htonl w'.sock.uipConnr.sndNxt32)
    (ha : (∃ sq, w'.app = .waitForTxRemove k sq false) ∨ w'.app = .forceClose) :
    FinLast w' (noteQueued tcpFin fin w (.app, env) w') := by
  have hp := pending_push ho hfree ht
  have hnew := newlyQueued_append hp
  simp only [noteQueued, hat.app_eq, hnew]
  constructor
  · intro htd
    rw [hs] at htd
    have hc := hf.closing htd
    rw [hat.app_eq] at hc
    rcases ha with ⟨sq, ha⟩ | ha
    · rw [ha]
      exact hc.1
    · rw [ha]
      trivial
  · intro htd hcl
    rw [hs] at htd hcl
    obtain ⟨hnone, hsend⟩ := hf.fresh htd hcl
    rw [hat.app_eq] at hsend
    have hflag : hasFlag tcpf tcpFin = false := hsend
    refine ⟨by rw [hflag]; exact hnone, ?_⟩
    rcases ha with ⟨sq, ha⟩ | ha <;> rw [ha] <;> rfl
  · intro htd sq hsq
    rw [hs] at htd
    have hc := hf.closing htd
    rw [hat.app_eq] at hc
    rw [if_pos hc.2.1] at hsq
    have hsq' : it.ackno = sq := Option.some.inj hsq
    rw [hp, ← hsq']
    exact ⟨hack, Or.inr ⟨_, _, rfl⟩⟩

theorem finLast_step {w w' : World} {fin : Option UInt32} {a : Act} {env : Env} (ho : Owned w)
    (hq : RstQuiet w) (hf : FinLast w fin) (h : Transition w env a w') :
    FinLast w' (noteQueued tcpFin fin w (a, env) w') := by
  -- the calls and the allocation loop stand at points where no socket is closing
  have haway : ∀ {pc : AppPc}, w.At pc → ¬ pc.Closing fin →
      ∀ {pc' : AppPc}, w.sock.tcpstateflags.teardown = true → w.app.Closing fin →
        pc'.Closing fin := by
    intro pc hat hpc _ _ hc
    rw [hat.app_eq] at hc
    exact absurd hc hpc
  cases h with
  | rx hops hr => exact finLast_rx ho hf hr rfl rfl
  | rxReply hops hr => exact finLast_rx ho hf hr rfl rfl
  | periodicFree hops hc => exact finLast_of_closed hc
  | periodicResend hops hc hne =>
    exact finLast_move hf rfl (fun _ => rfl) (pending_restamp ho.inRange hne env.now)
      (fun _ h => h) id
  | periodicAbort => exact finLast_of_closed rfl
  | stop => exact finLast_of_closed rfl
  | start hops hat hc => exact finLast_of_closed hc
  | @ipOp op rest w₁ ops hops hr =>
    obtain ⟨htx, hs, -, ha, -⟩ := runOp_frame hr
    have hsnd : w.sock.tcpstateflags.teardown = true →
        w₁.sock.uipConnr.sndNxt32 = w.sock.uipConnr.sndNxt32 := by
      intro ht
      refine snd_runOp hr ht fun hrst => hq.ip ?_
      rw [hops, List.any_cons, hrst, Bool.true_or]
    exact finLast_move hf hs hsnd (by rw [World.pending, World.pending, htx])
      (fun _ hc => ha ▸ hc) fun hsf => ha ▸ hsf
  | @appOp op rest w₁ ops hops hr =>
    obtain ⟨htx, hs, -, ha, -⟩ := runOp_frame hr
    have hsnd : w.sock.tcpstateflags.teardown = true →
        w₁.sock.uipConnr.sndNxt32 = w.sock.uipConnr.sndNxt32 := by
      intro ht
      refine snd_runOp hr ht fun hrst => Or.inl (hq.app ?_)
      rw [hops, List.any_cons, hrst, Bool.true_or]
    exact finLast_move hf hs hsnd (by rw [World.pending, World.pending, htx])
      (fun _ hc => ha ▸ hc) fun hsf => ha ▸ hsf
  | create => exact finLast_of_closed rfl
  | connect hat hc =>
    obtain ⟨hclosed, hopen, -⟩ := connectOpen_spec hc
    simp only [noteQueued, hclosed, hopen, reduceCtorEq, if_false]
    have hflag : hasFlag tcpSyn tcpFin = false := by decide
    refine ⟨fun ht => ?_, fun _ _ => ⟨rfl, hflag⟩, fun ht => ?_⟩
    · rw [hopen] at ht
      cases ht
    · rw [hopen] at ht
      cases ht
  | listenSyn hat hl =>
    obtain ⟨hclosed, hopen, -⟩ := listenSyn_spec hl
    simp only [noteQueued, hclosed, hopen, reduceCtorEq, if_false]
    refine ⟨fun ht => ?_, fun _ _ => ⟨rfl, by rw [hat.app_eq]; rfl⟩, fun ht => ?_⟩
    · rw [hopen] at ht
      cases ht
    · rw [hopen] at ht
      cases ht
  | @close s k hat hs =>
    have hstart : w.sock.tcpstateflags.teardown = false ∧ w.sock.tcpstateflags ≠ .closed ∧
        s.teardown = true ∧ k.closes = true := by
      obtain ⟨he, rfl, rfl⟩ | ⟨he, rfl, rfl⟩ := closeStart_cases hs <;>
        exact ⟨by rw [he]; rfl, by rw [he]; exact TcpState.noConfusion, rfl, rfl⟩
    obtain ⟨hnt, hnc, ht, hk⟩ := hstart
    obtain ⟨rfl, -⟩ := hf.fresh hnt hnc
    refine ⟨fun _ => ⟨hk, by decide, rfl⟩, fun h => ?_, fun _ sq hsq => ?_⟩
    · have hcon : s.teardown = false := h
      rw [ht] at hcon
      cases hcon
    · cases hsq
  | pseek hat => exact finLast_move hf rfl (fun _ => rfl) rfl (haway hat id) fun _ => rfl
  | finalize hat =>
    refine ⟨fun ht => ?_, fun ht hc => ⟨(hf.fresh ht hc).1, rfl⟩, fun ht => ?_⟩
    · exact haway hat id ht (hf.closing ht)
    · exact absurd (hf.closing ht) (by rw [hat.app_eq]; exact id)
  | goto _ hg =>
    exact finLast_move hf rfl (fun _ => rfl) rfl (fun ht hc => closing_goto ht hc hg)
      fun hs => sendsFin_goto hs hg
  | giveUp hg =>
    refine finLast_move hf rfl (fun _ => rfl) rfl (fun ht hc => ?_) fun _ => ?_
    · cases hg with
      | swr => trivial
      | allocWindowRetry hat => exact haway hat id ht hc
      | psendState hat => exact haway hat id ht hc
      | psendLock hat => exact haway hat id ht hc
    · cases hg <;> rfl
  | swrAlloc hat =>
    refine finLast_move hf rfl (fun _ => rfl) rfl (fun _ hc => ?_) fun hs => ?_
    · rw [hat.app_eq] at hc
      exact hc
    · rw [hat.app_eq] at hs
      exact hs
  | swrQueue hat hfree hs =>
    subst hs
    refine finLast_swrQueue ho hf hat hfree rfl rfl rfl ?_
    dsimp only
    split
    · exact Or.inl ⟨_, rfl⟩
    · exact Or.inr rfl
  | closeDone => exact finLast_of_closed rfl
  | forceClose => exact finLast_of_closed rfl
  | allocTry hat => exact finLast_move hf rfl (fun _ => rfl) rfl (haway hat id) fun _ => rfl
  | allocUser hat => exact finLast_move hf rfl (fun _ => rfl) rfl (haway hat id) fun _ => rfl
  | psendEmpty hat => exact finLast_move hf rfl (fun _ => rfl) rfl (haway hat id) fun _ => rfl
  | psendQueue hat =>
    simp only [noteQueued, hat.app_eq]
    refine ⟨fun ht => ?_, fun ht hc => ⟨(hf.fresh ht hc).1, rfl⟩, fun ht => ?_⟩
    · exact haway hat id ht (hf.closing ht)
    · exact absurd (hf.closing ht) (by rw [hat.app_eq]; exact id)
  | pseekPop hat => exact finLast_move hf rfl (fun _ => rfl) rfl (haway hat id) fun _ => rfl
  | _ => exact finLast_move hf rfl (fun _ => rfl) rfl (fun _ h => h) id

theorem reaches_finLast {ok : World × Option UInt32 → Act × Env → Prop}
    {p : World × Option UInt32} (h : teardownSystem.Reaches ok p) : FinLast p.1 p.2 := by
  have hknown : ∀ s, teardownSystem.Reaches ok s → Owned s.1 ∧ RstQuiet s.1 :=
    fun _ hs => ⟨reaches_owned hs.forget, reaches_rstQuiet hs.forget⟩
  refine h.invariant_of (P := fun p => FinLast p.1 p.2) hknown ?_ ?_
  · rintro ⟨w, fin⟩ ⟨hi, -⟩
    exact finLast_of_closed hi.closed
  · rintro ⟨w, fin⟩ ⟨a, env⟩ ⟨w', fin'⟩ ⟨ho, hq⟩ hf _ hs
    obtain ⟨hstep, rfl⟩ := System.observe_step.mp hs
    exact finLast_step ho hq hf (step_transition hstep)

/-- The transitions that mean "our FIN was acknowledged". -/
def FinAcked : TcpState → TcpState → Bool
  | .lastAck, .closed => true
  | .finWait1, .finWait2 => true
  | .finWait1, .timeWait => true
  | .closing, .timeWait => true
  | _, _ => false

/-- The segment reaches one of the tests that stand before these transitions. -/
def FinBranch (sock : TcpSocket) (seg : TcpSegment) : Prop :=
  sock.tcpstateflags = .lastAck ∨ sock.tcpstateflags = .closing ∨
    sock.tcpstateflags = .finWait1 ∧
      (isNewPacket sock seg = true → hasFlag seg.flags tcpFin = true)

/-- An acknowledgement number beyond the sequence number `f`, in serial order. -/
def Covers (f ackno32 : UInt32) : Prop :=
  0 < (ntohl ackno32 - f).toNat ∧ (ntohl ackno32 - f).toNat < 2 ^ 31

/-- The segment has ACK and covers the FIN that the socket queued. -/
def CoversFin (fin : Option UInt32) (seg : TcpSegment) : Prop :=
  hasFlag seg.flags tcpAck = true ∧ ∃ sq, fin = some sq ∧ Covers (ntohl sq - 1) seg.ackno32

/-- A segment that `getNumOfSending` takes for the acknowledgement of everything has ACK and
comes after the FIN was queued, when no other packet is left before it; with an empty
queue it covers all that was sent. -/
def AnswersFin (p : World × Option UInt32) (seg : TcpSegment) : Prop :=
  hasFlag seg.flags tcpRst = false → FinBranch p.1.sock seg →
    getNumOfSending p.1.sock.txbuf seg.ackno32 = 0 →
    hasFlag seg.flags tcpAck = true ∧ p.2 ≠ none ∧ p.1.pending.length ≤ 1 ∧
      (p.1.pending = [] → Covers (p.1.sock.uipConnr.sndNxt32 - 1) seg.ackno32)

theorem parseRx_finAcked {sock : TcpSocket} {mem : TxMemory} {now : UInt32} {seg : TcpSegment}
    {r : RxResult} (h : parseRx sock mem now seg = some r)
    (hrst : hasFlag seg.flags tcpRst = false)
    (hacked : FinAcked sock.tcpstateflags r.sock.tcpstateflags = true) :
    FinBranch sock seg ∧ getNumOfSending sock.txbuf seg.ackno32 = 0 := by
  rcases parseRx_cases h with ⟨hf, -⟩ | ⟨-, mms, -, rfl⟩
  · rw [hrst] at hf
    cases hf
  · have hto : (rxProcess sock mem now seg mms).sock.tcpstateflags =
        (rxState (withMms sock mms) seg (isNewPacket sock seg)
          (getNumOfSending sock.txbuf seg.ackno32)).tcpstateflags := rfl
    have hkeep : (withMms sock mms).tcpstateflags = sock.tcpstateflags := rfl
    rw [hto] at hacked
    by_cases hn : getNumOfSending sock.txbuf seg.ackno32 = 0
    · refine ⟨?_, hn⟩
      cases hs : sock.tcpstateflags with
      | lastAck => exact Or.inl hs
      | closing => exact Or.inr (Or.inl hs)
      | finWait1 =>
        refine Or.inr (Or.inr ⟨hs, fun hnew => ?_⟩)
        by_contra hfin
        simp [rxState, hkeep, hs, rxFinWait1, hnew, hfin, FinAcked] at hacked
      | _ => simp [hs, FinAcked] at hacked
    · exfalso
      cases hs : sock.tcpstateflags with
      | lastAck => simp [rxState, hkeep, hs, hn, FinAcked] at hacked
      | closing => simp [rxState, hkeep, hs, hn, FinAcked] at hacked
      | finWait1 =>
        simp only [rxState, hkeep, hs, rxFinWait1, if_neg hn] at hacked
        split at hacked
        · split at hacked
          · simp [FinAcked] at hacked
          · simp [FinAcked] at hacked
        · simp [hkeep, hs, FinAcked] at hacked
      | _ => simp [hs, FinAcked] at hacked

theorem covers_next (sq : UInt32) : Covers (ntohl sq - 1) sq := by
  have h : ntohl sq - (ntohl sq - 1) = 1 := by
    rw [UInt32.sub_eq_add_neg, UInt32.neg_sub, UInt32.add_comm, UInt32.sub_add_cancel]
  rw [Covers, h]
  decide

/-- Teardown safety: in every reachable state, a segment that answers the FIN where the
code takes it for an answer. -/
theorem teardown_safety {w w' : World} {fin : Option UInt32} {env : Env} {seg : TcpSegment}
    (hr : teardownSystem.Reaches System.anyStep (w, fin)) (hs : step w (.rx seg, env) = some w')
    (hok : AnswersFin (w, fin) seg) (hrst : hasFlag seg.flags tcpRst = false)
    (hacked : FinAcked w.sock.tcpstateflags w'.sock.tcpstateflags = true) : CoversFin fin seg := by
  obtain ⟨r, hparse, hst⟩ := step_rx rfl hs
  rw [← hst] at hacked
  obtain ⟨hbranch, hcount⟩ := parseRx_finAcked hparse hrst hacked
  obtain ⟨hack, hne, hlen, hempty⟩ := hok hrst hbranch hcount
  have ht : w.sock.tcpstateflags.teardown = true := by
    rcases hbranch with h | h | ⟨h, -⟩ <;> (rw [h]; rfl)
  obtain ⟨sq, hsq⟩ := Option.ne_none_iff_exists'.mp hne
  obtain ⟨hsnd, hlast⟩ := (reaches_finLast hr).last ht sq hsq
  refine ⟨hack, sq, hsq, ?_⟩
  rcases (getNumOfSending_eq_zero _ _).mp hcount with hnil | ⟨it, rest, hi, hm⟩
  · have hcov := hempty (by rw [World.pending, hnil, List.map_nil])
    rw [hsnd, ntohl_htonl]
    exact hcov
  · have hp : w.pending = (it.packet, seg.ackno32) :: rest.map fun it => (it.packet, it.ackno) := by
      rw [World.pending, hi, List.map_cons, hm]
    rcases hlast with hnil | ⟨before, b, hb⟩
    · rw [hnil] at hp
      cases hp
    · have hb0 : before = [] := by
        have hl : w.pending.length ≤ 1 := hlen
        rw [hb, List.length_append, List.length_singleton] at hl
        exact List.length_eq_zero_iff.mp (by omega)
      rw [hb0, List.nil_append, hp] at hb
      obtain ⟨hhead, -⟩ := List.cons.inj hb
      rw [(Prod.mk.inj hhead).2]
      exact covers_next sq

/-- Data in flight, the FIN of the peer, then `close` up to the queued FIN. -/
def closedBehindData : List (Act × Env) :=
  connected ++ sendBuffer ++ psendCalled ++ [(.app, quietEnv), (.app, quietEnv),
    (.rx ⟨htonl 501, htonl 3940, tcpFin ||| tcpAck, htons 100, some none, [], length_nil_lt⟩,
      { quietEnv with buf := 2 }),
    (.ipOp, quietEnv), (.ipOp, quietEnv), (.close, quietEnv), (.app, { quietEnv with buf := 3 }),
    (.app, quietEnv)]

/-- The peer acknowledges the 74 bytes of data; the FIN behind them is still on its way. -/
def ackOfData : TcpSegment := ⟨htonl 502, htonl 4014, tcpAck, htons 100, some none, [], length_nil_lt⟩

/-- `getNumOfSending` finds the packet in front and answers zero: LAST_ACK is left. -/
theorem closed_by_ack_of_data : ¬ ∀ w w' fin env seg,
    teardownSystem.Reaches System.anyStep (w, fin) → step w (.rx seg, env) = some w' →
    hasFlag seg.flags tcpRst = false →
    FinAcked w.sock.tcpstateflags w'.sock.tcpstateflags = true → CoversFin fin seg := by
  intro h
  have hinit : teardownSystem.init (World.zeroed, none) := ⟨World.zeroed_initial, rfl⟩
  have hrun : (teardownSystem.run (World.zeroed, none) closedBehindData).any
      (fun p => p.1.sock.tcpstateflags == .lastAck && p.2 == some (htonl 4015)
        && (step p.1 (.rx ackOfData, quietEnv)).any
          (·.sock.tcpstateflags == .closed)) = true := by decide +kernel
  obtain ⟨⟨w, fin⟩, hw, hp⟩ := System.exists_of_run hinit hrun
  simp only [Bool.and_eq_true, beq_iff_eq, Option.any_eq_true] at hp
  obtain ⟨⟨hst, hfin⟩, w', hs, hst'⟩ := hp
  obtain ⟨-, sq, hsq, hpos, -⟩ := h w w' fin _ _ hw hs (by decide) (by rw [hst, hst']; rfl)
  obtain rfl := Option.some.inj (hfin.symm.trans hsq)
  have hzero : (ntohl ackOfData.ackno32 - (ntohl (htonl 4015) - 1)).toNat = 0 := by decide
  omega

/-- The peer closes as well and acknowledges the FIN, which is alone in the queue. -/
theorem teardown_safety_finAck : ∃ w fin seg, teardownSystem.Reaches System.anyStep (w, fin) ∧
    FinBranch w.sock seg ∧ CoversFin fin seg := by
  let seg : TcpSegment :=
    ⟨htonl 501, htonl 3941, tcpFin ||| tcpAck, htons 100, some none, [], length_nil_lt⟩
  let env : Env := { quietEnv with buf := 2 }
  have hinit : teardownSystem.init (World.zeroed, none) := ⟨World.zeroed_initial, rfl⟩
  have hrun : (teardownSystem.run (World.zeroed, none)
      (connected ++ [(.close, quietEnv), (.app, quietEnv), (.app, quietEnv)])).any
      (fun p => p.1.sock.tcpstateflags == .finWait1 && p.2 == some (htonl 3941)
        && p.1.pending == [(1, htonl 3941)]
        && (step p.1 (.rx seg, env)).any (·.sock.tcpstateflags == .timeWait)) = true := by
    decide +kernel
  obtain ⟨⟨w, fin⟩, hw, hp⟩ := System.exists_of_run hinit hrun
  simp only [Bool.and_eq_true, beq_iff_eq, Option.any_eq_true] at hp
  obtain ⟨⟨⟨hst, hfin⟩, hpend⟩, w', hs, hst'⟩ := hp
  have hbranch : FinBranch w.sock seg := Or.inr (Or.inr ⟨hst, fun _ => by decide⟩)
  have hok : AnswersFin (w, fin) seg := by
    intro _ _ _
    refine ⟨by decide, ?_, ?_, ?_⟩
    · rw [hfin]
      exact Option.some_ne_none _
    · rw [hpend]
      exact Nat.le_refl _
    · rw [hpend]
      exact fun hnil => absurd hnil (List.cons_ne_nil _ _)
  exact ⟨w, fin, seg, hw, hbranch,
    teardown_safety hw hs hok (by decide) (by rw [hst, hst']; rfl)⟩

end MiMic.Tcp
