import MiMic.Tcp.Ownership

/-!
# The opening handshake

While a socket opens, its ring holds nothing but its own SYN, and only the call
that queued the SYN waits for it. The history beside the system keeps the
acknowledgement number that the SYN asks for.
-/
namespace MiMic.Tcp

open Verif

/-- The packets of the ring, each with the acknowledgement number it waits for. -/
def World.pending (w : World) : List (BufId × UInt32) :=
  w.sock.txbuf.items.map fun it => (it.packet, it.ackno)

/-- What the ring of an opening socket may hold while the application stands here. -/
def AppPc.Opening (pending : List (BufId × UInt32)) : AppPc → Prop
  | .swrAlloc _ tcpf _ => hasFlag tcpf tcpSyn = true ∧ pending = []
  | .swrLock _ tcpf _ _ _ _ => hasFlag tcpf tcpSyn = true ∧ pending = []
  | .waitForTxRemove _ sq _ => pending = [] ∨ ∃ b, pending = [(b, sq)]
  | .forceClose => pending.length ≤ 1
  | .psendLock _ _ _ _ => False
  | _ => pending = []

def OpeningQueue (w : World) : Prop :=
  w.sock.tcpstateflags.opening = true → w.app.Opening w.pending

theorem AppPc.Opening.drop {pc : AppPc} {pending : List (BufId × UInt32)}
    (h : pc.Opening pending) (k : Nat) : pc.Opening (pending.drop k) := by
  cases pc with
  | swrAlloc => exact ⟨h.1, by rw [h.2, List.drop_nil]⟩
  | swrLock => exact ⟨h.1, by rw [h.2, List.drop_nil]⟩
  | waitForTxRemove =>
    rcases h with h | ⟨b, h⟩
    · exact Or.inl (by rw [h, List.drop_nil])
    · cases k with
      | zero => exact Or.inr ⟨b, h⟩
      | succ k => exact Or.inl (by rw [h, List.drop_succ_cons, List.drop_nil])
  | forceClose =>
    have hle : pending.length ≤ 1 := h
    show (pending.drop k).length ≤ 1
    rw [List.length_drop]
    omega
  | psendLock => exact h
  | _ =>
    have hnil : pending = [] := h
    show pending.drop k = []
    rw [hnil, List.drop_nil]

/-- At most one packet, wherever the application stands. -/
theorem AppPc.Opening.length_le {pc : AppPc} {pending : List (BufId × UInt32)}
    (h : pc.Opening pending) : pending.length ≤ 1 := by
  cases pc with
  | swrAlloc => rw [h.2]; exact Nat.zero_le _
  | swrLock => rw [h.2]; exact Nat.zero_le _
  | waitForTxRemove =>
    rcases h with h | ⟨b, h⟩
    · rw [h]; exact Nat.zero_le _
    · rw [h]; exact Nat.le_refl _
  | forceClose => exact h
  | psendLock => exact absurd h id
  | _ =>
    have hnil : pending = [] := h
    rw [hnil]
    exact Nat.zero_le _

theorem rxEstablished_state {s : TcpSocket} (seg : TcpSegment) (isNew : Bool)
    (hs : s.tcpstateflags = .established) :
    (rxEstablished s seg isNew).tcpstateflags = .established ∨
      (rxEstablished s seg isNew).tcpstateflags = .closeWait := by
  unfold rxEstablished
  split
  · split <;> split <;> simp [hs]
  · split <;> simp [hs]

/-- A segment never starts a handshake; one that is not over goes on unchanged. -/
theorem rxState_opening {sock : TcpSocket} {seg : TcpSegment} {isNew : Bool} {n : Nat}
    (h : (rxState sock seg isNew n).tcpstateflags.opening = true) :
    sock.tcpstateflags.opening = true ∧ n ≠ 0 := by
  have hest : ∀ s : TcpSocket, s.tcpstateflags = .established →
      (rxEstablished s seg isNew).tcpstateflags.opening = false := by
    intro s hs
    rcases rxEstablished_state seg isNew hs with he | he <;> (rw [he]; rfl)
  unfold rxState at h
  split at h
  · next hs =>
    refine ⟨by rw [hs]; rfl, ?_⟩
    rintro rfl
    simp only [if_true] at h
    split at h
    · simp [hest] at h
    · cases h
  · next hs => simp [hest _ hs] at h
  · next hs => simp [hs, TcpState.opening] at h
  · next hs => split at h <;> simp [hs, TcpState.opening] at h
  · next hs =>
    unfold rxFinWait1 at h
    split at h
    · split at h
      · dsimp only at h
        split at h <;> cases h
      · simp [hs, TcpState.opening] at h
    · split at h <;> simp [hs, TcpState.opening] at h
  · next hs => split at h <;> simp [hs, TcpState.opening] at h
  · next hs => split at h <;> simp [hs, TcpState.opening] at h
  · next hs => simp [hs, TcpState.opening] at h
  · next hs => simp [hs, TcpState.opening] at h
  · next hs =>
    refine ⟨by rw [hs]; rfl, ?_⟩
    rintro rfl
    cases h

theorem parseRx_opening {sock : TcpSocket} {mem : TxMemory} {now : UInt32} {seg : TcpSegment}
    {r : RxResult} (h : parseRx sock mem now seg = some r)
    (ho : r.sock.tcpstateflags.opening = true) : sock.tcpstateflags.opening = true := by
  rcases parseRx_cases h with ⟨_, rfl⟩ | ⟨_, mms, _, rfl⟩
  · cases ho
  · exact (rxState_opening ho).1

theorem pending_restamp {sock : TcpSocket} (hq : sock.txbuf.InRange)
    (hne : sock.txbuf.rp ≠ sock.txbuf.wp) (now : UInt32) :
    (restamp sock.txbuf now).items.map (fun it => (it.packet, it.ackno)) =
      sock.txbuf.items.map fun it => (it.packet, it.ackno) := by
  obtain ⟨it, rest, hi, hr⟩ := restamp_items hq hne now
  rw [hi, hr, List.map_cons, List.map_cons, List.map_map]
  rfl

theorem pending_rx {w : World} {now : UInt32} {seg : TcpSegment} {r : RxResult} (ho : Owned w)
    (h : parseRx w.sock w.mem now seg = some r) :
    ∃ k, (r.sock.txbuf.items.map fun it => (it.packet, it.ackno)) = w.pending.drop k := by
  obtain ⟨k, -, -, hi, -⟩ := parseRx_ring ho.inRange h
  exact ⟨k, by rw [hi, World.pending, List.map_drop]⟩

theorem openingQueue_rx {w w' : World} {now : UInt32} {seg : TcpSegment} {r : RxResult}
    (ho : Owned w) (hq : OpeningQueue w) (hr : parseRx w.sock w.mem now seg = some r)
    (hs : w'.sock = r.sock) (ha : w'.app = w.app) : OpeningQueue w' := by
  intro hopen
  rw [hs] at hopen
  obtain ⟨k, hk⟩ := pending_rx ho hr
  rw [ha, World.pending, hs, hk]
  exact (hq (parseRx_opening hr hopen)).drop k

/-- A step that leaves the state, the ring and the application where they were. -/
theorem openingQueue_same {w w' : World} (hq : OpeningQueue w)
    (hs : w'.sock.tcpstateflags = w.sock.tcpstateflags) (ht : w'.sock.txbuf = w.sock.txbuf)
    (ha : w'.app = w.app) : OpeningQueue w' := by
  unfold OpeningQueue World.pending
  rw [hs, ht, ha]
  exact hq

theorem openingQueue_of_not_opening {w : World} (h : w.sock.tcpstateflags.opening = false) :
    OpeningQueue w := by
  intro ho
  rw [h] at ho
  cases ho

theorem closeStart_cases {s s' : TcpState} {k : Caller} (h : closeStart s = some (s', k)) :
    (s = .established ∧ s' = .finWait1 ∧ k = .closeActive) ∨
      (s = .closeWait ∧ s' = .lastAck ∧ k = .closePassive) := by
  unfold closeStart at h
  split at h
  · obtain ⟨rfl, rfl⟩ := Prod.mk.inj (Option.some.inj h)
    exact Or.inl ⟨rfl, rfl, rfl⟩
  · obtain ⟨rfl, rfl⟩ := Prod.mk.inj (Option.some.inj h)
    exact Or.inr ⟨rfl, rfl, rfl⟩
  · cases h

theorem opening_goto {w : World} {env : Env} {pc : AppPc} (hq : OpeningQueue w)
    (hopen : w.sock.tcpstateflags.opening = true) (h : Goto w env pc) : pc.Opening w.pending := by
  have hp := hq hopen
  cases h with
  | accept hat => rw [hat.app_eq] at hp; exact ⟨by decide, hp⟩
  | close hat hc hs => rw [hat.app_eq] at hp; exact hp ▸ Nat.zero_le 1
  | allocSendBuf hat => rw [hat.app_eq] at hp; exact hp
  | send hat => rw [hat.app_eq] at hp; exact hp
  | psend hat => rw [hat.app_eq] at hp; exact hp
  | swrAllocFail hat => rw [hat.app_eq] at hp; exact hp.length_le
  | swrWindowExpired hat => rw [hat.app_eq] at hp; exact hp.length_le
  | swrWindow hat => rw [hat.app_eq] at hp; exact hp
  | swrFull hat => rw [hat.app_eq] at hp; exact hp
  | waitExpired hat => rw [hat.app_eq] at hp; exact hp.length_le
  | waitClosed hat => rw [hat.app_eq] at hp; exact hp.length_le
  | @waitAcked k sq _ hat hacked =>
    rw [hat.app_eq] at hp
    rw [isPacketAcked_eq] at hacked
    have hnil : w.pending = [] := by
      rcases hp with hp | ⟨b, hp⟩
      · exact hp
      · exfalso
        have hmem : (b, sq) ∈ w.pending := by rw [hp]; exact List.mem_singleton.mpr rfl
        obtain ⟨it, hit, he⟩ := List.mem_map.mp hmem
        have hany : w.sock.txbuf.items.any (·.ackno == sq) = true :=
          List.any_eq_true.mpr ⟨it, hit, by simpa using (Prod.mk.inj he).2⟩
        simp [hany] at hacked
    cases k <;> exact hnil
  | waitMore hat => rw [hat.app_eq] at hp; exact hp
  | closeLoopEnd hat => rw [hat.app_eq] at hp; exact hp.length_le
  | closeLoopClosed hat => rw [hat.app_eq] at hp; exact hp
  | closeLoopMore hat => rw [hat.app_eq] at hp; exact hp
  | closeCheckClosed hat => rw [hat.app_eq] at hp; exact hp
  | closeCheckForce hat => rw [hat.app_eq] at hp; exact hp.length_le
  | forceCloseIdle hat hc =>
    rw [hc] at hopen
    cases hopen
  | allocStateTry hat => rw [hat.app_eq] at hp; exact hp
  | allocStateFail hat => rw [hat.app_eq] at hp; exact hp
  | allocTryFail hat => rw [hat.app_eq] at hp; exact hp
  | allocTryAgain hat => rw [hat.app_eq] at hp; exact hp
  | allocWindow hat => rw [hat.app_eq] at hp; exact hp
  | allocWindowSend hat => rw [hat.app_eq] at hp; exact hp
  | allocWindowAgain hat => rw [hat.app_eq] at hp; exact hp
  | psendStateFail hat => rw [hat.app_eq] at hp; exact hp
  | psendStateLock hat hs =>
    rw [hs] at hopen
    cases hopen
  | psendLockFail hat => rw [hat.app_eq] at hp; exact absurd hp id
  | psendFull hat => rw [hat.app_eq] at hp; exact absurd hp id

theorem opening_giveUp {w : World} {buf : BufId} {pc : AppPc} (hq : OpeningQueue w)
    (hopen : w.sock.tcpstateflags.opening = true) (h : GiveUp w buf pc) : pc.Opening w.pending := by
  have hp := hq hopen
  cases h with
  | swr hat => rw [hat.app_eq] at hp; exact hp.length_le
  | allocWindowRetry hat => rw [hat.app_eq] at hp; exact hp
  | psendState hat => rw [hat.app_eq] at hp; exact hp
  | psendLock hat => rw [hat.app_eq] at hp; exact absurd hp id

/-- A packet queued under the lock stands behind the queued ones. -/
theorem pending_push {w w' : World} {it : TxQItem} (ho : Owned w) (hfree : getTxQ w.sock = .free)
    (hw : w'.sock.txbuf = w.sock.txbuf.push it) :
    w'.pending = w.pending ++ [(it.packet, it.ackno)] := by
  rw [World.pending, hw, items_push_of_free ho.inRange hfree, List.map_append]
  rfl

theorem openingQueue_step {w w' : World} {a : Act} {env : Env} (ho : Owned w)
    (hq : OpeningQueue w) (h : Transition w env a w') : OpeningQueue w' := by
  cases h with
  | rx hops hr => exact openingQueue_rx ho hq hr rfl rfl
  | rxReply hops hr => exact openingQueue_rx ho hq hr rfl rfl
  | periodicFree hops hc => exact openingQueue_of_not_opening (by rw [hc]; rfl)
  | periodicResend hops hc hne =>
    intro hopen
    show w.app.Opening ((restamp w.sock.txbuf env.now).items.map _)
    rw [pending_restamp ho.inRange hne]
    exact hq hopen
  | periodicAbort => exact openingQueue_of_not_opening rfl
  | stop => exact openingQueue_of_not_opening rfl
  | start hops hat hc =>
    refine openingQueue_of_not_opening ?_
    show w.sock.tcpstateflags.opening = false
    rw [hc]
    rfl
  | ipOp hops hr =>
    obtain ⟨ht, hs, -, ha, -⟩ := runOp_frame hr
    exact openingQueue_same hq hs ht ha
  | appOp hops hr =>
    obtain ⟨ht, hs, -, ha, -⟩ := runOp_frame hr
    exact openingQueue_same hq hs ht ha
  | create => exact openingQueue_of_not_opening rfl
  | connect hat hc =>
    obtain ⟨-, -, ht, -⟩ := connectOpen_spec hc
    intro _
    refine ⟨by decide, ?_⟩
    show List.map _ _ = []
    rw [ht, (resetTxQIfUsed_spec ho.inRange).2.1]
    rfl
  | listenSyn hat hl =>
    obtain ⟨-, -, ht, -⟩ := listenSyn_spec hl
    intro _
    show w.app.Opening (List.map _ _)
    rw [hat.app_eq, ht, (resetTxQIfUsed_spec ho.inRange).2.1]
    rfl
  | close hat hs =>
    refine openingQueue_of_not_opening ?_
    obtain ⟨-, rfl, -⟩ | ⟨-, rfl, -⟩ := closeStart_cases hs <;> rfl
  | pseek hat =>
    intro hopen
    have hp := hq hopen
    rw [hat.app_eq] at hp
    exact hp
  | finalize =>
    intro _
    show List.map _ _ = []
    rw [(resetTxQIfUsed_spec ho.inRange).2.1]
    rfl
  | goto _ hg => exact fun hopen => opening_goto (w := w) hq hopen hg
  | giveUp hg => exact fun hopen => opening_giveUp (w := w) hq hopen hg
  | swrAlloc hat =>
    intro hopen
    have hp := hq hopen
    rw [hat.app_eq] at hp
    exact hp
  | @swrQueue k tcpf data buf size wait s hat hfree hs =>
    intro hopen
    have hp := hq hopen
    rw [hat.app_eq] at hp
    subst hs
    rw [pending_push (w := w) ho hfree rfl, hp.2, List.nil_append]
    show (ite _ _ _ : AppPc).Opening _
    split
    · exact Or.inr ⟨buf, rfl⟩
    · exact Nat.le_refl _
  | closeDone => exact openingQueue_of_not_opening rfl
  | forceClose => exact openingQueue_of_not_opening rfl
  | allocTry hat =>
    intro hopen
    have hp := hq hopen
    rw [hat.app_eq] at hp
    exact hp
  | allocUser hat =>
    intro hopen
    have hp := hq hopen
    rw [hat.app_eq] at hp
    exact hp
  | psendEmpty hat =>
    intro hopen
    have hp := hq hopen
    rw [hat.app_eq] at hp
    exact hp
  | psendQueue hat =>
    intro hopen
    have hp := hq hopen
    rw [hat.app_eq] at hp
    exact absurd hp id
  | pseekPop hat =>
    intro hopen
    have hp := hq hopen
    rw [hat.app_eq] at hp
    exact hp
  | _ => exact hq

theorem reaches_openingQueue {ok : World → Act × Env → Prop} {w : World}
    (h : system.Reaches ok w) : OpeningQueue w := by
  have howned : ∀ s, system.Reaches ok s → Owned s := fun _ => reaches_owned
  refine h.invariant_of howned ?_ ?_
  · intro s hs
    exact openingQueue_of_not_opening (by rw [hs.closed]; rfl)
  · intro s e s' ho hq _ hs
    exact openingQueue_step ho hq (step_transition hs)

/-- The acknowledgement number of the packet that the step put into the queue. -/
def newlyQueued (w w' : World) : Option UInt32 :=
  if w.pending.length < w'.pending.length then w'.pending.getLast?.map Prod.snd else none

/-- The number that acknowledges the SYN, or FIN, which the socket has queued since it
was set up. -/
def noteQueued (flag : UInt8) (h : Option UInt32) (w : World) (e : Act × Env) (w' : World) :
    Option UInt32 :=
  match e.1, w.app with
  | .connect _ _ _, _ => if w'.sock.tcpstateflags = w.sock.tcpstateflags then h else none
  | .listenSyn _ _, _ => if w'.sock.tcpstateflags = w.sock.tcpstateflags then h else none
  | .app, .swrLock _ tcpf _ _ _ _ => if hasFlag tcpf flag then (newlyQueued w w').or h else h
  | _, _ => h

def handshakeSystem : System (World × Option UInt32) (Act × Env) :=
  system.observe none (noteQueued tcpSyn)

/-- The step completes the handshake; a FIN in the same segment moves on to `CLOSE_WAIT`. -/
def Establishes (w w' : World) : Prop :=
  w.sock.tcpstateflags.opening = true ∧
    (w'.sock.tcpstateflags = .established ∨ w'.sock.tcpstateflags = .closeWait)

/-- The own SYN was queued, and the step processes a segment that acknowledges it. -/
def AcknowledgesSyn (h : Option UInt32) (w : World) (e : Act × Env) : Prop :=
  ∃ seg, e.1 = .rx seg ∧ hasFlag seg.flags tcpAck = true ∧ h = some seg.ackno32 ∧
    (w.sock.tcpstateflags = .synSent → hasFlag seg.flags tcpSyn = true)

/-- A segment that an opening socket takes for the acknowledgement of all it sent has ACK,
in `SYN_SENT` also SYN; with an empty queue it must name a SYN that was queued earlier. -/
def TakesSynAck (p : World × Option UInt32) (e : Act × Env) : Prop :=
  ∀ seg, e.1 = .rx seg → hasFlag seg.flags tcpRst = false →
    p.1.sock.tcpstateflags.opening = true → getNumOfSending p.1.sock.txbuf seg.ackno32 = 0 →
    hasFlag seg.flags tcpAck = true ∧
      (p.1.sock.tcpstateflags = .synSent → hasFlag seg.flags tcpSyn = true) ∧
      (p.1.pending = [] → p.2 = some seg.ackno32)

/-- What an opening socket has queued is the SYN on record. -/
def SynNoted (w : World) (h : Option UInt32) : Prop :=
  w.sock.tcpstateflags.opening = true → ∀ x ∈ w.pending, h = some x.2

theorem newlyQueued_append {w w' : World} {x : BufId × UInt32}
    (h : w'.pending = w.pending ++ [x]) : newlyQueued w w' = some x.2 := by
  rw [newlyQueued, h, if_pos (by simp), List.getLast?_concat]
  rfl

theorem newlyQueued_same {w w' : World} (h : w'.pending = w.pending) : newlyQueued w w' = none := by
  rw [newlyQueued, h, if_neg (Nat.lt_irrefl _)]

/-- The ring keeps some of its packets, and the record is not touched. -/
theorem synNoted_kept {w w' : World} {h h' : Option UInt32} (hn : SynNoted w h)
    (hopen : w'.sock.tcpstateflags.opening = true → w.sock.tcpstateflags.opening = true)
    (hsub : ∀ x ∈ w'.pending, x ∈ w.pending) (hh : h' = h) : SynNoted w' h' := by
  subst hh
  exact fun ho x hx => hn (hopen ho) x (hsub x hx)

theorem noteQueued_same {flag : UInt8} {w w' : World} {h : Option UInt32} {a : Act} {env : Env}
    (hs : w'.sock.tcpstateflags = w.sock.tcpstateflags) (hp : w'.pending = w.pending) :
    noteQueued flag h w (a, env) w' = h := by
  unfold noteQueued
  split
  · rw [if_pos hs]
  · rw [if_pos hs]
  · rw [newlyQueued_same hp, Option.none_or, ite_self]
  · rfl

theorem synNoted_same {w w' : World} {h : Option UInt32} {a : Act} {env : Env} (hn : SynNoted w h)
    (hs : w'.sock.tcpstateflags = w.sock.tcpstateflags) (hp : w'.pending = w.pending) :
    SynNoted w' (noteQueued tcpSyn h w (a, env) w') :=
  synNoted_kept hn (fun ho => hs ▸ ho) (fun _ hx => hp ▸ hx) (noteQueued_same hs hp)

theorem synNoted_of_not_opening {w : World} {h : Option UInt32}
    (hs : w.sock.tcpstateflags.opening = false) : SynNoted w h := by
  intro ho
  rw [hs] at ho
  cases ho

theorem synNoted_of_empty {w : World} {h : Option UInt32} (hp : w.pending = []) : SynNoted w h := by
  intro _ x hx
  rw [hp] at hx
  cases hx

theorem synNoted_rx {w w' : World} {h : Option UInt32} {now : UInt32} {seg : TcpSegment}
    {r : RxResult} (ho : Owned w) (hn : SynNoted w h)
    (hr : parseRx w.sock w.mem now seg = some r) (hs : w'.sock = r.sock) : SynNoted w' h := by
  refine synNoted_kept hn (fun hopen => parseRx_opening hr (hs ▸ hopen)) ?_ rfl
  intro x hx
  obtain ⟨k, hk⟩ := pending_rx ho hr
  rw [World.pending, hs, hk] at hx
  exact List.mem_of_mem_drop hx

theorem synNoted_step {w w' : World} {h : Option UInt32} {a : Act} {env : Env} (ho : Owned w)
    (hq : OpeningQueue w) (hn : SynNoted w h) (ht : Transition w env a w') :
    SynNoted w' (noteQueued tcpSyn h w (a, env) w') := by
  cases ht with
  | rx hops hr => exact synNoted_rx ho hn hr rfl
  | rxReply hops hr => exact synNoted_rx ho hn hr rfl
  | periodicFree hops hc => exact synNoted_of_not_opening (by rw [hc]; rfl)
  | periodicResend hops hc hne =>
    exact synNoted_same hn rfl (pending_restamp ho.inRange hne env.now)
  | periodicAbort => exact synNoted_of_not_opening rfl
  | stop => exact synNoted_of_not_opening rfl
  | ipOp hops hr =>
    obtain ⟨htx, hs, -⟩ := runOp_frame hr
    exact synNoted_same hn hs (by rw [World.pending, World.pending, htx])
  | appOp hops hr =>
    obtain ⟨htx, hs, -⟩ := runOp_frame hr
    exact synNoted_same hn hs (by rw [World.pending, World.pending, htx])
  | create => exact synNoted_of_not_opening rfl
  | connect hat hc =>
    obtain ⟨-, -, htx, -⟩ := connectOpen_spec hc
    refine synNoted_of_empty ?_
    show List.map _ _ = []
    rw [htx, (resetTxQIfUsed_spec ho.inRange).2.1]
    rfl
  | listenSyn hat hl =>
    obtain ⟨-, -, htx, -⟩ := listenSyn_spec hl
    refine synNoted_of_empty ?_
    show List.map _ _ = []
    rw [htx, (resetTxQIfUsed_spec ho.inRange).2.1]
    rfl
  | close hat hs =>
    refine synNoted_of_not_opening ?_
    obtain ⟨-, rfl, -⟩ | ⟨-, rfl, -⟩ := closeStart_cases hs <;> rfl
  | finalize =>
    refine synNoted_of_empty ?_
    show List.map _ _ = []
    rw [(resetTxQIfUsed_spec ho.inRange).2.1]
    rfl
  | @swrQueue k tcpf data buf size wait s hat hfree hs =>
    intro hopen x hx
    have hp := hq hopen
    rw [hat.app_eq] at hp
    subst hs
    rw [pending_push (w := w) ho hfree rfl, hp.2, List.nil_append, List.mem_singleton] at hx
    subst hx
    simp only [noteQueued, hat.app_eq, if_pos hp.1]
    rw [newlyQueued_append (pending_push (w := w) ho hfree rfl)]
    rfl
  | closeDone => exact synNoted_of_not_opening rfl
  | forceClose => exact synNoted_of_not_opening rfl
  | psendQueue hat =>
    intro hopen
    have hp := hq hopen
    rw [hat.app_eq] at hp
    exact absurd hp id
  | _ => exact synNoted_same hn rfl rfl

theorem reaches_synNoted {ok : World × Option UInt32 → Act × Env → Prop}
    {p : World × Option UInt32} (h : handshakeSystem.Reaches ok p) : SynNoted p.1 p.2 := by
  have hknown : ∀ s, handshakeSystem.Reaches ok s → Owned s.1 ∧ OpeningQueue s.1 :=
    fun _ hs => ⟨reaches_owned hs.forget, reaches_openingQueue hs.forget⟩
  refine h.invariant_of (P := fun p => SynNoted p.1 p.2) hknown ?_ ?_
  · rintro ⟨w, h⟩ ⟨hi, -⟩
    exact synNoted_of_not_opening (by rw [hi.closed]; rfl)
  · rintro ⟨w, h⟩ ⟨a, env⟩ ⟨w', h'⟩ ⟨ho, hq⟩ hn _ hs
    obtain ⟨hstep, rfl⟩ := System.observe_step.mp hs
    exact synNoted_step ho hq hn (step_transition hstep)

/-- An opening socket is established by any segment but a reset that leaves nothing to
wait for. -/
theorem parseRx_establishes {sock : TcpSocket} {mem : TxMemory} {now : UInt32} {seg : TcpSegment}
    {r : RxResult} (h : parseRx sock mem now seg = some r)
    (hopen : sock.tcpstateflags.opening = true) :
    (r.sock.tcpstateflags = .established ∨ r.sock.tcpstateflags = .closeWait) ↔
      hasFlag seg.flags tcpRst = false ∧ getNumOfSending sock.txbuf seg.ackno32 = 0 := by
  rcases parseRx_cases h with ⟨hrst, rfl⟩ | ⟨hrst, mms, _, rfl⟩
  · constructor
    · rintro (hs | hs) <;> cases hs
    · rintro ⟨hf, -⟩
      rw [hrst] at hf
      cases hf
  · have hstate : (rxProcess sock mem now seg mms).sock.tcpstateflags =
        (rxState (withMms sock mms) seg (isNewPacket sock seg)
          (getNumOfSending sock.txbuf seg.ackno32)).tcpstateflags := rfl
    have hkeep : (withMms sock mms).tcpstateflags = sock.tcpstateflags := rfl
    rw [hstate]
    by_cases hn : getNumOfSending sock.txbuf seg.ackno32 = 0
    · refine iff_of_true ?_ ⟨hrst, hn⟩
      rw [hn]
      rcases opening_cases hopen with hs | hs
      · simp only [rxState, hkeep, hs, if_true]
        split
        · exact rxEstablished_state _ _ rfl
        · exact Or.inl rfl
      · simp only [rxState, hkeep, hs, if_true]
        exact Or.inl trivial
    · refine iff_of_false ?_ fun hf => hn hf.2
      rcases opening_cases hopen with hs | hs
      · simp only [rxState, hkeep, hs, if_neg hn]
        rintro (hf | hf) <;> cases hf
      · simp only [rxState, hkeep, hs, if_neg hn]
        rintro (hf | hf) <;> cases hf

theorem step_rx {w w' : World} {e : Act × Env} {seg : TcpSegment} (he : e.1 = .rx seg)
    (hs : step w e = some w') : ∃ r, parseRx w.sock w.mem e.2.now seg = some r ∧
      r.sock.tcpstateflags = w'.sock.tcpstateflags := by
  have ht := step_transition hs
  rw [he] at ht
  cases ht with
  | rx hops hr => exact ⟨_, hr, rfl⟩
  | rxReply hops hr => exact ⟨_, hr, rfl⟩
  | callNothing ha => cases ha
  | goto ha => cases ha

/-- No step of either task but the receive path completes a handshake. -/
theorem establishes_rx {w w' : World} {a : Act} {env : Env} (ht : Transition w env a w')
    (hest : Establishes w w') : ∃ seg r, a = .rx seg ∧
      parseRx w.sock w.mem env.now seg = some r ∧
      r.sock.tcpstateflags = w'.sock.tcpstateflags := by
  obtain ⟨hopen, hst⟩ := hest
  have hother : w'.sock.tcpstateflags ≠ w.sock.tcpstateflags ∧
      w'.sock.tcpstateflags ≠ .closed := by
    constructor
    · intro he
      rw [he] at hst
      rcases hst with hs | hs <;> (rw [hs] at hopen; cases hopen)
    · intro hc
      rw [hc] at hst
      rcases hst with hs | hs <;> cases hs
  cases ht with
  | @rx seg r _ hr => exact ⟨seg, r, rfl, hr, rfl⟩
  | @rxReply seg r _ hr => exact ⟨seg, r, rfl, hr, rfl⟩
  | periodicAbort => exact absurd rfl hother.2
  | stop => exact absurd rfl hother.2
  | ipOp _ hr => exact absurd (runOp_frame hr).2.1 hother.1
  | appOp _ hr => exact absurd (runOp_frame hr).2.1 hother.1
  | create => exact absurd rfl hother.2
  | connect _ hc =>
    rw [(connectOpen_spec hc).1] at hopen
    cases hopen
  | listenSyn _ hl =>
    rw [(listenSyn_spec hl).1] at hopen
    cases hopen
  | close _ hs =>
    obtain ⟨he, -, -⟩ | ⟨he, -, -⟩ := closeStart_cases hs <;> (rw [he] at hopen; cases hopen)
  | closeDone => exact absurd rfl hother.2
  | forceClose => exact absurd rfl hother.2
  | _ => exact absurd rfl hother.1

/-- Handshake safety: in every reachable state a step respects it exactly when no
segment is mistaken for the acknowledgement of the own SYN. -/
theorem handshake_safety {w w' : World} {h : Option UInt32} {e : Act × Env}
    (hr : handshakeSystem.Reaches System.anyStep (w, h)) (hs : step w e = some w') :
    (Establishes w w' → AcknowledgesSyn h w e) ↔ TakesSynAck (w, h) e := by
  constructor
  · intro hsafe seg hrx hrst hopen hcount
    obtain ⟨r, hparse, hst⟩ := step_rx hrx hs
    have hest := (parseRx_establishes hparse hopen).mpr ⟨hrst, hcount⟩
    rw [hst] at hest
    obtain ⟨seg', hrx', hack, hnote, hsyn⟩ := hsafe ⟨hopen, hest⟩
    obtain rfl := Act.rx.inj (hrx.symm.trans hrx')
    exact ⟨hack, hsyn, fun _ => hnote⟩
  · rintro htake ⟨hopen, hto⟩
    obtain ⟨seg, r, hrx, hparse, hst⟩ := establishes_rx (step_transition hs) ⟨hopen, hto⟩
    rw [← hst] at hto
    obtain ⟨hrst, hcount⟩ := (parseRx_establishes hparse hopen).mp hto
    obtain ⟨hack, hsyn, hempty⟩ := htake seg hrx hrst hopen hcount
    refine ⟨seg, hrx, hack, ?_, hsyn⟩
    rcases (getNumOfSending_eq_zero _ _).mp hcount with hnil | ⟨it, rest, hi, hm⟩
    · exact hempty (by rw [World.pending, hnil, List.map_nil])
    · refine reaches_synNoted hr hopen (it.packet, seg.ackno32) ?_
      show _ ∈ w.pending
      rw [World.pending, hi, List.map_cons, hm]
      exact List.mem_cons_self

/-- The SYN of the peer, sent once more. -/
def synAgain : TcpSegment := ⟨htonl 99, 0, tcpSyn, htons 1000, some none, [], length_nil_lt⟩

/-- A repeated SYN that arrives between `listenSyn` and `accept` completes the handshake. -/
theorem established_without_syn : ¬ ∀ w w' h e,
    handshakeSystem.Reaches System.anyStep (w, h) → step w e = some w' → Establishes w w' →
    AcknowledgesSyn h w e := by
  intro h
  have hinit : handshakeSystem.init (World.zeroed, none) := ⟨World.zeroed_initial, rfl⟩
  have hrun : (handshakeSystem.run (World.zeroed, none)
      [(.listenSyn ⟨⟨1⟩, 7, 0, 100⟩ 80, quietEnv)]).any
      (fun p => p.1.sock.tcpstateflags == .synRcvd && p.2 == none
        && (step p.1 (.rx synAgain, quietEnv)).any
          (·.sock.tcpstateflags == .established)) = true := by decide +kernel
  obtain ⟨⟨w, l⟩, hw, hp⟩ := System.exists_of_run hinit hrun
  simp only [Bool.and_eq_true, beq_iff_eq, Option.any_eq_true] at hp
  obtain ⟨⟨hst, hl⟩, w', hs, hst'⟩ := hp
  obtain ⟨seg, -, -, hnone, -⟩ := h w w' l _ hw hs ⟨by rw [hst]; rfl, Or.inl hst'⟩
  rw [hl] at hnone
  cases hnone

/-- The acknowledgement of the SYN|ACK that `accept` queued. -/
theorem handshake_safety_accept : ∃ w w' h seg, Establishes w w' ∧
    ((Establishes w w' → AcknowledgesSyn h w (.rx seg, quietEnv)) ↔
      TakesSynAck (w, h) (.rx seg, quietEnv)) := by
  let seg : TcpSegment := ⟨htonl 100, htonl 3940, tcpAck, htons 1000, some none, [], length_nil_lt⟩
  have hinit : handshakeSystem.init (World.zeroed, none) := ⟨World.zeroed_initial, rfl⟩
  have hrun : (handshakeSystem.run (World.zeroed, none) (acceptQueued quietEnv)).any
      (fun p => p.1.sock.tcpstateflags == .synRcvd
        && (step p.1 (.rx seg, quietEnv)).any
          (·.sock.tcpstateflags == .established)) = true := by decide +kernel
  obtain ⟨⟨w, l⟩, hw, hp⟩ := System.exists_of_run hinit hrun
  simp only [Bool.and_eq_true, beq_iff_eq, Option.any_eq_true] at hp
  obtain ⟨hst, w', hs, hst'⟩ := hp
  exact ⟨w, w', l, seg, ⟨by rw [hst]; rfl, Or.inl hst'⟩, handshake_safety hw hs⟩

end MiMic.Tcp
