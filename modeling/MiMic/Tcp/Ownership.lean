import MiMic.Lib.Ownership
import MiMic.Tcp.Transition
import MiMic.Tcp.RxFacts

/-!
# Who owns a transmit buffer

Every allocated buffer is queued for retransmission, awaits its release by one of
the tasks, is in the hands of the application thread's current call, or was given
to the application. The invariant holds in every interleaving. The one use of a
buffer that ownership does not cover is the first transmission of a queued packet.
-/
namespace MiMic.Tcp

open Verif

/-- The buffers that a pending operation will release in the end. -/
def Op.owned : Op → List BufId
  | .release b => [b]
  | .send _ => []
  | .rstAlloc => []
  | .rstLock b => [b]
  | .rstBuild b => [b]

def ownedBy (ops : List Op) : List BufId := ops.flatMap Op.owned

/-- The buffer that the current call has allocated and not yet passed on. -/
def AppPc.owned : AppPc → List BufId
  | .swrLock _ _ _ buf _ _ => [buf]
  | .allocWindow buf _ _ => [buf]
  | .allocWindowRetry buf _ _ => [buf]
  | .psendState buf _ inSend => if inSend then [buf] else []
  | .psendLock buf _ inSend _ => if inSend then [buf] else []
  | .pseekLock buf _ => [buf]
  | _ => []

def World.queued (w : World) : List BufId := w.sock.txbuf.items.map (·.packet)

def World.owners (w : World) : List BufId :=
  w.queued ++ (ownedBy w.ipOps ++ (ownedBy w.appOps ++ (w.app.owned ++ w.held.map Prod.fst)))

/-- The callers of `sendWithRetransmit` pass no payload, and `psend` is given a buffer
of `allocSendBuf` that its data fits in. -/
def AppPc.Proper (held : List (BufId × UInt16)) : AppPc → Prop
  | .swrAlloc _ _ data => data = []
  | .swrLock _ _ data _ _ wait => data = [] ∧ wait ≠ .window
  | .psendState buf data false => ∃ size, (buf, size) ∈ held ∧ data.length ≤ size.toNat
  | .psendLock buf data false _ => ∃ size, (buf, size) ∈ held ∧ data.length ≤ size.toNat
  | _ => True

/-- A pending transmission of a buffer that the same task releases afterwards. -/
def SendsOwned : List Op → Prop
  | [] => True
  | .send b :: rest => .release b ∈ rest ∧ SendsOwned rest
  | _ :: rest => SendsOwned rest

structure Owned (w : World) : Prop where
  inRange : w.sock.txbuf.InRange
  balanced : Balanced w.pool w.owners
  proper : w.app.Proper w.held
  ipSends : SendsOwned w.ipOps
  appSends : SendsOwned w.appOps ∨ ∃ b, w.appOps = [.send b]
  finalized : w.app = .finalized → w.sock.txbuf.items = []

@[simp] theorem ownedBy_nil : ownedBy [] = [] := rfl
@[simp] theorem ownedBy_cons (op : Op) (ops : List Op) :
    ownedBy (op :: ops) = op.owned ++ ownedBy ops := rfl
@[simp] theorem ownedBy_append (ops ops' : List Op) :
    ownedBy (ops ++ ops') = ownedBy ops ++ ownedBy ops' := List.flatMap_append

@[simp] theorem ownedBy_releases (dlist : List BufId) : ownedBy (releases dlist) = dlist := by
  induction dlist with
  | nil => rfl
  | cons b dlist ih => exact congrArg (b :: ·) ih

theorem sendsOwned_tail {op : Op} {ops : List Op} (h : SendsOwned (op :: ops)) : SendsOwned ops := by
  cases op with
  | send b => exact h.2
  | _ => exact h

theorem sendsOwned_releases_append (dlist : List BufId) {ops : List Op} (h : SendsOwned ops) :
    SendsOwned (releases dlist ++ ops) := by
  induction dlist with
  | nil => exact h
  | cons b dlist ih => exact ih

theorem sendsOwned_releases (dlist : List BufId) : SendsOwned (releases dlist) := by
  have h := sendsOwned_releases_append dlist (show SendsOwned [] from trivial)
  rwa [List.append_nil] at h

theorem mem_ownedBy_of_release {b : BufId} {ops : List Op} (h : Op.release b ∈ ops) :
    b ∈ ownedBy ops :=
  List.mem_flatMap.mpr ⟨_, h, List.mem_singleton.mpr rfl⟩

theorem restamp_inRange {q : TxQ} (h : q.InRange) (now : UInt32) : (restamp q now).InRange := by
  have hh : (q.updateHead fun it => { it with rto32 := it.rto32 * 2 }).InRange := ⟨h.rp_lt, h.wp_lt⟩
  exact hh.updateAll _

/-- Only the head's timeout and the time stamps change. -/
theorem restamp_items {q : TxQ} (h : q.InRange) (hne : q.rp ≠ q.wp) (now : UInt32) :
    ∃ it rest, q.items = it :: rest ∧
      (restamp q now).items =
        { it with rto32 := it.rto32 * 2, tickOfSent := now } ::
          rest.map fun it => { it with tickOfSent := now } := by
  refine ⟨_, _, Ring.items_step h hne, ?_⟩
  have hh : (q.updateHead fun it => { it with rto32 := it.rto32 * 2 }).InRange := ⟨h.rp_lt, h.wp_lt⟩
  rw [restamp, Ring.items_updateAll hh, Ring.items_updateHead h _ hne, List.map_cons]

theorem restamp_packets {q : TxQ} (h : q.InRange) (hne : q.rp ≠ q.wp) (now : UInt32) :
    (restamp q now).items.map (·.packet) = q.items.map (·.packet) := by
  obtain ⟨it, rest, hq, hr⟩ := restamp_items h hne now
  rw [hq, hr, List.map_cons, List.map_cons, List.map_map]
  rfl

theorem resetTxQIfUsed_spec {q : TxQ} (h : q.InRange) :
    (resetTxQIfUsed q).1.InRange ∧ (resetTxQIfUsed q).1.items = [] ∧
      (resetTxQIfUsed q).2 = q.items.map (·.packet) := by
  unfold resetTxQIfUsed
  by_cases hne : q.rp = q.wp
  · have hnil := (Ring.items_eq_nil h).mpr hne
    rw [if_neg (not_not.mpr hne), hnil]
    exact ⟨h, rfl, rfl⟩
  · rw [if_pos hne, resetTxQ_eq]
    exact ⟨h.reset, Ring.items_reset h, rfl⟩

theorem items_push_of_free {sock : TcpSocket} (h : sock.txbuf.InRange) (hq : getTxQ sock = .free)
    (it : TxQItem) : (sock.txbuf.push it).items = sock.txbuf.items ++ [it] := by
  apply Ring.items_push h
  unfold getTxQ at hq
  split at hq
  · cases hq
  · cases hf : sock.txbuf.full with
    | false => rfl
    | true => simp [hf] at hq

/-- The operations that replace `op` are in order, and the socket keeps its ring. -/
theorem runOp_sends {w w₁ : World} {env : Env} {op : Op} {ops rest : List Op}
    (h : runOp w env op = some (w₁, ops)) (hs : SendsOwned (op :: rest)) :
    SendsOwned (ops ++ rest) := by
  have ht := sendsOwned_tail hs
  cases op with
  | release b =>
    obtain ⟨-, rfl⟩ := Prod.mk.inj (Option.some.inj h)
    exact ht
  | send b =>
    obtain ⟨-, rfl⟩ := Prod.mk.inj (Option.some.inj h)
    exact ht
  | rstAlloc =>
    simp only [runOp] at h
    split at h
    · obtain ⟨-, rfl⟩ := Prod.mk.inj (Option.some.inj h)
      exact ht
    · cases h
  | rstLock b =>
    obtain ⟨-, rfl⟩ := Prod.mk.inj (Option.some.inj h)
    exact ht
  | rstBuild b =>
    obtain ⟨-, rfl⟩ := Prod.mk.inj (Option.some.inj h)
    exact ⟨List.mem_cons_self, ht⟩

/-- What an operation does to the pool is what it does to the task's account. -/
theorem runOp_balanced {w w₁ : World} {env : Env} {op : Op} {ops rest : List Op}
    {others owners : List BufId} (h : runOp w env op = some (w₁, ops))
    (hb : Balanced w.pool owners) (hp : owners.Perm (ownedBy (op :: rest) ++ others)) :
    Balanced w₁.pool (ownedBy (ops ++ rest) ++ others) := by
  cases op with
  | release b =>
    obtain ⟨rfl, rfl⟩ := Prod.mk.inj (Option.some.inj h)
    exact hb.release hp
  | send b =>
    obtain ⟨rfl, rfl⟩ := Prod.mk.inj (Option.some.inj h)
    exact hb.transfer hp
  | rstAlloc =>
    simp only [runOp] at h
    split at h
    · next hf =>
      obtain ⟨rfl, rfl⟩ := Prod.mk.inj (Option.some.inj h)
      exact hb.alloc (fresh_iff.mp hf) (hp.symm.cons _)
    · cases h
  | rstLock b =>
    obtain ⟨rfl, rfl⟩ := Prod.mk.inj (Option.some.inj h)
    exact hb.transfer hp
  | rstBuild b =>
    obtain ⟨rfl, rfl⟩ := Prod.mk.inj (Option.some.inj h)
    exact hb.transfer hp

/-- An operation touches neither the ring nor anything the application holds. -/
theorem runOp_frame {w w₁ : World} {env : Env} {op : Op} {ops : List Op}
    (h : runOp w env op = some (w₁, ops)) :
    w₁.sock.txbuf = w.sock.txbuf ∧ w₁.sock.tcpstateflags = w.sock.tcpstateflags ∧
      w₁.held = w.held ∧ w₁.app = w.app ∧ w₁.appOps = w.appOps ∧ w₁.ipOps = w.ipOps := by
  obtain ⟨pool, mem, n, rfl⟩ := runOp_changes h
  exact ⟨rfl, rfl, rfl, rfl, rfl, rfl⟩

theorem owned_ipOp {w w₁ : World} {env : Env} {op : Op} {rest ops : List Op} (ho : Owned w)
    (hops : w.ipOps = op :: rest) (hr : runOp w env op = some (w₁, ops)) :
    Owned { w₁ with ipOps := ops ++ rest } := by
  obtain ⟨htx, -, hheld, happ, hao, -⟩ := runOp_frame hr
  refine ⟨htx ▸ ho.inRange, ?_, ?_, ?_, ?_, fun hf => htx ▸ ho.finalized (happ ▸ hf)⟩
  · have hp : w.owners.Perm (ownedBy (op :: rest) ++
        (w.queued ++ (ownedBy w.appOps ++ (w.app.owned ++ w.held.map Prod.fst)))) := by
      rw [World.owners, hops]
      exact List.perm_append_comm_assoc _ _ _
    have hb := (runOp_balanced hr ho.balanced hp).transfer (List.perm_append_comm_assoc _ _ _)
    simpa only [World.owners, World.queued, htx, hheld, happ, hao] using hb
  · simpa only [happ, hheld] using ho.proper
  · exact runOp_sends hr (hops ▸ ho.ipSends)
  · simpa only [hao] using ho.appSends

theorem owned_appOp {w w₁ : World} {env : Env} {op : Op} {rest ops : List Op} (ho : Owned w)
    (hops : w.appOps = op :: rest) (hr : runOp w env op = some (w₁, ops)) :
    Owned { w₁ with appOps := ops ++ rest } := by
  obtain ⟨htx, -, hheld, happ, -, hio⟩ := runOp_frame hr
  refine ⟨htx ▸ ho.inRange, ?_, ?_, ?_, ?_, fun hf => htx ▸ ho.finalized (happ ▸ hf)⟩
  · have hp : w.owners.Perm (ownedBy (op :: rest) ++
        ((w.queued ++ ownedBy w.ipOps) ++ (w.app.owned ++ w.held.map Prod.fst))) := by
      rw [World.owners, hops, ← List.append_assoc w.queued]
      exact List.perm_append_comm_assoc _ _ _
    have hb := (runOp_balanced hr ho.balanced hp).transfer (List.perm_append_comm_assoc _ _ _)
    simpa only [World.owners, World.queued, htx, hheld, happ, hio, List.append_assoc] using hb
  · simpa only [happ, hheld] using ho.proper
  · simpa only [hio] using ho.ipSends
  · rcases ho.appSends with hs | ⟨b, hb⟩
    · exact Or.inl (runOp_sends hr (hops ▸ hs))
    · rw [hb] at hops
      obtain ⟨rfl, rfl⟩ := List.cons.inj hops
      obtain ⟨-, rfl⟩ := Prod.mk.inj (Option.some.inj hr)
      exact Or.inl trivial

/-- A move of the application keeps its account. -/
theorem goto_owned {w : World} {env : Env} {pc : AppPc} (hp : w.app.Proper w.held)
    (h : Goto w env pc) : pc.owned = w.app.owned ∧ pc.Proper w.held := by
  cases h with
  | accept hat => rw [hat.app_eq]; exact ⟨rfl, rfl⟩
  | close hat => rw [hat.app_eq]; exact ⟨rfl, trivial⟩
  | allocSendBuf hat => rw [hat.app_eq]; exact ⟨rfl, trivial⟩
  | send hat => rw [hat.app_eq]; exact ⟨rfl, trivial⟩
  | psend hat hmem hlen => rw [hat.app_eq]; exact ⟨rfl, _, hmem, hlen⟩
  | swrAllocFail hat => rw [hat.app_eq]; exact ⟨rfl, trivial⟩
  | swrWindowExpired hat =>
    rw [hat.app_eq] at hp
    exact absurd rfl hp.2
  | swrWindow hat hd =>
    rw [hat.app_eq] at hp
    exact absurd hp.1 hd
  | swrFull hat =>
    rw [hat.app_eq] at hp ⊢
    exact ⟨rfl, hp.1, SwrWait.noConfusion⟩
  | waitExpired hat => rw [hat.app_eq]; exact ⟨rfl, trivial⟩
  | waitClosed hat => rw [hat.app_eq]; exact ⟨rfl, trivial⟩
  | @waitAcked k _ _ hat =>
    rw [hat.app_eq]
    cases k <;> exact ⟨rfl, trivial⟩
  | waitMore hat => rw [hat.app_eq]; exact ⟨rfl, trivial⟩
  | closeLoopEnd hat => rw [hat.app_eq]; exact ⟨rfl, trivial⟩
  | closeLoopClosed hat => rw [hat.app_eq]; exact ⟨rfl, trivial⟩
  | closeLoopMore hat => rw [hat.app_eq]; exact ⟨rfl, trivial⟩
  | closeCheckClosed hat => rw [hat.app_eq]; exact ⟨rfl, trivial⟩
  | closeCheckForce hat => rw [hat.app_eq]; exact ⟨rfl, trivial⟩
  | forceCloseIdle hat => rw [hat.app_eq]; exact ⟨rfl, trivial⟩
  | allocStateTry hat => rw [hat.app_eq]; exact ⟨rfl, trivial⟩
  | allocStateFail hat => rw [hat.app_eq]; exact ⟨rfl, trivial⟩
  | allocTryFail hat => rw [hat.app_eq]; exact ⟨rfl, trivial⟩
  | allocTryAgain hat => rw [hat.app_eq]; exact ⟨rfl, trivial⟩
  | allocWindow hat => rw [hat.app_eq]; exact ⟨rfl, trivial⟩
  | allocWindowSend hat => rw [hat.app_eq]; exact ⟨rfl, trivial⟩
  | allocWindowAgain hat => rw [hat.app_eq]; exact ⟨rfl, trivial⟩
  | psendStateFail hat => rw [hat.app_eq]; exact ⟨rfl, trivial⟩
  | @psendStateLock _ _ inSend hat =>
    rw [hat.app_eq] at hp ⊢
    cases inSend
    · exact ⟨rfl, hp⟩
    · exact ⟨rfl, trivial⟩
  | psendLockFail hat => rw [hat.app_eq]; exact ⟨rfl, trivial⟩
  | @psendFull _ _ inSend _ hat =>
    rw [hat.app_eq] at hp ⊢
    cases inSend
    · exact ⟨rfl, hp⟩
    · exact ⟨rfl, trivial⟩

theorem giveUp_owned {w : World} {buf : BufId} {pc : AppPc} (h : GiveUp w buf pc) :
    w.appOps = [] ∧ w.app.owned = [buf] ∧ pc.owned = [] ∧ pc.Proper w.held := by
  cases h with
  | swr hat => rw [hat.app_eq]; exact ⟨hat.appOps_eq, rfl, rfl, trivial⟩
  | allocWindowRetry hat => rw [hat.app_eq]; exact ⟨hat.appOps_eq, rfl, rfl, trivial⟩
  | psendState hat => rw [hat.app_eq]; exact ⟨hat.appOps_eq, rfl, rfl, trivial⟩
  | psendLock hat => rw [hat.app_eq]; exact ⟨hat.appOps_eq, rfl, rfl, trivial⟩

theorem map_fst_eraseP (held : List (BufId × UInt16)) (buf : BufId) :
    (held.eraseP (·.1 == buf)).map Prod.fst = (held.map Prod.fst).erase buf := by
  induction held with
  | nil => rfl
  | cons h held ih =>
    rw [List.map_cons, List.eraseP_cons]
    by_cases hb : h.1 = buf
    · rw [hb, List.erase_cons_head, beq_self_eq_true]
      rfl
    · rw [List.erase_cons_tail (by simpa using hb), beq_eq_false_iff_ne.mpr hb, ← ih]
      rfl

theorem perm_eraseP {held : List (BufId × UInt16)} {buf : BufId} {size : UInt16}
    (h : (buf, size) ∈ held) :
    (held.map Prod.fst).Perm (buf :: (held.eraseP (·.1 == buf)).map Prod.fst) := by
  rw [map_fst_eraseP]
  exact List.perm_cons_erase (List.mem_map_of_mem h)

/-- `psend` takes its buffer from the caller, whoever that is. -/
theorem psendTake_perm {held : List (BufId × UInt16)} {buf : BufId} {inSend : Bool}
    (h : inSend = false → ∃ size, (buf, size) ∈ held) :
    ((if inSend then [buf] else []) ++ held.map Prod.fst).Perm
      (buf :: (psendTake held buf inSend).map Prod.fst) := by
  cases inSend with
  | true => exact List.Perm.refl _
  | false =>
    obtain ⟨size, hmem⟩ := h rfl
    exact perm_eraseP hmem

theorem psendState_held {held : List (BufId × UInt16)} {buf : BufId} {data : List UInt8}
    {inSend : Bool} (h : (AppPc.psendState buf data inSend).Proper held) (hin : inSend = false) :
    ∃ size, (buf, size) ∈ held := by
  subst hin
  obtain ⟨size, hmem, _⟩ := h
  exact ⟨size, hmem⟩

theorem psendLock_held {held : List (BufId × UInt16)} {buf : BufId} {data : List UInt8}
    {inSend retry : Bool} (h : (AppPc.psendLock buf data inSend retry).Proper held)
    (hin : inSend = false) : ∃ size, (buf, size) ∈ held := by
  subst hin
  obtain ⟨size, hmem, _⟩ := h
  exact ⟨size, hmem⟩

/-- What leaves the ring is released by the task that took it off. -/
theorem perm_take_drop (l : List TxQItem) (k : Nat) (others : List BufId) :
    (l.map (·.packet) ++ others).Perm
      ((l.drop k).map (·.packet) ++ ((l.take k).map (·.packet) ++ others)) := by
  have h : l.map (·.packet) = (l.take k).map (·.packet) ++ (l.drop k).map (·.packet) := by
    rw [← List.map_append, List.take_append_drop]
  rw [h, List.append_assoc]
  exact List.perm_append_comm_assoc _ _ _

theorem owned_rx {w : World} {env : Env} {seg : TcpSegment} {r : RxResult} (ho : Owned w)
    (hops : w.ipOps = []) (hr : parseRx w.sock w.mem env.now seg = some r) :
    Owned { w with sock := r.sock, mem := r.mem, ipOps := releases r.dlist } := by
  obtain ⟨k, -, hq, hi, hd, -⟩ := parseRx_ring ho.inRange hr
  refine ⟨hq, ?_, ho.proper, sendsOwned_releases _, ho.appSends, ?_⟩
  rotate_left
  · intro hf
    rw [hi, ho.finalized hf, List.drop_nil]
  have hb := ho.balanced
  rw [World.owners, hops, ownedBy_nil, List.nil_append] at hb
  have hb' := hb.transfer (perm_take_drop w.sock.txbuf.items k _)
  simpa only [World.owners, World.queued, hi, hd, ownedBy_releases] using hb'

/-- The reply of `parseRx` is built in a fresh buffer that the IP task releases. -/
theorem owned_reply {w : World} {mem : TxMemory} {dlist : List BufId} {b : BufId} (ho : Owned w)
    (hops : w.ipOps = releases dlist) (hf : b ∉ w.pool) :
    Owned { w with
      mem := mem
      pool := b :: w.pool
      ipOps := releases dlist ++ [.send b, .release b] } := by
  refine ⟨ho.inRange, ?_, ho.proper, ?_, ho.appSends, ho.finalized⟩
  · apply ho.balanced.alloc hf
    apply List.perm_iff_count.mpr
    intro c
    simp only [World.owners, World.queued, hops, ownedBy_append, ownedBy_releases, ownedBy_cons,
      ownedBy_nil, Op.owned, List.count_append, List.count_cons, List.count_nil]
    omega
  · exact sendsOwned_releases_append _ ⟨List.mem_singleton.mpr rfl, trivial⟩

/-- The ring is emptied by the IP task, which may send a reset afterwards. -/
theorem owned_ipReset {w : World} {q : TxQ} {s : TcpState} {tail : List Op} (ho : Owned w)
    (hops : w.ipOps = []) (hq : q.InRange)
    (hpk : q.items.map (·.packet) = w.sock.txbuf.items.map (·.packet))
    (htail : ownedBy tail = []) (hs : SendsOwned tail) :
    Owned { w with
      sock.tcpstateflags := s
      sock.txbuf := (resetTxQ q).1
      ipOps := releases (resetTxQ q).2 ++ tail } := by
  rw [resetTxQ_eq]
  refine ⟨hq.reset, ?_, ho.proper, sendsOwned_releases_append _ hs, ho.appSends,
    fun _ => Ring.items_reset hq⟩
  have hb := ho.balanced
  rw [World.owners, hops, ownedBy_nil, List.nil_append] at hb
  simpa only [World.owners, World.queued, Ring.items_reset hq, hpk, ownedBy_append,
    ownedBy_releases, htail, List.append_nil, List.map_nil, List.nil_append] using hb

/-- The ring is emptied by the application. -/
theorem owned_appReset {w : World} {sock : TcpSocket} {dlist : List BufId} {pc : AppPc}
    (ho : Owned w) (hat : w.At .idle) (hq : sock.txbuf.InRange) (hi : sock.txbuf.items = [])
    (hd : dlist = w.queued) (hpc : pc.owned = []) (hp : pc.Proper w.held) :
    Owned { w with sock := sock, appOps := releases dlist, app := pc } := by
  refine ⟨hq, ?_, hp, ho.ipSends, Or.inl (sendsOwned_releases _), fun _ => hi⟩
  have hb := ho.balanced
  have hidle : AppPc.idle.owned = [] := rfl
  rw [World.owners, hat.app_eq, hat.appOps_eq, hidle] at hb
  apply hb.transfer
  apply List.perm_iff_count.mpr
  intro c
  simp only [World.owners, World.queued, hi, hd, hpc, ownedBy_nil, ownedBy_releases,
    List.map_nil, List.count_append, List.count_nil]
  omega

/-- A queued packet is the ring's from the end of the lock section on. -/
theorem owned_enqueue {w : World} {sock : TcpSocket} {mem : TxMemory}
    {held : List (BufId × UInt16)} {pc : AppPc} {item : TxQItem} {buf : BufId} (ho : Owned w)
    (hao : w.appOps = []) (hq : getTxQ w.sock = .free)
    (htx : sock.txbuf = w.sock.txbuf.push item) (hbuf : item.packet = buf)
    (hheld : (w.app.owned ++ w.held.map Prod.fst).Perm (buf :: held.map Prod.fst))
    (hpc : pc.owned = []) (hp : pc.Proper held) (hpf : pc ≠ .finalized) :
    Owned { w with sock := sock, mem := mem, held := held, app := pc, appOps := [.send buf] } := by
  subst hbuf
  have hi := items_push_of_free ho.inRange hq item
  refine ⟨htx ▸ ho.inRange.push item, ?_, hp, ho.ipSends, Or.inr ⟨_, rfl⟩, fun hf => absurd hf hpf⟩
  have hb := ho.balanced
  rw [World.owners, hao] at hb
  apply hb.transfer
  apply List.perm_iff_count.mpr
  intro c
  have hc := List.perm_iff_count.mp hheld c
  simp only [List.count_append, List.count_cons] at hc
  simp only [World.owners, World.queued, htx, hi, hpc, ownedBy_nil, ownedBy_cons, Op.owned,
    List.map_append, List.map_cons, List.map_nil, List.count_append, List.count_cons,
    List.count_nil]
  omega

/-- A buffer allocated by the application belongs to its current call. -/
theorem owned_appAlloc {w : World} {pc : AppPc} {b : BufId} (ho : Owned w) (hf : b ∉ w.pool)
    (hown : w.app.owned = []) (hpc : pc.owned = [b]) (hp : pc.Proper w.held) :
    Owned { w with pool := b :: w.pool, app := pc } := by
  have hpf : pc ≠ .finalized := fun he => by simp [he, AppPc.owned] at hpc
  refine ⟨ho.inRange, ?_, hp, ho.ipSends, ho.appSends, fun he => absurd he hpf⟩
  apply ho.balanced.alloc hf
  apply List.perm_iff_count.mpr
  intro c
  simp only [World.owners, World.queued, hown, hpc, List.count_append, List.count_cons,
    List.count_nil]
  omega

/-- The application hands a buffer to a pending operation, or back to its caller. -/
theorem owned_pass {w : World} {sock : TcpSocket} {mem : TxMemory} {held : List (BufId × UInt16)}
    {ops : List Op} {pc : AppPc} (ho : Owned w) (hao : w.appOps = [])
    (htx : sock.txbuf = w.sock.txbuf)
    (hp : (w.app.owned ++ w.held.map Prod.fst).Perm
      (ownedBy ops ++ (pc.owned ++ held.map Prod.fst)))
    (hs : SendsOwned ops) (hpc : pc.Proper held) (hpf : pc ≠ .finalized) :
    Owned { w with sock := sock, mem := mem, held := held, appOps := ops, app := pc } := by
  refine ⟨htx ▸ ho.inRange, ?_, hpc, ho.ipSends, Or.inl hs, fun he => absurd he hpf⟩
  have hb := ho.balanced
  rw [World.owners, hao] at hb
  apply hb.transfer
  simp only [World.owners, World.queued, htx, ownedBy_nil, List.nil_append]
  exact (hp.append_left _).append_left _

/-- The application moves on, buffers passing between its call and its caller. -/
theorem owned_move {w : World} {sock : TcpSocket} {held : List (BufId × UInt16)} {pc : AppPc}
    (ho : Owned w) (htx : sock.txbuf = w.sock.txbuf)
    (hp : (w.app.owned ++ w.held.map Prod.fst).Perm (pc.owned ++ held.map Prod.fst))
    (hpc : pc.Proper held) (hpf : pc ≠ .finalized) :
    Owned { w with sock := sock, held := held, app := pc } := by
  refine ⟨htx ▸ ho.inRange, ?_, hpc, ho.ipSends, ho.appSends, fun he => absurd he hpf⟩
  apply ho.balanced.transfer
  simp only [World.owners, World.queued, htx]
  exact ((hp.append_left _).append_left _).append_left _

theorem connectOpen_spec {sock sock' : TcpSocket} {addr : IPv4Addr} {peerPort lport : UInt16}
    {dlist : List BufId} (h : connectOpen sock addr peerPort lport = some (sock', dlist)) :
    sock.tcpstateflags = .closed ∧ sock'.tcpstateflags = .synSent ∧
      sock'.txbuf = (resetTxQIfUsed sock.txbuf).1 ∧ dlist = (resetTxQIfUsed sock.txbuf).2 := by
  unfold connectOpen at h
  split at h
  · cases h
  · next hc =>
    split at h
    · cases h
    · obtain ⟨rfl, rfl⟩ := Prod.mk.inj (Option.some.inj h)
      exact ⟨not_not.mp hc, rfl, rfl, rfl⟩

theorem listenSyn_spec {sock sock' : TcpSocket} {lq : TcpSocketSynParam} {lport : UInt16}
    {dlist : List BufId} (h : listenSyn sock lq lport = some (sock', dlist)) :
    sock.tcpstateflags = .closed ∧ sock'.tcpstateflags = .synRcvd ∧
      sock'.txbuf = (resetTxQIfUsed sock.txbuf).1 ∧ dlist = (resetTxQIfUsed sock.txbuf).2 := by
  unfold listenSyn at h
  split at h
  · next hc =>
    obtain ⟨rfl, rfl⟩ := Prod.mk.inj (Option.some.inj h)
    exact ⟨hc, rfl, rfl, rfl⟩
  · cases h

theorem goto_not_finalized {w : World} {env : Env} {pc : AppPc} (h : Goto w env pc) :
    pc ≠ .finalized := by
  cases h with
  | @waitAcked k => cases k <;> exact AppPc.noConfusion
  | _ => exact AppPc.noConfusion

theorem owned_step {w w' : World} {a : Act} {env : Env} (ho : Owned w)
    (h : Transition w env a w') : Owned w' := by
  cases h with
  | rx hops hr => exact owned_rx ho hops hr
  | rxReply hops hr hf =>
    have h := owned_rx ho hops hr
    exact owned_reply h rfl hf
  | periodicIdle => exact ho
  | periodicFree hops =>
    have h : Owned { w with
        sock.txbuf := (resetTxQ w.sock.txbuf).1
        ipOps := releases (resetTxQ w.sock.txbuf).2 ++ [] } :=
      owned_ipReset ho hops ho.inRange rfl rfl trivial
    simpa only [List.append_nil] using h
  | periodicResend hops hc hne hp =>
    refine ⟨restamp_inRange ho.inRange _, ?_, ho.proper, ho.ipSends, ho.appSends, ?_⟩
    · have hb := ho.balanced
      simpa only [World.owners, World.queued, restamp_packets ho.inRange hne] using hb
    · intro hf
      exact absurd ((Ring.items_eq_nil ho.inRange).mp (ho.finalized hf)) hne
  | periodicAbort hops hc hne hp hd =>
    rw [hd]
    exact owned_ipReset ho hops (restamp_inRange ho.inRange _) (restamp_packets ho.inRange hne _)
      rfl trivial
  | stopClosed => exact ho
  | stop hops hc => exact owned_ipReset ho hops ho.inRange rfl rfl trivial
  | start hops hat hc =>
    exact ⟨ho.inRange, ho.balanced, ho.proper, ho.ipSends, ho.appSends, ho.finalized⟩
  | ipOp hops hr => exact owned_ipOp ho hops hr
  | appOp hops hr => exact owned_appOp ho hops hr
  | create hat =>
    have hnil := ho.finalized hat.app_eq
    refine ⟨ho.inRange.reset, ?_, trivial, ho.ipSends, ho.appSends, AppPc.noConfusion⟩
    have hb := ho.balanced
    rw [World.owners, World.queued, hnil, hat.app_eq] at hb
    simp only [World.owners, World.queued, initializeSocket, Ring.items_reset ho.inRange]
    exact hb
  | callNothing => exact ho
  | connect hat hc =>
    obtain ⟨-, -, htx, hd⟩ := connectOpen_spec hc
    obtain ⟨hr, hi, hdl⟩ := resetTxQIfUsed_spec ho.inRange
    exact owned_appReset ho hat (htx ▸ hr) (htx ▸ hi) (hd.trans hdl) rfl rfl
  | @listenSyn _ _ sock dlist hat hc =>
    obtain ⟨-, -, htx, hd⟩ := listenSyn_spec hc
    obtain ⟨hr, hi, hdl⟩ := resetTxQIfUsed_spec ho.inRange
    have h : Owned { w with sock := sock, appOps := releases dlist, app := .idle } :=
      owned_appReset ho hat (htx ▸ hr) (htx ▸ hi) (hd.trans hdl) rfl trivial
    rwa [← hat.app_eq] at h
  | close hat hs =>
    refine owned_move ho rfl ?_ rfl AppPc.noConfusion
    rw [hat.app_eq]
    exact List.Perm.refl _
  | @releaseSendBuf buf size hat hmem =>
    have h : Owned { w with
        held := w.held.eraseP (·.1 == buf), appOps := [.release buf], app := .idle } := by
      refine owned_pass ho hat.appOps_eq rfl ?_ trivial trivial AppPc.noConfusion
      rw [hat.app_eq]
      exact perm_eraseP hmem
    rwa [← hat.app_eq] at h
  | pseek hat hn hf => exact owned_appAlloc ho hf (by rw [hat.app_eq]; rfl) rfl trivial
  | finalize hat =>
    obtain ⟨hr, hi, hdl⟩ := resetTxQIfUsed_spec ho.inRange
    exact owned_appReset ho hat hr hi hdl rfl trivial
  | stay => exact ho
  | goto _ hg =>
    obtain ⟨hown, hp⟩ := goto_owned ho.proper hg
    refine owned_move ho rfl ?_ hp (goto_not_finalized hg)
    rw [hown]
  | giveUp hg =>
    obtain ⟨hao, hown, hpc, hp⟩ := giveUp_owned hg
    refine owned_pass ho hao rfl ?_ trivial hp ?_
    · rw [hown, hpc]
      exact List.Perm.refl _
    · cases hg <;> exact AppPc.noConfusion
  | swrAlloc hat hf hs =>
    have hp := ho.proper
    rw [hat.app_eq] at hp
    exact owned_appAlloc ho hf (by rw [hat.app_eq]; rfl) rfl ⟨hp, SwrWait.noConfusion⟩
  | swrQueue hat hq hs =>
    refine owned_enqueue ho hat.appOps_eq hq rfl rfl ?_ ?_ ?_ ?_
    · rw [hat.app_eq]
      exact List.Perm.refl _
    · split <;> rfl
    · split <;> trivial
    · split <;> exact AppPc.noConfusion
  | closeDone hat hs =>
    refine owned_move ho rfl ?_ trivial AppPc.noConfusion
    rw [hat.app_eq]
    exact List.Perm.refl _
  | forceClose hat hc =>
    refine owned_pass ho hat.appOps_eq rfl ?_ trivial trivial AppPc.noConfusion
    rw [hat.app_eq]
    exact List.Perm.refl _
  | allocTry hat hf hs => exact owned_appAlloc ho hf (by rw [hat.app_eq]; rfl) rfl trivial
  | allocUser hat hw =>
    refine owned_move ho rfl ?_ trivial AppPc.noConfusion
    rw [hat.app_eq]
    exact List.Perm.refl _
  | @psendEmpty buf inSend hat =>
    have hperm := psendTake_perm fun hin => psendState_held (hat.app_eq ▸ ho.proper) hin
    refine owned_pass ho hat.appOps_eq rfl ?_ trivial trivial AppPc.noConfusion
    rw [hat.app_eq]
    exact hperm
  | @psendQueue buf data inSend retry hat hq =>
    have hperm := psendTake_perm fun hin => psendLock_held (hat.app_eq ▸ ho.proper) hin
    refine owned_enqueue ho hat.appOps_eq hq rfl rfl ?_ rfl trivial AppPc.noConfusion
    rw [hat.app_eq]
    exact hperm
  | pseekPop hat =>
    refine owned_pass ho hat.appOps_eq rfl ?_ ⟨List.mem_singleton.mpr rfl, trivial⟩ trivial
      AppPc.noConfusion
    rw [hat.app_eq]
    exact List.Perm.refl _

theorem owned_init {w : World} (h : w.Initial) : Owned w := by
  have hr : w.sock.txbuf.InRange := by
    constructor
    · rw [h.rp_eq]; decide
    · rw [h.wp_eq]; decide
  have hnil : w.sock.txbuf.items = [] :=
    (Ring.items_eq_nil hr).mpr (h.rp_eq.trans h.wp_eq.symm)
  refine ⟨hr, ?_, ?_, ?_, ?_, fun _ => hnil⟩
  · have howners : w.owners = [] := by
      rw [World.owners, World.queued, hnil, h.ipOps_eq, h.appOps_eq, h.app_eq, h.held_eq]
      rfl
    rw [h.pool_eq, howners]
    exact Balanced.nil
  · rw [h.app_eq]
    trivial
  · rw [h.ipOps_eq]
    trivial
  · rw [h.appOps_eq]
    exact Or.inl trivial

/-- The books balance in every reachable state, whatever the interleaving. -/
theorem reaches_owned {ok : World → Act × Env → Prop} {w : World} (h : system.Reaches ok w) :
    Owned w := by
  refine h.invariant (fun _ => owned_init) ?_
  intro s e s' ho _ hs
  exact owned_step ho (step_transition hs)

/-- The buffers that a step hands to `sendIPv4Tx`. -/
def transmits (w : World) (e : Act × Env) : List BufId :=
  match e.1 with
  | .ipOp => match w.ipOps with
    | .send b :: _ => [b]
    | _ => []
  | .app => match w.appOps with
    | .send b :: _ => [b]
    | _ => []
  | .periodic => match (periodic w.sock e.2.now).2 with
    | .resend bufs => bufs
    | _ => []
  | _ => []

/-- The buffers that a step hands to `releaseTxBuf`. -/
def released (w : World) (e : Act × Env) : List BufId :=
  match e.1 with
  | .ipOp => match w.ipOps with
    | .release b :: _ => [b]
    | _ => []
  | .app => match w.appOps with
    | .release b :: _ => [b]
    | _ => []
  | _ => []

/-- Ownership around one step: every allocated buffer has exactly one owner, only
allocated buffers are released or transmitted, and between calls nothing is
allocated but the queued packets and what the application holds. -/
structure BufferSafe (w : World) (e : Act × Env) (w' : World) : Prop where
  accounted : Balanced w'.pool w'.owners
  released_once : ∀ b ∈ released w e, b ∈ w.pool ∧ b ∉ w'.pool
  transmitted : ∀ b ∈ transmits w e, b ∈ w.pool
  quiet : w'.app = .idle → w'.appOps = [] → w'.ipOps = [] →
    w'.pool.Perm (w'.queued ++ w'.held.map Prod.fst) ∧ w'.pool.length < 4 + w'.held.length

/-- The IP task does not release a queued packet before the application, which
queued it, has handed it to `sendIPv4Tx`. -/
def FirstSendDone (w : World) (e : Act × Env) : Prop :=
  e.1 = .ipOp → ∀ b rest, w.ipOps = .release b :: rest → .send b ∉ w.appOps

theorem mem_pool_of_pending {w : World} (ho : Owned w) {b : BufId}
    (h : b ∈ ownedBy w.ipOps ∨ b ∈ ownedBy w.appOps) : b ∈ w.pool := by
  rw [ho.balanced.mem_iff, World.owners]
  simp only [List.mem_append]
  exact h.elim (fun h => Or.inr (Or.inl h)) fun h => Or.inr (Or.inr (Or.inl h))

theorem mem_pool_of_call {w : World} (ho : Owned w) {b : BufId}
    (h : b ∈ w.app.owned ∨ b ∈ w.held.map Prod.fst) : b ∈ w.pool := by
  rw [ho.balanced.mem_iff, World.owners]
  simp only [List.mem_append]
  exact Or.inr (Or.inr (Or.inr h))

/-- A packet queued and not yet sent is still allocated. -/
def FirstSendPending (w : World) : Prop := ∀ b, w.appOps = [.send b] → b ∈ w.pool

theorem firstSend_runOp {w w₁ : World} {env : Env} {op : Op} {ops : List Op}
    (h : runOp w env op = some (w₁, ops)) {b : BufId} (hb : b ∈ w.pool)
    (hne : op ≠ .release b) : b ∈ w₁.pool := by
  cases op with
  | release c =>
    obtain ⟨rfl, -⟩ := Prod.mk.inj (Option.some.inj h)
    exact (List.mem_erase_of_ne fun hbc => hne (by rw [hbc])).mpr hb
  | rstAlloc =>
    simp only [runOp] at h
    split at h
    · obtain ⟨rfl, -⟩ := Prod.mk.inj (Option.some.inj h)
      exact List.mem_cons_of_mem _ hb
    · cases h
  | _ =>
    obtain ⟨rfl, -⟩ := Prod.mk.inj (Option.some.inj h)
    exact hb

theorem not_send_releases (dlist : List BufId) (b : BufId) : releases dlist ≠ [.send b] := by
  cases dlist <;> simp [releases]

theorem firstSend_step {w w' : World} {a : Act} {env : Env} (ho : Owned w)
    (hf : FirstSendPending w) (hok : FirstSendDone w (a, env)) (h : Transition w env a w') :
    FirstSendPending w' := by
  cases h with
  | rxReply => exact fun b hb => List.mem_cons_of_mem _ (hf b hb)
  | @ipOp op rest w₁ ops hops hr =>
    intro b hb
    have hao : w₁.appOps = w.appOps := (runOp_frame hr).2.2.2.2.1
    have hsend : w.appOps = [.send b] := hao.symm.trans hb
    refine firstSend_runOp hr (hf b hsend) fun hop => ?_
    exact hok rfl b rest (hop ▸ hops) (by simp [hsend])
  | @appOp op rest w₁ ops hops hr =>
    intro b hb
    have hb' : ops ++ rest = [.send b] := hb
    rcases ho.appSends with hs | ⟨c, hc⟩
    · exact absurd (hb' ▸ runOp_sends hr (hops ▸ hs)) (by simp [SendsOwned])
    · rw [hc] at hops
      obtain ⟨rfl, rfl⟩ := List.cons.inj hops
      obtain ⟨-, rfl⟩ := Prod.mk.inj (Option.some.inj hr)
      cases hb'
  | connect => exact fun b hb => absurd hb (not_send_releases _ b)
  | listenSyn => exact fun b hb => absurd hb (not_send_releases _ b)
  | finalize => exact fun b hb => absurd hb (not_send_releases _ b)
  | releaseSendBuf => exact fun b hb => by cases hb
  | pseek => exact fun b hb => List.mem_cons_of_mem _ (hf b hb)
  | giveUp => exact fun b hb => by cases hb
  | swrAlloc => exact fun b hb => List.mem_cons_of_mem _ (hf b hb)
  | swrQueue hat =>
    intro b hb
    obtain ⟨rfl⟩ : Op.send _ = Op.send b := by simpa using hb
    exact mem_pool_of_call ho (Or.inl (by rw [hat.app_eq]; exact List.mem_singleton.mpr rfl))
  | forceClose => exact fun b hb => by cases hb
  | allocTry => exact fun b hb => List.mem_cons_of_mem _ (hf b hb)
  | psendEmpty => exact fun b hb => by cases hb
  | @psendQueue buf data inSend retry hat =>
    intro b hb
    obtain ⟨rfl⟩ : Op.send buf = Op.send b := by simpa using hb
    apply mem_pool_of_call ho
    cases inSend with
    | true => exact Or.inl (by rw [hat.app_eq]; exact List.mem_singleton.mpr rfl)
    | false =>
      obtain ⟨size, hmem⟩ := psendLock_held (hat.app_eq ▸ ho.proper) rfl
      exact Or.inr (List.mem_map_of_mem hmem)
  | pseekPop => exact fun b hb => by cases hb
  | _ => exact hf

theorem reaches_firstSend {w : World} (h : system.Reaches FirstSendDone w) :
    FirstSendPending w := by
  have howned : ∀ s, system.Reaches FirstSendDone s → Owned s := fun _ => reaches_owned
  refine h.invariant_of howned ?_ ?_
  · intro s hs b hb
    rw [hs.appOps_eq] at hb
    cases hb
  · intro s e s' ho hf hok hs
    exact firstSend_step ho hf hok (step_transition hs)

/-- `periodic` resends the packets of the ring. -/
theorem periodic_resend {sock : TcpSocket} {now : UInt32} {bufs : List BufId}
    (h : (periodic sock now).2 = .resend bufs) :
    sock.txbuf.rp ≠ sock.txbuf.wp ∧ bufs = (restamp sock.txbuf now).items.map (·.packet) := by
  unfold periodic at h
  dsimp only at h
  split at h
  · cases h
  · split at h
    · cases h
    · next hne =>
      split at h
      · cases h
      · split at h
        · split at h
          · cases h
          · exact ⟨hne, (PeriodicOut.resend.inj h).symm⟩
        · cases h

/-- The pending send of either task, and the retransmission, find their buffer allocated. -/
theorem transmits_allocated {w : World} {e : Act × Env} (ho : Owned w) (hf : FirstSendPending w) :
    ∀ b ∈ transmits w e, b ∈ w.pool := by
  obtain ⟨a, env⟩ := e
  intro b hb
  cases a with
  | ipOp =>
    cases hops : w.ipOps with
    | nil => simp [transmits, hops] at hb
    | cons op rest =>
      cases op with
      | send c =>
        obtain rfl : b = c := by simpa [transmits, hops] using hb
        have hs := ho.ipSends
        rw [hops] at hs
        apply mem_pool_of_pending ho
        rw [hops]
        exact Or.inl (mem_ownedBy_of_release (List.mem_cons_of_mem _ hs.1))
      | _ => simp [transmits, hops] at hb
  | app =>
    cases hops : w.appOps with
    | nil => simp [transmits, hops] at hb
    | cons op rest =>
      cases op with
      | send c =>
        obtain rfl : b = c := by simpa [transmits, hops] using hb
        rcases ho.appSends with hs | ⟨c, hc⟩
        · rw [hops] at hs
          apply mem_pool_of_pending ho
          rw [hops]
          exact Or.inr (mem_ownedBy_of_release (List.mem_cons_of_mem _ hs.1))
        · rw [hops] at hc
          obtain ⟨-, rfl⟩ := List.cons.inj hc
          exact hf b hops
      | _ => simp [transmits, hops] at hb
  | periodic =>
    simp only [transmits] at hb
    split at hb
    · next bufs hp =>
      obtain ⟨hne, rfl⟩ := periodic_resend hp
      rw [restamp_packets ho.inRange hne] at hb
      rw [ho.balanced.mem_iff]
      exact List.mem_append_left _ hb
    · cases hb
  | _ => simp [transmits] at hb

theorem quiet_of_owned {w : World} (ho : Owned w) (happ : w.app = .idle) (hao : w.appOps = [])
    (hio : w.ipOps = []) :
    w.pool.Perm (w.queued ++ w.held.map Prod.fst) ∧ w.pool.length < 4 + w.held.length := by
  have hp := ho.balanced.perm
  rw [World.owners, happ, hao, hio] at hp
  have hp' : w.pool.Perm (w.queued ++ w.held.map Prod.fst) := hp
  refine ⟨hp', ?_⟩
  have hlen := hp'.length_eq
  have hring : w.sock.txbuf.items.length < 4 := Ring.length_items_lt ho.inRange
  rw [List.length_append, World.queued, List.length_map, List.length_map] at hlen
  omega

theorem released_once {w w' : World} {e : Act × Env} (ho : Owned w) (h : step w e = some w') :
    ∀ b ∈ released w e, b ∈ w.pool ∧ b ∉ w'.pool := by
  obtain ⟨a, env⟩ := e
  intro b hb
  cases a with
  | ipOp =>
    cases hops : w.ipOps with
    | nil => simp [released, hops] at hb
    | cons op rest =>
      cases op with
      | release c =>
        obtain rfl : b = c := by simpa [released, hops] using hb
        obtain rfl : { w with pool := w.pool.erase b, ipOps := rest } = w' := by
          simpa [step, ipOpStep, hops, runOp] using h
        refine ⟨mem_pool_of_pending ho (Or.inl ?_), ho.balanced.nodup.not_mem_erase⟩
        rw [hops]
        exact mem_ownedBy_of_release List.mem_cons_self
      | _ => simp [released, hops] at hb
  | app =>
    cases hops : w.appOps with
    | nil => simp [released, hops] at hb
    | cons op rest =>
      cases op with
      | release c =>
        obtain rfl : b = c := by simpa [released, hops] using hb
        obtain rfl : { w with pool := w.pool.erase b, appOps := rest } = w' := by
          simpa [step, appOpStep, hops, runOp] using h
        refine ⟨mem_pool_of_pending ho (Or.inr ?_), ho.balanced.nodup.not_mem_erase⟩
        rw [hops]
        exact mem_ownedBy_of_release List.mem_cons_self
      | _ => simp [released, hops] at hb
  | _ => simp [released] at hb

/-- Transmit-buffer ownership, over every run in which no queued packet is released
between its lock section and its first transmission. -/
theorem transmit_buffer_ownership {w w' : World} {e : Act × Env}
    (h : system.Reaches FirstSendDone w) (hs : step w e = some w') : BufferSafe w e w' := by
  have ho := reaches_owned h
  have ho' := owned_step ho (step_transition hs)
  exact ⟨ho'.balanced, released_once ho hs, transmits_allocated ho (reaches_firstSend h),
    quiet_of_owned ho'⟩

/-- `accept` queues its SYN|ACK in buffer 1 and drops the lock. -/
def acceptQueued (env : Env) : List (Act × Env) :=
  [(.listenSyn ⟨⟨1⟩, 7, 0, 100⟩ 80, env), (.accept, env), (.app, env), (.app, env)]

def quietEnv : Env where
  now := 0
  pid := 0
  buf := 1
  size := 114
  allocOk := true
  expired := false

/-- A reset and the next period free the packet before the application has sent it. -/
def resetBeforeSend : List (Act × Env) :=
  acceptQueued quietEnv ++
    [(.rx ⟨0, 0, tcpRst, 0, some none, [], length_nil_lt⟩, quietEnv), (.periodic, quietEnv),
      (.ipOp, quietEnv)]

theorem send_after_release : ¬ ∀ w e w', system.Reaches System.anyStep w → step w e = some w' →
    BufferSafe w e w' := by
  intro h
  have hrun : (system.run World.zeroed resetBeforeSend).any
      (fun w => transmits w (.app, quietEnv) == [1] && w.pool == []
        && (step w (.app, quietEnv)).isSome) = true := by decide +kernel
  obtain ⟨w, hw, hp⟩ := System.exists_of_run World.zeroed_initial hrun
  simp only [Bool.and_eq_true, beq_iff_eq] at hp
  obtain ⟨w', hs⟩ := Option.isSome_iff_exists.mp hp.2
  have hmem := (h w _ w' hw hs).transmitted 1 (by rw [hp.1.1]; exact List.mem_singleton.mpr rfl)
  rw [hp.1.2] at hmem
  cases hmem

/-- In the same opening the packet is allocated when the application sends it at once. -/
theorem transmit_buffer_ownership_accept :
    ∃ w w', system.Reaches FirstSendDone w ∧ transmits w (.app, quietEnv) = [1] ∧
      BufferSafe w (.app, quietEnv) w' := by
  let noIpOp : World → Act × Env → Bool := fun _ e => match e.1 with
    | .ipOp => false
    | _ => true
  have hok : ∀ w e, noIpOp w e = true → FirstSendDone w e := by
    rintro w ⟨a, env⟩ hb rfl
    cases hb
  have hrun : (system.runChecked noIpOp World.zeroed (acceptQueued quietEnv)).any
      (fun w => transmits w (.app, quietEnv) == [1]
        && (step w (.app, quietEnv)).isSome) = true := by decide +kernel
  obtain ⟨w, hw, hp⟩ := System.exists_of_runChecked hok World.zeroed_initial hrun
  simp only [Bool.and_eq_true, beq_iff_eq] at hp
  obtain ⟨w', hs⟩ := Option.isSome_iff_exists.mp hp.2
  exact ⟨w, w', hw, hp.1, transmit_buffer_ownership hw hs⟩

end MiMic.Tcp
