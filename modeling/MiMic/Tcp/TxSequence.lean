import MiMic.Lib.Contiguous
import MiMic.Tcp.Checksum
import MiMic.Tcp.Teardown

/-!
# The sequence numbers of the queued packets

The queued packets cover the sequence space up to `snd_nxt32` without a gap, carry
the present `rcv_nxt32` and verify, in whatever order they are built, rewritten in
place and dropped. What breaks this is a reset built beside a queue in use, and a
handshake that keeps its SYN.
-/
namespace MiMic.Tcp

open Verif

def TxPacket.seqno (p : TxPacket) : UInt32 := ntohl p.tcph.seqno32

/-- A packet that a receiver would take: its checksum holds and it acknowledges `rcvNxt32`. -/
structure TxPacket.Current (p : TxPacket) (rcvNxt32 : UInt32) : Prop where
  sized : p.Sized
  verifies : p.ChksumVerifies
  ackno : p.tcph.ackno32 = htonl rcvNxt32

structure TxQueueSound (w : World) : Prop where
  spans : ∀ x ∈ w.pending, (w.mem x.1).seqno + (w.mem x.1).seqSpan = ntohl x.2
  contiguous : Contiguous (fun x : BufId × UInt32 => (w.mem x.1).seqno) (fun x => ntohl x.2)
    w.sock.uipConnr.sndNxt32 w.pending
  current : ∀ x ∈ w.pending, (w.mem x.1).Current w.sock.uipConnr.rcvNxt32

/-- What the application was given, or holds, fits behind the headers of its buffer. -/
def AppPc.Fits : AppPc → Prop
  | .allocWindow _ size _ => size ∈ txBufSizes
  | .allocWindowRetry _ size _ => size ∈ txBufSizes
  | .psendState _ data _ => data.length ≤ maxPayload
  | .psendLock _ data _ _ => data.length ≤ maxPayload
  | _ => True

structure DataFits (w : World) : Prop where
  held : ∀ x ∈ w.held, x.2.toNat ≤ maxPayload
  app : w.app.Fits

theorem min_le_left {a b : UInt16} : (if a < b then a else b).toNat ≤ b.toNat := by
  split
  · next h => exact Nat.le_of_lt h
  · exact Nat.le_refl _

theorem sendSize_le (conn : UipConn) {size : UInt16} (h : size ∈ txBufSizes) :
    (sendSize conn size).toNat ≤ maxPayload := by
  have hsize : (size - sizeOfIPv4TcpIpHeader).toNat ≤ maxPayload := by
    simp only [txBufSizes, List.mem_cons, List.not_mem_nil, or_false] at h
    rcases h with rfl | rfl | rfl | rfl <;> decide
  unfold sendSize
  exact min_le_left.trans (min_le_left.trans hsize)

theorem fits_goto {w : World} {env : Env} {pc : AppPc} (hd : DataFits w) (h : Goto w env pc) :
    pc.Fits := by
  have hp := hd.app
  cases h with
  | psend hat hmem hlen => exact hlen.trans (hd.held _ hmem)
  | @waitAcked k => cases k <;> trivial
  | allocWindow hat => rw [hat.app_eq] at hp; exact hp
  | @allocWindowSend buf size data hat =>
    rw [hat.app_eq] at hp
    refine (List.length_take_le _ _).trans (sendSize_le _ hp)
  | allocWindowAgain hat => rw [hat.app_eq] at hp; exact hp
  | psendStateLock hat => rw [hat.app_eq] at hp; exact hp
  | psendFull hat => rw [hat.app_eq] at hp; exact hp
  | _ => trivial

theorem dataFits_step {w w' : World} {a : Act} {env : Env} (hd : DataFits w)
    (h : Transition w env a w') : DataFits w' := by
  have htake : ∀ buf inSend, ∀ x ∈ psendTake w.held buf inSend, x.2.toNat ≤ maxPayload := by
    intro buf inSend x hx
    cases inSend with
    | true => exact hd.held x hx
    | false => exact hd.held x (List.mem_of_mem_eraseP hx)
  cases h with
  | ipOp hops hr =>
    obtain ⟨-, -, hheld, happ, -⟩ := runOp_frame hr
    exact ⟨hheld ▸ hd.held, happ ▸ hd.app⟩
  | appOp hops hr =>
    obtain ⟨-, -, hheld, happ, -⟩ := runOp_frame hr
    exact ⟨hheld ▸ hd.held, happ ▸ hd.app⟩
  | create => exact ⟨hd.held, trivial⟩
  | connect => exact ⟨hd.held, trivial⟩
  | close => exact ⟨hd.held, trivial⟩
  | releaseSendBuf => exact ⟨fun x hx => hd.held x (List.mem_of_mem_eraseP hx), hd.app⟩
  | pseek => exact ⟨hd.held, trivial⟩
  | finalize => exact ⟨hd.held, trivial⟩
  | goto _ hg => exact ⟨hd.held, fits_goto hd hg⟩
  | giveUp hg =>
    refine ⟨hd.held, ?_⟩
    cases hg <;> trivial
  | swrAlloc => exact ⟨hd.held, trivial⟩
  | swrQueue =>
    refine ⟨hd.held, ?_⟩
    dsimp only
    split <;> trivial
  | closeDone => exact ⟨hd.held, trivial⟩
  | forceClose => exact ⟨hd.held, trivial⟩
  | allocTry hat hf hs => exact ⟨hd.held, hs⟩
  | allocUser hat =>
    have hp := hd.app
    rw [hat.app_eq] at hp
    refine ⟨fun x hx => ?_, trivial⟩
    rcases List.mem_cons.mp hx with rfl | hx
    · exact sendSize_le _ hp
    · exact hd.held x hx
  | psendEmpty => exact ⟨htake _ _, trivial⟩
  | psendQueue => exact ⟨htake _ _, trivial⟩
  | pseekPop => exact ⟨hd.held, trivial⟩
  | _ => exact ⟨hd.held, hd.app⟩

theorem reaches_dataFits {ok : World → Act × Env → Prop} {w : World}
    (h : system.Reaches ok w) : DataFits w := by
  refine h.invariant (P := DataFits) ?_ ?_
  · intro s hs
    refine ⟨?_, by rw [hs.app_eq]; trivial⟩
    rw [hs.held_eq]
    exact fun x hx => absurd hx List.not_mem_nil
  · intro s e s' hd _ hs
    exact dataFits_step hd (step_transition hs)

theorem mem_queued {w : World} {x : BufId × UInt32} (h : x ∈ w.pending) : x.1 ∈ w.queued := by
  obtain ⟨it, hit, rfl⟩ := List.mem_map.mp h
  exact List.mem_map_of_mem hit

/-- A buffer that a task holds is none of the queued ones. -/
theorem ne_of_pending {w : World} (ho : Owned w) {x : BufId × UInt32} (hx : x ∈ w.pending)
    {b : BufId} (hb : b ∈ ownedBy w.ipOps ∨ b ∈ ownedBy w.appOps ∨ b ∈ w.app.owned ∨
      b ∈ w.held.map Prod.fst) : x.1 ≠ b := by
  have hnd := ho.balanced.owners_nodup
  rw [World.owners, List.nodup_append] at hnd
  refine hnd.2.2 _ (mem_queued hx) b ?_
  simp only [List.mem_append]
  exact hb

theorem ne_of_fresh {w : World} (ho : Owned w) {x : BufId × UInt32} (hx : x ∈ w.pending)
    {b : BufId} (hb : b ∉ w.pool) : x.1 ≠ b := by
  rintro rfl
  refine hb (ho.balanced.mem_iff.mpr ?_)
  exact List.mem_append_left _ (mem_queued hx)

theorem sound_of_empty {w : World} (h : w.pending = []) : TxQueueSound w := by
  refine ⟨?_, by rw [h]; trivial, ?_⟩
  · rw [h]
    exact fun x hx => absurd hx List.not_mem_nil
  · rw [h]
    exact fun x hx => absurd hx List.not_mem_nil

/-- A suffix of the queue stays, each packet as it was or with its number rewritten. -/
theorem sound_kept {w w' : World} (hs : TxQueueSound w) {k : Nat}
    (hp : w'.pending = w.pending.drop k)
    (hsnd : w'.pending ≠ [] → w'.sock.uipConnr.sndNxt32 = w.sock.uipConnr.sndNxt32)
    (hmem : ∀ x ∈ w'.pending,
      w'.mem x.1 = w.mem x.1 ∧ w'.sock.uipConnr.rcvNxt32 = w.sock.uipConnr.rcvNxt32 ∨
      w'.mem x.1 = updateAckNo (w.mem x.1) (htonl w'.sock.uipConnr.rcvNxt32)) :
    TxQueueSound w' := by
  have hsub : ∀ x ∈ w'.pending, x ∈ w.pending := by
    rw [hp]
    exact fun x hx => List.mem_of_mem_drop hx
  have hseq : ∀ x ∈ w'.pending, (w'.mem x.1).seqno = (w.mem x.1).seqno ∧
      (w'.mem x.1).seqSpan = (w.mem x.1).seqSpan := by
    intro x hx
    rcases hmem x hx with ⟨he, -⟩ | he <;> rw [he] <;> exact ⟨rfl, rfl⟩
  refine ⟨fun x hx => ?_, ?_, fun x hx => ?_⟩
  · rw [(hseq x hx).1, (hseq x hx).2]
    exact hs.spans x (hsub x hx)
  · by_cases hnil : w'.pending = []
    · rw [hnil]
      trivial
    · rw [hsnd hnil]
      refine Contiguous.congr ?_ (fun x hx => (hseq x hx).1) fun _ _ => rfl
      rw [hp]
      exact hs.contiguous.drop k
  · have hcur := hs.current x (hsub x hx)
    rcases hmem x hx with ⟨he, hrcv⟩ | he
    · rw [he, hrcv]
      exact hcur
    · rw [he]
      exact ⟨Sized_updateAckNo hcur.sized _, chksumVerifies_updateAckNo hcur.sized _, rfl⟩

theorem sound_same {w w' : World} (hs : TxQueueSound w) (hp : w'.pending = w.pending)
    (hsnd : w'.sock.uipConnr.sndNxt32 = w.sock.uipConnr.sndNxt32)
    (hrcv : w'.sock.uipConnr.rcvNxt32 = w.sock.uipConnr.rcvNxt32)
    (hmem : ∀ x ∈ w.pending, w'.mem x.1 = w.mem x.1) : TxQueueSound w' :=
  sound_kept (k := 0) hs hp (fun _ => hsnd) fun x hx => Or.inl ⟨hmem x (hp ▸ hx), hrcv⟩

/-- A new packet from `snd_nxt32` on goes to the end of the queue. -/
theorem sound_push {w w' : World} {b : BufId} {ackno : UInt32} (hs : TxQueueSound w)
    (hp : w'.pending = w.pending ++ [(b, ackno)]) (hmem : ∀ x ∈ w.pending, w'.mem x.1 = w.mem x.1)
    (hrcv : w'.sock.uipConnr.rcvNxt32 = w.sock.uipConnr.rcvNxt32)
    (hseq : (w'.mem b).seqno = w.sock.uipConnr.sndNxt32)
    (hspan : w.sock.uipConnr.sndNxt32 + (w'.mem b).seqSpan = w'.sock.uipConnr.sndNxt32)
    (hack : ackno = htonl w'.sock.uipConnr.sndNxt32)
    (hcur : (w'.mem b).Current w'.sock.uipConnr.rcvNxt32) : TxQueueSound w' := by
  have hend : ntohl ackno = w'.sock.uipConnr.sndNxt32 := by rw [hack, ntohl_htonl]
  refine ⟨fun x hx => ?_, ?_, fun x hx => ?_⟩
  · rw [hp, List.mem_append, List.mem_singleton] at hx
    rcases hx with hx | rfl
    · rw [hmem x hx]
      exact hs.spans x hx
    · rw [hseq, hspan, hend]
  · rw [hp]
    refine Contiguous.append (e := w.sock.uipConnr.sndNxt32) ?_ hseq hend
    exact hs.contiguous.congr (fun x hx => by rw [hmem x hx]) fun _ _ => rfl
  · rw [hp, List.mem_append, List.mem_singleton] at hx
    rcases hx with hx | rfl
    · rw [hmem x hx, hrcv]
      exact hs.current x hx
    · exact hcur

/-- A reset is built only over an empty queue, and a segment that acknowledges the SYN of
a connecting socket has ACK, unless `rcv_nxt32` or the queued packet follow anyway. -/
structure SequenceKept (w : World) (e : Act × Env) : Prop where
  ip : e.1 = .ipOp → ∀ b rest, w.ipOps = .rstLock b :: rest → w.pending = []
  app : e.1 = .app → ∀ b rest, w.appOps = .rstLock b :: rest → w.pending = []
  syn : ∀ seg, e.1 = .rx seg → hasFlag seg.flags tcpRst = false →
    w.sock.tcpstateflags = .synSent → w.pending ≠ [] →
    getNumOfSending w.sock.txbuf seg.ackno32 = 0 →
    hasFlag seg.flags tcpAck = true ∨ isNewPacket w.sock seg = true ∨
      ntohl seg.seqno32 + 1 = w.sock.uipConnr.rcvNxt32

theorem sound_rx {w w' : World} {env : Env} {seg : TcpSegment} {r : RxResult} (ho : Owned w)
    (hq : OpeningQueue w) (hs : TxQueueSound w) (hok : SequenceKept w (.rx seg, env))
    (hr : parseRx w.sock w.mem env.now seg = some r) (hw : w'.sock = r.sock)
    (hmem : ∀ x ∈ w'.pending, w'.mem x.1 = r.mem x.1) : TxQueueSound w' := by
  obtain ⟨k, hk⟩ := pending_rx ho hr
  have hp : w'.pending = w.pending.drop k := by rw [World.pending, hw, hk]
  refine sound_kept hs hp (fun _ => by rw [hw, (parseRx_conn hr).1]) fun x hx => ?_
  have hxr : x.1 ∈ r.sock.txbuf.items.map (·.packet) := by
    have hmq := mem_queued hx
    rwa [World.queued, hw] at hmq
  rw [hmem x hx, hw]
  rcases parseRx_mem hr x.1 with ⟨he, hcase⟩ | ⟨he, -⟩
  · have hold : hasFlag seg.flags tcpRst = true ∨ isNewPacket w.sock seg = false := by
      rcases hcase with h | h | h
      · exact Or.inl h
      · exact Or.inr h
      · exact absurd hxr h
    rcases parseRx_rcv hr hold with hrcv | ⟨hrst, hst, hcount, hrcv⟩
    · exact Or.inl ⟨he, hrcv⟩
    · have hne : w.pending ≠ [] := by
        intro hnil
        rw [hp, hnil, List.drop_nil] at hx
        cases hx
      rcases hok.syn seg rfl hrst hst hne hcount with hack | hnew | hsame
      · exfalso
        rcases (getNumOfSending_eq_zero _ _).mp hcount with hnil | ⟨it, rest, hi, hm⟩
        · exact hne (by rw [World.pending, hnil, List.map_nil])
        · have hlen := (hq (by rw [hst]; rfl)).length_le
          rw [World.pending, hi, List.map_cons, List.length_cons, List.length_map] at hlen
          rw [parseRx_head ho.inRange hr hrst hack hi hm,
            List.length_eq_zero_iff.mp (show rest.length = 0 by omega)] at hxr
          cases hxr
      · rcases hold with h | h
        · rw [hrst] at h
          cases h
        · rw [hnew] at h
          cases h
      · exact Or.inl ⟨he, hrcv.trans hsame⟩
  · exact Or.inr he

theorem sound_runOp {w w₁ w' : World} {env : Env} {op : Op} {ops : List Op}
    (hs : TxQueueSound w) (hr : runOp w env op = some (w₁, ops)) (hsock : w'.sock = w₁.sock)
    (hmem : w'.mem = w₁.mem) (hown : ∀ x ∈ w.pending, ∀ b ∈ op.owned, x.1 ≠ b)
    (hlock : ∀ b, op = .rstLock b → w.pending = []) : TxQueueSound w' := by
  have hp : w'.pending = w.pending := by
    rw [World.pending, hsock, (runOp_frame hr).1]
    rfl
  cases op with
  | release b =>
    obtain ⟨rfl, -⟩ := Prod.mk.inj (Option.some.inj hr)
    exact sound_same hs hp (by rw [hsock]) (by rw [hsock]) fun x _ => by rw [hmem]
  | send b =>
    obtain ⟨rfl, -⟩ := Prod.mk.inj (Option.some.inj hr)
    exact sound_same hs hp (by rw [hsock]) (by rw [hsock]) fun x _ => by rw [hmem]
  | rstAlloc =>
    simp only [runOp] at hr
    split at hr
    · obtain ⟨rfl, -⟩ := Prod.mk.inj (Option.some.inj hr)
      exact sound_same hs hp (by rw [hsock]) (by rw [hsock]) fun x _ => by rw [hmem]
    · cases hr
  | rstLock b => exact sound_of_empty (hp.trans (hlock b rfl))
  | rstBuild b =>
    obtain ⟨rfl, -⟩ := Prod.mk.inj (Option.some.inj hr)
    refine sound_same hs hp (by rw [hsock]) (by rw [hsock]) fun x hx => ?_
    rw [hmem]
    exact Function.update_of_ne (hown x hx b (List.mem_singleton.mpr rfl)) _ _

/-- The packet that `sendWithRetransmit` writes: no data, one number for SYN or FIN. -/
theorem sound_swrQueue {w w' : World} {env : Env} {k : Caller} {tcpf : UInt8} {buf : BufId}
    {size : UInt16} {wait : SwrWait} (ho : Owned w) (hs : TxQueueSound w)
    (hat : w.At (.swrLock k tcpf [] buf size wait)) (hfree : getTxQ w.sock = .free)
    (hsock : w'.sock =
      (sendWithRetransmitQueue w.sock w.mem env.now env.pid tcpf [] buf size).1)
    (hmem : w'.mem = (sendWithRetransmitQueue w.sock w.mem env.now env.pid tcpf [] buf size).2) :
    TxQueueSound w' := by
  have hsize : swrSize w.sock.uipConnr size (UInt16.ofNat ([] : List UInt8).length) = 0 :=
    swrSize_nil _ _
  have hupd : w'.mem =
      Function.update w.mem buf (setTxPacket w.sock env.pid (w.mem buf) tcpf []) := by
    rw [hmem]
    simp only [sendWithRetransmitQueue, List.take_nil]
  have hnew : w'.mem buf = setTxPacket w.sock env.pid (w.mem buf) tcpf [] := by
    rw [hupd, Function.update_self]
  have hother : ∀ x ∈ w.pending, w'.mem x.1 = w.mem x.1 := by
    intro x hx
    have hne : x.1 ≠ buf := by
      refine ne_of_pending ho hx (Or.inr (Or.inr (Or.inl ?_)))
      rw [hat.app_eq]
      exact List.mem_singleton.mpr rfl
    rw [hupd, Function.update_of_ne hne]
  have hsnd : w'.sock.uipConnr.sndNxt32 = swrNextAck w.sock.uipConnr tcpf 0 := by
    rw [hsock, ← hsize]
    rfl
  have hrcv : w'.sock.uipConnr.rcvNxt32 = w.sock.uipConnr.rcvNxt32 := by
    rw [hsock]
    rfl
  refine sound_push hs (pending_push ho hfree (by rw [hsock]; rfl)) hother hrcv ?_ ?_
    (by rw [hsock]; rfl) ?_
  · rw [hnew, TxPacket.seqno, seqno32_setTxPacket, ntohl_htonl]
  · rw [hsnd, hnew, TxPacket.seqSpan, payloadLength_setTxPacket, flags_setTxPacket, swrNextAck,
      UInt32.add_assoc]
    rfl
  · rw [hnew, hrcv]
    exact ⟨Sized_setTxPacket _ _ _ _ (Nat.zero_le _),
      chksumVerifies_setTxPacket _ _ _ _ (Nat.zero_le _), ackno32_setTxPacket _ _ _ _ _⟩

/-- The data packet of `psend`. -/
theorem sound_psendQueue {w w' : World} {env : Env} {buf : BufId} {data : List UInt8}
    {inSend retry : Bool} (ho : Owned w) (hd : DataFits w) (hs : TxQueueSound w)
    (hat : w.At (.psendLock buf data inSend retry)) (hfree : getTxQ w.sock = .free)
    (hsock : w'.sock = (psendQueue w.sock w.mem env.now env.pid buf data).1)
    (hmem : w'.mem = (psendQueue w.sock w.mem env.now env.pid buf data).2) : TxQueueSound w' := by
  have hlen : data.length ≤ maxPayload := by
    have hp := hd.app
    rw [hat.app_eq] at hp
    exact hp
  have hupd : w'.mem = Function.update w.mem buf (setTxPacketHeader w.sock env.pid
      { w.mem buf with body := data } (tcpAck ||| tcpPsh) (UInt16.ofNat data.length)) := hmem
  have hnew : w'.mem buf = setTxPacketHeader w.sock env.pid { w.mem buf with body := data }
      (tcpAck ||| tcpPsh) (UInt16.ofNat data.length) := by
    rw [hupd, Function.update_self]
  have howned : buf ∈ w.app.owned ∨ buf ∈ w.held.map Prod.fst := by
    cases inSend with
    | true => exact Or.inl (by rw [hat.app_eq]; exact List.mem_singleton.mpr rfl)
    | false =>
      obtain ⟨size, hmem⟩ := psendLock_held (hat.app_eq ▸ ho.proper) rfl
      exact Or.inr (List.mem_map_of_mem hmem)
  have hother : ∀ x ∈ w.pending, w'.mem x.1 = w.mem x.1 := by
    intro x hx
    have hne : x.1 ≠ buf := ne_of_pending ho hx (Or.inr (Or.inr howned))
    rw [hupd, Function.update_of_ne hne]
  have hsnd : w'.sock.uipConnr.sndNxt32 =
      w.sock.uipConnr.sndNxt32 + (UInt16.ofNat data.length).toUInt32 := by
    rw [hsock]
    rfl
  have hrcv : w'.sock.uipConnr.rcvNxt32 = w.sock.uipConnr.rcvNxt32 := by
    rw [hsock]
    rfl
  refine sound_push hs (pending_push ho hfree (by rw [hsock]; rfl)) hother hrcv ?_ ?_
    (by rw [hsock]; rfl) ?_
  · rw [hnew, TxPacket.seqno, seqno32_setTxPacketHeader, ntohl_htonl]
  · have hflag : hasFlag (tcpAck ||| tcpPsh) (tcpFin ||| tcpSyn) = false := by decide
    rw [hsnd, hnew, TxPacket.seqSpan, payloadLength_setTxPacketHeader, flags_setTxPacketHeader,
      hflag]
    simp
  · rw [hnew, hrcv]
    exact ⟨Sized_setTxPacketHeader w.sock env.pid { w.mem buf with body := data } _ hlen,
      chksumVerifies_setTxPacketHeader w.sock env.pid { w.mem buf with body := data } _ hlen,
      ackno32_setTxPacketHeader _ _ _ _ _⟩

theorem pending_reset {w w' : World} (ho : Owned w) (ht : w'.sock.txbuf = w.sock.txbuf.reset) :
    w'.pending = [] := by
  rw [World.pending, ht, Ring.items_reset ho.inRange, List.map_nil]

theorem pending_resetIfUsed {w w' : World} (ho : Owned w)
    (ht : w'.sock.txbuf = (resetTxQIfUsed w.sock.txbuf).1) : w'.pending = [] := by
  rw [World.pending, ht, (resetTxQIfUsed_spec ho.inRange).2.1, List.map_nil]

theorem sound_step {w w' : World} {a : Act} {env : Env} (ho : Owned w) (hq : OpeningQueue w)
    (hd : DataFits w) (hs : TxQueueSound w) (hok : SequenceKept w (a, env))
    (h : Transition w env a w') : TxQueueSound w' := by
  cases h with
  | rx hops hr => exact sound_rx ho hq hs hok hr rfl fun _ _ => rfl
  | @rxReply seg r hops hr hf =>
    refine sound_rx ho hq hs hok hr rfl fun x hx => ?_
    obtain ⟨k, hk⟩ := pending_rx ho hr
    have hmem : x ∈ w.pending := by
      have hx' : x ∈ w.pending.drop k := hk ▸ hx
      exact List.mem_of_mem_drop hx'
    exact Function.update_of_ne (ne_of_fresh ho hmem hf) _ _
  | periodicFree => exact sound_of_empty (pending_reset (w := w) ho rfl)
  | periodicResend hops hc hne =>
    exact sound_same hs (pending_restamp ho.inRange hne env.now) rfl rfl fun _ _ => rfl
  | periodicAbort hops hc hne =>
    refine sound_of_empty ?_
    rw [World.pending]
    show List.map _ (restamp w.sock.txbuf env.now).reset.items = []
    rw [Ring.items_reset (restamp_inRange ho.inRange _), List.map_nil]
  | stop => exact sound_of_empty (pending_reset (w := w) ho rfl)
  | @ipOp op rest w₁ ops hops hr =>
    refine sound_runOp hs hr rfl rfl (fun x hx b hb => ?_) fun b hb => ?_
    · refine ne_of_pending ho hx (Or.inl ?_)
      rw [hops, ownedBy_cons]
      exact List.mem_append_left _ hb
    · exact hok.ip rfl b rest (hb ▸ hops)
  | @appOp op rest w₁ ops hops hr =>
    refine sound_runOp hs hr rfl rfl (fun x hx b hb => ?_) fun b hb => ?_
    · refine ne_of_pending ho hx (Or.inr (Or.inl ?_))
      rw [hops, ownedBy_cons]
      exact List.mem_append_left _ hb
    · exact hok.app rfl b rest (hb ▸ hops)
  | create => exact sound_of_empty (pending_reset (w := w) ho rfl)
  | connect hat hc =>
    exact sound_of_empty (pending_resetIfUsed (w := w) ho (connectOpen_spec hc).2.2.1)
  | listenSyn hat hl =>
    exact sound_of_empty (pending_resetIfUsed (w := w) ho (listenSyn_spec hl).2.2.1)
  | finalize => exact sound_of_empty (pending_resetIfUsed (w := w) ho rfl)
  | swrQueue hat hfree =>
    have hdata := ho.proper
    rw [hat.app_eq] at hdata
    obtain ⟨rfl, -⟩ := hdata
    exact sound_swrQueue ho hs hat hfree rfl rfl
  | psendQueue hat hfree => exact sound_psendQueue ho hd hs hat hfree rfl rfl
  | pseekPop hat =>
    refine sound_same hs rfl rfl rfl fun x hx => ?_
    refine Function.update_of_ne (ne_of_pending ho hx (Or.inr (Or.inr (Or.inl ?_)))) _ _
    rw [hat.app_eq]
    exact List.mem_singleton.mpr rfl
  | _ => exact sound_same hs rfl rfl rfl fun _ _ => rfl

/-- The ring in range with a free slot, its packets adjacent up to `snd_nxt32`, and each
queued packet current whenever a step transmits it. -/
structure TxInvariant (w : World) : Prop where
  rp_lt : w.sock.txbuf.rp < numberOfTxq
  wp_lt : w.sock.txbuf.wp < numberOfTxq
  atMost : w.sock.txbuf.items.length ≤ numberOfTxq - 1
  spans : ∀ x ∈ w.pending, (w.mem x.1).seqno + (w.mem x.1).seqSpan = ntohl x.2
  contiguous : Contiguous (fun x : BufId × UInt32 => (w.mem x.1).seqno) (fun x => ntohl x.2)
    w.sock.uipConnr.sndNxt32 w.pending
  transmitted : ∀ e, ∀ b ∈ transmits w e, b ∈ w.queued →
    (w.mem b).tcph.ackno32 = htonl w.sock.uipConnr.rcvNxt32 ∧ (w.mem b).ChksumVerifies

theorem reaches_sound {w : World} (h : system.Reaches SequenceKept w) : TxQueueSound w := by
  have hknown : ∀ s, system.Reaches SequenceKept s → Owned s ∧ OpeningQueue s ∧ DataFits s :=
    fun _ hs => ⟨reaches_owned hs, reaches_openingQueue hs, reaches_dataFits hs⟩
  refine h.invariant_of (P := TxQueueSound) hknown ?_ ?_
  · intro s hs
    have hr := (owned_init hs).inRange
    refine sound_of_empty ?_
    rw [World.pending, (Ring.items_eq_nil hr).mpr (hs.rp_eq.trans hs.wp_eq.symm), List.map_nil]
  · rintro s e s' ⟨ho, hq, hd⟩ hsound hok hs
    exact sound_step ho hq hd hsound hok (step_transition hs)

/-- The transmit-queue invariant, over every run that builds no reset beside a used queue
and leaves `SYN_SENT` only by an acknowledgement. -/
theorem tx_sequence {w : World} (h : system.Reaches SequenceKept w) : TxInvariant w := by
  have ho := reaches_owned h
  have hs := reaches_sound h
  refine ⟨ho.inRange.rp_lt, ho.inRange.wp_lt, ?_, hs.spans, hs.contiguous, ?_⟩
  · exact Nat.le_pred_of_lt (Ring.length_items_lt ho.inRange)
  · intro e b _ hb
    obtain ⟨it, hit, rfl⟩ := List.mem_map.mp hb
    have hcur := hs.current (it.packet, it.ackno) (List.mem_map_of_mem hit)
    exact ⟨hcur.ackno, hcur.verifies⟩

/-- `close` gives up waiting for its FIN: it closes the socket and builds a reset while the
FIN is still queued. -/
def closeTimesOut : List (Act × Env) :=
  connected ++ [(.close, quietEnv), (.app, quietEnv), (.app, quietEnv), (.app, quietEnv),
    (.app, quietEnv), (.app, { quietEnv with expired := true }), (.app, quietEnv),
    (.app, { quietEnv with buf := 2 }), (.app, quietEnv)]

theorem reset_beside_queue : ¬ ∀ w, system.Reaches System.anyStep w → TxInvariant w := by
  intro h
  have hrun : (system.run World.zeroed closeTimesOut).any
      (fun w => w.pending == [(1, htonl 3941)] && w.sock.uipConnr.sndNxt32 == 3942) = true := by
    decide +kernel
  obtain ⟨w, hw, hp⟩ := System.exists_of_run World.zeroed_initial hrun
  simp only [Bool.and_eq_true, beq_iff_eq] at hp
  obtain ⟨hpend, hsnd⟩ := hp
  have hcont := (h w hw).contiguous
  rw [hpend] at hcont
  have hend : ntohl (htonl 3941) = w.sock.uipConnr.sndNxt32 := hcont.1
  rw [hsnd, ntohl_htonl] at hend
  exact absurd hend (by decide)

/-- `SequenceKept` for the steps of a replay, computed. -/
def sequenceKept (w : World) (e : Act × Env) : Bool :=
  match e.1 with
  | .ipOp => match w.ipOps with
    | .rstLock _ :: _ => w.pending.isEmpty
    | _ => true
  | .app => match w.appOps with
    | .rstLock _ :: _ => w.pending.isEmpty
    | _ => true
  | .rx seg => hasFlag seg.flags tcpAck
  | _ => true

theorem sequenceKept_sound {w : World} {e : Act × Env} (h : sequenceKept w e = true) :
    SequenceKept w e := by
  obtain ⟨a, env⟩ := e
  constructor
  · rintro rfl b rest hops
    simpa [sequenceKept, hops] using h
  · rintro rfl b rest hops
    simpa [sequenceKept, hops] using h
  · rintro seg rfl - - - -
    exact Or.inl h

/-- A connection with 74 bytes in flight. -/
theorem tx_sequence_psend : ∃ w, w.pending = [(1, htonl 4014)] ∧ TxInvariant w := by
  have hrun : (system.runChecked sequenceKept World.zeroed
      (connected ++ sendBuffer ++ psendCalled ++ [(.app, quietEnv)])).any
      (fun w => w.pending == [(1, htonl 4014)]) = true := by decide +kernel
  obtain ⟨w, hw, hp⟩ :=
    System.exists_of_runChecked (fun _ _ => sequenceKept_sound) World.zeroed_initial hrun
  exact ⟨w, beq_iff_eq.mp hp, tx_sequence hw⟩

end MiMic.Tcp
