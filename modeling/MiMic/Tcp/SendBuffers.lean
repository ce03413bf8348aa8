import MiMic.Tcp.SendWindow
import MiMic.Tcp.Teardown

/-!
# What allocSendBuf returns

The history beside the system holds the segment size that was announced last, from the
events alone, and the buffers that were returned. A size is a minimum of three: the block is
large enough in every run, the other two are the peer's.
-/
namespace MiMic.Tcp

open Verif

/-- A buffer that was returned: its block, from the IP header on, and `o_buf_size`. -/
structure Returned where
  block : UInt16
  size : UInt16
deriving DecidableEq, Repr

structure BufferNote where
  mss : UInt16
  returned : List Returned

def BufferNote.unset : BufferNote := ⟨0, []⟩

/-- The MSS option of a segment that is processed. -/
def TcpSegment.announces (seg : TcpSegment) : Option UInt16 :=
  if hasFlag seg.flags tcpRst then none else seg.mmsOpt.join

/-- The block of the buffer that the next step of the application returns. -/
def World.returning (w : World) : Option UInt16 :=
  match w.app, w.appOps with
  | .allocWindow _ block _, [] => if w.sock.uipConnr.peerWin = 0 then none else some block
  | _, _ => none

/-- A new connection starts from the default of its service, or from the SYN it answers. -/
def noteBuffer (h : BufferNote) (w : World) (e : Act × Env) (w' : World) : BufferNote :=
  match e.1 with
  | .rx seg => { h with mss := seg.announces.getD h.mss }
  | .connect _ _ _ =>
      if w'.sock.tcpstateflags = w.sock.tcpstateflags then h
      else { h with mss := w.sock.uipConnr.defaultMss }
  | .listenSyn lq _ =>
      if w'.sock.tcpstateflags = w.sock.tcpstateflags then h
      else { h with mss := if lq.mss ≠ 0 then lq.mss else w.sock.uipConnr.defaultMss }
  | .app =>
      match w.returning with
      | none => h
      | some block => { h with returned := ⟨block, sendSize w.sock.uipConnr block⟩ :: h.returned }
  | _ => h

def bufferSystem : System (World × BufferNote) (Act × Env) := system.observe .unset noteBuffer

/-- A buffer is returned only while the peer leaves room for `room` bytes: by the segment size
it announced last, and by its window. -/
def LeavesRoom (room : UInt16) (p : World × BufferNote) (e : Act × Env) : Prop :=
  e.1 = .app → p.1.returning.isSome = true →
    room ≤ p.2.mss ∧ room ≤ p.1.sock.uipConnr.peerWin

theorem sendSize_toNat (conn : UipConn) {block : UInt16} (h : 40 ≤ block.toNat) :
    (sendSize conn block).toNat =
      min (min (block.toNat - 40) conn.peerMss.toNat) conn.peerWin.toNat := by
  have h40 : sizeOfIPv4TcpIpHeader.toNat = 40 := rfl
  have hsub : (block - sizeOfIPv4TcpIpHeader).toNat = block.toNat - 40 := by
    rw [UInt16.toNat_sub_of_le _ _ (by rw [UInt16.le_iff_toNat_le, h40]; exact h), h40]
  unfold sendSize
  dsimp only
  simp only [UInt16.lt_iff_toNat_lt, hsub]
  split <;> split <;> omega

theorem txBufSizes_ge {block : UInt16} (h : block ∈ txBufSizes) : 114 ≤ block.toNat := by
  simp only [txBufSizes, List.mem_cons, List.not_mem_nil, or_false] at h
  rcases h with rfl | rfl | rfl | rfl <;> decide

/-- Of a block there is always more than 74 bytes of room: the peer decides. -/
theorem room_le_sendSize {conn : UipConn} {block room : UInt16} (hb : block ∈ txBufSizes)
    (hroom : room.toNat ≤ 74) :
    room ≤ sendSize conn block ↔ room ≤ conn.peerMss ∧ room ≤ conn.peerWin := by
  have h114 := txBufSizes_ge hb
  simp only [UInt16.le_iff_toNat_le, sendSize_toNat conn (show 40 ≤ block.toNat by omega)]
  omega

theorem sendSize_add_le {conn : UipConn} {block : UInt16} (hb : block ∈ txBufSizes) :
    (sendSize conn block).toNat + 40 ≤ block.toNat := by
  have h114 := txBufSizes_ge hb
  rw [sendSize_toNat conn (by omega)]
  omega

/-- The block that `allocSendBuf` has got. -/
def AppPc.block : AppPc → Option UInt16
  | .allocWindow _ block _ => some block
  | .allocWindowRetry _ block _ => some block
  | _ => none

/-- `allocSendBuf` has seen the connection open. -/
def AppPc.allocating : AppPc → Bool
  | .allocTry _ => true
  | pc => pc.block.isSome

theorem allocating_of_block {pc : AppPc} {block : UInt16} (h : pc.block = some block) :
    pc.allocating = true := by
  cases pc with
  | allocWindow => rfl
  | allocWindowRetry => rfl
  | _ => cases h

theorem returning_spec {w : World} {block : UInt16} (h : w.returning = some block) :
    w.app.block = some block := by
  unfold World.returning at h
  split at h
  · next happ _ =>
    split at h
    · cases h
    · obtain rfl := Option.some.inj h
      rw [happ]
      rfl
  · cases h

/-- The socket holds the segment size on record; one that nobody opened yet may hold any,
but then it is closed and no buffer is being allocated. -/
structure BuffersKept (w : World) (h : BufferNote) : Prop where
  mss : w.sock.uipConnr.peerMss = h.mss ∨
    w.sock.tcpstateflags = .closed ∧ w.app.allocating = false
  block : ∀ block, w.app.block = some block → block ∈ txBufSizes
  returned : ∀ r ∈ h.returned, r.size.toNat + 40 ≤ r.block.toNat

theorem buffersKept_unset {w : World} (h : w.Initial) : BuffersKept w .unset := by
  refine ⟨Or.inr ⟨h.closed, ?_⟩, ?_, ?_⟩
  · rw [h.app_eq]
    rfl
  · rw [h.app_eq]
    exact fun block hb => by cases hb
  · exact fun r hr => absurd hr List.not_mem_nil

/-- A step that keeps both sizes keeps them equal, and it does not take a closed socket into
an allocation. -/
theorem mss_keep {w w' : World} {h h' : BufferNote}
    (hk : w.sock.uipConnr.peerMss = h.mss ∨
      w.sock.tcpstateflags = .closed ∧ w.app.allocating = false)
    (hnote : h'.mss = h.mss) (hmss : w'.sock.uipConnr.peerMss = w.sock.uipConnr.peerMss)
    (hstate : w.sock.tcpstateflags = .closed → w'.sock.tcpstateflags = .closed)
    (happ : w.sock.tcpstateflags = .closed → w'.app.allocating = true →
      w.app.allocating = true) :
    w'.sock.uipConnr.peerMss = h'.mss ∨
      w'.sock.tcpstateflags = .closed ∧ w'.app.allocating = false := by
  rcases hk with heq | ⟨hclosed, hidle⟩
  · exact Or.inl (by rw [hmss, hnote, heq])
  · refine Or.inr ⟨hstate hclosed, ?_⟩
    cases ha : w'.app.allocating with
    | false => rfl
    | true => rw [happ hclosed ha] at hidle; cases hidle

theorem parseRx_peerMss {sock : TcpSocket} {mem : TxMemory} {now : UInt32} {seg : TcpSegment}
    {r : RxResult} (h : parseRx sock mem now seg = some r) :
    r.sock.uipConnr.peerMss = seg.announces.getD sock.uipConnr.peerMss := by
  rcases parseRx_cases h with ⟨hrst, rfl⟩ | ⟨hrst, mms, hm, rfl⟩
  · rw [TcpSegment.announces, if_pos hrst]
    rfl
  · rw [TcpSegment.announces, if_neg (by simp [hrst]), hm]
    exact congrArg UipConn.peerMss (rxSwitch_conn sock seg mms)

theorem mss_rx {w w' : World} {h : BufferNote} {env : Env} {seg : TcpSegment} {r : RxResult}
    (hk : w.sock.uipConnr.peerMss = h.mss ∨
      w.sock.tcpstateflags = .closed ∧ w.app.allocating = false)
    (hr : parseRx w.sock w.mem env.now seg = some r) (hw : w'.sock = r.sock)
    (happ : w'.app = w.app) :
    w'.sock.uipConnr.peerMss = (noteBuffer h w (.rx seg, env) w').mss ∨
      w'.sock.tcpstateflags = .closed ∧ w'.app.allocating = false := by
  rw [hw, happ, parseRx_peerMss hr]
  simp only [noteBuffer]
  cases seg.announces with
  | some mss => exact Or.inl rfl
  | none => exact hk.imp_right fun hc => ⟨parseRx_closed hr hc.1, hc.2⟩

theorem connectOpen_peerMss {sock sock' : TcpSocket} {addr : IPv4Addr} {peerPort lport : UInt16}
    {dlist : List BufId} (h : connectOpen sock addr peerPort lport = some (sock', dlist)) :
    sock'.uipConnr.peerMss = sock.uipConnr.defaultMss := by
  unfold connectOpen at h
  split at h
  · cases h
  · split at h
    · cases h
    · obtain ⟨rfl, rfl⟩ := Prod.mk.inj (Option.some.inj h)
      rfl

theorem listenSyn_peerMss {sock sock' : TcpSocket} {lq : TcpSocketSynParam} {lport : UInt16}
    {dlist : List BufId} (h : listenSyn sock lq lport = some (sock', dlist)) :
    sock'.uipConnr.peerMss = if lq.mss ≠ 0 then lq.mss else sock.uipConnr.defaultMss := by
  unfold listenSyn at h
  split at h
  · obtain ⟨rfl, rfl⟩ := Prod.mk.inj (Option.some.inj h)
    rfl
  · cases h

/-- On the thread's own way only an open connection gets into an allocation. -/
theorem goto_allocating {w : World} {env : Env} {pc : AppPc} (h : Goto w env pc)
    (hclosed : w.sock.tcpstateflags = .closed) (ha : pc.allocating = true) :
    w.app.allocating = true := by
  cases h with
  | allocStateTry hat hs =>
    rw [hclosed] at hs
    cases hs
  | allocWindow hat => rw [hat.app_eq]; rfl
  | allocWindowAgain hat => rw [hat.app_eq]; rfl
  | @waitAcked k => cases k <;> cases ha
  | _ => cases ha

theorem goto_block {w : World} {env : Env} {pc : AppPc} (h : Goto w env pc) {block : UInt16}
    (hb : pc.block = some block) : w.app.block = some block := by
  cases h with
  | allocWindow hat => rw [hat.app_eq]; exact hb
  | allocWindowAgain hat => rw [hat.app_eq]; exact hb
  | @waitAcked k => cases k <;> cases hb
  | _ => cases hb

theorem giveUp_block {w : World} {buf : BufId} {pc : AppPc} (h : GiveUp w buf pc) :
    pc.block = none ∧ pc.allocating = false := by
  cases h <;> exact ⟨rfl, rfl⟩

theorem noteBuffer_app_mss (h : BufferNote) (w w' : World) (env : Env) :
    (noteBuffer h w (.app, env) w').mss = h.mss := by
  simp only [noteBuffer]
  split <;> rfl

/-- Only the IP task and the calls that open a connection touch the segment size. -/
theorem noteBuffer_ofApp_mss {h : BufferNote} {w w' : World} {a : Act} {env : Env}
    (ha : a.ofApp = true) (hstate : w'.sock.tcpstateflags = w.sock.tcpstateflags) :
    (noteBuffer h w (a, env) w').mss = h.mss := by
  cases a with
  | connect => simp only [noteBuffer, hstate, if_true]
  | listenSyn => simp only [noteBuffer, hstate, if_true]
  | app => exact noteBuffer_app_mss h w w' env
  | _ => first | rfl | cases ha

theorem mss_step {w w' : World} {h : BufferNote} {a : Act} {env : Env}
    (hk : w.sock.uipConnr.peerMss = h.mss ∨
      w.sock.tcpstateflags = .closed ∧ w.app.allocating = false)
    (ht : Transition w env a w') :
    w'.sock.uipConnr.peerMss = (noteBuffer h w (a, env) w').mss ∨
      w'.sock.tcpstateflags = .closed ∧ w'.app.allocating = false := by
  have happ : ∀ w' : World, (noteBuffer h w (.app, env) w').mss = h.mss :=
    fun w' => noteBuffer_app_mss h w w' env
  cases ht with
  | rx hops hr => exact mss_rx hk hr rfl rfl
  | rxReply hops hr => exact mss_rx hk hr rfl rfl
  | connect hat hcon =>
    obtain ⟨hclosed, hopen, -⟩ := connectOpen_spec hcon
    refine Or.inl ?_
    simp only [noteBuffer, hclosed, hopen, reduceCtorEq, if_false]
    exact connectOpen_peerMss hcon
  | listenSyn hat hl =>
    obtain ⟨hclosed, hopen, -⟩ := listenSyn_spec hl
    refine Or.inl ?_
    simp only [noteBuffer, hclosed, hopen, reduceCtorEq, if_false]
    exact listenSyn_peerMss hl
  | close hat hs =>
    refine mss_keep hk rfl rfl (fun hc => ?_) (fun _ ha => by cases ha)
    rw [hc] at hs
    cases hs
  | ipOp hops hr =>
    obtain ⟨pool, mem, n, rfl⟩ := runOp_changes hr
    exact mss_keep hk rfl rfl id fun _ => id
  | appOp hops hr =>
    obtain ⟨pool, mem, n, rfl⟩ := runOp_changes hr
    exact mss_keep hk (happ _) rfl id fun _ => id
  | callNothing ha => exact mss_keep hk (noteBuffer_ofApp_mss ha rfl) rfl id fun _ => id
  | goto ha hg =>
    exact mss_keep hk (noteBuffer_ofApp_mss ha rfl) rfl id (goto_allocating hg)
  | giveUp hg =>
    refine mss_keep hk (happ _) rfl id fun _ ha => ?_
    rw [show _ = false from (giveUp_block hg).2] at ha
    cases ha
  | allocTry hat => exact mss_keep hk (happ _) rfl id fun _ _ => by rw [hat.app_eq]; rfl
  | stay => exact mss_keep hk (happ _) rfl id fun _ => id
  | swrQueue hat =>
    refine mss_keep hk (happ _) rfl id fun _ ha => ?_
    dsimp only at ha
    split at ha <;> cases ha
  | stop => exact mss_keep hk rfl rfl (fun _ => rfl) fun _ => id
  | periodicAbort => exact mss_keep hk rfl rfl (fun _ => rfl) fun _ => id
  | closeDone => exact mss_keep hk (happ _) rfl (fun _ => rfl) fun _ ha => by cases ha
  | forceClose => exact mss_keep hk (happ _) rfl (fun _ => rfl) fun _ ha => by cases ha
  | create => exact mss_keep hk rfl rfl (fun _ => rfl) fun _ ha => by cases ha
  | start => exact mss_keep hk rfl rfl id fun _ => id
  | periodicIdle => exact mss_keep hk rfl rfl id fun _ => id
  | periodicFree => exact mss_keep hk rfl rfl id fun _ => id
  | periodicResend => exact mss_keep hk rfl rfl id fun _ => id
  | stopClosed => exact mss_keep hk rfl rfl id fun _ => id
  | pseek => exact mss_keep hk rfl rfl id fun _ ha => by cases ha
  | finalize => exact mss_keep hk rfl rfl id fun _ ha => by cases ha
  | releaseSendBuf => exact mss_keep hk rfl rfl id fun _ => id
  | _ => exact mss_keep hk (happ _) rfl id fun _ ha => by cases ha

/-- A block of the memory manager stays with the allocation until it is returned. -/
theorem block_step {w w' : World} {a : Act} {env : Env} {block : UInt16}
    (hk : ∀ block, w.app.block = some block → block ∈ txBufSizes)
    (ht : Transition w env a w') (hb : w'.app.block = some block) : block ∈ txBufSizes := by
  cases ht with
  | rx => exact hk block hb
  | rxReply => exact hk block hb
  | ipOp hops hr =>
    obtain ⟨pool, mem, n, rfl⟩ := runOp_changes hr
    exact hk block hb
  | appOp hops hr =>
    obtain ⟨pool, mem, n, rfl⟩ := runOp_changes hr
    exact hk block hb
  | goto ha hg => exact hk block (goto_block hg hb)
  | giveUp hg =>
    rw [show _ = none from (giveUp_block hg).1] at hb
    cases hb
  | allocTry hat hfresh hsize =>
    obtain rfl := Option.some.inj hb
    exact hsize
  | swrQueue hat =>
    dsimp only at hb
    split at hb <;> cases hb
  | stay => exact hk block hb
  | callNothing => exact hk block hb
  | listenSyn => exact hk block hb
  | releaseSendBuf => exact hk block hb
  | start => exact hk block hb
  | stop => exact hk block hb
  | stopClosed => exact hk block hb
  | periodicIdle => exact hk block hb
  | periodicFree => exact hk block hb
  | periodicResend => exact hk block hb
  | periodicAbort => exact hk block hb
  | _ => cases hb

theorem mem_returned {h : BufferNote} {w w' : World} {e : Act × Env} {r : Returned} :
    r ∈ (noteBuffer h w e w').returned ↔ r ∈ h.returned ∨
      e.1 = .app ∧
        ∃ block, w.returning = some block ∧ r = ⟨block, sendSize w.sock.uipConnr block⟩ := by
  obtain ⟨a, env⟩ := e
  cases a with
  | app =>
    cases hret : w.returning with
    | none => simp [noteBuffer, hret]
    | some block => simp [noteBuffer, hret, or_comm]
  | rx => simp [noteBuffer]
  | connect =>
    simp only [noteBuffer]
    split <;> simp
  | listenSyn =>
    simp only [noteBuffer]
    split <;> simp
  | _ => simp [noteBuffer]

theorem reaches_buffersKept {p : World × BufferNote} (h : bufferSystem.Reaches System.anyStep p) :
    BuffersKept p.1 p.2 := by
  refine h.invariant (P := fun p => BuffersKept p.1 p.2) ?_ ?_
  · rintro ⟨w, h⟩ ⟨hw, rfl⟩
    exact buffersKept_unset hw
  · rintro ⟨w, h⟩ ⟨a, env⟩ ⟨w', h'⟩ hk - hs
    obtain ⟨hstep, rfl⟩ := System.observe_step.mp hs
    have ht := step_transition hstep
    refine ⟨mss_step hk.mss ht, fun _ => block_step hk.block ht, fun r hr => ?_⟩
    rcases mem_returned.mp hr with hr | ⟨-, block, hret, rfl⟩
    · exact hk.returned r hr
    · exact sendSize_add_le (hk.block block (returning_spec hret))

/-- A buffer that is returned next has the room exactly if the peer leaves it. -/
theorem leavesRoom_iff {w : World} {h : BufferNote} {room : UInt16} (env : Env)
    (hroom : room.toNat ≤ 74) (hk : BuffersKept w h) : LeavesRoom room (w, h) (.app, env) ↔
      ∀ block, w.returning = some block → room ≤ sendSize w.sock.uipConnr block := by
  have hmss : ∀ block, w.returning = some block → w.sock.uipConnr.peerMss = h.mss := by
    intro block hret
    rcases hk.mss with heq | ⟨-, hidle⟩
    · exact heq
    · rw [allocating_of_block (returning_spec hret)] at hidle
      cases hidle
  constructor
  · intro hl block hret
    rw [room_le_sendSize (hk.block block (returning_spec hret)) hroom, hmss block hret]
    exact hl rfl (by rw [hret]; rfl)
  · intro hs _ hsome
    obtain ⟨block, hret⟩ := Option.isSome_iff_exists.mp hsome
    rw [← hmss block hret]
    exact (room_le_sendSize (hk.block block (returning_spec hret)) hroom).mp (hs block hret)

/-- The runs in which the peer leaves room at every return are those in which every buffer has
the room. -/
theorem reaches_leavesRoom_iff {room : UInt16} (hroom : room.toNat ≤ 74)
    (p : World × BufferNote) : bufferSystem.Reaches (LeavesRoom room) p ↔
      bufferSystem.Reaches System.anyStep p ∧ ∀ r ∈ p.2.returned, room ≤ r.size := by
  constructor
  · intro h
    refine ⟨h.mono fun _ _ _ => trivial, ?_⟩
    refine h.invariant_of (P := fun p => ∀ r ∈ p.2.returned, room ≤ r.size)
      (fun _ hs => reaches_buffersKept (hs.mono fun _ _ _ => trivial)) ?_ ?_
    · rintro ⟨w, h⟩ ⟨-, rfl⟩ r hr
      cases hr
    · rintro ⟨w, h⟩ ⟨a, env⟩ ⟨w', h'⟩ hk hall hok hs r hr
      obtain ⟨-, rfl⟩ := System.observe_step.mp hs
      rcases mem_returned.mp hr with hr | ⟨ha, block, hret, rfl⟩
      · exact hall r hr
      · obtain rfl : a = .app := ha
        exact (leavesRoom_iff env hroom hk).mp hok block hret
  · rintro ⟨h, hall⟩
    induction h with
    | init h0 => exact .init h0
    | @step p p' e hr _ hs ih =>
      obtain ⟨w, h⟩ := p
      obtain ⟨w', h'⟩ := p'
      obtain ⟨-, rfl⟩ := System.observe_step.mp hs
      refine (ih fun r hr => hall r (mem_returned.mpr (Or.inl hr))).step ?_ hs
      obtain ⟨a, env⟩ := e
      intro ha hsome
      obtain rfl : a = .app := ha
      refine (leavesRoom_iff env hroom (reaches_buffersKept hr)).mpr ?_ rfl hsome
      intro block hret
      exact hall _ (mem_returned.mpr (Or.inr ⟨rfl, block, hret, rfl⟩))

end MiMic.Tcp
