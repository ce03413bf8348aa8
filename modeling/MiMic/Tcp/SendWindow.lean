import MiMic.Tcp.Ownership

/-!
# The send window

The history beside the system holds the acknowledgement processed last and what
was in flight at that moment. `peer_win` counts down from the announced window, so
a further packet stays inside it when it leaves room for that much as well.
-/
namespace MiMic.Tcp

open Verif

/-- `fromAck` says that `peer_win` comes from the acknowledgement on record, `inFlight`
counts what it left unacknowledged and the control flags sent since. -/
structure WindowNote where
  ack : UInt32
  wnd : Nat
  fromAck : Bool
  inFlight : Nat

def WindowNote.unset : WindowNote := ⟨0, 0, false, 0⟩

/-- The next lock section of the application is that of `psend`. -/
def World.inPsend (w : World) : Bool :=
  match w.app, w.appOps with
  | .psendLock _ _ _ _, [] => true
  | _, _ => false

def WindowNote.advance (h : WindowNote) (w w' : World) : WindowNote :=
  { h with inFlight := h.inFlight + (w'.sock.uipConnr.sndNxt32 - w.sock.uipConnr.sndNxt32).toNat }

/-- A segment with ACK announces a window, any other overwrites it; a new connection
has none. What `psend` queues is counted by `peer_win`, everything else is not. -/
def noteWindow (h : WindowNote) (w : World) (e : Act × Env) (w' : World) : WindowNote :=
  match e.1 with
  | .rx seg =>
      if hasFlag seg.flags tcpRst then h
      else if hasFlag seg.flags tcpAck then
        { ack := ntohl seg.ackno32
          wnd := (ntohs seg.wnd16).toNat
          fromAck := true
          inFlight := (w'.sock.uipConnr.sndNxt32 - ntohl seg.ackno32).toNat }
      else { h with fromAck := false }
  | .connect _ _ _ => if w'.sock.tcpstateflags = w.sock.tcpstateflags then h else .unset
  | .listenSyn _ _ => if w'.sock.tcpstateflags = w.sock.tcpstateflags then h else .unset
  | .app => if w.inPsend then h else h.advance w w'
  | _ => h.advance w w'

def windowSystem : System (World × WindowNote) (Act × Env) := system.observe .unset noteWindow

/-- The lock sections that subtract the length `n` of their packet from `peer_win`. -/
inductive Subtracts (w : World) (env : Env) : Nat → Prop
  | psend {buf data inSend retry} : w.At (.psendLock buf data inSend retry) →
      getTxQ w.sock = .free → ¬ (retry = true ∧ env.expired = true) →
      Subtracts w env data.length
  | swr {k tcpf data buf size wait} : w.At (.swrLock k tcpf data buf size wait) →
      getTxQ w.sock = .free →
      Subtracts w env (swrSize w.sock.uipConnr size (UInt16.ofNat data.length)).toNat

/-- The packet ends inside the window that was announced last, and its length is
subtracted without a borrow. -/
structure WindowSafe (h : WindowNote) (w w' : World) (n : Nat) : Prop where
  inWindow : n ≠ 0 → (w'.sock.uipConnr.sndNxt32 - h.ack).toNat ≤ h.wnd
  noWrap : w'.sock.uipConnr.peerWin.toNat + n = w.sock.uipConnr.peerWin.toNat

/-- Data is queued only under a window from an acknowledgement, and `peer_win` has room
for the data and for what that acknowledgement had left in flight. -/
def WindowCovers (p : World × WindowNote) (e : Act × Env) : Prop :=
  e.1 = .app → ∀ n, Subtracts p.1 e.2 n → n ≠ 0 →
    p.2.fromAck = true ∧ p.2.inFlight + n ≤ p.1.sock.uipConnr.peerWin.toNat

/-- What was sent since the acknowledgement on record is missing in `peer_win`. -/
def Covered (w : World) (h : WindowNote) : Prop :=
  h.fromAck = true → ∃ sent : Nat,
    w.sock.uipConnr.sndNxt32 = h.ack + UInt32.ofNat (h.inFlight + sent) ∧
      w.sock.uipConnr.peerWin.toNat + sent = h.wnd

theorem covered_unset (w : World) : Covered w .unset := fun h => by cases h

theorem covered_advance {w w' : World} {h : WindowNote} (hc : Covered w h)
    (hwin : w'.sock.uipConnr.peerWin = w.sock.uipConnr.peerWin) : Covered w' (h.advance w w') := by
  intro hf
  obtain ⟨sent, hsnd, hsum⟩ := hc hf
  refine ⟨sent, ?_, by rw [hwin]; exact hsum⟩
  have hadd : h.inFlight + (w'.sock.uipConnr.sndNxt32 - w.sock.uipConnr.sndNxt32).toNat + sent =
      h.inFlight + sent + (w'.sock.uipConnr.sndNxt32 - w.sock.uipConnr.sndNxt32).toNat := by omega
  show _ = h.ack + UInt32.ofNat
    (h.inFlight + (w'.sock.uipConnr.sndNxt32 - w.sock.uipConnr.sndNxt32).toNat + sent)
  rw [hadd, UInt32.ofNat_add, UInt32.ofNat_toNat, ← UInt32.add_assoc, ← hsnd, UInt32.add_comm,
    UInt32.sub_add_cancel]

/-- A step of the tasks that neither sends nor hears of a window. -/
theorem covered_same {w w' : World} {h : WindowNote} {a : Act} {env : Env}
    (ha : ∀ seg, a ≠ .rx seg) (hsnd : w'.sock.uipConnr.sndNxt32 = w.sock.uipConnr.sndNxt32)
    (hwin : w'.sock.uipConnr.peerWin = w.sock.uipConnr.peerWin) (hc : Covered w h) :
    Covered w' (noteWindow h w (a, env) w') := by
  have hkeep : Covered w' h := by
    unfold Covered
    rw [hsnd, hwin]
    exact hc
  have hadv : Covered w' (h.advance w w') := covered_advance hc hwin
  cases a with
  | rx seg => exact absurd rfl (ha seg)
  | connect =>
    simp only [noteWindow]
    split
    · exact hkeep
    · exact covered_unset w'
  | listenSyn =>
    simp only [noteWindow]
    split
    · exact hkeep
    · exact covered_unset w'
  | app =>
    simp only [noteWindow]
    split
    · exact hkeep
    · exact hadv
  | _ => exact hadv

theorem ne_rx_of_ofApp {a : Act} (h : a.ofApp = true) (seg : TcpSegment) : a ≠ .rx seg := by
  rintro rfl
  cases h

/-- A processed segment sets the window, whatever it acknowledges. -/
theorem parseRx_window {sock : TcpSocket} {mem : TxMemory} {now : UInt32} {seg : TcpSegment}
    {r : RxResult} (h : parseRx sock mem now seg = some r) :
    r.sock.uipConnr.peerWin =
      if hasFlag seg.flags tcpRst then sock.uipConnr.peerWin else ntohs seg.wnd16 := by
  rcases parseRx_cases h with ⟨hrst, rfl⟩ | ⟨hrst, mms, _, rfl⟩
  · rw [if_pos hrst]
  · rw [if_neg (by simp [hrst])]
    rfl

theorem covered_rx {w w' : World} {h : WindowNote} {env : Env} {seg : TcpSegment} {r : RxResult}
    (hc : Covered w h) (hr : parseRx w.sock w.mem env.now seg = some r) (hw : w'.sock = r.sock) :
    Covered w' (noteWindow h w (.rx seg, env) w') := by
  have hwin := parseRx_window hr
  have hsnd := (parseRx_conn hr).1
  simp only [noteWindow]
  by_cases hrst : hasFlag seg.flags tcpRst = true
  · rw [if_pos hrst]
    rw [if_pos hrst] at hwin
    unfold Covered
    rw [hw, hwin, hsnd]
    exact hc
  · rw [if_neg hrst]
    rw [if_neg hrst] at hwin
    split
    · intro _
      refine ⟨0, ?_, ?_⟩
      · rw [Nat.add_zero, UInt32.ofNat_toNat, UInt32.add_comm, UInt32.sub_add_cancel]
      · rw [hw, hwin]
        rfl
    · exact fun hf => by cases hf

theorem runOp_window {w w₁ : World} {env : Env} {op : Op} {ops : List Op}
    (h : runOp w env op = some (w₁, ops)) :
    w₁.sock.uipConnr.peerWin = w.sock.uipConnr.peerWin := by
  obtain ⟨pool, mem, n, rfl⟩ := runOp_changes h
  rfl

theorem swrSize_nil (conn : UipConn) (size : UInt16) : swrSize conn size 0 = 0 := by
  unfold swrSize
  dsimp only
  split
  · rfl
  · next h =>
    rw [UInt16.not_lt, UInt16.le_iff_toNat_le] at h
    exact UInt16.toNat_inj.mp (Nat.le_zero.mp h)

theorem inPsend_of_at {w : World} {pc : AppPc} (hat : w.At pc)
    (hpc : ∀ buf data inSend retry, pc ≠ .psendLock buf data inSend retry) : w.inPsend = false := by
  unfold World.inPsend
  rw [hat.app_eq, hat.appOps_eq]
  cases pc with
  | psendLock buf data inSend retry => exact absurd rfl (hpc buf data inSend retry)
  | _ => rfl

theorem covered_swrQueue {w w' : World} {h : WindowNote} {env : Env} {k : Caller} {tcpf : UInt8}
    {buf : BufId} {size : UInt16} {wait : SwrWait}
    (hat : w.At (.swrLock k tcpf [] buf size wait)) (hc : Covered w h)
    (hw : w'.sock = (sendWithRetransmitQueue w.sock w.mem env.now env.pid tcpf [] buf size).1) :
    Covered w' (noteWindow h w (.app, env) w') := by
  have hin := inPsend_of_at hat fun _ _ _ _ => AppPc.noConfusion
  simp only [noteWindow, hin, Bool.false_eq_true, if_false]
  refine covered_advance hc ?_
  rw [hw]
  show w.sock.uipConnr.peerWin - swrSize w.sock.uipConnr size 0 = _
  rw [swrSize_nil, UInt16.sub_zero]

/-- The data that the window covers moves from the room that is left to what was sent. -/
theorem covered_psendQueue {w w' : World} {h : WindowNote} {env : Env} {buf : BufId}
    {data : List UInt8} {inSend retry : Bool} (hat : w.At (.psendLock buf data inSend retry))
    (hc : Covered w h) (hok : data.length ≠ 0 →
      h.fromAck = true ∧ h.inFlight + data.length ≤ w.sock.uipConnr.peerWin.toNat)
    (hw : w'.sock = (psendQueue w.sock w.mem env.now env.pid buf data).1) :
    Covered w' (noteWindow h w (.app, env) w') ∧ WindowSafe h w w' data.length := by
  have hin : w.inPsend = true := by simp [World.inPsend, hat.app_eq, hat.appOps_eq]
  have hlt := w.sock.uipConnr.peerWin.toNat_lt
  have hle : data.length ≤ w.sock.uipConnr.peerWin.toNat := by
    by_cases h0 : data.length = 0
    · omega
    · have := (hok h0).2
      omega
  have hlen : (UInt16.ofNat data.length).toNat = data.length := by
    rw [UInt16.toNat_ofNat']
    omega
  have hlen32 : (UInt16.ofNat data.length).toUInt32 = UInt32.ofNat data.length := by
    apply UInt32.toNat_inj.mp
    rw [UInt16.toNat_toUInt32, hlen, UInt32.toNat_ofNat']
    omega
  have hsnd : w'.sock.uipConnr.sndNxt32 =
      w.sock.uipConnr.sndNxt32 + UInt32.ofNat data.length := by
    rw [hw, ← hlen32]
    rfl
  have hwin : w'.sock.uipConnr.peerWin.toNat + data.length = w.sock.uipConnr.peerWin.toNat := by
    have hsub : w'.sock.uipConnr.peerWin =
        w.sock.uipConnr.peerWin - UInt16.ofNat data.length := by
      rw [hw]
      rfl
    rw [hsub, UInt16.toNat_sub_of_le _ _ (by rw [UInt16.le_iff_toNat_le, hlen]; exact hle), hlen]
    omega
  simp only [noteWindow, hin, if_true]
  refine ⟨?_, ?_, hwin⟩
  · intro hf
    obtain ⟨sent, hs, hsum⟩ := hc hf
    refine ⟨sent + data.length, ?_, by omega⟩
    rw [hsnd, hs, ← Nat.add_assoc, UInt32.ofNat_add (h.inFlight + sent), UInt32.add_assoc]
  · intro h0
    obtain ⟨hf, hroom⟩ := hok h0
    obtain ⟨sent, hs, hsum⟩ := hc hf
    rw [hsnd, hs, UInt32.add_assoc, ← UInt32.ofNat_add, UInt32.add_comm, UInt32.add_sub_cancel,
      UInt32.toNat_ofNat']
    omega

/-- One step keeps the account of the window. -/
theorem covered_step {w w' : World} {h : WindowNote} {a : Act} {env : Env} (ho : Owned w)
    (hc : Covered w h) (hok : WindowCovers (w, h) (a, env)) (ht : Transition w env a w') :
    Covered w' (noteWindow h w (a, env) w') := by
  cases ht with
  | rx hops hr => exact covered_rx hc hr rfl
  | rxReply hops hr => exact covered_rx hc hr rfl
  | ipOp hops hr => exact covered_advance (h := h) hc (by simpa using runOp_window hr)
  | appOp hops hr =>
    have hin : w.inPsend = false := by
      unfold World.inPsend
      rw [hops]
      split <;> first | rfl | contradiction
    simp only [noteWindow, hin, Bool.false_eq_true, if_false]
    exact covered_advance hc (by simpa using runOp_window hr)
  | callNothing ha => exact covered_same (ne_rx_of_ofApp ha) rfl rfl hc
  | goto ha => exact covered_same (ne_rx_of_ofApp ha) rfl rfl hc
  | connect hat hcon =>
    obtain ⟨hclosed, hopen, -⟩ := connectOpen_spec hcon
    simp only [noteWindow, hclosed, hopen, reduceCtorEq, if_false]
    exact covered_unset _
  | listenSyn hat hl =>
    obtain ⟨hclosed, hopen, -⟩ := listenSyn_spec hl
    simp only [noteWindow, hclosed, hopen, reduceCtorEq, if_false]
    exact covered_unset _
  | swrQueue hat =>
    have hdata := ho.proper
    rw [hat.app_eq] at hdata
    obtain ⟨rfl, -⟩ := hdata
    exact covered_swrQueue hat hc rfl
  | psendQueue hat hq hwait =>
    exact (covered_psendQueue hat hc (hok rfl _ (.psend hat hq hwait)) rfl).1
  | _ => exact covered_same (fun _ => Act.noConfusion) rfl rfl hc

theorem reaches_covered {p : World × WindowNote} (h : windowSystem.Reaches WindowCovers p) :
    Covered p.1 p.2 := by
  have howned : ∀ s, windowSystem.Reaches WindowCovers s → Owned s.1 :=
    fun _ hs => reaches_owned hs.forget
  refine h.invariant_of (P := fun p => Covered p.1 p.2) howned ?_ ?_
  · rintro ⟨w, h⟩ ⟨-, rfl⟩
    exact covered_unset w
  · rintro ⟨w, h⟩ ⟨a, env⟩ ⟨w', h'⟩ ho hc hok hs
    obtain ⟨hstep, rfl⟩ := System.observe_step.mp hs
    exact covered_step ho hc hok (step_transition hstep)

theorem step_psendLock {w w' : World} {env : Env} {buf : BufId} {data : List UInt8}
    {inSend retry : Bool} (hat : w.At (.psendLock buf data inSend retry))
    (hq : getTxQ w.sock = .free) (hwait : ¬ (retry = true ∧ env.expired = true))
    (hs : step w (.app, env) = some w') :
    w'.sock = (psendQueue w.sock w.mem env.now env.pid buf data).1 := by
  simp only [step, hat.appOps_eq, contStep, hat.app_eq, psendLockStep, if_neg hwait, hq,
    Option.some.injEq] at hs
  rw [← hs]

/-- The opening and closing packets carry no data: the window is left as it is. -/
theorem step_swrLock {w w' : World} {env : Env} {k : Caller} {tcpf : UInt8} {buf : BufId}
    {size : UInt16} {wait : SwrWait} (hat : w.At (.swrLock k tcpf [] buf size wait))
    (hs : step w (.app, env) = some w') :
    w'.sock.uipConnr.peerWin = w.sock.uipConnr.peerWin := by
  simp only [step, hat.appOps_eq, contStep, hat.app_eq, Option.some.injEq] at hs
  rw [← hs, swrLockStep]
  split
  · rfl
  · split
    · rfl
    · split
      · rfl
      · split
        · rfl
        · rfl
        · show w.sock.uipConnr.peerWin - swrSize w.sock.uipConnr size 0 = _
          rw [swrSize_nil, UInt16.sub_zero]

/-- The send window is respected over every run in which data is queued only where
`peer_win` covers it together with what was in flight. -/
theorem send_window_safety {w w' : World} {h : WindowNote} {env : Env} {n : Nat}
    (hr : windowSystem.Reaches WindowCovers (w, h)) (hok : WindowCovers (w, h) (.app, env))
    (hs : step w (.app, env) = some w') (hn : Subtracts w env n) : WindowSafe h w w' n := by
  cases hn with
  | psend hat hq hwait =>
    exact (covered_psendQueue hat (reaches_covered hr) (hok rfl _ (.psend hat hq hwait))
      (step_psendLock hat hq hwait hs)).2
  | swr hat hq =>
    have hdata := (reaches_owned hr.forget).proper
    rw [hat.app_eq] at hdata
    obtain ⟨rfl, -⟩ := hdata
    have hwin := step_swrLock hat hs
    rw [show UInt16.ofNat ([] : List UInt8).length = 0 from rfl, swrSize_nil]
    exact ⟨fun h0 => absurd rfl h0, congrArg UInt16.toNat hwin⟩

/-- The handshake of a connecting socket, up to a window of 100 bytes. -/
def connected : List (Act × Env) :=
  [(.startService ⟨2⟩ 1460, quietEnv), (.connect ⟨1⟩ 80 49153, quietEnv), (.app, quietEnv),
    (.app, quietEnv), (.app, quietEnv),
    (.rx ⟨htonl 500, htonl 3940, tcpSyn ||| tcpAck, htons 100, some none, [], length_nil_lt⟩,
      { quietEnv with buf := 2 }),
    (.ipOp, quietEnv), (.ipOp, quietEnv), (.ipOp, quietEnv), (.app, quietEnv)]

/-- A send buffer for 74 bytes, and a `psend` of as much up to its lock. -/
def sendBuffer : List (Act × Env) :=
  [(.allocSendBuf, quietEnv), (.app, quietEnv), (.app, quietEnv), (.app, quietEnv)]

def psendCalled : List (Act × Env) :=
  [(.psend 1 (List.replicate 74 0), quietEnv), (.app, quietEnv)]

/-- The peer closes its window to 10 bytes while the application fills the buffer. -/
def windowShrinks : List (Act × Env) :=
  [(.rx ⟨htonl 501, htonl 3940, tcpAck, htons 10, some none, [], length_nil_lt⟩, quietEnv)]

/-- The buffer was measured against the window of 100 bytes: `peer_win` wraps. -/
theorem peerWin_wraps : ¬ ∀ w w' h env n, windowSystem.Reaches System.anyStep (w, h) →
    step w (.app, env) = some w' → Subtracts w env n → WindowSafe h w w' n := by
  intro h
  have hinit : windowSystem.init (World.zeroed, .unset) := ⟨World.zeroed_initial, rfl⟩
  have hrun : (windowSystem.run (World.zeroed, .unset)
      (connected ++ sendBuffer ++ windowShrinks ++ psendCalled)).any
      (fun p => p.1.app == .psendLock 1 (List.replicate 74 0) false false
        && p.1.appOps == [] && getTxQ p.1.sock == .free && p.1.sock.uipConnr.peerWin == 10
        && (step p.1 (.app, quietEnv)).isSome) = true := by decide +kernel
  obtain ⟨⟨w, l⟩, hw, hp⟩ := System.exists_of_run hinit hrun
  simp only [Bool.and_eq_true, beq_iff_eq] at hp
  obtain ⟨⟨⟨⟨happ, hops⟩, hq⟩, hwin⟩, hsome⟩ := hp
  obtain ⟨w', hs⟩ := Option.isSome_iff_exists.mp hsome
  have hn : Subtracts w quietEnv 74 := .psend ⟨happ, hops⟩ hq (by decide)
  have hsafe := (h w w' l quietEnv 74 hw hs hn).noWrap
  rw [hwin] at hsafe
  have h10 : (10 : UInt16).toNat = 10 := rfl
  omega

/-- `WindowCovers`, computed. -/
def windowCovers (p : World × WindowNote) (e : Act × Env) : Bool :=
  match e.1, p.1.app with
  | .app, .psendLock _ data _ _ =>
      data.isEmpty ||
        p.2.fromAck && p.2.inFlight + data.length ≤ p.1.sock.uipConnr.peerWin.toNat
  | .app, .swrLock _ _ data _ _ _ => data.isEmpty
  | _, _ => true

theorem windowCovers_sound {p : World × WindowNote} {e : Act × Env} (h : windowCovers p e = true) :
    WindowCovers p e := by
  rintro he n hn h0
  cases hn with
  | psend hat =>
    simp only [windowCovers, he, hat.app_eq, Bool.or_eq_true, List.isEmpty_iff, Bool.and_eq_true,
      decide_eq_true_eq] at h
    rcases h with rfl | h
    · exact absurd rfl h0
    · exact h
  | swr hat =>
    simp only [windowCovers, he, hat.app_eq, List.isEmpty_iff] at h
    subst h
    exact absurd (congrArg UInt16.toNat (swrSize_nil _ _)) h0

/-- With the window as it was, the same 74 bytes are sent and leave 26. -/
theorem send_window_safety_psend : ∃ w w' h, windowSystem.Reaches WindowCovers (w, h) ∧
    Subtracts w quietEnv 74 ∧ WindowSafe h w w' 74 := by
  have hinit : windowSystem.init (World.zeroed, .unset) := ⟨World.zeroed_initial, rfl⟩
  have hrun : (windowSystem.runChecked windowCovers (World.zeroed, .unset)
      (connected ++ sendBuffer ++ psendCalled)).any
      (fun p => p.1.app == .psendLock 1 (List.replicate 74 0) false false
        && p.1.appOps == [] && getTxQ p.1.sock == .free && windowCovers p (.app, quietEnv)
        && (step p.1 (.app, quietEnv)).isSome) = true := by decide +kernel
  obtain ⟨⟨w, l⟩, hw, hp⟩ := System.exists_of_runChecked (fun _ _ => windowCovers_sound) hinit hrun
  simp only [Bool.and_eq_true, beq_iff_eq] at hp
  obtain ⟨⟨⟨⟨happ, hops⟩, hq⟩, hcov⟩, hsome⟩ := hp
  obtain ⟨w', hs⟩ := Option.isSome_iff_exists.mp hsome
  have hn : Subtracts w quietEnv 74 := .psend ⟨happ, hops⟩ hq (by decide)
  exact ⟨w, w', l, hw, hn, send_window_safety hw (windowCovers_sound hcov) hs hn⟩

end MiMic.Tcp
