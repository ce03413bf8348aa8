import MiMic.Lib.System
import MiMic.WebSocket.Writing

/-!
# What the module delivers of the client's frames

A client sends frames one behind the other; the program reads them with `read` and `readCB` and
may write in between. After every call it is known how far the frames were taken in, and what
was delivered is the payload up to there.
-/
namespace MiMic.WebSocket

open Verif.WsFrame

structure ClientFrame where
  form : LengthForm
  frame : Frame

namespace ClientFrame

def bytes (f : ClientFrame) : List UInt8 := encode f.form f.frame

def isData (f : ClientFrame) : Bool := f.frame.opcode = 1 ∨ f.frame.opcode = 2

/-- A frame that is not a fragment. -/
structure FromClient (f : ClientFrame) : Prop where
  valid : f.frame.Valid f.form
  fin : f.frame.fin = true

/-- The frames that are left to the instance to take: a frame of binary data is taken for the
other type, a length of 64 bits is refused. -/
structure Readable (f : ClientFrame) : Prop where
  opcode : f.frame.opcode ≠ 2
  form : f.form ≠ .sixtyFour

/-- Data of the type of the instance, and the control frames that do not end the connection. -/
def Accepted (ft : FrameType) (f : ClientFrame) : Prop :=
  f.frame.opcode = typeOpcode ft ∨ f.frame.opcode = 9 ∨ f.frame.opcode = 10

end ClientFrame

def stream (fs : List ClientFrame) : List UInt8 := fs.flatMap ClientFrame.bytes

/-- The payload of the data frames. -/
def dataBytes (fs : List ClientFrame) : List UInt8 :=
  (fs.filter ClientFrame.isData).flatMap fun f => f.frame.payload

/-- A call, with what its calls of `pread` find; a callback answers from all that it was given. -/
inductive Call
  | read (bufLen : Nat) (rs : List Recv)
  | readCB (cb : List UInt8 → Int) (rs : List Recv)
  | write (buf : List UInt8) (rs : List Recv)

/-- A session: the instance, what was delivered and the calls so far. -/
structure Session where
  ws : ModWebSocket
  out : List UInt8
  log : List Call

namespace Call

def callback (cb : List UInt8 → Int) (out : List UInt8) (c : UInt8) : List UInt8 × Int :=
  (out ++ [c], cb (out ++ [c]))

def step (s : Session) (c : Call) : Session :=
  match c with
  | .read bufLen rs =>
      let r := s.ws.read bufLen rs
      ⟨r.ws, s.out ++ r.data, s.log ++ [c]⟩
  | .readCB cb rs =>
      let r := s.ws.readCB (callback cb) s.out rs
      ⟨r.ws, r.data, s.log ++ [c]⟩
  | .write buf rs => ⟨(s.ws.write buf rs).1, s.out, s.log ++ [c]⟩

/-- The connection is lost, or a callback refuses a byte. -/
def Breaks : Call → Prop
  | .read _ rs | .write _ rs => Recv.closed ∈ rs
  | .readCB cb rs => Recv.closed ∈ rs ∨ ∃ out, cb out ≠ 0 ∧ cb out ≠ 1

/-- A byte for which the callback asks to stop is the last one of its call. -/
def StopsInTime (s : Session) : Call → Prop
  | .readCB cb rs => ∀ p c q, ((Call.readCB cb rs).step s).out = s.out ++ p ++ c :: q →
      cb (s.out ++ p ++ [c]) = 0 → q = []
  | _ => True

end Call

/-- The instance stands in the payload of `f`, which `rest` follows. -/
structure InPayload (ws : ModWebSocket) (f : Frame) (rest : List ClientFrame) : Prop where
  size : ws.payloadSize.toNat = f.payload.length
  ptr : ws.payloadPtr.toNat ≤ f.payload.length
  rx : ws.rx = (masked f.mask 0 f.payload).drop ws.payloadPtr.toNat ++ stream rest

/-- It reads the payload with the mask of `f`. -/
structure Within (ws : ModWebSocket) (f : Frame) (rest : List ClientFrame) : Prop
    extends InPayload ws f rest where
  reading : ws.payloadSt = .read
  frameMasked : ws.frameMasked = f.mask.isSome
  frameMask : ∀ key, f.mask = some key → ws.frameMask = key

inductive Position (ft : FrameType) (fs : List ClientFrame) (s : Session) : Prop
  /-- Between two frames. -/
  | between (done rest : List ClientFrame) : fs = done ++ rest → (∀ f ∈ done, f.Accepted ft) →
      s.ws.payloadSt = .start → s.ws.rx = stream rest → s.out = dataBytes done → Position ft fs s
  /-- In a data frame of the type of the instance. -/
  | within (done : List ClientFrame) (f : ClientFrame) (rest : List ClientFrame) :
      fs = done ++ f :: rest → (∀ f ∈ done, f.Accepted ft) → f.frame.opcode = typeOpcode ft →
      Within s.ws f.frame rest →
      s.out = dataBytes done ++ f.frame.payload.take s.ws.payloadPtr.toNat → Position ft fs s
  /-- Closed at a frame that is not accepted. -/
  | refused (done : List ClientFrame) (f : ClientFrame) (rest : List ClientFrame) :
      fs = done ++ f :: rest → (∀ f ∈ done, f.Accepted ft) → ¬ f.Accepted ft →
      s.ws.payloadSt = .closed → s.out = dataBytes done → Position ft fs s
  /-- Closed without the client's doing. -/
  | broken : (∃ c ∈ s.log, c.Breaks) → s.ws.payloadSt = .closed → s.out <+: dataBytes fs →
      Position ft fs s

/-- What is claimed of a state: the position is known, and the next call stops in time. -/
def Delivers (ft : FrameType) (fs : List ClientFrame) (s : Session) (c : Call) : Prop :=
  Position ft fs s ∧ c.StopsInTime s

/-- The sessions of an instance whose client sends `fs`. -/
def session (ft : FrameType) (fs : List ClientFrame) : Verif.System Session Call where
  init s := s.ws.payloadSt = .start ∧ s.ws.frameType = ft ∧ s.ws.rx = stream fs ∧ s.out = [] ∧
    s.log = []
  step s c := some (c.step s)

namespace ModWebSocket

/-- No call of `pread` times out in the payload of a ping or a pong. -/
def UndisturbedFrom : UpdatePos → ModWebSocket → List Recv → Prop
  | .start, _, [] => True
  | .drain _, _, [] => False
  | pos, ws, r :: rs =>
      (∀ echo n, pos = .drain echo → r = .bytes n → ws.rx.take n ≠ []) ∧
        match ws.preadStep pos r with
        | (ws, some pos) => UndisturbedFrom pos ws rs
        | (_, none) => True

def Undisturbed (ws : ModWebSocket) (rs : List Recv) : Prop :=
  ws.payloadSt = .start → UndisturbedFrom .start ws rs

/-- The bytes that the `pread` behind `update` shows. -/
def shown (ws : ModWebSocket) (rs : List Recv) : List UInt8 :=
  match (ws.update rs).1.payloadSt, nextRecv (ws.update rs).2 with
  | .read, .bytes n => (ws.update rs).1.rx.take n
  | _, _ => []

/-- What is left of the payload there. -/
def remaining (ws : ModWebSocket) (rs : List Recv) : Nat :=
  (ws.update rs).1.payloadSize.toNat - (ws.update rs).1.payloadPtr.toNat

end ModWebSocket

/-- `read` sees no more than the rest of the payload, and the callback asks to stop at the last
byte that it could be given. -/
def Call.Ok (s : Session) : Call → Prop
  | .read bufLen rs => s.ws.Undisturbed rs ∧ min (s.ws.shown rs).length bufLen ≤ s.ws.remaining rs
  | .readCB cb rs => s.ws.Undisturbed rs ∧
      ∀ p c q, (s.ws.update rs).1.unmask ((s.ws.shown rs).take (s.ws.remaining rs)) = p ++ c :: q →
        cb (s.out ++ p ++ [c]) = 0 → q = []
  | .write _ rs => s.ws.Undisturbed rs

theorem stream_cons (f : ClientFrame) (fs : List ClientFrame) :
    stream (f :: fs) = encode f.form f.frame ++ stream fs := rfl

theorem dataBytes_append (fs gs : List ClientFrame) :
    dataBytes (fs ++ gs) = dataBytes fs ++ dataBytes gs := by simp [dataBytes]

theorem dataBytes_single {ft : FrameType} {f : ClientFrame} (h : f.frame.opcode = typeOpcode ft) :
    dataBytes [f] = f.frame.payload := by
  have hd : f.isData = true := by cases ft <;> simp [ClientFrame.isData, h, typeOpcode]
  simp [dataBytes, hd]

theorem dataBytes_control {f : ClientFrame} (h : f.frame.opcode = 9 ∨ f.frame.opcode = 10) :
    dataBytes [f] = [] := by
  have hd : f.isData = false := by rcases h with h | h <;> simp [ClientFrame.isData, h]
  simp [dataBytes, hd]

theorem dataBytes_prefix (done rest : List ClientFrame) :
    dataBytes done <+: dataBytes (done ++ rest) :=
  ⟨dataBytes rest, (dataBytes_append done rest).symm⟩

/-- What is delivered inside a data frame is the beginning of the data. -/
theorem dataBytes_prefix_within {ft : FrameType} {done rest : List ClientFrame} {f : ClientFrame}
    (h : f.frame.opcode = typeOpcode ft) (n : Nat) :
    dataBytes done ++ f.frame.payload.take n <+: dataBytes (done ++ f :: rest) := by
  have hsplit : dataBytes (done ++ f :: rest) = dataBytes done ++ f.frame.payload ++ dataBytes rest := by
    rw [← dataBytes_single h, ← dataBytes_append, ← dataBytes_append, List.append_assoc,
      List.singleton_append]
  rw [hsplit, List.append_assoc]
  refine List.prefix_append_right_inj _ |>.mpr ?_
  exact (List.take_prefix n _).trans (List.prefix_append _ _)

theorem drop_header (form : LengthForm) (f : Frame) (rest : List UInt8) :
    (encode form f ++ rest).drop (ModWebSocket.headerLength form f) =
      masked f.mask 0 f.payload ++ rest := by
  have hlen : (encodeHeader form f).length = ModWebSocket.headerLength form f := by
    simp [encodeHeader, ModWebSocket.headerLength]
    omega
  rw [encode, List.append_assoc, List.drop_left' hlen]

theorem Position.delivered {ft : FrameType} {fs : List ClientFrame} {s : Session}
    (h : Position ft fs s) : s.out <+: dataBytes fs := by
  cases h with
  | between done rest hfs _ _ _ hout => rw [hfs, hout]; exact dataBytes_prefix _ _
  | within done f rest hfs _ hop _ hout => rw [hfs, hout]; exact dataBytes_prefix_within hop _
  | refused done f rest hfs _ _ _ hout => rw [hfs, hout]; exact dataBytes_prefix _ _
  | broken _ _ hpre => exact hpre

section

variable {ws : ModWebSocket} {f : Frame} {rest : List ClientFrame}

theorem InPayload.ptr_add (h : InPayload ws f rest) {k : Nat}
    (hk : k ≤ f.payload.length - ws.payloadPtr.toNat) :
    (ws.payloadPtr + UInt16.ofNat k).toNat = ws.payloadPtr.toNat + k := by
  have hsize := h.size
  have hlt := ws.payloadSize.toNat_lt
  have hptr := h.ptr
  rw [UInt16.toNat_add, UInt16.toNat_ofNat']
  omega

/-- The position moves on inside the payload. -/
theorem InPayload.advance (h : InPayload ws f rest) {k : Nat}
    (hk : k ≤ f.payload.length - ws.payloadPtr.toNat) {ws' : ModWebSocket}
    (hsize : ws'.payloadSize = ws.payloadSize)
    (hptr : ws'.payloadPtr = ws.payloadPtr + UInt16.ofNat k) (hrx : ws'.rx = ws.rx.drop k) :
    InPayload ws' f rest := by
  have hlen : k ≤ ((masked f.mask 0 f.payload).drop ws.payloadPtr.toNat).length := by
    rw [List.length_drop, length_masked]
    exact hk
  refine ⟨by rw [hsize, h.size], ?_, ?_⟩
  · have hle := h.ptr
    rw [hptr, h.ptr_add hk]
    omega
  · rw [hrx, h.rx, List.drop_append_of_le_length hlen, List.drop_drop, hptr, h.ptr_add hk]

/-- Behind the payload the next frame begins. -/
theorem InPayload.rx_end (h : InPayload ws f rest) (hend : ws.payloadSize = ws.payloadPtr) :
    ws.rx = stream rest := by
  have hnil : (masked f.mask 0 f.payload).drop f.payload.length = [] :=
    List.drop_of_length_le (length_masked _ _ _).le
  rw [h.rx, ← hend, h.size, hnil, List.nil_append]

theorem Within.unmask_eq (h : Within ws f rest) (bs : List UInt8) :
    ws.unmask bs = masked f.mask ws.payloadPtr.toNat bs := by
  have hm := h.frameMasked
  rw [ModWebSocket.unmask]
  cases hf : f.mask with
  | none =>
    rw [hm, hf]
    rfl
  | some key =>
    rw [hm, hf, h.frameMask key hf]
    rfl

theorem Within.unmask_take (h : Within ws f rest) {k : Nat}
    (hk : k ≤ f.payload.length - ws.payloadPtr.toNat) :
    ws.unmask (ws.rx.take k) = (f.payload.drop ws.payloadPtr.toNat).take k := by
  have hlen : k ≤ (f.payload.drop ws.payloadPtr.toNat).length := by
    rw [List.length_drop]
    exact hk
  rw [h.unmask_eq, h.rx, masked_drop _ _ _ _ h.ptr, Nat.zero_add,
    List.take_append_of_le_length (by simpa using hlen), masked_take _ _ _ _ hlen, masked_masked]

end

theorem accepted_snoc {ft : FrameType} {done : List ClientFrame} {f : ClientFrame}
    (hdone : ∀ f ∈ done, f.Accepted ft) (hf : f.Accepted ft) :
    ∀ g ∈ done ++ [f], g.Accepted ft := by
  intro g hg
  rcases List.mem_append.mp hg with hg | hg
  · exact hdone g hg
  · obtain rfl := List.mem_singleton.mp hg
    exact hf

/-- The read position moves on by bytes of the payload, which are delivered. -/
theorem position_advance {ft : FrameType} {done rest : List ClientFrame} {f : ClientFrame}
    {ws : ModWebSocket} {log : List Call} {k : Nat} (hdone : ∀ f ∈ done, f.Accepted ft)
    (hop : f.frame.opcode = typeOpcode ft) (h : Within ws f.frame rest)
    (hk : k ≤ f.frame.payload.length - ws.payloadPtr.toNat) :
    Position ft (done ++ f :: rest) ⟨ws.advance k, dataBytes done ++
      f.frame.payload.take ws.payloadPtr.toNat ++
        (f.frame.payload.drop ws.payloadPtr.toNat).take k, log⟩ := by
  have hadd := h.ptr_add hk
  have hout : f.frame.payload.take ws.payloadPtr.toNat ++
      (f.frame.payload.drop ws.payloadPtr.toNat).take k =
        f.frame.payload.take (ws.payloadPtr.toNat + k) := by rw [List.take_add]
  rw [List.append_assoc, hout]
  have hin : InPayload { ws.rseek k with payloadPtr := ws.payloadPtr + UInt16.ofNat k }
      f.frame rest := h.advance hk rfl rfl rfl
  by_cases hend : ws.payloadSize = ws.payloadPtr + UInt16.ofNat k
  · have hadv : ws.advance k = { ws.rseek k with
        payloadPtr := ws.payloadPtr + UInt16.ofNat k, payloadSt := .start } := if_pos hend
    rw [hadv]
    refine .between (done ++ [f]) rest (by simp) (accepted_snoc hdone (Or.inl hop)) rfl
      (hin.rx_end hend) ?_
    rw [← hadd, ← hend, h.size, List.take_length, dataBytes_append, dataBytes_single hop]
  · have hadv : ws.advance k = { ws.rseek k with
        payloadPtr := ws.payloadPtr + UInt16.ofNat k } := if_neg hend
    rw [hadv]
    refine .within done f rest rfl hdone hop
      ⟨hin, h.reading, h.frameMasked, h.frameMask⟩ ?_
    rw [← hadd]

/-- Where `update` stands between two calls of `pread`. -/
inductive Going (ft : FrameType) (fs : List ClientFrame) (ws : ModWebSocket) (out : List UInt8) :
    ModWebSocket.UpdatePos → Prop
  | start (done rest : List ClientFrame) : fs = done ++ rest → (∀ f ∈ done, f.Accepted ft) →
      ws.payloadSt = .start → ws.rx = stream rest → out = dataBytes done → Going ft fs ws out .start
  | drain (echo : Bool) (done : List ClientFrame) (f : ClientFrame) (rest : List ClientFrame) :
      fs = done ++ f :: rest → (∀ f ∈ done, f.Accepted ft) →
      f.frame.opcode = 9 ∨ f.frame.opcode = 10 → ws.payloadSt = .start →
      InPayload ws f.frame rest → out = dataBytes done → Going ft fs ws out (.drain echo)

section

variable {ft : FrameType} {fs : List ClientFrame} {ws : ModWebSocket} {out : List UInt8}

/-- At the end of a control frame the next header is awaited. -/
theorem Going.drainPos {echo : Bool} (h : Going ft fs ws out (.drain echo)) :
    Going ft fs ws out (ws.drainPos echo) := by
  by_cases hend : ws.payloadSize = ws.payloadPtr
  · rw [ModWebSocket.drainPos, if_pos hend]
    cases h with
    | drain _ done f rest hfs hdone hop hst hin hout =>
      refine .start (done ++ [f]) rest (by simp [hfs]) (accepted_snoc hdone (Or.inr hop)) hst
        (hin.rx_end hend) ?_
      rw [dataBytes_append, dataBytes_control hop, List.append_nil, hout]
  · rw [ModWebSocket.drainPos, if_neg hend]
    exact h

/-- A round that drains a payload stays in it. -/
theorem Going.drainStep {echo : Bool} {n : Nat} (h : Going ft fs ws out (.drain echo))
    (hne : ws.rx.take n ≠ []) :
    ∃ ws' pos, ws.drainStep echo (ws.rx.take n) = (ws', some pos) ∧ Going ft fs ws' out pos := by
  cases h with
  | drain _ done f rest hfs hdone hop hst hin hout =>
    have hpos : (ws.rx.take n).length ≠ 0 := fun h => hne (List.eq_nil_of_length_eq_zero h)
    have hk : min (ws.rx.take n).length (ws.payloadSize.toNat - ws.payloadPtr.toNat) ≤
        f.frame.payload.length - ws.payloadPtr.toNat := by
      rw [hin.size]
      exact Nat.min_le_right _ _
    rw [ModWebSocket.drainStep, if_neg hpos]
    generalize min (ws.rx.take n).length (ws.payloadSize.toNat - ws.payloadPtr.toNat) = k at hk
    refine ⟨_, _, rfl, Going.drainPos (.drain echo done f rest hfs hdone hop ?_
      (hin.advance hk ?_ ?_ ?_) hout)⟩
    · cases echo <;> exact hst
    all_goals cases echo <;> rfl

/-- What `update` leads to once the header of `f` is shown. -/
theorem going_opcodeStep {done rest : List ClientFrame} {f : ClientFrame} {log : List Call}
    {shown : List UInt8} (hfs : fs = done ++ f :: rest) (hdone : ∀ f ∈ done, f.Accepted ft)
    (hft : ws.frameType = ft) (hread : f.Readable) (hvalid : f.frame.Valid f.form)
    (hst : ws.payloadSt = .start) (hrx : ws.rx = stream (f :: rest)) (hout : out = dataBytes done) :
    match (ws.withHeader f.frame).opcodeStep f.frame.opcode shown
      (ModWebSocket.headerLength f.form f.frame) with
    | (ws', some pos) => Going ft fs ws' out pos
    | (ws', none) => Position ft fs ⟨ws', out, log⟩ := by
  have hsize : (UInt16.ofNat f.frame.payload.length).toNat = f.frame.payload.length := by
    have hlen := hvalid.length
    have hform := hread.form
    have hlt : f.frame.payload.length < 2 ^ 16 := by
      cases hf : f.form with
      | seven =>
        rw [hf] at hlen
        exact lt_of_le_of_lt hlen (by decide)
      | sixteen =>
        rw [hf] at hlen
        exact hlen
      | sixtyFour => exact absurd hf hform
    rw [UInt16.toNat_ofNat']
    omega
  have hin : ∀ ws' : ModWebSocket, ws'.payloadSize = (ws.withHeader f.frame).payloadSize →
      ws'.payloadPtr = 0 → ws'.rx = ws.rx.drop (ModWebSocket.headerLength f.form f.frame) →
      InPayload ws' f.frame rest := by
    intro ws' hs hp hr
    refine ⟨by rw [hs]; exact hsize, by rw [hp]; exact Nat.zero_le _, ?_⟩
    rw [hr, hp, hrx, stream_cons, drop_header]
    rfl
  by_cases hcontrol : f.frame.opcode = 9 ∨ f.frame.opcode = 10
  · rcases hcontrol with hop | hop
    all_goals
      rw [hop, ModWebSocket.opcodeStep]
      exact Going.drainPos (.drain _ done f rest hfs hdone (by simp [hop]) hst
        (hin _ rfl rfl rfl) hout)
  · by_cases hdata : f.frame.opcode = typeOpcode ft
    · -- only text, with an instance for text, is left
      have htxt : ft = .txt := by
        cases ft with
        | txt => rfl
        | bin => exact absurd hdata hread.opcode
      have hstep : (ws.withHeader f.frame).opcodeStep f.frame.opcode shown
          (ModWebSocket.headerLength f.form f.frame) = ((ws.withHeader f.frame).enterPayload
            (ModWebSocket.headerLength f.form f.frame), none) := by
        have hop : f.frame.opcode = 1 := by rw [hdata, htxt]; rfl
        have htype : ¬ (ws.withHeader f.frame).frameType ≠ .txt := fun h => h (hft.trans htxt)
        rw [hop, ModWebSocket.opcodeStep, if_neg (by decide), if_pos rfl, if_neg htype]
      rw [hstep]
      refine .within done f rest hfs hdone hdata ⟨hin _ rfl rfl rfl, rfl, rfl, ?_⟩ ?_
      · intro key hkey
        change f.frame.mask.getD _ = key
        rw [hkey]
        rfl
      · rw [hout]
        exact (List.append_nil _).symm
    · have hno : ¬ f.Accepted ft := by
        rintro (h | h)
        · exact hdata h
        · exact hcontrol h
      have hstep : ∃ ws', (ws.withHeader f.frame).opcodeStep f.frame.opcode shown
          (ModWebSocket.headerLength f.form f.frame) = (ws', none) ∧ ws'.payloadSt = .closed := by
        rw [ModWebSocket.opcodeStep]
        split_ifs with h0 h1 hne h2 _ h8 h9 h10
        · exact ⟨_, rfl, rfl⟩
        · exact ⟨_, rfl, rfl⟩
        · have htxt : ws.frameType = .txt := not_not.mp hne
          rw [← hft, htxt] at hdata
          exact absurd h1 hdata
        · exact ⟨_, rfl, rfl⟩
        · exact absurd h2 hread.opcode
        · exact ⟨_, rfl, rfl⟩
        · exact absurd (Or.inl h9) hcontrol
        · exact absurd (Or.inr h10) hcontrol
        · exact ⟨_, rfl, rfl⟩
      obtain ⟨ws', hs, hclosed⟩ := hstep
      rw [hs]
      exact .refused done f rest hfs hdone hno hclosed hout

/-- A call of `pread` in `update`. -/
theorem going_preadStep {pos : ModWebSocket.UpdatePos} {log : List Call} (r : Recv)
    (hclient : ∀ f ∈ fs, f.FromClient) (hread : ∀ f ∈ fs, f.Readable) (hft : ws.frameType = ft)
    (h : Going ft fs ws out pos)
    (hquiet : ∀ echo n, pos = .drain echo → r = .bytes n → ws.rx.take n ≠ [])
    (hbreak : r = .closed → ∃ c ∈ log, c.Breaks) :
    match ws.preadStep pos r with
    | (ws', some pos') => Going ft fs ws' out pos'
    | (ws', none) => Position ft fs ⟨ws', out, log⟩ := by
  have hpre : out <+: dataBytes fs := by
    cases h with
    | start done rest hfs _ _ _ hout => rw [hfs, hout]; exact dataBytes_prefix _ _
    | drain _ done f rest hfs _ _ _ _ hout => rw [hfs, hout]; exact dataBytes_prefix _ _
  cases r with
  | closed => exact .broken (hbreak rfl) rfl hpre
  | bytes n =>
    cases pos with
    | drain echo =>
      obtain ⟨ws', pos', hstep, hgo⟩ := h.drainStep (hquiet echo n rfl rfl)
      rw [ModWebSocket.preadStep, hstep]
      exact hgo
    | start =>
      cases h with
      | start done rest hfs hdone hst hrx hout =>
        cases rest with
        | nil =>
          have hnil : (ws.rx.take n).length = 0 := by rw [hrx]; simp [stream]
          simp only [ModWebSocket.preadStep, if_pos hnil]
          exact .between done [] hfs hdone hst hrx hout
        | cons f rest =>
          have hf : f ∈ fs := by simp [hfs]
          obtain ⟨hvalid, hfin⟩ := hclient f hf
          obtain ⟨-, size, hs⟩ | ⟨-, hs⟩ :=
            ModWebSocket.preadStep_encode n hst hrx hvalid hfin (hread f hf).form
          · rw [hs]
            exact .between done (f :: rest) hfs hdone hst hrx hout
          · rw [hs]
            exact going_opcodeStep hfs hdone hft (hread f hf) hvalid hst hrx hout

theorem position_updateFrom {pos : ModWebSocket.UpdatePos} {log : List Call} {rs : List Recv}
    (hclient : ∀ f ∈ fs, f.FromClient) (hread : ∀ f ∈ fs, f.Readable) (hft : ws.frameType = ft)
    (h : Going ft fs ws out pos) (hquiet : ModWebSocket.UndisturbedFrom pos ws rs)
    (hbreak : Recv.closed ∈ rs → ∃ c ∈ log, c.Breaks) :
    Position ft fs ⟨(ModWebSocket.updateFrom pos ws rs).1, out, log⟩ := by
  induction rs generalizing pos ws with
  | nil =>
    cases h with
    | start done rest hfs hdone hst hrx hout => exact .between done rest hfs hdone hst hrx hout
    | drain _ _ _ _ _ _ _ _ _ _ => exact hquiet.elim
  | cons r rs ih =>
    have hsteps : (∀ echo n, pos = .drain echo → r = .bytes n → ws.rx.take n ≠ []) ∧
        match ws.preadStep pos r with
        | (ws, some pos) => ModWebSocket.UndisturbedFrom pos ws rs
        | (_, none) => True := by cases pos <;> exact hquiet
    have hgo := going_preadStep r hclient hread hft h hsteps.1
      fun hr => hbreak (hr ▸ List.mem_cons_self)
    have hft' := (ModWebSocket.extends_preadStep pos ws r).1
    have hrest := hsteps.2
    rw [ModWebSocket.updateFrom]
    generalize ws.preadStep pos r = p at hgo hft' hrest
    obtain ⟨ws', _ | pos'⟩ := p
    · exact hgo
    · exact ih (hft'.trans hft) hgo hrest fun hr => hbreak (List.mem_cons_of_mem _ hr)

/-- `update` takes frames in and delivers nothing. -/
theorem Position.update {log : List Call} {rs : List Recv} (hclient : ∀ f ∈ fs, f.FromClient)
    (hread : ∀ f ∈ fs, f.Readable) (hft : ws.frameType = ft)
    (h : Position ft fs ⟨ws, out, log⟩) (hquiet : ws.Undisturbed rs)
    (hbreak : Recv.closed ∈ rs → ∃ c ∈ log, c.Breaks) :
    Position ft fs ⟨(ws.update rs).1, out, log⟩ := by
  by_cases hclosed : ws.payloadSt = .closed
  · rw [ModWebSocket.update, if_pos hclosed]
    exact h
  · rw [ModWebSocket.update, if_neg hclosed]
    have hpre := h.delivered
    cases h with
    | between done rest hfs hdone hst hrx hout =>
      exact position_updateFrom hclient hread hft (.start done rest hfs hdone hst hrx hout)
        (hquiet hst) hbreak
    | within done f rest hfs hdone hop hin hout =>
      -- inside a payload `update` leaves all as it is, unless the connection is lost
      have hstay : ∀ r, ws.preadStep .start r = (ws, none) ∨
          (r = .closed ∧ ws.preadStep .start r = (ws.error, none)) := by
        rintro (_ | n)
        · exact Or.inr ⟨rfl, rfl⟩
        · refine Or.inl ?_
          have hreading : ws.payloadSt = .read := hin.reading
          simp only [ModWebSocket.preadStep, hreading]
          split_ifs <;> rfl
      cases rs with
      | nil => exact .within done f rest hfs hdone hop hin hout
      | cons r rs =>
        rw [ModWebSocket.updateFrom]
        rcases hstay r with hs | ⟨hr, hs⟩
        · rw [hs]
          exact .within done f rest hfs hdone hop hin hout
        · rw [hs]
          exact .broken (hbreak (hr ▸ List.mem_cons_self)) rfl hpre
    | refused _ _ _ _ _ _ hst _ => exact absurd hst hclosed
    | broken _ hst _ => exact absurd hst hclosed

end

namespace ModWebSocket

theorem updateFrom_suffix (pos : UpdatePos) (ws : ModWebSocket) (rs : List Recv) :
    (updateFrom pos ws rs).2 <:+ rs := by
  induction rs generalizing pos ws with
  | nil => exact List.suffix_rfl
  | cons r rs ih =>
    rw [updateFrom]
    obtain ⟨ws', _ | pos'⟩ := ws.preadStep pos r
    · exact List.suffix_cons r rs
    · exact (ih pos' ws').trans (List.suffix_cons r rs)

theorem closed_mem {ws : ModWebSocket} {rs : List Recv}
    (h : nextRecv (ws.update rs).2 = .closed) : Recv.closed ∈ rs := by
  have hsuffix : (ws.update rs).2 <:+ rs := by
    rw [update]
    split_ifs
    · exact List.suffix_rfl
    · exact updateFrom_suffix _ _ _
  cases hrs : (ws.update rs).2 with
  | nil => rw [hrs] at h; cases h
  | cons r rest =>
    rw [hrs] at h hsuffix
    exact hsuffix.subset (List.mem_cons.mpr (Or.inl h.symm))

end ModWebSocket

theorem Position.mono {ft : FrameType} {fs : List ClientFrame} {ws : ModWebSocket}
    {out : List UInt8} {log log' : List Call} (h : Position ft fs ⟨ws, out, log⟩)
    (hlog : log ⊆ log') : Position ft fs ⟨ws, out, log'⟩ := by
  cases h with
  | between done rest hfs hdone hst hrx hout => exact .between done rest hfs hdone hst hrx hout
  | within done f rest hfs hdone hop hin hout => exact .within done f rest hfs hdone hop hin hout
  | refused done f rest hfs hdone hno hst hout => exact .refused done f rest hfs hdone hno hst hout
  | broken hbreak hst hpre =>
    obtain ⟨c, hc, hb⟩ := hbreak
    exact .broken ⟨c, hlog hc, hb⟩ hst hpre

section

variable {ft : FrameType} {done rest : List ClientFrame} {f : ClientFrame} {ws : ModWebSocket}
  {log : List Call}

theorem position_readPayload {bufLen : Nat} {r : Recv} (hdone : ∀ f ∈ done, f.Accepted ft)
    (hop : f.frame.opcode = typeOpcode ft) (hin : Within ws f.frame rest)
    (hle : ∀ n, r = .bytes n →
      min (ws.rx.take n).length bufLen ≤ ws.payloadSize.toNat - ws.payloadPtr.toNat)
    (hbreak : r = .closed → ∃ c ∈ log, c.Breaks) :
    Position ft (done ++ f :: rest) ⟨(ws.readPayload bufLen r).ws, dataBytes done ++
      f.frame.payload.take ws.payloadPtr.toNat ++ (ws.readPayload bufLen r).data, log⟩ := by
  cases r with
  | closed =>
    refine .broken (hbreak rfl) rfl ?_
    change dataBytes done ++ f.frame.payload.take ws.payloadPtr.toNat ++ [] <+: _
    rw [List.append_nil]
    exact dataBytes_prefix_within hop _
  | bytes n =>
    by_cases hnone : (ws.rx.take n).length = 0
    · simp only [ModWebSocket.readPayload, if_pos hnone, List.append_nil]
      exact .within done f rest rfl hdone hop hin rfl
    · have hk := hle n rfl
      rw [hin.size] at hk
      simp only [ModWebSocket.readPayload, if_neg hnone]
      rw [hin.unmask_take hk]
      exact position_advance hdone hop hin hk

/-- The callback is given bytes from the front, and all of them unless it refuses one. -/
theorem callbackLoop_history (cb : List UInt8 → Int) (out bytes : List UInt8) :
    (∃ p, p <+: bytes ∧ (ModWebSocket.callbackLoop (Call.callback cb) out bytes).1 = out ++ p) ∧
      ((ModWebSocket.callbackLoop (Call.callback cb) out bytes).2 = true →
        (ModWebSocket.callbackLoop (Call.callback cb) out bytes).1 = out ++ bytes) ∧
      ((ModWebSocket.callbackLoop (Call.callback cb) out bytes).2 = false →
        ∃ o, cb o ≠ 0 ∧ cb o ≠ 1) := by
  induction bytes generalizing out with
  | nil => exact ⟨⟨[], List.prefix_rfl, (List.append_nil out).symm⟩,
      fun _ => (List.append_nil out).symm, fun h => nomatch h⟩
  | cons c bytes ih =>
    obtain ⟨⟨p, hp, hdata⟩, htrue, hfalse⟩ := ih (out ++ [c])
    have hcons : ∀ q : List UInt8, out ++ [c] ++ q = out ++ c :: q := fun q => by simp
    rw [hcons] at hdata htrue
    rw [ModWebSocket.callbackLoop, Call.callback]
    by_cases hgo : cb (out ++ [c]) = 1 ∨ cb (out ++ [c]) = 0
    · have hloop : (if cb (out ++ [c]) = 1 then
          ModWebSocket.callbackLoop (Call.callback cb) (out ++ [c]) bytes
        else if cb (out ++ [c]) = 0 then
          ModWebSocket.callbackLoop (Call.callback cb) (out ++ [c]) bytes
        else (out ++ [c], false)) =
          ModWebSocket.callbackLoop (Call.callback cb) (out ++ [c]) bytes := by
        split_ifs with h1 h0
        · rfl
        · rfl
        · exact (hgo.elim h1 h0).elim
      simp only [hloop]
      exact ⟨⟨c :: p, (List.prefix_cons_inj c).mpr hp, hdata⟩, htrue, hfalse⟩
    · rw [not_or] at hgo
      simp only [if_neg hgo.1, if_neg hgo.2]
      exact ⟨⟨[c], (List.prefix_cons_inj c).mpr (List.nil_prefix), rfl⟩, (fun h => nomatch h),
        fun _ => ⟨out ++ [c], hgo.2, hgo.1⟩⟩

theorem position_readPayloadCB {cb : List UInt8 → Int} {r : Recv}
    (hdone : ∀ f ∈ done, f.Accepted ft) (hop : f.frame.opcode = typeOpcode ft)
    (hin : Within ws f.frame rest)
    (hbreak : (r = .closed ∨ ∃ out, cb out ≠ 0 ∧ cb out ≠ 1) → ∃ c ∈ log, c.Breaks) :
    Position ft (done ++ f :: rest) ⟨(ws.readPayloadCB (Call.callback cb) (dataBytes done ++
      f.frame.payload.take ws.payloadPtr.toNat) r).ws, (ws.readPayloadCB (Call.callback cb)
        (dataBytes done ++ f.frame.payload.take ws.payloadPtr.toNat) r).data, log⟩ := by
  cases r with
  | closed => exact .broken (hbreak (Or.inl rfl)) rfl (dataBytes_prefix_within hop _)
  | bytes n =>
    by_cases hnone : (ws.rx.take n).length = 0
    · simp only [ModWebSocket.readPayloadCB, if_pos hnone]
      exact .within done f rest rfl hdone hop hin rfl
    · simp only [ModWebSocket.readPayloadCB, if_neg hnone]
      have hk : min (ws.rx.take n).length (ws.payloadSize.toNat - ws.payloadPtr.toNat) ≤
          f.frame.payload.length - ws.payloadPtr.toNat := by
        rw [hin.size]
        exact Nat.min_le_right _ _
      generalize min (ws.rx.take n).length (ws.payloadSize.toNat - ws.payloadPtr.toNat) = k at hk
      rw [hin.unmask_take hk]
      have hadv := (position_advance hdone hop hin hk : Position _ _ ⟨_, _, log⟩)
      generalize dataBytes done ++ f.frame.payload.take ws.payloadPtr.toNat = out at hadv
      obtain ⟨⟨p, hp, hdata⟩, htrue, hfalse⟩ :=
        callbackLoop_history cb out ((f.frame.payload.drop ws.payloadPtr.toNat).take k)
      generalize ModWebSocket.callbackLoop (Call.callback cb) out
        ((f.frame.payload.drop ws.payloadPtr.toNat).take k) = res at hdata htrue hfalse
      obtain ⟨out', _ | _⟩ := res
      · refine .broken (hbreak (Or.inr (hfalse rfl))) rfl ?_
        have hout : out' = out ++ p := hdata
        change out' <+: _
        rw [hout]
        exact ((List.prefix_append_right_inj out).mpr hp).trans hadv.delivered
      · have hout : out' = _ := htrue rfl
        rw [hout]
        exact hadv

end

section

variable {ft : FrameType} {fs : List ClientFrame} {s : Session}

theorem shown_of_reading {ws : ModWebSocket} {rs : List Recv} {n : Nat}
    (hst : (ws.update rs).1.payloadSt = .read)
    (hr : ModWebSocket.nextRecv (ws.update rs).2 = .bytes n) : ws.shown rs = (ws.update rs).1.rx.take n := by
  simp only [ModWebSocket.shown, hst, hr]

theorem position_read {bufLen : Nat} {rs : List Recv}
    (h : Position ft fs ⟨(s.ws.update rs).1, s.out, s.log ++ [.read bufLen rs]⟩)
    (hle : min (s.ws.shown rs).length bufLen ≤ s.ws.remaining rs) :
    Position ft fs ((Call.read bufLen rs).step s) := by
  have hbreak : ModWebSocket.nextRecv (s.ws.update rs).2 = .closed →
      ∃ c ∈ s.log ++ [Call.read bufLen rs], c.Breaks :=
    fun hr => ⟨.read bufLen rs, by simp, ModWebSocket.closed_mem hr⟩
  have hshown : ∀ n, (s.ws.update rs).1.payloadSt = .read →
      ModWebSocket.nextRecv (s.ws.update rs).2 = .bytes n →
      s.ws.shown rs = (s.ws.update rs).1.rx.take n := fun n => shown_of_reading
  simp only [Call.step, ModWebSocket.read]
  rw [ModWebSocket.remaining] at hle
  generalize s.ws.shown rs = sh at hle hshown
  generalize s.ws.update rs = u at h hle hbreak hshown
  obtain ⟨ws, rs'⟩ := u
  cases h with
  | between done rest hfs hdone hst hrx hout =>
    simp only at hst
    simp only [hst, List.append_nil]
    exact .between done rest hfs hdone hst hrx hout
  | within done f rest hfs hdone hop hin hout =>
    have hst : ws.payloadSt = .read := hin.reading
    have hout' : s.out = dataBytes done ++ f.frame.payload.take ws.payloadPtr.toNat := hout
    simp only [hst]
    rw [hfs, hout']
    refine position_readPayload hdone hop hin (fun n hr => ?_) hbreak
    rw [← hshown n hst hr]
    exact hle
  | refused done f rest hfs hdone hno hst hout =>
    simp only at hst
    simp only [hst, List.append_nil]
    exact .refused done f rest hfs hdone hno hst hout
  | broken hb hst hpre =>
    simp only at hst
    simp only [hst, List.append_nil]
    exact .broken hb hst hpre

theorem position_readCB {cb : List UInt8 → Int} {rs : List Recv}
    (h : Position ft fs ⟨(s.ws.update rs).1, s.out, s.log ++ [.readCB cb rs]⟩) :
    Position ft fs ((Call.readCB cb rs).step s) := by
  have hbreak : (ModWebSocket.nextRecv (s.ws.update rs).2 = .closed ∨ ∃ out, cb out ≠ 0 ∧ cb out ≠ 1) →
      ∃ c ∈ s.log ++ [Call.readCB cb rs], c.Breaks := by
    refine fun hr => ⟨.readCB cb rs, by simp, ?_⟩
    exact hr.imp ModWebSocket.closed_mem id
  simp only [Call.step, ModWebSocket.readCB]
  generalize s.ws.update rs = u at h hbreak
  obtain ⟨ws, rs'⟩ := u
  cases h with
  | between done rest hfs hdone hst hrx hout =>
    simp only at hst
    simp only [hst]
    exact .between done rest hfs hdone hst hrx hout
  | within done f rest hfs hdone hop hin hout =>
    have hst : ws.payloadSt = .read := hin.reading
    have hout' : s.out = dataBytes done ++ f.frame.payload.take ws.payloadPtr.toNat := hout
    simp only [hst]
    rw [hfs, hout']
    exact position_readPayloadCB hdone hop hin hbreak
  | refused done f rest hfs hdone hno hst hout =>
    simp only at hst
    simp only [hst]
    exact .refused done f rest hfs hdone hno hst hout
  | broken hb hst hpre =>
    simp only at hst
    simp only [hst]
    exact .broken hb hst hpre

theorem Position.streamWrite {ws : ModWebSocket} {out : List UInt8} {log : List Call}
    (h : Position ft fs ⟨ws, out, log⟩) (bs : List UInt8) :
    Position ft fs ⟨ws.streamWrite bs, out, log⟩ := by
  cases h with
  | between done rest hfs hdone hst hrx hout => exact .between done rest hfs hdone hst hrx hout
  | within done f rest hfs hdone hop hin hout =>
    exact .within done f rest hfs hdone hop ⟨⟨hin.size, hin.ptr, hin.rx⟩, hin.reading,
      hin.frameMasked, hin.frameMask⟩ hout
  | refused done f rest hfs hdone hno hst hout => exact .refused done f rest hfs hdone hno hst hout
  | broken hbreak hst hpre => exact .broken hbreak hst hpre

theorem position_write {buf : List UInt8} {rs : List Recv}
    (h : Position ft fs ⟨(s.ws.update rs).1, s.out, s.log ++ [.write buf rs]⟩) :
    Position ft fs ((Call.write buf rs).step s) := by
  simp only [Call.step, ModWebSocket.write]
  generalize (s.ws.update rs).1 = ws at h
  rw [ModWebSocket.writePayloadHeader]
  split_ifs with hclosed
  · have herr : ws.error = ws := by rw [ModWebSocket.error, ← hclosed]
    change Position ft fs ⟨ws.error, _, _⟩
    rw [herr]
    exact h
  · exact (h.streamWrite _).streamWrite _
  · exact (h.streamWrite _).streamWrite _

/-- What a call of `readCB` delivers is the beginning of what it is shown. -/
theorem readCB_data (ws : ModWebSocket) (cb : List UInt8 → Int) (out : List UInt8) (rs : List Recv) :
    ∃ d, (ws.readCB (Call.callback cb) out rs).data = out ++ d ∧
      d <+: (ws.update rs).1.unmask ((ws.shown rs).take (ws.remaining rs)) := by
  rw [ModWebSocket.remaining, ModWebSocket.readCB, ModWebSocket.shown]
  generalize ws.update rs = u
  obtain ⟨ws', rs'⟩ := u
  cases hst : ws'.payloadSt with
  | start => exact ⟨[], by simp only [hst, List.append_nil], List.nil_prefix⟩
  | closed => exact ⟨[], by simp only [hst, List.append_nil], List.nil_prefix⟩
  | read =>
    simp only [hst]
    cases ModWebSocket.nextRecv rs' with
    | closed => exact ⟨[], (List.append_nil out).symm, List.nil_prefix⟩
    | bytes n =>
      by_cases hnone : (ws'.rx.take n).length = 0
      · simp only [ModWebSocket.readPayloadCB, if_pos hnone]
        exact ⟨[], (List.append_nil out).symm, List.nil_prefix⟩
      · simp only [ModWebSocket.readPayloadCB, if_neg hnone]
        have htake : ws'.rx.take (min (ws'.rx.take n).length
            (ws'.payloadSize.toNat - ws'.payloadPtr.toNat)) =
              (ws'.rx.take n).take (ws'.payloadSize.toNat - ws'.payloadPtr.toNat) := by
          rw [List.take_take, List.take_eq_take_iff, List.length_take]
          omega
        rw [htake]
        obtain ⟨⟨p, hp, hdata⟩, -, -⟩ := callbackLoop_history cb out (ws'.unmask
          ((ws'.rx.take n).take (ws'.payloadSize.toNat - ws'.payloadPtr.toNat)))
        generalize ModWebSocket.callbackLoop (Call.callback cb) out (ws'.unmask
          ((ws'.rx.take n).take (ws'.payloadSize.toNat - ws'.payloadPtr.toNat))) = res at hdata
        obtain ⟨out', _ | _⟩ := res
        · exact ⟨p, hdata, hp⟩
        · exact ⟨p, hdata, hp⟩

theorem Call.Ok.stopsInTime {c : Call} (h : c.Ok s) : c.StopsInTime s := by
  cases c with
  | read bufLen rs => trivial
  | write buf rs => trivial
  | readCB cb rs =>
    intro p b q hout hstop
    obtain ⟨d, hd, hpre⟩ := readCB_data s.ws cb s.out rs
    have hd' : d = p ++ b :: q := by
      have heq : s.out ++ d = s.out ++ p ++ b :: q := hd.symm.trans hout
      rw [List.append_assoc] at heq
      exact List.append_cancel_left heq
    obtain ⟨more, hmore⟩ := hpre
    have hnil := h.2 p b (q ++ more) (by rw [← hmore, hd']; simp) hstop
    exact (List.append_eq_nil_iff.mp hnil).1

theorem frameType_step (s : Session) (c : Call) : (c.step s).ws.frameType = s.ws.frameType := by
  have hup := fun rs => (s.ws.extends_update rs).1
  cases c with
  | read bufLen rs =>
    rw [← hup rs]
    simp only [Call.step, ModWebSocket.read]
    generalize s.ws.update rs = u
    obtain ⟨ws, rs'⟩ := u
    simp only
    cases ws.payloadSt with
    | start => rfl
    | closed => rfl
    | read =>
      cases ModWebSocket.nextRecv rs' with
      | closed => rfl
      | bytes n =>
        simp only [ModWebSocket.readPayload, ModWebSocket.advance]
        split_ifs <;> rfl
  | readCB cb rs =>
    rw [← hup rs]
    simp only [Call.step, ModWebSocket.readCB]
    generalize s.ws.update rs = u
    obtain ⟨ws, rs'⟩ := u
    simp only
    cases ws.payloadSt with
    | start => rfl
    | closed => rfl
    | read =>
      cases ModWebSocket.nextRecv rs' with
      | closed => rfl
      | bytes n =>
        simp only [ModWebSocket.readPayloadCB]
        split_ifs
        · rfl
        · split
          · simp only [ModWebSocket.advance]
            split_ifs <;> rfl
          · rfl
  | write buf rs =>
    rw [← hup rs]
    simp only [Call.step, ModWebSocket.write, ModWebSocket.writePayloadHeader]
    split_ifs <;> rfl

end

/-- In every session whose calls keep clear of the defects the payload is delivered, and every
next call of the kind stops in time. -/
theorem session_delivers {ft : FrameType} {fs : List ClientFrame}
    (hclient : ∀ f ∈ fs, f.FromClient) (hread : ∀ f ∈ fs, f.Readable) {s : Session}
    (hs : (session ft fs).Reaches Call.Ok s) {c : Call} (hc : c.Ok s) : Delivers ft fs s c := by
  have hinv : s.ws.frameType = ft ∧ Position ft fs s := by
    refine Verif.System.Reaches.invariant
      (P := fun s => s.ws.frameType = ft ∧ Position ft fs s) ?_ ?_ hs
    · rintro s ⟨hst, hft, hrx, hout, -⟩
      exact ⟨hft, .between [] fs rfl (fun _ h => nomatch h) hst hrx hout⟩
    · intro s c s' ⟨hft, hpos⟩ hc hstep
      obtain rfl : c.step s = s' := Option.some.inj hstep
      refine ⟨(frameType_step s c).trans hft, ?_⟩
      have hmono : Position ft fs ⟨s.ws, s.out, s.log ++ [c]⟩ :=
        hpos.mono (List.subset_append_left _ _)
      cases c with
      | read bufLen rs =>
        exact position_read (hmono.update hclient hread hft hc.1
          fun h => ⟨.read bufLen rs, by simp, h⟩) hc.2
      | readCB cb rs =>
        exact position_readCB (hmono.update hclient hread hft hc.1
          fun h => ⟨.readCB cb rs, by simp, Or.inl h⟩)
      | write buf rs =>
        exact position_write (hmono.update hclient hread hft hc
          fun h => ⟨.write buf rs, by simp, h⟩)
  exact ⟨hinv.2, hc.stopsInTime⟩

/-- A text of one byte, without a mask. -/
def oneByte (b : UInt8) : ClientFrame := ⟨.seven, ⟨true, 1, none, [b]⟩⟩

theorem fromClient_oneByte (b : UInt8) : (oneByte b).FromClient :=
  ⟨⟨by change (1 : UInt8) < 16; decide, by change 1 ≤ 125; decide⟩, rfl⟩

def freshSession (fs : List ClientFrame) : Session :=
  ⟨⟨.start, .txt, false, fun _ => 0, 0, 0, stream fs, []⟩, [], []⟩

/-- A masked frame with the text `Hello`, and a masked ping of two bytes. -/
def helloFrame : ClientFrame :=
  ⟨.seven, ⟨true, 1, some ![0x37, 0xfa, 0x21, 0x3d], [0x48, 0x65, 0x6c, 0x6c, 0x6f]⟩⟩

def pingFrame : ClientFrame := ⟨.seven, ⟨true, 9, some ![0x37, 0xfa, 0x21, 0x3d], [1, 2]⟩⟩

/-- Three bytes of the text are read behind the ping. -/
def threeRead : Session :=
  (Call.read 3 [.bytes 8, .bytes 2, .bytes 11, .bytes 5]).step (freshSession [pingFrame, helloFrame])

def stopAtFive (out : List UInt8) : Int := if out.length = 5 then 0 else 1

/-- The others are given to a callback. -/
def helloSession : Session := (Call.readCB stopAtFive [.bytes 2, .bytes 2]).step threeRead

theorem session_delivers_hello : helloSession.out = [0x48, 0x65, 0x6c, 0x6c, 0x6f] ∧
    Delivers .txt [pingFrame, helloFrame] helloSession (.read 10 []) := by
  have hframes : ∀ f ∈ [pingFrame, helloFrame], f.FromClient ∧ f.Readable := by
    intro f hf
    rcases List.mem_pair.mp hf with rfl | rfl
    · exact ⟨⟨⟨by decide, by change 2 ≤ 125; decide⟩, rfl⟩, by decide, by decide⟩
    · exact ⟨⟨⟨by decide, by change 5 ≤ 125; decide⟩, rfl⟩, by decide, by decide⟩
  have hinit : (session .txt [pingFrame, helloFrame]).init (freshSession [pingFrame, helloFrame]) :=
    ⟨rfl, rfl, rfl, rfl, rfl⟩
  -- the header of the ping, its payload, the header of the text and the text
  have hread : (Call.read 3 [.bytes 8, .bytes 2, .bytes 11, .bytes 5]).Ok
      (freshSession [pingFrame, helloFrame]) := by
    refine ⟨fun _ => And.intro (fun _ _ h => ModWebSocket.UpdatePos.noConfusion h)
      (And.intro (fun _ n _ hn => ?_)
        (And.intro (fun _ _ h => ModWebSocket.UpdatePos.noConfusion h) trivial)), by decide +kernel⟩
    obtain rfl := Recv.bytes.inj hn
    decide +kernel
  have hcallback : (Call.readCB stopAtFive [.bytes 2, .bytes 2]).Ok threeRead := by
    refine ⟨fun h => absurd h (by decide +kernel), fun p c q hdata hstop => ?_⟩
    have hshown : (threeRead.ws.update [.bytes 2, .bytes 2]).1.unmask
        ((threeRead.ws.shown [.bytes 2, .bytes 2]).take (threeRead.ws.remaining [.bytes 2, .bytes 2])) =
          [0x6c, 0x6f] := by
      decide +kernel
    have hout : threeRead.out.length = 3 := by decide +kernel
    have hlen := congrArg List.length hdata
    rw [hshown] at hlen
    rw [stopAtFive] at hstop
    split at hstop
    · next hfive =>
      simp only [List.length_append, List.length_cons, List.length_nil, hout] at hfive hlen
      exact List.eq_nil_of_length_eq_zero (by omega)
    · exact absurd hstop (by decide)
  have hnext : (Call.read 10 []).Ok helloSession := ⟨fun _ => trivial, by decide +kernel⟩
  refine ⟨by decide +kernel, ?_⟩
  exact session_delivers (fun f hf => (hframes f hf).1) (fun f hf => (hframes f hf).2)
    (.step (.step (.init hinit) hread rfl) hcallback rfl) hnext

/-- Of two short frames that came together `read` hands out the header of the second. -/
theorem not_session_delivers : ¬ ∀ ft fs s c, (∀ f ∈ fs, f.FromClient) →
    (session ft fs).Reaches Verif.System.anyStep s → Delivers ft fs s c := by
  intro h
  have hclient : ∀ f ∈ [oneByte 0x61, oneByte 0x62], f.FromClient := by
    intro f hf
    rcases List.mem_pair.mp hf with rfl | rfl
    · exact fromClient_oneByte _
    · exact fromClient_oneByte _
  have hinit : (session .txt [oneByte 0x61, oneByte 0x62]).init
      (freshSession [oneByte 0x61, oneByte 0x62]) := ⟨rfl, rfl, rfl, rfl, rfl⟩
  have hd := h .txt [oneByte 0x61, oneByte 0x62]
    ((Call.read 10 [.bytes 6, .bytes 4]).step (freshSession [oneByte 0x61, oneByte 0x62]))
    (.read 10 []) hclient (.step (.init hinit) trivial rfl)
  have hpre := hd.1.delivered
  revert hpre
  decide +kernel

end MiMic.WebSocket
