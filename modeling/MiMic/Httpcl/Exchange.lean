import MiMic.Http.BodyReads
import MiMic.Httpcl.Responses
import MiMic.Httpcl.StatusPlace

/-!
# An exchange with a server

The member of the union that was set up last is the one that the state names, in every state that
calls lead to. So a call that is not allowed changes nothing, and what fails closes the socket once.
What `NyLPC_cHttpClient_getStatus` and the reads behind it make of a response is the work of the two
parsers.
-/
namespace MiMic.Httpcl

open Verif Http Httpd BasicHeaderParser

variable {τ : Type} {S : PtrStream τ} {c c' : Client τ}

/-- Closed, by one call of `NyLPC_iTcpSocket_close`. -/
structure Client.IsClosed (c : Client τ) : Prop where
  state : c.base.state = .closed
  connected : c.connected = false
  closes : c.closes = 1

/-- The state names the member of the union, and says whether the socket is connected. -/
structure Client.Coherent (c : Client τ) : Prop where
  connected : c.connected = true ↔ c.base.state ≠ .closed
  closes : c.base.state ≠ .closed → c.closes = 0
  writer : c.base.state = .sendReqBody → ∃ isChunked isError, c.pw = .bodyWriter isChunked isError
  parser : c.base.state = .recvResBody → ∃ p, c.pw = .bodyParser p
  head : c.base.state ≠ .recvResHead

theorem coherent_ofSocket (t : τ) (addr : IPv4Addr) (port : UInt16) :
    (Client.ofSocket t addr port).Coherent where
  connected := ⟨fun h => (nomatch h), fun h => absurd rfl h⟩
  closes h := absurd rfl h
  writer h := nomatch h
  parser h := nomatch h
  head h := nomatch h

theorem Client.IsClosed.coherent (h : c.IsClosed) : c.Coherent where
  connected := by simp [h.connected, h.state]
  closes hne := absurd h.state hne
  writer hs := nomatch h.state.symm.trans hs
  parser hs := nomatch h.state.symm.trans hs
  head hs := nomatch h.state.symm.trans hs

/-- A client that is not closed is closed by one call. -/
theorem isClosed_close (hne : c.base.state ≠ .closed) (hc : c.closes = 0) : c.close.IsClosed := by
  rw [Client.close, if_neg hne]
  exact ⟨rfl, rfl, congrArg (· + 1) hc⟩

theorem close_of_closed (h : c.base.state = .closed) : c.close = c := by
  rw [Client.close, if_pos h]

theorem Client.Coherent.close (h : c.Coherent) :
    c.close.Coherent ∧ c.close.base.state = .closed ∧ c.close.connected = false := by
  by_cases hs : c.base.state = .closed
  · rw [close_of_closed hs]
    refine ⟨h, hs, ?_⟩
    by_contra hc
    exact h.connected.mp (Bool.eq_true_of_not_eq_false hc) hs
  · have hclosed := isClosed_close hs (h.closes hs)
    exact ⟨hclosed.coherent, hclosed.state, hclosed.connected⟩

/-- A server that answers is connected to, from any state. -/
theorem connect_some (h : c.Coherent) (addr : IPv4Addr) (port : UInt16) (t : τ) (rx : List UInt8) :
    (c.connect addr port (some (t, rx))).1 = true ∧
      (c.connect addr port (some (t, rx))).2.base.state = .idle ∧
      (c.connect addr port (some (t, rx))).2.rx = rx ∧
      (c.connect addr port (some (t, rx))).2.Coherent := by
  obtain ⟨-, -, hconn⟩ := h.close
  have hcall : c.connect addr port (some (t, rx)) =
      (true, { c.close with base := ⟨.idle, t, addr, port⟩, connected := true, rx := rx, closes := 0 }) := by
    rw [Client.connect]
    simp only [hconn]
    rfl
  rw [hcall]
  refine ⟨rfl, rfl, rfl, ?_⟩
  exact {
    connected := ⟨fun _ h => (nomatch h), fun _ => rfl⟩
    closes := fun _ => rfl
    writer := fun h => nomatch h
    parser := fun h => nomatch h
    head := fun h => nomatch h }

theorem connect_none (h : c.Coherent) (addr : IPv4Addr) (port : UInt16) :
    c.connect addr port none = (false, c.close) := by
  obtain ⟨-, -, hconn⟩ := h.close
  rw [Client.connect]
  simp only [hconn]
  rfl

/-- `sendMethod` goes on to the body when it succeeds, and stays where it is otherwise. -/
theorem sendMethod_state (c : HttpClient τ) (req : ClientRequest) (hidle : c.state = .idle) :
    (c.sendMethod S req).2.state = if (c.sendMethod S req).1 then .sendReqBody else .idle := by
  rw [HttpClient.sendMethod, if_neg (by simp [hidle])]
  dsimp only
  by_cases hend : (endHeader S (c.requestLines S req)).1 = true
  · simp only [hend, Bool.not_true, Bool.false_eq_true, if_false, if_true]
  · simp only [Bool.eq_false_of_not_eq_true hend, Bool.not_false, Bool.false_eq_true, if_false, if_true]
    exact hidle

/-- The end of the request is taken. -/
def Client.RequestEnds (S : PtrStream τ) (c : Client τ) : Prop :=
  ∃ isChunked isError, c.pw = .bodyWriter isChunked isError ∧
    (closeBody S isChunked (c.base.stream, isError)).1 = true

theorem write_spec (h : c.Coherent) (hs : c.base.state = .sendReqBody) (call : BodyCall) :
    ∃ ok c', c.write S call = some (ok, c') ∧ (ok = true → c'.Coherent) ∧ (ok = false → c'.IsClosed) := by
  obtain ⟨isChunked, isError, hpw⟩ := h.writer hs
  have hopen : c.base.state ≠ .closed := by rw [hs]; decide
  rw [Client.write, if_neg (by simp [hs]), hpw]
  dsimp only
  refine ⟨_, _, rfl, fun hok => ?_, fun hok => ?_⟩
  · rw [if_pos hok]
    exact {
      connected := h.connected
      closes := h.closes
      writer := fun _ => ⟨_, _, rfl⟩
      parser := fun hb => nomatch hs.symm.trans hb
      head := h.head }
  · rw [hok, if_neg Bool.false_ne_true]
    exact isClosed_close hopen (h.closes hopen)

/-- What `getStatus` makes of the end of the request and of the headers. -/
theorem getStatus_spec (h : c.Coherent) (hs : c.base.state = .sendReqBody) (a : Answers) :
    ∃ s c', c.getStatus S a = some (s, c') ∧
      (c.RequestEnds S → ∀ header, (readHeaders a.header c.rx a.sizes).1 = some header →
        s = header.status.toUInt16 ∧ c'.base.state = .recvResBody ∧ c'.Coherent ∧
          c'.pw = .bodyParser (bodyParserOf a.parser header) ∧
          c'.rx = (readHeaders a.header c.rx a.sizes).2) ∧
      (¬ (c.RequestEnds S ∧ (readHeaders a.header c.rx a.sizes).1 ≠ none) → s = 0 ∧ c'.IsClosed) := by
  obtain ⟨isChunked, isError, hpw⟩ := h.writer hs
  have hopen : c.base.state ≠ .closed := by rw [hs]; decide
  have hzero := h.closes hopen
  have hends : c.RequestEnds S ↔ (closeBody S isChunked (c.base.stream, isError)).1 = true := by
    constructor
    · intro ⟨ch, e, hpw', hclose⟩
      obtain ⟨rfl, rfl⟩ := Pw.bodyWriter.inj (hpw.symm.trans hpw')
      exact hclose
    · exact fun hclose => ⟨_, _, hpw, hclose⟩
  rw [hends, Client.getStatus, if_neg (by simp [hs]), hpw]
  dsimp only
  cases hclose : (closeBody S isChunked (c.base.stream, isError)).1 with
  | false =>
    rw [Bool.not_false, if_pos rfl]
    refine ⟨_, _, rfl, fun hf => (nomatch hf), fun _ => ⟨rfl, ?_⟩⟩
    exact isClosed_close hopen hzero
  | true =>
    rw [Bool.not_true, if_neg Bool.false_ne_true]
    cases hread : (readHeaders a.header c.rx a.sizes).1 with
    | none =>
      refine ⟨_, _, rfl, fun _ _ hf => (nomatch hf), fun _ => ⟨rfl, ?_⟩⟩
      exact isClosed_close (fun hc => nomatch hc) hzero
    | some header =>
      refine ⟨_, _, rfl, fun _ header' hh => ?_, fun hno => absurd ⟨rfl, Option.some_ne_none _⟩ hno⟩
      obtain rfl := Option.some.inj hh
      refine ⟨rfl, rfl, ?_, rfl, rfl⟩
      exact {
        connected := ⟨fun _ hc => (nomatch hc), fun _ => h.connected.mpr hopen⟩
        closes := fun _ => hzero
        writer := fun hb => nomatch hb
        parser := fun _ => ⟨_, rfl⟩
        head := fun hb => nomatch hb }

/-- What a read makes of a call of the body parser. -/
def Client.afterRead (c : Client τ) : StreamCall → Option (List UInt8) × Client τ
  | .read buf p n => (some buf, { c with pw := .bodyParser p, rx := c.rx.drop n })
  | .noData | .error => (none, c.close)

theorem read_eq (hs : c.base.state = .recvResBody) {p : BasicBodyParser} (hpw : c.pw = .bodyParser p)
    (size : UInt32) (available : Nat) :
    c.read size available = some (c.afterRead (streamCall p c.rx ⟨available, bufLimit size⟩)) := by
  rw [Client.read, if_neg (by simp [hs]), hpw]
  dsimp only
  cases streamCall p c.rx ⟨available, bufLimit size⟩ <;> rfl

theorem read_spec (h : c.Coherent) (hs : c.base.state = .recvResBody) (size : UInt32) (available : Nat) :
    ∃ d c', c.read size available = some (d, c') ∧
      (d ≠ none → c'.Coherent ∧ c'.base.state = .recvResBody) ∧ (d = none → c'.IsClosed) := by
  obtain ⟨p, hpw⟩ := h.parser hs
  have hopen : c.base.state ≠ .closed := by rw [hs]; decide
  have hclosed := isClosed_close hopen (h.closes hopen)
  refine ⟨_, _, read_eq hs hpw size available, ?_⟩
  cases streamCall p c.rx ⟨available, bufLimit size⟩ with
  | read buf p' n =>
    refine ⟨fun _ => ⟨?_, hs⟩, fun hd => (nomatch hd)⟩
    exact {
      connected := h.connected
      closes := h.closes
      writer := fun hb => nomatch hs.symm.trans hb
      parser := fun _ => ⟨p', rfl⟩
      head := h.head }
  | noData => exact ⟨fun hd => absurd rfl hd, fun _ => hclosed⟩
  | error => exact ⟨fun hd => absurd rfl hd, fun _ => hclosed⟩

/-- A call that is not allowed fails and changes nothing. -/
theorem run_refused (S : PtrStream τ) (call : Call τ) (h : ¬ call.Allowed c.base.state) :
    ∃ r, c.run S call = some (r, c) ∧ r.Failed := by
  cases call with
  | connect addr port server => exact absurd trivial h
  | close => exact absurd trivial h
  | finalize => exact absurd trivial h
  | sendMethod req =>
    refine ⟨.bool false, ?_, rfl⟩
    have hne : c.base.state ≠ .idle := h
    rw [Client.run, Client.sendMethod, if_pos hne]
  | write call =>
    refine ⟨.bool false, ?_, rfl⟩
    have hne : c.base.state ≠ .sendReqBody := h
    rw [Client.run, Client.write, if_pos hne]
    rfl
  | getStatus a =>
    refine ⟨.status 0, ?_, rfl⟩
    have hne : c.base.state ≠ .sendReqBody := h
    rw [Client.run, Client.getStatus, if_pos hne]
    rfl
  | read size available =>
    refine ⟨.data none, ?_, rfl⟩
    have hne : c.base.state ≠ .recvResBody := h
    rw [Client.run, Client.read, if_pos hne]
    rfl

/-- A call that is allowed finds the member that it uses, and leaves the union as the state says. -/
theorem run_coherent (S : PtrStream τ) (h : c.Coherent) (call : Call τ) :
    ∃ r c', c.run S call = some (r, c') ∧ c'.Coherent := by
  by_cases hall : call.Allowed c.base.state
  · cases call with
    | connect addr port server =>
      refine ⟨_, _, rfl, ?_⟩
      cases server with
      | none =>
        rw [connect_none h]
        exact h.close.1
      | some server => exact (connect_some h addr port server.1 server.2).2.2.2
    | close => exact ⟨_, _, rfl, h.close.1⟩
    | finalize =>
      obtain ⟨hc, -, -⟩ := h.close
      exact ⟨_, _, rfl, hc.connected, hc.closes, hc.writer, hc.parser, hc.head⟩
    | sendMethod req =>
      refine ⟨_, _, rfl, ?_⟩
      have hidle : c.base.state = .idle := hall
      have hstate := sendMethod_state (S := S) c.base req hidle
      have hopen : c.base.state ≠ .closed := by rw [hidle]; decide
      rw [Client.sendMethod, if_neg (by simp [hidle])]
      dsimp only
      cases hok : (c.base.sendMethod S req).1 with
      | true =>
        rw [hok, if_pos rfl] at hstate
        refine ⟨?_, fun _ => h.closes hopen, fun _ => ⟨_, _, rfl⟩, fun hb => ?_, fun hb => ?_⟩
        · simp [hstate, h.connected.mpr hopen]
        · exact nomatch hstate.symm.trans hb
        · exact nomatch hstate.symm.trans hb
      | false =>
        rw [hok, if_neg Bool.false_ne_true] at hstate
        refine ⟨?_, fun _ => h.closes hopen, fun hb => ?_, fun hb => ?_, fun hb => ?_⟩
        · simp [hstate, h.connected.mpr hopen]
        · exact nomatch hstate.symm.trans hb
        · exact nomatch hstate.symm.trans hb
        · exact nomatch hstate.symm.trans hb
    | write call =>
      obtain ⟨ok, c', hrun, hgood, hbad⟩ := write_spec (S := S) h hall call
      refine ⟨.bool ok, c', by rw [Client.run, hrun]; rfl, ?_⟩
      cases ok with
      | true => exact hgood rfl
      | false => exact (hbad rfl).coherent
    | getStatus a =>
      obtain ⟨s, c', hrun, hgood, hbad⟩ := getStatus_spec (S := S) h hall a
      refine ⟨.status s, c', by rw [Client.run, hrun]; rfl, ?_⟩
      by_cases hok : c.RequestEnds S ∧ (readHeaders a.header c.rx a.sizes).1 ≠ none
      · obtain ⟨header, hheader⟩ := Option.ne_none_iff_exists'.mp hok.2
        exact (hgood hok.1 header hheader).2.2.1
      · exact (hbad hok).2.coherent
    | read size available =>
      obtain ⟨d, c', hrun, hgood, hbad⟩ := read_spec h hall size available
      refine ⟨.data d, c', by rw [Client.run, hrun]; rfl, ?_⟩
      by_cases hd : d = none
      · exact (hbad hd).coherent
      · exact (hgood hd).1
  · obtain ⟨r, hrun, -⟩ := run_refused S call hall
    exact ⟨r, c, hrun, h⟩

theorem Reaches.coherent (h : Reaches S c) : c.Coherent := by
  induction h with
  | start t addr port => exact coherent_ofSocket t addr port
  | call _ _ hrun ih =>
    obtain ⟨r', c'', hrun', hc⟩ := run_coherent S ih _
    obtain ⟨-, rfl⟩ := Prod.mk.inj (Option.some.inj (hrun.symm.trans hrun'))
    exact hc

/-- The header parser takes what is at the front of the stream for a response. -/
def Accepts (header : BasicHeader) (rx : List UInt8) (sizes : List Nat) : Prop :=
  (parse noHandlers (ofHandlers header ()) (cut rx sizes)).ok = true ∧
    (parse noHandlers (ofHandlers header ()) (cut rx sizes)).parser.out.type = .response

/-- Behind responses with the status 100 there is one with the status `s`. -/
inductive Answered : BasicHeader → List UInt8 → List (List Nat) → UInt32 → Prop
  | final {header : BasicHeader} {rx : List UInt8} {sizes : List Nat} {later : List (List Nat)} {s : UInt32} :
      Accepts header rx sizes → statusOf rx = some s → s ≠ 100 → Answered header rx (sizes :: later) s
  | next {header : BasicHeader} {rx : List UInt8} {sizes : List Nat} {later : List (List Nat)} {s : UInt32} :
      Accepts header rx sizes → statusOf rx = some 100 →
      Answered (parse noHandlers (ofHandlers header ()) (cut rx sizes)).parser.out (behindHead rx) later s →
      Answered header rx (sizes :: later) s

/-- What is accepted as a response has its status and its end where the text has them. -/
theorem Accepts.status {header : BasicHeader} {rx : List UInt8} {sizes : List Nat}
    (h : Accepts header rx sizes) :
    statusOf rx = some (parse noHandlers (ofHandlers header ()) (cut rx sizes)).parser.out.status ∧
      rx.drop (parse noHandlers (ofHandlers header ()) (cut rx sizes)).consumed = behindHead rx := by
  obtain ⟨hok, htype⟩ := h
  generalize hr : parseLoop noHandlers (ofHandlers header ()).parseInit (rx.take (arrived sizes)) = r
  rw [parse_cut header rx sizes hr] at hok htype ⊢
  by_cases hend : r.2.st = .eoh
  · rw [if_pos hend] at hok htype ⊢
    -- what arrives later does not matter
    have hall : parseLoop noHandlers (ofHandlers header ()).parseInit rx = r := by
      rcases parseLoop_cases (H := noHandlers) _ (live_parseInit (ofHandlers header ()))
        (rx.take (arrived sizes)) with hread | ⟨-, hsame⟩
      · rw [hr] at hread
        exact absurd hend hread.2.2
      · have hrest := hsame (rx.drop (arrived sizes))
        rwa [List.take_append_drop, hr] at hrest
    rw [parseFinish, if_neg (fun hne => hne hend)] at hok htype ⊢
    cases htest : testHeader r.2.out with
    | error e =>
      rw [htest] at hok
      cases hok
    | ok out =>
      rw [htest] at htype
      obtain ⟨hkeep, hstatus⟩ := testHeader_keeps htest
      have hrun := response_run (p := (ofHandlers header ()).parseInit) (H := noHandlers) rfl rfl rfl rx
        (by rw [hall]; exact hend) (by rw [hall]; exact hkeep.symm.trans htype)
      rw [hall, ← hstatus] at hrun
      exact hrun
  · rw [if_neg hend] at hok
    cases hok

/-- The header behind the loop is the one of the first response with another status than 100. -/
theorem answered_of_readHeaders {header h : BasicHeader} {rx : List UInt8} {sizes : List (List Nat)}
    (hread : (readHeaders header rx sizes).1 = some h) : Answered header rx sizes h.status := by
  induction sizes generalizing header rx with
  | nil => exact nomatch hread
  | cons ns later ih =>
    rw [readHeaders] at hread
    split at hread
    · cases hread
    · next hok =>
      split at hread
      · cases hread
      · next htype =>
        rw [Bool.not_eq_true', Bool.not_eq_false] at hok
        have hacc : Accepts header rx ns := ⟨hok, not_not.mp htype⟩
        obtain ⟨hstatus, hdrop⟩ := hacc.status
        split at hread
        · next h100 =>
          rw [hdrop] at hread
          exact .next hacc (h100 ▸ hstatus) (ih hread)
        · next h100 =>
          obtain rfl := Option.some.inj hread
          exact .final hacc hstatus h100

theorem readHeaders_of_answered {header : BasicHeader} {rx : List UInt8} {sizes : List (List Nat)}
    {s : UInt32} (h : Answered header rx sizes s) :
    ∃ out, (readHeaders header rx sizes).1 = some out ∧ out.status = s := by
  induction h with
  | final hacc hstatus hne =>
    have hs := Option.some.inj (hacc.status.1.symm.trans hstatus)
    rw [readHeaders]
    simp only [hacc.1, hacc.2, hs, hne]
    exact ⟨_, rfl, hs⟩
  | next hacc hstatus _ ih =>
    have hs := Option.some.inj (hacc.status.1.symm.trans hstatus)
    obtain ⟨out, hout, hstatus'⟩ := ih
    rw [readHeaders]
    simp only [hacc.1, hacc.2, hs, hacc.status.2]
    exact ⟨out, hout, hstatus'⟩

/-- A read of a client as a call of its body parser. -/
def readCall (read : UInt32 × Nat) : ReadCall := ⟨read.2, bufLimit read.1⟩

theorem readCall_mk (size : UInt32) (available : Nat) :
    readCall (size, available) = ⟨available, bufLimit size⟩ := rfl

/-- The reads of a client one after the other, up to one that returns nothing or fails. A read that
fails with nothing in the socket has missed data. -/
def Client.readLoop : Client τ → List (UInt32 × Nat) → Reading × Client τ
  | c, [] => (⟨[], 0, .running⟩, c)
  | c, (size, available) :: reads =>
      match c.read size available with
      | some (some [], c') => (⟨[], c.rx.length - c'.rx.length, .ended⟩, c')
      | some (some (b :: bs), c') =>
          let r := c'.readLoop reads
          (⟨b :: bs ++ r.1.body, c.rx.length - c'.rx.length + r.1.taken, r.1.ending⟩, r.2)
      | some (none, c') => (⟨[], 0, if c.rx.take available = [] then .noData else .error⟩, c')
      | none => (⟨[], 0, .error⟩, c)

/-- What is asked of the reads behind a header: they return the bytes of the body in order, a success
without a byte comes at its end only and after so many reads as it has bytes, nothing behind the body
is taken, only missing data makes a read fail, and behind the end every read returns nothing. -/
structure Client.Returns (c : Client τ) (b : HttpBody) (reads : List (UInt32 × Nat)) : Prop where
  inOrder : (c.readLoop reads).1.body <+: b.data
  whole : (c.readLoop reads).1.ending = .ended →
    (c.readLoop reads).1.body = b.data ∧ (c.readLoop reads).1.taken = b.enc.length
  ends : (c.readLoop reads).1.ending = .running → reads.length ≤ b.data.length
  within : (c.readLoop reads).1.taken ≤ b.enc.length
  noError : (c.readLoop reads).1.ending ≠ .error
  noData : (c.readLoop reads).1.ending = .noData → (c.readLoop reads).1.taken < b.enc.length
  stays : (c.readLoop reads).1.ending = .ended → ∀ size available,
    (c.readLoop reads).2.read size available = some (some [], (c.readLoop reads).2)

/-- The reads of a client are the calls of its body parser. -/
theorem readLoop_eq (hs : c.base.state = .recvResBody) {p : BasicBodyParser} (hpw : c.pw = .bodyParser p)
    (reads : List (UInt32 × Nat)) :
    (c.readLoop reads).1 = Http.readLoop p c.rx (reads.map readCall) := by
  induction reads generalizing c p with
  | nil => rfl
  | cons read reads ih =>
    obtain ⟨size, available⟩ := read
    rw [Client.readLoop, read_eq hs hpw, List.map_cons, readCall_mk, Http.readLoop]
    have hfailed : (streamCall p c.rx ⟨available, bufLimit size⟩ = .noData → c.rx.take available = []) ∧
        (streamCall p c.rx ⟨available, bufLimit size⟩ = .error → c.rx.take available ≠ []) := take_of_failed
    cases hcall : streamCall p c.rx ⟨available, bufLimit size⟩ with
    | noData => simp only [Client.afterRead, if_pos (hfailed.1 hcall)]
    | error => simp only [Client.afterRead, if_neg (hfailed.2 hcall)]
    | read buf p' n =>
      have hn := streamCall_took hcall
      have hlen : c.rx.length - (c.rx.drop n).length = n := by
        rw [List.length_drop]
        omega
      cases buf with
      | nil => simp only [Client.afterRead, hlen]
      | cons b bs =>
        have hrest := ih (c := { c with pw := .bodyParser p', rx := c.rx.drop n }) hs rfl
        simp only [Client.afterRead, hlen, hrest]

/-- At the end of the body every read returns nothing. -/
theorem read_eob (hs : c.base.state = .recvResBody) {p : BasicBodyParser} (hpw : c.pw = .bodyParser p)
    (hp : p.status = .eob) (size : UInt32) (available : Nat) :
    c.read size available = some (some [], c) := by
  rw [read_eq hs hpw, streamCall_eob _ _ hp, Client.afterRead, List.drop_zero, ← hpw]

/-- Behind the end of a body every read returns nothing. -/
theorem readLoop_stays {b : HttpBody} {rest : List UInt8} {At : BasicBodyParser → Nat → Prop}
    (hF : Follows b rest At) (hK : KnowsEnd b rest At) (hs : c.base.state = .recvResBody)
    {p : BasicBodyParser} (hpw : c.pw = .bodyParser p) {k : Nat} (hrx : c.rx = (b.enc ++ rest).drop k)
    (h : At p k) (reads : List (UInt32 × Nat)) (hall : AllBring b rest p k (reads.map readCall))
    (hend : (c.readLoop reads).1.ending = .ended) (size : UInt32) (available : Nat) :
    (c.readLoop reads).2.read size available = some (some [], (c.readLoop reads).2) := by
  induction reads generalizing c p k with
  | nil => cases hend
  | cons read reads ih =>
    obtain ⟨size', available'⟩ := read
    have hreads := (hF.readsFrom_iff _ h).mpr hall
    rw [List.map_cons, AllBring] at hall
    rw [Client.readLoop, read_eq hs hpw] at hend ⊢
    rw [List.map_cons, Http.readLoop] at hreads
    rw [readCall_mk, ← hrx] at hall hreads
    cases hcall : streamCall p c.rx ⟨available', bufLimit size'⟩ with
    | noData =>
      simp only [hcall, Client.afterRead] at hend
      split at hend <;> cases hend
    | error =>
      simp only [hcall, Client.afterRead] at hend
      split at hend <;> cases hend
    | read buf p' n =>
      simp only [hcall, Client.afterRead] at hend hall hreads ⊢
      cases buf with
      | nil =>
        have hp' : p'.status = .eob := by
          by_cases hst : p.status = .eob
          · rw [streamCall_eob _ _ hst] at hcall
            obtain ⟨-, rfl, -⟩ := StreamCall.read.inj hcall
            exact hst
          · rw [hrx] at hcall
            exact hK h hst hcall (hreads.whole rfl).2
        exact read_eob (c := { c with pw := .bodyParser p', rx := c.rx.drop n }) hs rfl hp' size available
      | cons x xs =>
        have hst : p.status ≠ .eob := by
          intro hst
          rw [streamCall_eob _ _ hst] at hcall
          cases hcall
        have hfound : found b rest k ⟨available', bufLimit size'⟩ ≠ 0 := by
          intro hf
          rw [hrx, streamCall_noData hst hf] at hcall
          cases hcall
        obtain ⟨buf', q, m, hstep, -, -, -, hat, -⟩ := hF.step h hst hfound
        rw [← hrx, hcall] at hstep
        obtain ⟨rfl, rfl, rfl⟩ := StreamCall.read.inj hstep
        have hrest : c.rx.drop n = (b.enc ++ rest).drop (k + n) := by rw [hrx, List.drop_drop]
        exact ih (c := { c with pw := .bodyParser p', rx := c.rx.drop n }) hs rfl hrest
          (hat (List.cons_ne_nil x xs)) hall.2 hend

/-- Reads that return a body have found what they need. -/
theorem Client.Returns.allFind {b : HttpBody} {rest : List UInt8} (hs : c.base.state = .recvResBody)
    {p₀ : BasicBodyParser} (hpw : c.pw = .bodyParser (b.init p₀)) (hrx : c.rx = b.enc ++ rest)
    (hext : b.NoExtension) {reads : List (UInt32 × Nat)} (h : c.Returns b reads) :
    AllFind b rest 0 (reads.map readCall) := by
  obtain ⟨At, hP, hat⟩ := exists_places b p₀ rest
  have hloop := readLoop_eq hs hpw reads
  rw [hrx] at hloop
  have hlength : (reads.map readCall).length = reads.length := List.length_map ..
  have hbody : ReadsBody b p₀ rest (reads.map readCall) := {
    inOrder := hloop ▸ h.inOrder
    whole := hloop ▸ h.whole
    ends := fun he => hlength ▸ h.ends (hloop ▸ he)
    within := hloop ▸ h.within
    noError := hloop ▸ h.noError
    noData := hloop ▸ h.noData }
  exact (hP.allBring_iff hext hat _).mp ((readsBody_iff b p₀ rest _ hext).mp hbody)

/-- The reads behind the header of a response return its body. -/
theorem returns_body {b : HttpBody} {rest : List UInt8} (hs : c.base.state = .recvResBody)
    {p₀ : BasicBodyParser} (hpw : c.pw = .bodyParser (b.init p₀)) (hrx : c.rx = b.enc ++ rest)
    (hext : b.NoExtension) {reads : List (UInt32 × Nat)}
    (hall : AllFind b rest 0 (reads.map readCall)) : c.Returns b reads := by
  obtain ⟨At, hP, hat⟩ := exists_places b p₀ rest
  have hbring := (hP.allBring_iff hext hat _).mpr hall
  have hbody := (readsBody_iff b p₀ rest (reads.map readCall) hext).mpr hbring
  have hloop := readLoop_eq hs hpw reads
  rw [hrx] at hloop
  have hrx₀ : c.rx = (b.enc ++ rest).drop 0 := hrx
  have hstays : (c.readLoop reads).1.ending = .ended → ∀ size available,
      (c.readLoop reads).2.read size available = some (some [], (c.readLoop reads).2) := by
    intro hend
    cases b with
    | plain data fits =>
      have hat' : PlainAt data (parseInit p₀ .none (UInt32.ofNat data.length)) 0 := by
        refine ⟨rfl, Nat.zero_le _, ?_, (if_neg fun h => lt_irrefl 0 h.2).symm⟩
        exact UInt32.toNat_ofNat_of_lt' fits
      exact readLoop_stays (plain_follows data fits rest) (plain_knowsEnd data fits rest) hs hpw
        hrx₀ hat' reads hbring hend
    | chunked enc data valid =>
      have hclean := (noExtension_iff valid).mp hext
      have hpos : 0 < enc.length := List.length_pos_iff.mpr (accepts_chunked valid p₀ hclean).ne_nil
      have hat' : ChunkedAt valid p₀ (parseInit p₀ .chunked 0) 0 :=
        ⟨rfl, (fun he => nomatch he), fun _ => ⟨hpos, rfl⟩⟩
      exact readLoop_stays (chunked_follows valid p₀ hclean rest) (chunked_knowsEnd valid p₀ hclean rest)
        hs hpw hrx₀ hat' reads hbring hend
  have hlength : (reads.map readCall).length = reads.length := List.length_map ..
  exact {
    inOrder := hloop ▸ hbody.inOrder
    whole := hloop ▸ hbody.whole
    ends := fun h => hlength ▸ hbody.ends (hloop ▸ h)
    within := hloop ▸ hbody.within
    noError := hloop ▸ hbody.noError
    noData := hloop ▸ hbody.noData
    stays := hstays }

/-- The calls that transfer something, with this one for the answers. -/
def Call.Transfers (a : Answers) : Call τ → Prop
  | .write _ | .read .. => True
  | .getStatus a' => a' = a
  | _ => False

/-- The end of the request is taken, and the heads of the response arrive. -/
def Client.Gets (S : PtrStream τ) (c : Client τ) (a : Answers) (m : Response) : Prop :=
  c.RequestEnds S ∧ Arrive m.heads a.sizes

/-- What is asked of a client behind any calls, when it may go on to `getStatus` and then to reads,
and what the server sends is the response `m`. -/
structure Exchange (S : PtrStream τ) (c : Client τ) (a : Answers) (m : Response)
    (reads : List (UInt32 × Nat)) : Prop where
  runs : ∀ call, ∃ r c', c.run S call = some (r, c')
  refuses : ∀ call r c', ¬ call.Allowed c.base.state → c.run S call = some (r, c') → r.Failed ∧ c' = c
  closes : ∀ call r c', call.Allowed c.base.state → call.Transfers a → c.run S call = some (r, c') →
    r.Failed → c'.IsClosed
  reconnects : ∀ addr port addr' port' server, (c.connect addr port none).1 = false ∧
    ((c.connect addr port none).2.connect addr' port' (some server)).1 = true ∧
    ((c.connect addr port none).2.connect addr' port' (some server)).2.base.state = .idle
  status : ∀ s c', c.run S (.getStatus a) = some (.status s, c') → s ≠ 0 →
    Answered a.header c.rx a.sizes s.toUInt32
  answers : c.base.state = .sendReqBody → m.Valid → c.rx = m.text → ∃ s c',
    c.run S (.getStatus a) = some (.status s, c') ∧ (¬ c.Gets S a m → s = 0) ∧
      (c.Gets S a m → s.toNat = m.final.status ∧ c'.Returns m.body reads)

/-- The condition: the status of the response is one of 16 bits and not 0, the parsers can take the
response, and the reads find what they need. -/
structure Meets (c : Client τ) (a : Answers) (m : Response) (reads : List (UInt32 × Nat)) : Prop where
  status : ∀ s, Answered a.header c.rx a.sizes s → 0 < s.toNat ∧ s.toNat < 2 ^ 16
  response : m.Valid → c.rx = m.text → m.Fits ∧ AllFind m.body m.rest 0 (reads.map readCall)

/-- `getStatus` fails and closes, or there is a response to which it gives the status, in 16 bits. -/
theorem getStatus_cases (h : c.Coherent) (hs : c.base.state = .sendReqBody) (a : Answers) :
    ∃ s c', c.run S (.getStatus a) = some (.status s, c') ∧ ((s = 0 ∧ c'.IsClosed) ∨
      ∃ status, Answered a.header c.rx a.sizes status ∧ s = status.toUInt16) := by
  obtain ⟨s, c', hget, hgood, hbad⟩ := getStatus_spec (S := S) h hs a
  refine ⟨s, c', by rw [Client.run, hget]; rfl, ?_⟩
  by_cases hok : c.RequestEnds S ∧ (readHeaders a.header c.rx a.sizes).1 ≠ none
  · obtain ⟨header, hheader⟩ := Option.ne_none_iff_exists'.mp hok.2
    exact Or.inr ⟨_, answered_of_readHeaders hheader, (hgood hok.1 header hheader).1⟩
  · exact Or.inl (hbad hok)

/-- A status that has room in 16 bits is not changed. -/
theorem toUInt32_toUInt16 {status : UInt32} (h : status.toNat < 2 ^ 16) :
    status.toUInt16.toUInt32 = status := by
  apply UInt32.toNat_inj.mp
  show status.toNat % 2 ^ 16 = _
  exact Nat.mod_eq_of_lt h

/-- What the server sends is answered by its status, and leads to the reads of its body. -/
theorem getStatus_response (h : c.Coherent) (hs : c.base.state = .sendReqBody) (a : Answers) {m : Response}
    (hv : m.Valid) (hrx : c.rx = m.text) (hf : m.Fits) :
    ∃ s c', c.run S (.getStatus a) = some (.status s, c') ∧ (¬ c.Gets S a m → s = 0) ∧
      (c.Gets S a m → s.toNat = m.final.status ∧ c'.base.state = .recvResBody ∧
        c'.pw = .bodyParser (m.body.init a.parser) ∧ c'.rx = m.body.enc ++ m.rest) := by
  have hheads : ∀ hd ∈ m.continues, (hd.Valid ∧ hd.status = 100) ∧ hd.Fits := fun hd hm =>
    ⟨hv.continues hd hm, hf.heads hd (List.mem_append_left _ hm)⟩
  have hfinal : m.final.Fits := hf.heads _ (List.mem_append_right _ (List.mem_singleton_self _))
  obtain ⟨harrive, hshort⟩ := readHeaders_heads hheads hv.final hv.status hfinal a.header
    (m.body.enc ++ m.rest) a.sizes
  obtain ⟨s, c', hget, hgood, hbad⟩ := getStatus_spec (S := S) h hs a
  rw [hrx] at hgood hbad
  refine ⟨s, c', by rw [Client.run, hget]; rfl, fun hno => ?_, fun hgets => ?_⟩
  · refine (hbad fun hok => hno ⟨hok.1, ?_⟩).1
    by_contra hnot
    exact hok.2 (hshort hnot)
  · obtain ⟨out', header, htest, hread⟩ := harrive hgets.2
    obtain ⟨hstatus, hstate, -, hpw, hrest⟩ := hgood hgets.1 header (congrArg Prod.fst hread)
    have hlt : m.final.status < 1000 := hv.final.status_lt
    rw [bodyParserOf_init hf.announces htest] at hpw
    refine ⟨?_, hstate, hpw, hrest.trans (congrArg Prod.snd hread)⟩
    rw [hstatus, (Head.header_keeps htest).2]
    show (UInt32.ofNat m.final.status).toNat % 2 ^ 16 = _
    rw [UInt32.toNat_ofNat_of_lt' (lt_trans hlt (by decide)), Nat.mod_eq_of_lt (by omega)]

/-- Under the condition a client does what is asked of it. -/
theorem exchange_of_meets (h : c.Coherent) {a : Answers} {m : Response} {reads : List (UInt32 × Nat)}
    (hm : Meets c a m reads) : Exchange S c a m reads := by
  constructor
  case runs =>
    intro call
    obtain ⟨r, c', hrun, -⟩ := run_coherent S h call
    exact ⟨r, c', hrun⟩
  case refuses =>
    intro call r c' hno hrun
    obtain ⟨r', hrun', hfail⟩ := run_refused S call hno
    obtain ⟨rfl, rfl⟩ := Prod.mk.inj (Option.some.inj (hrun.symm.trans hrun'))
    exact ⟨hfail, rfl⟩
  case closes =>
    intro call r c' hall htrans hrun hfail
    cases call with
    | write call =>
      obtain ⟨ok, c'', hwrite, -, hbad⟩ := write_spec (S := S) h hall call
      rw [Client.run, hwrite] at hrun
      obtain ⟨rfl, rfl⟩ := Prod.mk.inj (Option.some.inj hrun)
      exact hbad hfail
    | read size available =>
      obtain ⟨d, c'', hread, -, hbad⟩ := read_spec h hall size available
      rw [Client.run, hread] at hrun
      obtain ⟨rfl, rfl⟩ := Prod.mk.inj (Option.some.inj hrun)
      exact hbad hfail
    | getStatus a' =>
      obtain rfl : a' = a := htrans
      obtain ⟨s, c'', hget, hcases⟩ := getStatus_cases (S := S) h hall a'
      obtain ⟨rfl, rfl⟩ := Prod.mk.inj (Option.some.inj (hrun.symm.trans hget))
      rcases hcases with hclosed | ⟨status, hans, rfl⟩
      · exact hclosed.2
      · obtain ⟨hpos, hlt⟩ := hm.status status hans
        have hzero : status.toUInt16 = 0 := hfail
        rw [← toUInt32_toUInt16 hlt, hzero] at hpos
        exact absurd hpos (by decide)
    | connect addr port server => exact htrans.elim
    | close => exact htrans.elim
    | sendMethod req => exact htrans.elim
    | finalize => exact htrans.elim
  case reconnects =>
    intro addr port addr' port' server
    rw [connect_none h]
    obtain ⟨hclosed, -, -⟩ := h.close
    obtain ⟨hok, hstate, -⟩ := connect_some hclosed addr' port' server.1 server.2
    exact ⟨rfl, hok, hstate⟩
  case status =>
    intro s c' hrun hne
    by_cases hs : c.base.state = .sendReqBody
    · obtain ⟨s', c'', hget, hcases⟩ := getStatus_cases (S := S) h hs a
      obtain ⟨hres, -⟩ := Prod.mk.inj (Option.some.inj (hrun.symm.trans hget))
      obtain rfl := Result.status.inj hres
      rcases hcases with hclosed | ⟨status, hans, rfl⟩
      · exact absurd hclosed.1 hne
      · rw [toUInt32_toUInt16 (hm.status status hans).2]
        exact hans
    · obtain ⟨r, hrefused, hfail⟩ := run_refused S (.getStatus a) hs
      obtain ⟨rfl, -⟩ := Prod.mk.inj (Option.some.inj (hrun.symm.trans hrefused))
      exact absurd hfail hne
  case answers =>
    intro hs hv hrx
    obtain ⟨hf, hall⟩ := hm.response hv hrx
    obtain ⟨s, c', hrun, hno, hgets⟩ := getStatus_response (S := S) h hs a hv hrx hf
    refine ⟨s, c', hrun, hno, fun hg => ?_⟩
    obtain ⟨hstatus, hstate, hpw, hrest⟩ := hgets hg
    exact ⟨hstatus, returns_body hstate hpw hrest hf.noExtension hall⟩

/-- The status has to have room in 16 bits and must not be 0. -/
theorem Exchange.answered_lt (h : c.Coherent) {a : Answers} {m : Response} {reads : List (UInt32 × Nat)}
    (hex : Exchange S c a m reads) (hs : c.base.state = .sendReqBody) (hends : c.RequestEnds S) {s : UInt32}
    (hans : Answered a.header c.rx a.sizes s) : 0 < s.toNat ∧ s.toNat < 2 ^ 16 := by
  obtain ⟨header, hread, rfl⟩ := readHeaders_of_answered hans
  obtain ⟨s', c', hget, hgood, -⟩ := getStatus_spec (S := S) h hs a
  obtain ⟨rfl, hstate, -⟩ := hgood hends header hread
  have hrun : c.run S (.getStatus a) = some (.status header.status.toUInt16, c') := by
    rw [Client.run, hget]
    rfl
  by_cases hzero : header.status.toUInt16 = 0
  · have hclosed := hex.closes (.getStatus a) _ c' hs rfl hrun hzero
    exact nomatch hclosed.state.symm.trans hstate
  · obtain ⟨header', hread', hsame⟩ := readHeaders_of_answered (hex.status _ c' hrun hzero)
    obtain rfl := Option.some.inj (hread.symm.trans hread')
    rw [hsame]
    refine ⟨Nat.pos_of_ne_zero fun h0 => hzero ?_, header.status.toUInt16.toNat_lt⟩
    exact UInt16.toNat_inj.mp h0

/-- Behind any calls a client does what is asked of it as long as the condition is met; and for a
response that the parsers can take, the condition has to be met. -/
theorem client_exchange (hc : Reaches S c) (a : Answers) (m : Response) (reads : List (UInt32 × Nat)) :
    (Meets c a m reads → Exchange S c a m reads) ∧
      (Exchange S c a m reads → c.base.state = .sendReqBody → c.RequestEnds S →
        (∀ s, Answered a.header c.rx a.sizes s → 0 < s.toNat ∧ s.toNat < 2 ^ 16) ∧
        (m.Valid → c.rx = m.text → m.Fits → Arrive m.heads a.sizes →
          AllFind m.body m.rest 0 (reads.map readCall))) := by
  have h := hc.coherent
  refine ⟨exchange_of_meets h, fun hex hs hends => ⟨fun s hans => hex.answered_lt h hs hends hans, ?_⟩⟩
  intro hv hrx hf harrive
  obtain ⟨s, c', hrun, -, hreturns⟩ := hex.answers hs hv hrx
  obtain ⟨s', c'', hrun', -, hgets⟩ := getStatus_response (S := S) h hs a hv hrx hf
  obtain ⟨-, rfl⟩ := Prod.mk.inj (Option.some.inj (hrun.symm.trans hrun'))
  obtain ⟨-, hstate, hpw, hrest⟩ := hgets ⟨hends, harrive⟩
  exact (hreturns ⟨hends, harrive⟩).2.allFind hstate hpw hrest hf.noExtension

/-- A client behind the header of a request, and what the server is going to send. -/
def sentClient (rx : List UInt8) : Client (List UInt8) :=
  (((Client.ofSocket [] localhost 80).connect localhost 80 (some ([], rx))).2.sendMethod sinkStream
    ⟨some .get, ascii "/", 0, none, none⟩).2

theorem reaches_sentClient (rx : List UInt8) : Reaches sinkStream (sentClient rx) := by
  have hstart : Reaches sinkStream (Client.ofSocket [] localhost 80) := .start [] localhost 80
  have hconn := hstart.call rfl (show Client.run sinkStream _ (.connect localhost 80 (some ([], rx))) =
    some (_, _) from rfl)
  exact hconn.call rfl (show Client.run sinkStream _ (.sendMethod ⟨some .get, ascii "/", 0, none, none⟩) =
    some (_, _) from rfl)

/-- All of a header in one read, with nothing of interest in the memory for it. -/
def oneRead : Answers := ⟨zeroHeader, newParser, [[100]]⟩

theorem abc_fits : (ascii "abc").length < 2 ^ 32 := by decide

def abcResponse : Response where
  continues := []
  final := ⟨true, 200, ascii "OK", [⟨ascii "Content-Length", 1, ascii "3"⟩]⟩
  body := .plain (ascii "abc") abc_fits
  rest := []

theorem abcResponse_valid : abcResponse.Valid where
  continues h hm := nomatch hm
  final := ⟨by decide, by decide, by decide, by
    intro f hf
    obtain rfl := List.mem_singleton.mp hf
    exact ⟨by decide, by decide, by decide, by decide⟩⟩
  status := by decide
  frames := .length _ _ _ (by unfold Head.Bodiless; decide) (by decide) (by decide) (by decide)

theorem abcResponse_fits : abcResponse.Fits := by
  have hfield : ∀ f ∈ abcResponse.final.fields, f.Fits := by
    intro f hf
    obtain rfl := List.mem_singleton.mp hf
    exact ⟨by decide, by decide, fun _ => ⟨3, by decide, by decide⟩⟩
  have hlen : (ascii "abc").length < 2 ^ 32 := by decide
  obtain ⟨hfits, hann⟩ := Head.takes_length hfield hlen (by decide) (by decide) (by decide) (by decide)
  refine ⟨fun h hm => ?_, hann, trivial⟩
  obtain rfl := List.mem_singleton.mp hm
  exact hfits

theorem client_exchange_abc : abcResponse.Valid ∧ (sentClient abcResponse.text).Gets sinkStream oneRead abcResponse ∧
    Exchange sinkStream (sentClient abcResponse.text) oneRead abcResponse [(16, 2), (16, 3), (16, 0)] := by
  refine ⟨abcResponse_valid, ⟨⟨false, false, rfl, by decide +kernel⟩, by decide +kernel, trivial⟩,
    (client_exchange (reaches_sentClient _) _ _ _).1 ⟨?_, ?_⟩⟩
  · intro s hs
    cases hs with
    | final _ hstatus _ =>
      have hok : statusOf (sentClient abcResponse.text).rx = some 200 := by decide +kernel
      obtain rfl := Option.some.inj (hok.symm.trans hstatus)
      decide
    | next _ hstatus _ => exact absurd hstatus (by decide +kernel)
  · intro _ _
    refine ⟨abcResponse_fits, ?_, fun _ => ⟨?_, fun _ => ⟨?_, fun _ => trivial⟩⟩⟩
    · unfold Brings
      decide +kernel
    · unfold Brings
      decide +kernel
    · unfold Brings
      decide +kernel

/-- The size line of a chunk comes alone. -/
def chunkedResponse : Response where
  continues := []
  final := ⟨true, 200, ascii "OK", [⟨ascii "Transfer-Encoding", 1, ascii "chunked"⟩]⟩
  body := abcChunk
  rest := []

theorem chunkedResponse_valid : chunkedResponse.Valid where
  continues h hm := nomatch hm
  final := ⟨by decide, by decide, by decide, by
    intro f hf
    obtain rfl := List.mem_singleton.mp hf
    exact ⟨by decide, by decide, by decide, by decide⟩⟩
  status := by decide
  frames := .chunked _ _ _ _ (by unfold Head.Bodiless; decide) ⟨_, List.mem_singleton_self _, by decide, by decide⟩

theorem chunkedResponse_fits : chunkedResponse.Fits := by
  have hfield : ∀ f ∈ chunkedResponse.final.fields, f.Fits := by
    intro f hf
    obtain rfl := List.mem_singleton.mp hf
    exact ⟨by decide, by decide, fun h => absurd h (by decide)⟩
  obtain ⟨hfits, hann⟩ := Head.takes_chunked hfield rfl ((chunked_iff_accepts (ascii "3\r\nabc\r\n0\r\n\r\n")
    (ascii "abc")).mpr rfl) (by decide) (by decide) (by decide)
  refine ⟨fun h hm => ?_, hann, HttpBody.noExtension_of_semicolon _ (by decide)⟩
  obtain rfl := List.mem_singleton.mp hm
  exact hfits

/-- A read that finds the size line of a chunk alone returns nothing, as at the end of the body; and
`getStatus` fails on the status 0 and on the status 65536, but does not close. -/
theorem not_client_exchange :
    (chunkedResponse.Valid ∧ chunkedResponse.Fits ∧ Reaches sinkStream (sentClient chunkedResponse.text) ∧
      ¬ Exchange sinkStream (sentClient chunkedResponse.text) oneRead chunkedResponse [(16, 3), (16, 10)]) ∧
    ∀ rx ∈ [ascii "HTTP/1.1 0 OK\r\n\r\n", ascii "HTTP/1.1 65536 OK\r\n\r\n"],
      Reaches sinkStream (sentClient rx) ∧ ∀ m, ¬ Exchange sinkStream (sentClient rx) oneRead m [] := by
  refine ⟨⟨chunkedResponse_valid, chunkedResponse_fits, reaches_sentClient _, fun h => ?_⟩, fun rx hrx =>
    ⟨reaches_sentClient rx, fun m h => ?_⟩⟩
  · obtain ⟨s, c', hrun, -, hgets⟩ := h.answers (by decide +kernel) chunkedResponse_valid rfl
    have hend : ((sentClient chunkedResponse.text).run sinkStream (.getStatus oneRead)).map
        (fun r => (r.2.readLoop [(16, 3), (16, 10)]).1) = some ⟨[], 3, .ended⟩ := by decide +kernel
    rw [hrun] at hend
    have hread := Option.some.inj hend
    have hwhole := ((hgets ⟨⟨false, false, rfl, by decide +kernel⟩, by decide +kernel, trivial⟩).2.whole
      (congrArg Reading.ending hread)).1
    rw [congrArg Reading.body hread] at hwhole
    exact absurd hwhole (by decide)
  · have hopen : ∀ rx ∈ [ascii "HTTP/1.1 0 OK\r\n\r\n", ascii "HTTP/1.1 65536 OK\r\n\r\n"],
        ((sentClient rx).run sinkStream (.getStatus oneRead)).map (fun r => (r.1, r.2.base.state)) =
          some (.status 0, .recvResBody) := by decide +kernel
    obtain ⟨⟨r, c'⟩, hrun, hres⟩ := Option.map_eq_some_iff.mp (hopen rx hrx)
    obtain ⟨rfl, hstate⟩ := Prod.mk.inj hres
    have hsent : (sentClient rx).base.state = .sendReqBody := by rfl
    have hclosed := h.closes (.getStatus oneRead) _ c' hsent rfl hrun rfl
    exact nomatch hclosed.state.symm.trans hstate

end MiMic.Httpcl
