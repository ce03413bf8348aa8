import MiMic.Httpd.Connection

/-!
# The server thread

`NyLPC_cHttpdThread_start` and `server` drive a connection: listen, accept, then a round for
every request, and close. A step is one call of the thread, with what the socket, the peer and
the handler make of it.
-/
namespace MiMic.Httpd

open Verif

/-- What the thread calls next. -/
inductive Next
  | listen
  | accept
  | prefetch
  | connectionMode
  | onRequest
  | prevNextPrefetch
  | closeSocket
deriving DecidableEq, Repr

structure HttpdThread where
  next : Next
  connection : HttpdConnection
deriving DecidableEq, Repr

/-- A call of the thread. `returned` is a handler that has come to its end. -/
inductive ThreadEvent
  | listen (listened : Bool)
  | accept (o : Accepted)
  | prefetch (parsed : Bool)
  | connectionMode (numOfConnection : UInt16)
  | handler (a : HttpdConnection.HandlerCall)
  | returned
  | prevNextPrefetch (absorbed : Bool)
  | closeSocket
deriving DecidableEq, Repr

/-- `NyLPC_cHttpd_MAX_PERSISTENT_CONNECTION`. -/
def maxPersistentConnection : UInt16 := 3 - 1

/-- The mode that a request starts with. -/
def initialMode (numOfConnection : UInt16) : ConnectionMode :=
  if numOfConnection > maxPersistentConnection then .close else .keep

/-- The thread behind a call that decides whether it goes on in the round. -/
def HttpdThread.after (r : HttpdConnection × Bool) (yes no : Next) : HttpdThread :=
  ⟨if r.2 then yes else no, r.1⟩

def HttpdThread.step (t : HttpdThread) : ThreadEvent → Option HttpdThread
  | .listen listened =>
      if t.next = .listen then some (after (t.connection.listenSocket listened) .accept .listen)
      else none
  | .accept o =>
      if t.next = .accept then some (after (t.connection.acceptSocket o) .prefetch .closeSocket)
      else none
  | .prefetch parsed =>
      if t.next = .prefetch then
        some (after (t.connection.prefetch parsed) .connectionMode .closeSocket)
      else none
  | .connectionMode n =>
      if t.next = .connectionMode then
        some ⟨.onRequest, t.connection.setConnectionMode (initialMode n)⟩
      else none
  | .handler a =>
      if t.next = .onRequest then some { t with connection := t.connection.handle a } else none
  | .returned =>
      if t.next = .onRequest then some (after t.connection.closeResponse .prevNextPrefetch .closeSocket)
      else none
  | .prevNextPrefetch absorbed =>
      if t.next = .prevNextPrefetch then
        some (after (t.connection.prevNextPrefetch absorbed) .prefetch .closeSocket)
      else none
  | .closeSocket =>
      if t.next = .closeSocket then some ⟨.listen, t.connection.closeSocket⟩ else none

def httpdThread : System HttpdThread ThreadEvent where
  init t := t.next = .listen ∧ t.connection = .initial t.connection.connectionMessageMode
  step := HttpdThread.step

/-- The one call that harms is the preparation of another prefetch: the request is parsed, or its
rest is absorbed. -/
def NotPrepared (t : HttpdThread) : ThreadEvent → Prop
  | .prevNextPrefetch absorbed => t.connection.reqStatus = .reqparse ∧ absorbed = false
  | .listen _ => True
  | .accept _ => True
  | .prefetch _ => True
  | .connectionMode _ => True
  | .handler _ => True
  | .returned => True
  | .closeSocket => True

/-- The status that the next call asks for. -/
def StatusOk (t : HttpdThread) : Prop :=
  match t.next with
  | .listen => t.connection.reqStatus = .listen ∧ t.connection.resStatus = .closed
  | .accept => t.connection.reqStatus = .accept
  | .prefetch => t.connection.reqStatus = .prefetch
  | .connectionMode => t.connection.Serving
  | .onRequest => t.connection.Serving
  | .prevNextPrefetch => True
  | .closeSocket => True

structure ThreadInv (t : HttpdThread) : Prop where
  status : StatusOk t
  unharmed : t.connection.Unharmed

section

variable {t t' : HttpdThread}

theorem inv_listen (h : ThreadInv t) {listened : Bool}
    (hs : t.step (.listen listened) = some t') : ThreadInv t' := by
  simp only [HttpdThread.step] at hs
  split at hs
  · next hnext =>
    obtain rfl := Option.some.inj hs
    have hstatus := h.status
    simp only [StatusOk, hnext] at hstatus
    simp only [HttpdConnection.listenSocket, hstatus.1, decide_true,
      HttpdConnection.assert_of_true]
    cases listened with
    | true => exact ⟨rfl, h.unharmed⟩
    | false => exact ⟨hstatus, h.unharmed⟩
  · cases hs

theorem inv_accept (h : ThreadInv t) {o : Accepted} (hs : t.step (.accept o) = some t') :
    ThreadInv t' := by
  simp only [HttpdThread.step] at hs
  split at hs
  · next hnext =>
    obtain rfl := Option.some.inj hs
    have hstatus := h.status
    simp only [StatusOk, hnext] at hstatus
    simp only [HttpdConnection.acceptSocket, hstatus, decide_true, HttpdConnection.assert_of_true]
    cases o with
    | refused => exact ⟨trivial, h.unharmed⟩
    | noStream => exact ⟨trivial, h.unharmed⟩
    | stream => exact ⟨rfl, h.unharmed⟩
  · cases hs

theorem inv_prefetch (h : ThreadInv t) {parsed : Bool} (hs : t.step (.prefetch parsed) = some t') :
    ThreadInv t' := by
  simp only [HttpdThread.step] at hs
  split at hs
  · next hnext =>
    obtain rfl := Option.some.inj hs
    have hstatus := h.status
    simp only [StatusOk, hnext] at hstatus
    simp only [HttpdConnection.prefetch, hstatus, decide_true, HttpdConnection.assert_of_true]
    cases parsed with
    | true => exact ⟨fun _ => Or.inl rfl, h.unharmed⟩
    | false => exact ⟨trivial, h.unharmed⟩
  · cases hs

theorem inv_connectionMode (h : ThreadInv t) {n : UInt16}
    (hs : t.step (.connectionMode n) = some t') : ThreadInv t' := by
  simp only [HttpdThread.step] at hs
  split at hs
  · next hnext =>
    obtain rfl := Option.some.inj hs
    have hstatus := h.status
    simp only [StatusOk, hnext] at hstatus
    exact ⟨hstatus, h.unharmed⟩
  · cases hs

theorem inv_handler (h : ThreadInv t) {a : HttpdConnection.HandlerCall}
    (hs : t.step (.handler a) = some t') : ThreadInv t' := by
  simp only [HttpdThread.step] at hs
  split at hs
  · next hnext =>
    obtain rfl := Option.some.inj hs
    have hstatus := h.status
    simp only [StatusOk, hnext] at hstatus
    refine ⟨?_, h.unharmed.handle a⟩
    simp only [StatusOk, hnext]
    exact hstatus.handle a
  · cases hs

/-- A response that is closed leaves the counters alone. -/
theorem closeResponse_counters (c : HttpdConnection) :
    c.closeResponse.1.assertCounter = c.assertCounter ∧
      c.closeResponse.1.abortCounter = c.abortCounter := by
  unfold HttpdConnection.closeResponse
  split
  · exact ⟨rfl, rfl⟩
  · exact ⟨rfl, rfl⟩
  · exact ⟨rfl, rfl⟩
  · split
    · exact ⟨rfl, rfl⟩
    · exact ⟨rfl, rfl⟩

theorem inv_returned (h : ThreadInv t) (hs : t.step .returned = some t') : ThreadInv t' := by
  simp only [HttpdThread.step] at hs
  split at hs
  · obtain rfl := Option.some.inj hs
    obtain ⟨hassert, habort⟩ := closeResponse_counters t.connection
    refine ⟨?_, hassert.trans h.unharmed.1, habort.trans h.unharmed.2⟩
    simp only [StatusOk, HttpdThread.after]
    cases t.connection.closeResponse.2 <;> exact trivial
  · cases hs

theorem inv_prevNextPrefetch (h : ThreadInv t) {absorbed : Bool}
    (hok : NotPrepared t (.prevNextPrefetch absorbed))
    (hs : t.step (.prevNextPrefetch absorbed) = some t') : ThreadInv t' := by
  obtain ⟨hreq, rfl⟩ := hok
  simp only [HttpdThread.step, HttpdConnection.prevNextPrefetch, hreq] at hs
  split at hs
  · obtain rfl := Option.some.inj hs
    exact ⟨trivial, h.unharmed⟩
  · cases hs

theorem inv_closeSocket (h : ThreadInv t) (hs : t.step .closeSocket = some t') : ThreadInv t' := by
  simp only [HttpdThread.step] at hs
  split at hs
  · obtain rfl := Option.some.inj hs
    exact ⟨⟨rfl, rfl⟩, h.unharmed⟩
  · cases hs

theorem inv_threadStep (h : ThreadInv t) {e : ThreadEvent} (hok : NotPrepared t e)
    (hs : t.step e = some t') : ThreadInv t' := by
  cases e with
  | listen listened => exact inv_listen h hs
  | accept o => exact inv_accept h hs
  | prefetch parsed => exact inv_prefetch h hs
  | connectionMode n => exact inv_connectionMode h hs
  | handler a => exact inv_handler h hs
  | returned => exact inv_returned h hs
  | prevNextPrefetch absorbed => exact inv_prevNextPrefetch h hok hs
  | closeSocket => exact inv_closeSocket h hs

end

theorem threadInv_reaches {t : HttpdThread} (h : httpdThread.Reaches NotPrepared t) : ThreadInv t := by
  refine h.invariant ?_ fun t e t' hinv hok hs => inv_threadStep hinv hok hs
  intro t ht
  obtain ⟨hnext, hconn⟩ := ht
  refine ⟨?_, ?_⟩
  · simp only [StatusOk, hnext]
    rw [hconn]
    exact ⟨rfl, rfl⟩
  · rw [hconn]
    exact ⟨rfl, rfl⟩

/-- A connection on which no second prefetch is ever prepared never calls a hook. -/
theorem connection_unharmed {t : HttpdThread} (h : httpdThread.Reaches NotPrepared t) :
    t.connection.Unharmed := (threadInv_reaches h).unharmed

/-- The thread as `NyLPC_cHttpdThread_initialize` leaves it. -/
def idleThread : HttpdThread := ⟨.listen, .initial .close⟩

theorem idleThread_init : httpdThread.init idleThread := ⟨rfl, rfl⟩

/-- A request that a module answers. -/
def answeredRequest : List ThreadEvent :=
  [.listen true, .accept .stream, .prefetch true, .connectionMode 1, .handler .setReqStatusParsed,
    .handler (.sendResponseHeader true), .handler (.sendResponseBody true)]

/-- `NotPrepared` for a replay. -/
def notPrepared (t : HttpdThread) : ThreadEvent → Bool
  | .prevNextPrefetch absorbed => t.connection.reqStatus = .reqparse && !absorbed
  | .listen _ => true
  | .accept _ => true
  | .prefetch _ => true
  | .connectionMode _ => true
  | .handler _ => true
  | .returned => true
  | .closeSocket => true

theorem notPrepared_sound (t : HttpdThread) (e : ThreadEvent) (h : notPrepared t e = true) :
    NotPrepared t e := by
  cases e with
  | prevNextPrefetch absorbed =>
    simp only [notPrepared, Bool.and_eq_true, decide_eq_true_eq, Bool.not_eq_true'] at h
    exact h
  | listen _ => trivial
  | accept _ => trivial
  | prefetch _ => trivial
  | connectionMode _ => trivial
  | handler _ => trivial
  | returned => trivial
  | closeSocket => trivial

theorem connection_unharmed_closed :
    ∃ t, httpdThread.Reaches NotPrepared t ∧ t.next = .listen ∧ t.connection.Unharmed := by
  have hrun := System.exists_of_runChecked notPrepared_sound idleThread_init
    (show (httpdThread.runChecked notPrepared idleThread (answeredRequest ++
      [.handler (.setConnectionMode .close), .returned, .closeSocket])).any
        (fun t => decide (t.next = .listen)) = true by decide +kernel)
  obtain ⟨t, ht, hnext⟩ := hrun
  exact ⟨t, ht, of_decide_eq_true hnext, connection_unharmed ht⟩

/-- A request that is kept alive aborts, and one that no module has parsed fails the assertion of
the next prefetch. -/
theorem not_connection_unharmed :
    (∃ t, httpdThread.Reaches System.anyStep t ∧
      decide (t.connection.abortCounter = 1) = true) ∧
    ∃ t, httpdThread.Reaches System.anyStep t ∧
      decide (t.connection.assertCounter = 1) = true := by
  constructor
  · exact System.exists_of_run idleThread_init (show (httpdThread.run idleThread
      (answeredRequest ++ [.returned, .prevNextPrefetch true])).any
        (fun t => decide (t.connection.abortCounter = 1)) = true by decide +kernel)
  · exact System.exists_of_run idleThread_init (show (httpdThread.run idleThread
      [.listen true, .accept .stream, .prefetch true, .connectionMode 1,
        .handler (.sendResponseHeader true), .returned, .prevNextPrefetch true, .prefetch true]).any
        (fun t => decide (t.connection.assertCounter = 1)) = true by decide +kernel)

end MiMic.Httpd
