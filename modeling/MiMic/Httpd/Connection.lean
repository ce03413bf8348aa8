import MiMic.Lib.System

/-!
# The status of an HTTP connection

`NyLPC_TcHttpdConnection_t` as its operations change it. What the socket, the peer and the
writers do comes in as the outcome of an operation. The hooks behind `NyLPC_Assert` and
`NyLPC_Abort` count and return, so that a connection goes on behind them.
-/
namespace MiMic.Httpd

/-- `NyLPC_cHttpdConnection_ReqStatus_*`. -/
inductive ReqStatus
  | listen
  | accept
  | prefetch
  | reqparse
  | done
  | bodyparse
deriving DecidableEq, Repr

/-- `NyLPC_cHttpdConnection_ResStatus_*`. -/
inductive ResStatus
  | head
  | body
  | closed
  | error
deriving DecidableEq, Repr

/-- `NyLPC_TcHttpdConnection_CONNECTION_MODE`. -/
inductive ConnectionMode
  | keep
  | close
deriving DecidableEq, Repr

structure HttpdConnection where
  reqStatus : ReqStatus
  resStatus : ResStatus
  connectionMessageMode : ConnectionMode
  assertCounter : Nat
  abortCounter : Nat
deriving DecidableEq, Repr

/-- How `acceptSocket` fares: no peer within the time, no stream on its socket, or a stream. -/
inductive Accepted
  | refused
  | noStream
  | stream
deriving DecidableEq, Repr

namespace HttpdConnection

/-- `NyLPC_Assert`, through `NyLPC_assertHook`. -/
def assert (c : HttpdConnection) (e : Bool) : HttpdConnection :=
  if e then c else { c with assertCounter := c.assertCounter + 1 }

/-- `NyLPC_Abort`, through `NyLPC_abortHook`. -/
def abort (c : HttpdConnection) : HttpdConnection := { c with abortCounter := c.abortCounter + 1 }

/-- Neither hook was ever called. -/
def Unharmed (c : HttpdConnection) : Prop := c.assertCounter = 0 ∧ c.abortCounter = 0

instance (c : HttpdConnection) : Decidable c.Unharmed := inferInstanceAs (Decidable (_ ∧ _))

theorem assert_of_true (c : HttpdConnection) {e : Bool} (h : e = true) : c.assert e = c := by
  rw [assert, if_pos h]

def setReqStatusParsed (c : HttpdConnection) : HttpdConnection := { c with reqStatus := .done }

def setConnectionMode (c : HttpdConnection) (m : ConnectionMode) : HttpdConnection :=
  { c with connectionMessageMode := m }

/-- `NyLPC_cHttpdConnection_send100Continue`. -/
def send100Continue (c : HttpdConnection) (written : Bool) : HttpdConnection × Bool :=
  if c.resStatus ≠ .head then ({ c with resStatus := .error }, false)
  else if written then (c, true)
  else ({ c with resStatus := .error }, false)

/-- `NyLPC_cHttpdConnection_sendResponseHeader2`; `written` is whether all lines were. -/
def sendResponseHeader (c : HttpdConnection) (written : Bool) : HttpdConnection × Bool :=
  if c.resStatus ≠ .head then ({ c with resStatus := .error }, false)
  else if written then ({ c with resStatus := .body }, true)
  else ({ c with resStatus := .error }, false)

/-- `NyLPC_cHttpdConnection_sendResponseBody` and `sendResponseBodyF`. -/
def sendResponseBody (c : HttpdConnection) (written : Bool) : HttpdConnection × Bool :=
  if c.resStatus ≠ .body then ({ c with resStatus := .error }, false)
  else if written then (c, true)
  else ({ c with resStatus := .error }, false)

/-- `NyLPC_cHttpdConnection_closeResponse`. -/
def closeResponse (c : HttpdConnection) : HttpdConnection × Bool :=
  match c.resStatus with
  | .closed => (c, false)
  | .error => (c, false)
  | .head => ({ c with resStatus := .closed }, false)
  | .body =>
      if c.connectionMessageMode ≠ .keep then ({ c with resStatus := .closed }, false)
      else ({ c with resStatus := .head }, true)

/-- `NyLPC_cHttpdConnection_initialize`, which leaves the mode as it is in memory. -/
def initial (mode : ConnectionMode) : HttpdConnection := ⟨.listen, .closed, mode, 0, 0⟩

/-- `NyLPC_cHttpdConnection_listenSocket`. -/
def listenSocket (c : HttpdConnection) (listened : Bool) : HttpdConnection × Bool :=
  let c := c.assert (c.reqStatus = .listen)
  if listened then ({ c with reqStatus := .accept }, true) else (c, false)

/-- `NyLPC_cHttpdConnection_acceptSocket`. -/
def acceptSocket (c : HttpdConnection) (o : Accepted) : HttpdConnection × Bool :=
  let c := c.assert (c.reqStatus = .accept)
  match o with
  | .refused => (c, false)
  | .noStream => ({ c with reqStatus := .listen }, false)
  | .stream =>
      ({ c with
          resStatus := .head
          reqStatus := .prefetch
          connectionMessageMode := .close }, true)

/-- `NyLPC_cHttpdConnection_prefetch`; `parsed` is what the prefix parser returns. -/
def prefetch (c : HttpdConnection) (parsed : Bool) : HttpdConnection × Bool :=
  let c := c.assert (c.reqStatus = .prefetch)
  if parsed then ({ c with reqStatus := .reqparse }, true) else ({ c with reqStatus := .listen }, false)

/-- `NyLPC_cHttpdConnection_prevNextPrefetch`; `absorbed` is whether the rest of an unparsed
request is a header. -/
def prevNextPrefetch (c : HttpdConnection) (absorbed : Bool) : HttpdConnection × Bool :=
  match c.reqStatus with
  | .reqparse => if absorbed then (c, true) else (c, false)
  -- no break: the case of a parsed request runs on into the default
  | .done => (({ c with reqStatus := .prefetch } : HttpdConnection).abort, true)
  | .listen => (c.abort, true)
  | .accept => (c.abort, true)
  | .prefetch => (c.abort, true)
  | .bodyparse => (c.abort, true)

/-- `NyLPC_cHttpdConnection_closeSocket`. -/
def closeSocket (c : HttpdConnection) : HttpdConnection :=
  { c with reqStatus := .listen, resStatus := .closed }

/-- A call that a request handler makes on its connection, with what the writers report. -/
inductive HandlerCall
  | setReqStatusParsed
  | setConnectionMode (m : ConnectionMode)
  | send100Continue (written : Bool)
  | sendResponseHeader (written : Bool)
  | sendResponseBody (written : Bool)
  | closeSocket
deriving DecidableEq, Repr

def handle (c : HttpdConnection) : HandlerCall → HttpdConnection
  | .setReqStatusParsed => c.setReqStatusParsed
  | .setConnectionMode m => c.setConnectionMode m
  | .send100Continue written => (c.send100Continue written).1
  | .sendResponseHeader written => (c.sendResponseHeader written).1
  | .sendResponseBody written => (c.sendResponseBody written).1
  | .closeSocket => c.closeSocket

/-- A response is possible or under way only while there is a request. -/
def Serving (c : HttpdConnection) : Prop :=
  c.resStatus = .head ∨ c.resStatus = .body → c.reqStatus = .reqparse ∨ c.reqStatus = .done

theorem serving_of_error {c : HttpdConnection} : Serving { c with resStatus := .error } :=
  fun h => h.elim (fun h => nomatch h) (fun h => nomatch h)

/-- Whatever a handler calls, the connection stays in its request or can no longer respond. -/
theorem Serving.handle {c : HttpdConnection} (h : c.Serving) (a : HandlerCall) :
    (c.handle a).Serving := by
  cases a with
  | setReqStatusParsed => exact fun _ => Or.inr rfl
  | setConnectionMode m => exact h
  | send100Continue written =>
    simp only [HttpdConnection.handle, send100Continue]
    split
    · exact serving_of_error
    · split
      · exact h
      · exact serving_of_error
  | sendResponseHeader written =>
    simp only [HttpdConnection.handle, sendResponseHeader]
    split
    · exact serving_of_error
    · next hhead =>
      split
      · exact fun _ => h (Or.inl (not_not.mp hhead))
      · exact serving_of_error
  | sendResponseBody written =>
    simp only [HttpdConnection.handle, sendResponseBody]
    split
    · exact serving_of_error
    · split
      · exact h
      · exact serving_of_error
  | closeSocket => exact fun h => h.elim (fun h => nomatch h) (fun h => nomatch h)

theorem handle_counters (c : HttpdConnection) (a : HandlerCall) :
    (c.handle a).assertCounter = c.assertCounter ∧ (c.handle a).abortCounter = c.abortCounter := by
  cases a with
  | setReqStatusParsed => exact ⟨rfl, rfl⟩
  | setConnectionMode m => exact ⟨rfl, rfl⟩
  | closeSocket => exact ⟨rfl, rfl⟩
  | send100Continue written =>
    simp only [handle, send100Continue]
    split
    · exact ⟨rfl, rfl⟩
    · cases written <;> exact ⟨rfl, rfl⟩
  | sendResponseHeader written =>
    simp only [handle, sendResponseHeader]
    split
    · exact ⟨rfl, rfl⟩
    · cases written <;> exact ⟨rfl, rfl⟩
  | sendResponseBody written =>
    simp only [handle, sendResponseBody]
    split
    · exact ⟨rfl, rfl⟩
    · cases written <;> exact ⟨rfl, rfl⟩

theorem Unharmed.handle {c : HttpdConnection} (h : c.Unharmed) (a : HandlerCall) :
    (c.handle a).Unharmed := by
  obtain ⟨hassert, habort⟩ := handle_counters c a
  exact ⟨hassert.trans h.1, habort.trans h.2⟩

end HttpdConnection

end MiMic.Httpd
