import Mathlib.Logic.Function.Basic

/-!
# The states of a TCP connection

`TcpConnState` and the tests and updates that the methods of `tcpConn` (`core/tcp_conn.go`) make on
it under the connection's own mutex. A method returning a Go `error` gives an `Option LwipErr`
(`none` is `nil`).
-/

namespace Core

/-- `tcpConnState`, in the order of the source's constants. -/
inductive TcpConnState
  | newConn
  | connecting
  | connected
  | writeClosed
  | receiveClosed
  | closing
  | aborting
  | closed
  | errored
  deriving DecidableEq, Repr

/-- `LWIP_ERR_*` (`core/errors.go`), the codes of `lwipError`. -/
inductive LwipErr
  | ok
  | abrt
  | conn
  | clsd
  deriving DecidableEq, Repr

/-- What the state test at the head of `Read` and `Write` decides. -/
inductive Check
  /-- Go on. -/
  | pass
  /-- Return `io.EOF`. -/
  | eof
  /-- Return `io.ErrClosedPipe`. -/
  | errClosedPipe
  /-- `panic("unexpected error")`. -/
  | panic
  deriving DecidableEq, Repr

namespace TcpConnState

/-- The constant's number (`iota`): the source compares states by it. -/
def num : TcpConnState → Nat
  | newConn => 0
  | connecting => 1
  | connected => 2
  | writeClosed => 3
  | receiveClosed => 4
  | closing => 5
  | aborting => 6
  | closed => 7
  | errored => 8

/-- `tcpClosed` or `tcpErrored`: the connection's resources were freed. -/
def terminal : TcpConnState → Bool
  | closed | errored => true
  | _ => false

/-- `receiveCheck`, without the `abortInternal` of its `tcpErrored` case (`Sys.receiveCheck`). -/
def receiveCheck : TcpConnState → Option LwipErr
  | connected | writeClosed => none
  | newConn | connecting => some .conn
  | aborting | closed | receiveClosed | closing => some .clsd
  | errored => some .abrt

/-- `writeCheck`. -/
def writeCheck : TcpConnState → Check
  | connecting | connected | receiveClosed => .pass
  | writeClosed | closing | closed | errored | aborting => .errClosedPipe
  | newConn => .panic

/-- The state test of `Read`. -/
def readCheck (st : TcpConnState) : Check :=
  if st = receiveClosed then .eof
  else if closing.num ≤ st.num then .errClosedPipe
  else .pass

/-- The section of `CloseWrite` under the connection's mutex: `none` where it returns at once, else
the state it sets. -/
def closeWrite (st : TcpConnState) : Option TcpConnState :=
  if closing.num ≤ st.num ∨ st = writeClosed then none
  else if st = receiveClosed then some closing
  else some writeClosed

/-- `setLocalClosed`: `none` where it returns at once, else the state it sets. -/
def setLocalClosed (st : TcpConnState) : Option TcpConnState :=
  if closing.num ≤ st.num ∨ st = receiveClosed then none
  else if st = writeClosed then some closing
  else some receiveClosed

/-- The section of `Abort` under the connection's mutex. -/
def abort (st : TcpConnState) : TcpConnState :=
  if st.num < aborting.num then aborting else st

@[simp] theorem terminal_closed : closed.terminal = true := rfl

@[simp] theorem terminal_errored : errored.terminal = true := rfl

theorem terminal_iff {st : TcpConnState} : st.terminal = true ↔ st = closed ∨ st = errored := by
  cases st <;> simp [terminal]

theorem terminal_eq_false {st : TcpConnState} :
    st.terminal = false ↔ st ≠ closed ∧ st ≠ errored := by
  cases st <;> simp [terminal]

/-- `CloseWrite` acts in the states before `tcpClosing` whose writing side is open. -/
theorem closeWrite_eq_some {st st' : TcpConnState} (h : st.closeWrite = some st') :
    (st = receiveClosed ∧ st' = closing) ∨
      ((st = newConn ∨ st = connecting ∨ st = connected) ∧ st' = writeClosed) := by
  cases st <;> simp [closeWrite, num] at h <;> simp [h]

/-- `setLocalClosed` acts in the states before `tcpClosing` whose reading side is open. -/
theorem setLocalClosed_eq_some {st st' : TcpConnState} (h : st.setLocalClosed = some st') :
    (st = writeClosed ∧ st' = closing) ∨
      ((st = newConn ∨ st = connecting ∨ st = connected) ∧ st' = receiveClosed) := by
  cases st <;> simp [setLocalClosed, num] at h <;> simp [h]

theorem closeWrite_terminal {st st' : TcpConnState} (h : st.closeWrite = some st') :
    st'.terminal = st.terminal := by
  rcases closeWrite_eq_some h with ⟨rfl, rfl⟩ | ⟨rfl | rfl | rfl, rfl⟩ <;> rfl

theorem setLocalClosed_terminal {st st' : TcpConnState} (h : st.setLocalClosed = some st') :
    st'.terminal = st.terminal := by
  rcases setLocalClosed_eq_some h with ⟨rfl, rfl⟩ | ⟨rfl | rfl | rfl, rfl⟩ <;> rfl

theorem abort_eq (st : TcpConnState) :
    st.abort = if st.terminal then st else aborting := by
  cases st <;> rfl

@[simp] theorem terminal_abort (st : TcpConnState) : st.abort.terminal = st.terminal := by
  cases st <;> rfl

end TcpConnState

end Core
