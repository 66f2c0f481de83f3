import Tun2Simple.Core.Step

/-!
# The loop of `Write` (`core/tcp_conn.go`)

One call of `Write`, round by round. What the call meets in a round comes from outside: the state
that `writeCheck` finds, `snd_buf`, and the code that `tcp_write` returns. Between two rounds
`Write` waits for `canWrite`. A run records what `tcp_write` is called with.
-/

namespace Core

inductive WriteError
  | closedPipe
  /-- `tcp_write` returned another code than `ERR_OK` and `ERR_MEM`. -/
  | tcpWrite (err : Int8)
  deriving DecidableEq, Repr

def WriteError.error : WriteError → String
  | closedPipe => "io: read/write on closed pipe"
  | tcpWrite err => "tcp_write failed (" ++ toString err.toInt ++ ")"

abbrev errMem : Int8 := -1

structure WriteRound where
  state : TcpConnState
  sndBuf : UInt16
  /-- What `tcp_write` returns if it is called. -/
  err : Int8
  deriving DecidableEq, Repr

/-- A call of `tcp_write`. -/
structure TcpWrite where
  /-- The slice whose first byte `tcp_write` gets a pointer to. -/
  data : Bytes
  len : UInt16
  sndBuf : UInt16
  err : Int8
  deriving DecidableEq, Repr

/-- The bytes that lwIP queues. -/
def TcpWrite.accepted (w : TcpWrite) : Bytes := if w.err = errOk then w.data.take w.len.toNat else []

/-- `writeInternal`: the call, and what it returns. It panics without data. -/
def writeInternal (data : Bytes) (sndBuf : UInt16) (err : Int8) :
    Option (TcpWrite × Nat × Option WriteError) :=
  if data = [] then none
  else some (⟨data, UInt16.ofNat data.length, sndBuf, err⟩,
    if err = errOk then (data.length, none)
    else if err = errMem then (0, none)
    else (0, some (.tcpWrite err)))

/-- How a round of the loop ends. -/
inductive RoundEnd
  | returns (n : Nat) (err : Option WriteError)
  | panics
  /-- At `canWrite.Wait()`. -/
  | waits (data : Bytes) (totalWritten : Nat)
  deriving DecidableEq, Repr

/-- A round with data left, and the call it makes. -/
def writeRound (data : Bytes) (totalWritten : Nat) (r : WriteRound) : List TcpWrite × RoundEnd :=
  match r.state.writeCheck with
  | .panic => ([], .panics)
  | .eof | .errClosedPipe => ([], .returns totalWritten (some .closedPipe))
  | .pass =>
    let toWrite := if data.length > r.sndBuf.toNat then r.sndBuf.toNat else data.length
    if toWrite > 0 then
      match writeInternal (data.take toWrite) r.sndBuf r.err with
      | none => ([], .panics)
      | some (w, written, some err) => ([w], .returns (totalWritten + written) (some err))
      | some (w, written, none) =>
        let data := data.drop written
        ([w], if data = [] then .returns (totalWritten + written) none
          else .waits data (totalWritten + written))
    else ([], .waits data totalWritten)

/-- The rounds of `Write`: its calls, and how the last one ends. -/
def writeLoop (data : Bytes) (totalWritten : Nat) : List WriteRound → List TcpWrite × RoundEnd
  | [] => ([], if data = [] then .returns totalWritten none else .waits data totalWritten)
  | r :: rs =>
    if data = [] then ([], .returns totalWritten none)
    else match writeRound data totalWritten r with
      | (ws, .waits data totalWritten) =>
        let (ws', e) := writeLoop data totalWritten rs
        (ws ++ ws', e)
      | (ws, e) => (ws, e)

def write (data : Bytes) (rounds : List WriteRound) : List TcpWrite × RoundEnd :=
  writeLoop data 0 rounds

/-- What `Core.Sys.goStep` keeps of a code of `tcp_write`. -/
def WriteRet.ofErr (err : Int8) : WriteRet :=
  if err = errOk then .ok else if err = errMem then .mem else .other

end Core
