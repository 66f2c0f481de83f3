import Tun2Simple.Core.Sys

/-!
# The relays of a TCP connection

`stackV1.Handle` starts two goroutines for a connection: `relay(tarConn, conn)` copies what the app
sends to the target, `relay(conn, tarConn)` what the target sends to the app. `io.CopyBuffer(src,
dst, buf)` reads from `dst` and writes to `src`; when it returns, both are closed, `dst` first.

`Pair` is their state with that of the connection and of what lwIP still has to deliver; `step`
runs one section. The streams are given as the bytes that are left: a reader or writer that waits
is one whose section is not taken. The connection's tests are those of `tcp_conn.go`
(`Core/State.lean`).
-/

namespace Relay

open Core (Once TcpConnState)

/-- The two goroutines. -/
inductive Side
  /-- `relay(tarConn, conn)`. -/
  | up
  /-- `relay(conn, tarConn)`. -/
  | down
  deriving DecidableEq, Repr

/-- The next section of a relay. -/
inductive Pc
  | read
  /-- `conn.Read`, its state test passed. -/
  | readPipe
  /-- In the pipe's `select`. -/
  | readWait
  | write (chunk : Bytes)
  /-- `conn.Write`, `writeCheck` passed. -/
  | writeLwip (chunk : Bytes)
  /-- `conn.Close`, at `closeOnce`. -/
  | close
  | closeRead
  | closeWrite
  | shutdown
  /-- `tarConn.Close`. -/
  | closeTar
  | done
  deriving DecidableEq, Repr

/-- What was read and is not yet written. -/
def Pc.chunk : Pc → Bytes
  | .write c | .writeLwip c => c
  | _ => []

/-- `io.CopyBuffer` has returned. -/
def Pc.copied : Pc → Bool
  | .close | .closeRead | .closeWrite | .shutdown | .closeTar | .done => true
  | _ => false

structure Pair where
  state : TcpConnState := .connecting
  sndPipeReaderClosed : Bool := false
  sndPipeWriterClosed : Bool := false
  closeOnce : Once := .fresh
  /-- lwIP's side is closed: `tcp_write` returns `ERR_CONN`. -/
  txShut : Bool := false
  /-- `TF_RXCLOSED`. -/
  rxShut : Bool := false
  tarClosed : Bool := false
  /-- The app's bytes that lwIP has not yet passed on. -/
  app : Bytes
  /-- lwIP reported the app's FIN. -/
  finSeen : Bool := false
  /-- What is left of the pipe's `Write` in progress. -/
  piped : Bytes := []
  /-- The target's bytes that are not yet read. -/
  tar : Bytes
  up : Pc := .read
  down : Pc := .read
  toTar : Bytes := []
  toApp : Bytes := []
  deriving DecidableEq, Repr

inductive Act
  /-- The next section of a relay: `n` bytes are read or written; `mem` where `tcp_shutdown` cannot
  queue the FIN. -/
  | relay (r : Side) (n : Nat) (mem : Bool)
  /-- The `select` of the pipe's `Read` takes its `done` channel. -/
  | readDone
  /-- lwIP passes `k` bytes to `Receive`. -/
  | receive (k : Nat)
  /-- The `select` of the pipe's `Write` takes its `done` channel. -/
  | writeDone
  /-- `LocalClosed`. -/
  | fin
  /-- The connect goroutine, after `Handle`. -/
  | connected
  /-- `checkClosing`, in a sent or poll callback. -/
  | checkClosing
  deriving DecidableEq, Repr

namespace Pair

variable (s : Pair)

/-- The pipe is done: one of its ends was closed. -/
def pipeDone : Bool := s.sndPipeReaderClosed || s.sndPipeWriterClosed

/-- A section of `conn.Close` at `pc`: the next one, or `none` where it returns. -/
def closeStep (pc : Pc) (mem : Bool) : Option (Pair × Option Pc) :=
  match pc with
  | .close =>
    match s.closeOnce with
    | .fresh => some ({ s with closeOnce := .running }, some .closeRead)
    | .running => none
    | .done => some (s, none)
  | .closeRead => some ({ s with sndPipeReaderClosed := true }, some .closeWrite)
  | .closeWrite =>
    match s.state.closeWrite with
    | none => some ({ s with closeOnce := .done }, none)
    | some st => some ({ s with state := st }, some .shutdown)
  | .shutdown => some ({ s with txShut := s.txShut || !mem, closeOnce := .done }, none)
  | _ => none

/-- `relay(tarConn, conn)`. -/
def upStep (n : Nat) (mem : Bool) : Option Pair :=
  match s.up with
  | .read => some { s with up := if s.state.readCheck = .pass then .readPipe else .close }
  | .readPipe => some { s with up := if s.pipeDone then .close else .readWait }
  | .readWait =>
    if 0 < n ∧ s.piped ≠ [] then
      some { s with piped := s.piped.drop n, up := .write (s.piped.take n) }
    else none
  | .write c =>
    if s.tarClosed then some { s with up := .close }
    else if 0 < n then
      some { s with
        toTar := s.toTar ++ c.take n
        up := if c.drop n = [] then .read else .write (c.drop n) }
    else none
  | .closeTar => some { s with tarClosed := true, up := .done }
  | pc => (s.closeStep pc mem).map fun x => { x.1 with up := x.2.getD .closeTar }

/-- `relay(conn, tarConn)`. -/
def downStep (n : Nat) (mem : Bool) : Option Pair :=
  match s.down with
  | .read =>
    if s.tarClosed = true ∨ s.tar = [] then some { s with down := .closeTar }
    else if 0 < n then some { s with tar := s.tar.drop n, down := .write (s.tar.take n) }
    else none
  | .write c =>
    match s.state.writeCheck with
    | .pass => some { s with down := .writeLwip c }
    | .panic => none
    | _ => some { s with down := .closeTar }
  | .writeLwip c =>
    if s.txShut then some { s with down := .closeTar }
    else if 0 < n then
      some { s with
        toApp := s.toApp ++ c.take n
        down := if c.drop n = [] then .read else .write (c.drop n) }
    else none
  | .closeTar => some { s with tarClosed := true, down := .close }
  | pc => (s.closeStep pc mem).map fun x => { x.1 with down := x.2.getD .done }

/-- `tcpRecvFn` refuses `k` bytes with `LWIP_ERR_CLSD` and shuts the rx side down. -/
def drop (k : Nat) : Pair := { s with app := s.app.drop k, piped := [], rxShut := true }

/-- lwIP frees the pcb: `release`. -/
def release (st : TcpConnState) : Pair :=
  { s with
    state := st
    sndPipeReaderClosed := true
    sndPipeWriterClosed := true
    txShut := true }

def receive (k : Nat) : Option Pair :=
  if 0 < k ∧ s.app ≠ [] ∧ s.piped = [] ∧ s.state.terminal = false then
    -- data for a pcb whose rx side is shut down: `tcp_abort`
    if s.rxShut then some ({ s with app := [] }.release .errored)
    else match s.state.receiveCheck with
      | none =>
        if s.pipeDone then some (s.drop k)
        else some { s with piped := s.app.take k, app := s.app.drop k }
      | some .clsd => some (s.drop k)
      -- lwIP keeps the data and tries again
      | _ => none
  else none

def fin : Option Pair :=
  if s.app = [] ∧ s.piped = [] ∧ s.finSeen = false ∧ s.state.terminal = false then
    match s.state.setLocalClosed with
    | none => some { s with finSeen := true }
    | some st => some { s with finSeen := true, state := st, sndPipeWriterClosed := true }
  else none

end Pair

def step (s : Pair) : Act → Option Pair
  | .relay .up n mem => s.upStep n mem
  | .relay .down n mem => s.downStep n mem
  | .readDone => if s.up = .readWait ∧ s.pipeDone then some { s with up := .close } else none
  | .receive k => s.receive k
  | .writeDone => if s.piped ≠ [] ∧ s.pipeDone then some (s.drop 0) else none
  | .fin => s.fin
  | .connected => if s.state = .connecting then some { s with state := .connected } else none
  | .checkClosing => if s.state = .closing then some (s.release .closed) else none

end Relay
