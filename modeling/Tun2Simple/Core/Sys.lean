import Tun2Simple.Core.State
import Tun2Simple.Lib.Bytes

/-!
# The state of the TCP core

`Sys` is the state of the TCP half of `core/`: every connection `newTCPConn` ever made, the lwIP pcb
of each, the map `tcpConns`, the goroutines that are inside a method of a connection, and what the
holder of `lwipMutex` is doing. Connection `c` is the one made for pcb `c` (`conn.pcb` never
changes), numbered in the order of the accepts.

A goroutine's program counter (`Pc`) stands between two lock-protected sections; `Lock` does the
same for the code that runs with `lwipMutex` held and may be preempted between sections of the
connection's own mutex: the callbacks that lwIP calls and the `checkState` of `Abort`.

The operations below are the sections' bodies. Two ghost fields of `Conn` record that a `CloseWrite`
and a `LocalClosed` took effect, `cellFrees` counts `freeConnKeyArg`, and `log` lists the accesses
to pcbs and key cells with the fact whether the object was already freed.
-/

namespace Core

/-- Goroutine ids. -/
abbrev Gid := Nat

/-- `ERR_OK` of lwIP. -/
abbrev errOk : Int8 := 0

/-! ## lwIP's side of a connection -/

/-- lwIP's `enum tcp_state`, from the accept on. -/
inductive TcpSt
  | established
  | finWait1
  | finWait2
  | closeWait
  | closing
  | lastAck
  | timeWait
  deriving DecidableEq, Repr

/-- What matters of an incoming segment that is not a RST. -/
structure Seg where
  /-- It acknowledges data bytes (`recv_acked > 0`; a FIN does not count). -/
  acked : Bool
  /-- It acknowledges all that was sent (`ackno == pcb->snd_nxt && pcb->unsent == NULL`). -/
  ackAll : Bool
  data : Bytes
  fin : Bool
  deriving DecidableEq, Repr

/-- What is left of the lwIP call that is working on a pcb. -/
inductive Work
  /-- `tcp_process_refused_data`, then the segment that came in. -/
  | refused (next : Option Seg)
  /-- The FIN that was refused with the data. -/
  | refusedFin (next : Option Seg)
  /-- `tcp_process`. -/
  | seg (g : Seg)
  /-- The rest of `tcp_input`: the sent callback, `tcp_input_delayed_close`, the recv callback with
  data and the one without. -/
  | events (sent close : Bool) (recv : Option Bytes) (fin : Bool)
  deriving DecidableEq, Repr

/-- Nothing is left. -/
def Work.done : Work := .events false false none false

/-- The segment that is processed after the refused data. -/
def Work.ofNext : Option Seg → Work
  | none => .done
  | some g => .seg g

/-- The fields of a `tcp_pcb` that lwIP's own code decides on. -/
structure Tcp where
  st : TcpSt := .established
  /-- `TF_RXCLOSED`. -/
  rxClosed : Bool := false
  /-- `TF_CLOSEPEND`. -/
  closePend : Bool := false
  /-- `refused_data`, with `PBUF_FLAG_TCP_FIN`. -/
  refused : Option (Bytes × Bool) := none
  work : Work := .done
  deriving DecidableEq, Repr

/-- `tcp_close_shutdown_fin`: `mem` where the FIN cannot be queued and the pcb is marked. -/
def Tcp.sendFin (t : Tcp) (mem : Bool) : Tcp :=
  match t.st with
  | .established => if mem then { t with closePend := true } else { t with st := .finWait1 }
  | .closeWait => if mem then { t with closePend := true } else { t with st := .lastAck }
  | _ => t

/-- `tcp_shutdown(pcb, 1, 0)`. -/
def Tcp.shutdownRx (t : Tcp) : Tcp := { t with rxClosed := true, refused := none }

/-- The recv callback refused the data (`ERR_CONN`): it is kept, with a FIN that came with it. -/
def Tcp.refuse (t : Tcp) (d : Bytes) : Tcp :=
  match t.work with
  | .refusedFin next => { t with refused := some (d, true), work := .ofNext next }
  | .events sent close recv true =>
    { t with refused := some (d, true), work := .events sent close recv false }
  | _ => { t with refused := some (d, false) }

structure Pcb where
  /-- The callbacks and `callback_arg` of `newTCPConn` are registered. -/
  hooked : Bool := false
  /-- `tcp_close` was called. -/
  closed : Bool := false
  freed : Bool := false
  tcp : Tcp := {}
  deriving DecidableEq, Repr

/-! ## Connections -/

/-- `sync.Once`. -/
inductive Once
  | fresh
  | running
  | done
  deriving DecidableEq, Repr

structure Conn where
  state : TcpConnState := .newConn
  connKey : UInt32 := 0
  /-- `go func()` of `newTCPConn` was executed: the handler has the connection. -/
  started : Bool := false
  sndPipeReaderClosed : Bool := false
  sndPipeWriterClosed : Bool := false
  closeOnce : Once := .fresh
  /-- The goroutine that holds `canWrite.L`. -/
  canWriteL : Option Gid := none
  didCloseWrite : Bool := false
  didLocalClose : Bool := false
  cellFrees : Nat := 0
  deriving DecidableEq, Repr

/-- `sndPipe` is done: one of its ends was closed. -/
def Conn.pipeDone (x : Conn) : Bool := x.sndPipeReaderClosed || x.sndPipeWriterClosed

/-! ## Program points -/

/-- The next section of a goroutine. -/
inductive Pc
  | idle
  /-- The connect goroutine, in `handler.Handle`. -/
  | handling
  /-- The connect goroutine, at `lwipMutex.Lock()`. -/
  | refused
  /-- The connect goroutine, in `tcp_process_refused_data`. -/
  | inRefused
  | write (data : Bytes)
  /-- At the head of `Write`'s loop, `total` bytes written. -/
  | writeLoop (data : Bytes) (total : Nat)
  /-- `writeCheck` passed, at `lwipMutex.Lock()`. -/
  | writeLwip (data : Bytes) (total : Nat)
  /-- `lwipMutex` released, at `canWrite.Wait()`. -/
  | writeWait (data : Bytes) (total : Nat)
  /-- In `canWrite.Wait()`, on its notify list. -/
  | parked (data : Bytes) (total : Nat)
  /-- A `Broadcast` took it off the list; at `canWrite.L.Lock()`. -/
  | woken (data : Bytes) (total : Nat)
  /-- `CloseWrite`; `inClose` where `Close` called it. -/
  | closeWrite (inClose : Bool)
  | shutdown (inClose : Bool)
  | closeRead (inClose : Bool)
  | close
  | abort
  /-- `Abort`, at `lwipMutex.Lock()`. -/
  | abortLock
  /-- `Abort`, in `checkState`. -/
  | aborting
  | read (len : Nat)
  /-- The state test of `Read` passed; at `sndPipeReader.Read`. -/
  | readPipe (len : Nat)
  /-- In the pipe's `select`. -/
  | readWait (len : Nat)
  deriving DecidableEq, Repr

structure Go where
  conn : Nat := 0
  pc : Pc := .idle
  deriving DecidableEq, Repr

/-- The sections of `checkState`. -/
inductive CheckPc
  | isClosed
  | checkClosing
  | checkAborting
  | broadcast
  deriving DecidableEq, Repr

/-- Whose call into lwIP is running: the packet input or timer goroutine, or a connect goroutine in
`tcp_process_refused_data`. -/
inductive Holder
  | lwip
  | go (g : Gid)
  deriving DecidableEq, Repr

/-- `lwipMutex` and what its holder does. `p` is the callback's `tpcb`, `c` the connection found for
its `arg`. -/
inductive Lock
  | free
  /-- lwIP's own code. -/
  | lwip (h : Holder)
  /-- `newTCPConn`, after `tcpConns.Store`. -/
  | accept (c : Nat)
  /-- `Receive`, at `receiveCheck`. -/
  | receive (h : Holder) (p c : Nat) (data : Bytes)
  /-- `Receive`, at `sndPipeWriter.Write`. -/
  | pipeWrite (h : Holder) (p c : Nat) (data : Bytes)
  /-- In the pipe's loop: `rest` of `data` is not yet read; `once` before the first round. -/
  | pipe (h : Holder) (p c : Nat) (data rest : Bytes) (once : Bool)
  /-- `LocalClosed`, at `setLocalClosed`. -/
  | localClosed (h : Holder) (p c : Nat)
  /-- `checkState`, for `tcpSentFn`, `tcpPollFn` and `tcpRecvFn` without data. -/
  | check (h : Holder) (p c : Nat) (k : CheckPc)
  /-- `checkState`, for `Abort` of goroutine `g`. -/
  | abort (g : Gid) (c : Nat) (k : CheckPc)
  deriving DecidableEq, Repr

/-- The uses of `conn.pcb` (and of `tpcb`) by the Go code. -/
inductive PcbOp
  /-- `tcp_arg`, `tcp_recv`, `tcp_sent`, `tcp_err` and `tcp_poll` of `closeInternal`. -/
  | hooks
  | sndBuf
  | tcpWrite
  | tcpOutput
  | refusedData
  | processRefused
  | shutdownTx
  | shutdownRx
  | recved
  | close
  | abort
  deriving DecidableEq, Repr

inductive Ev
  /-- An access to pcb `p`; `freed` says whether lwIP had freed it. -/
  | pcb (p : Nat) (op : PcbOp) (freed : Bool)
  /-- `getConnKeyVal` on the key cell of connection `p`; `freed` as above. -/
  | key (p : Nat) (freed : Bool)
  | closeInternal (c : Nat)
  /-- The `tcpErrored` case of `receiveCheck`. -/
  | erroredAbort (c : Nat)
  deriving DecidableEq, Repr

structure Sys where
  /-- The number of connections made so far. -/
  n : Nat := 0
  conn : Nat → Conn := fun _ => {}
  pcb : Nat → Pcb := fun _ => {}
  tcpConns : UInt32 → Option Nat := fun _ => none
  gos : Gid → Go := fun _ => {}
  lock : Lock := .free
  log : List Ev := []
  /-- A callback or a method reached a Go panic. -/
  panicked : Bool := false

namespace Sys

variable (s : Sys)

def setConn (c : Nat) (x : Conn) : Sys := { s with conn := Function.update s.conn c x }

def setPcb (p : Nat) (x : Pcb) : Sys := { s with pcb := Function.update s.pcb p x }

def setTcp (p : Nat) (t : Tcp) : Sys := s.setPcb p { s.pcb p with tcp := t }

/-- Goroutine `g` goes on at `pc`. -/
def goto (g : Gid) (pc : Pc) : Sys :=
  { s with gos := Function.update s.gos g { s.gos g with pc } }

def setLock (l : Lock) : Sys := { s with lock := l }

def emit (e : Ev) : Sys := { s with log := s.log ++ [e] }

/-- An access to pcb `p`. -/
def access (p : Nat) (op : PcbOp) : Sys := s.emit (.pcb p op (s.pcb p).freed)

/-- lwIP frees pcb `p`. -/
def free (p : Nat) : Sys := s.setPcb p { s.pcb p with hooked := false, freed := true }

/-- `canWrite.Broadcast()` of connection `c`. -/
def broadcast (c : Nat) : Sys :=
  { s with gos := fun g => match s.gos g with
      | ⟨c', .parked d t⟩ => if c' = c then ⟨c', .woken d t⟩ else ⟨c', .parked d t⟩
      | x => x }

/-! ## `tcp_conn.go` -/

def release (c : Nat) : Sys :=
  let x := s.conn c
  let found := (s.tcpConns x.connKey).isSome
  { s with
    tcpConns := if found then Function.update s.tcpConns x.connKey none else s.tcpConns
    conn := Function.update s.conn c
      { x with state := .closed, sndPipeReaderClosed := true, sndPipeWriterClosed := true,
               cellFrees := if found then x.cellFrees + 1 else x.cellFrees } }

/-- `Err`. -/
def err (c : Nat) : Sys :=
  let s := s.release c
  (s.setConn c { s.conn c with state := .errored }).broadcast c

/-- `tcpErrFn` for pcb `p`. -/
def tcpErrFn (p : Nat) : Sys :=
  let s := s.emit (.key p (0 < (s.conn p).cellFrees))
  match s.tcpConns (s.conn p).connKey with
  | some c => s.err c
  | none => s

/-- `tcp_abort(pcb)` (`tcp_abandon`): the pcb is freed, then its err callback is called, except in
`TIME_WAIT`. -/
def tcpAbort (p : Nat) : Sys :=
  let s' := (s.access p .abort).free p
  if (s.pcb p).hooked ∧ (s.pcb p).tcp.st ≠ .timeWait then s'.tcpErrFn p else s'

def closeInternal (c : Nat) : Sys :=
  let s := s.emit (.closeInternal c)
  let s := s.access c .hooks
  let s := s.setPcb c { s.pcb c with hooked := false }
  let s := s.release c
  let s := s.access c .close
  s.setPcb c { s.pcb c with closed := true }

def abortInternal (c : Nat) : Sys := (s.release c).tcpAbort c

/-- One section of `checkState`: the next one, or the returned error. -/
def checkState (c : Nat) : CheckPc → Sys × (CheckPc ⊕ Option LwipErr)
  | .isClosed => (s, if (s.conn c).state = .closed then .inr none else .inl .checkClosing)
  | .checkClosing =>
    if (s.conn c).state = .closing then (s.closeInternal c, .inr (some .ok))
    else (s, .inl .checkAborting)
  | .checkAborting =>
    if (s.conn c).state = .aborting then (s.abortInternal c, .inr (some .abrt))
    else (s, .inl .broadcast)
  | .broadcast => (s.broadcast c, .inr (some .ok))

def setLocalClosed (c : Nat) : Sys :=
  match (s.conn c).state.setLocalClosed with
  | none => s
  | some st =>
    (s.setConn c
      { s.conn c with state := st, sndPipeWriterClosed := true, didLocalClose := true }).broadcast c

/-! ## `tcp_callback_export.go` -/

/-- A callback returns to lwIP. -/
def return_ (h : Holder) : Sys := s.setLock (.lwip h)

/-- The lookup at the head of a callback for pcb `p`: without a connection the pcb is aborted. -/
def lookup (h : Holder) (p : Nat) (k : Nat → Lock) : Sys :=
  let s := s.emit (.key p (0 < (s.conn p).cellFrees))
  match s.tcpConns (s.conn p).connKey with
  | some c => s.setLock (k c)
  | none => (s.tcpAbort p).return_ h

/-- The `switch err.(*lwipError).Code` after `checkState`: a `nil` error panics. -/
def checkReturn (h : Holder) : Option LwipErr → Sys
  | some .ok | some .abrt => s.return_ h
  | _ => { s with panicked := true }

/-- `tcpRecvFn` after `Receive` returned `LWIP_ERR_CLSD`. -/
def recvClsd (h : Holder) (p : Nat) : Sys :=
  let s := (s.access p .recved).access p .shutdownRx
  (s.setTcp p (s.pcb p).tcp.shutdownRx).return_ h

/-- `Receive` up to the pipe. -/
def receiveCheck (h : Holder) (p c : Nat) (data : Bytes) : Sys :=
  match (s.conn c).state.receiveCheck with
  | none => s.setLock (.pipeWrite h p c data)
  | some .conn => (s.setTcp p ((s.pcb p).tcp.refuse data)).return_ h
  | some .clsd => s.recvClsd h p
  | some .abrt => ((s.emit (.erroredAbort c)).abortInternal c).return_ h
  | some .ok => s.return_ h

/-- `newTCPConn` up to `tcpConns.Store`. -/
def newTCPConn (key : UInt32) : Sys :=
  { s with
    n := s.n + 1
    conn := Function.update s.conn s.n { connKey := key }
    pcb := Function.update s.pcb s.n { hooked := true }
    tcpConns := Function.update s.tcpConns key (some s.n)
    lock := .accept s.n }

end Sys

end Core
