import Tun2Simple.Core.Sys

/-!
# The atomic steps of the TCP core

`step M s a`: what the section named by `a` does in `s`, `none` where it is not enabled. A section
that takes `lwipMutex` and releases it again is one step; a callback, which lwIP calls with
`lwipMutex` held, is a chain of steps between which the sections of other goroutines may run.

What lwIP itself may do next is a parameter (`Lwip`): `anyLwip` may call any registered callback of
a pcb it has not freed at any time, and frees a pcb without its err callback only after `tcp_close`;
`Lwip.lean` has the vendored code's state machine.
-/

namespace Core

/-- What lwIP does with a pcb. -/
inductive LwEv
  | sent
  | poll
  | recv (d : Bytes)
  /-- The recv callback without data (`TCP_EVENT_CLOSED`). -/
  | fin
  /-- The pcb is freed around a call of its err callback. -/
  | err
  /-- The pcb is freed without it. -/
  | free
  /-- Neither a callback nor a free. -/
  | tau
  deriving DecidableEq, Repr

/-- A behaviour of lwIP: with the pcb as given it may do `e`, leaving its fields as given. -/
structure Lwip where
  ev : Pcb → LwEv → Tcp → Bool

/-- lwIP as the registry and the pcbs' lifetime need it (module doc). -/
def anyLwip : Lwip where
  ev b e _ := match e with
    | .free => b.closed
    | _ => true

/-- A call of a connection's method. -/
inductive Op
  | write (data : Bytes)
  | read (len : Nat)
  | closeWrite
  | closeRead
  | close
  | abort
  deriving DecidableEq, Repr

def Op.pc : Op → Pc
  | .write d => .write d
  | .read n => .read n
  | .closeWrite => .closeWrite false
  | .closeRead => .closeRead false
  | .close => .close
  | .abort => .abort

/-- What `tcp_write` returns. -/
inductive WriteRet
  | ok
  | mem
  | other
  deriving DecidableEq, Repr

/-- What a section gets from outside. -/
inductive Env
  | none
  /-- `handler.Handle` returns, `ok` without an error. -/
  | handle (ok : Bool)
  | write (sndBuf : UInt16) (ret : WriteRet)
  /-- Whether `tcp_shutdown` cannot queue the FIN. -/
  | sendFin (mem : Bool)
  /-- The id of a new goroutine. -/
  | spawn (g : Gid)
  /-- A `select` of the pipe takes its `done` channel. -/
  | pipeDone
  deriving DecidableEq, Repr

inductive Act
  /-- The packet input or the timer goroutine takes `lwipMutex`. -/
  | lock
  | unlock
  /-- lwIP calls `tcpAcceptFn`; `key` is what `rand.Uint32` returns. -/
  | accept (key : UInt32)
  | lwip (p : Nat) (e : LwEv) (t : Tcp)
  /-- The next section of the Go code that runs with `lwipMutex` held. -/
  | held (x : Env)
  /-- Goroutine `g` calls a method of connection `c`. -/
  | call (g : Gid) (c : Nat) (op : Op)
  /-- The next section of goroutine `g`. -/
  | go (g : Gid) (x : Env)
  deriving DecidableEq, Repr

/-- `Write`'s section under `lwipMutex`: the bytes queued, and whether it returns with an error. -/
def writeSection (data : Bytes) (sndBuf : UInt16) (ret : WriteRet) : Nat × Bool :=
  let toWrite := if sndBuf.toNat < data.length then sndBuf.toNat else data.length
  if 0 < toWrite then
    match ret with
    | .ok => (toWrite, false)
    | .mem => (0, false)
    | .other => (0, true)
  else (0, false)

namespace Sys

variable (s : Sys)

/-! ## lwIP -/

/-- lwIP has nothing left to do for any pcb. -/
def Settled : Prop := ∀ p < s.n, (s.pcb p).freed = true ∨ (s.pcb p).tcp.work = .done

instance : Decidable s.Settled := inferInstanceAs (Decidable (∀ p < s.n, _ ∨ _))

/-- Inside `tcp_process_refused_data` of a connect goroutine lwIP only works on the refused data of
its pcb. -/
def mayDo (h : Holder) (p : Nat) (e : LwEv) : Bool :=
  match h with
  | .lwip => true
  | .go g => (s.gos g).conn == p &&
    match e with
    | .recv _ | .fin => true
    | .tau => (s.pcb p).tcp.work != .done
    | _ => false

def lwipStep (M : Lwip) (p : Nat) (e : LwEv) (t : Tcp) : Option Sys :=
  match s.lock with
  | .lwip h =>
    if p < s.n ∧ (s.pcb p).freed = false ∧ s.mayDo h p e ∧ M.ev (s.pcb p) e t then
      let s := s.setTcp p t
      match e with
      | .tau => some s
      | .free => some (s.free p)
      | .err => some ((if (s.pcb p).hooked then s.tcpErrFn p else s).free p)
      | .sent | .poll =>
        if (s.pcb p).hooked then some (s.lookup h p fun c => .check h p c .isClosed) else none
      | .recv d => if (s.pcb p).hooked then some (s.lookup h p fun c => .receive h p c d) else none
      | .fin => if (s.pcb p).hooked then some (s.lookup h p fun c => .localClosed h p c) else none
    else none
  | _ => none

/-! ## Code that runs with `lwipMutex` held -/

def heldStep (x : Env) : Option Sys :=
  match s.lock, x with
  | .accept c, .spawn g =>
    if (s.gos g).pc = .idle then
      let s := s.setConn c { s.conn c with state := .connecting, started := true }
      some ({ s with gos := Function.update s.gos g ⟨c, .handling⟩ }.return_ .lwip)
    else none
  | .receive h p c d, .none => some (s.receiveCheck h p c d)
  | .pipeWrite h p c d, .none =>
    if (s.conn c).pipeDone then some (s.recvClsd h p)
    else some (s.setLock (.pipe h p c d d true))
  | .pipe h _ c _ rest once, .none =>
    if rest = [] ∧ once = false then some ((s.access c .recved).return_ h) else none
  | .pipe h p c _ rest once, .pipeDone =>
    if (rest ≠ [] ∨ once = true) ∧ (s.conn c).pipeDone then some (s.recvClsd h p) else none
  | .localClosed h p c, .none => some ((s.setLocalClosed c).setLock (.check h p c .isClosed))
  | .check h p c k, .none =>
    match s.checkState c k with
    | (s, .inl k) => some (s.setLock (.check h p c k))
    | (s, .inr e) => some (s.checkReturn h e)
  | .abort g c k, .none =>
    match s.checkState c k with
    | (s, .inl k) => some (s.setLock (.abort g c k))
    | (s, .inr _) => some ((s.setLock .free).goto g .idle)
  | _, _ => none

/-! ## Goroutines -/

/-- The handler has a connection once its connect goroutine runs; `lwipStack.Close` aborts what it
finds in `tcpConns`. -/
def callStep (g : Gid) (c : Nat) (op : Op) : Option Sys :=
  if (s.gos g).pc = .idle ∧ c < s.n ∧
      ((s.conn c).started = true ∨ op = .abort ∧ s.tcpConns (s.conn c).connKey = some c) then
    some { s with gos := Function.update s.gos g ⟨c, op.pc⟩ }
  else none

/-- `Write` returns. -/
def leaveWrite (g : Gid) (c : Nat) : Sys :=
  (s.setConn c { s.conn c with canWriteL := none }).goto g .idle

/-- `CloseWrite` returns, and `Close` where it was called from there. -/
def leaveClose (g : Gid) (c : Nat) (inClose : Bool) : Sys :=
  (if inClose then s.setConn c { s.conn c with closeOnce := .done } else s).goto g .idle

def goStep (g : Gid) (x : Env) : Option Sys :=
  let c := (s.gos g).conn
  match (s.gos g).pc, x with
  | .handling, .handle false => some (s.goto g .abort)
  | .handling, .handle true =>
    if (s.conn c).state ≠ .connecting then some (s.goto g .idle)
    else some ((s.setConn c { s.conn c with state := .connected }).goto g .refused)
  | .refused, .none =>
    if s.lock = .free then
      let s := s.access c .refusedData
      let t := (s.pcb c).tcp
      if t.refused.isSome then
        let s := (s.access c .processRefused).setTcp c { t with work := .refused none }
        some ((s.setLock (.lwip (.go g))).goto g .inRefused)
      else some (s.goto g .idle)
    else none
  | .inRefused, .none =>
    if s.lock = .lwip (.go g) ∧ s.Settled then some ((s.setLock .free).goto g .idle) else none
  | .write d, .none | .woken d _, .none =>
    if (s.conn c).canWriteL = none then
      let total := match (s.gos g).pc with
        | .woken _ t => t
        | _ => 0
      some ((s.setConn c { s.conn c with canWriteL := some g }).goto g (.writeLoop d total))
    else none
  | .writeLoop d t, .none =>
    if d = [] then some (s.leaveWrite g c)
    else match (s.conn c).state.writeCheck with
      | .pass => some (s.goto g (.writeLwip d t))
      | .panic => some { s with panicked := true }
      | _ => some (s.leaveWrite g c)
  | .writeLwip d t, .write sndBuf ret =>
    if s.lock = .free then
      let s := s.access c .sndBuf
      let (written, failed) := writeSection d sndBuf ret
      let s := if 0 < sndBuf.toNat then s.access c .tcpWrite else s
      let s := if 0 < written then s.access c .tcpOutput else s
      if failed ∨ d.drop written = [] then some (s.leaveWrite g c)
      else some (s.goto g (.writeWait (d.drop written) (t + written)))
    else none
  | .writeWait d t, .none =>
    some ((s.setConn c { s.conn c with canWriteL := none }).goto g (.parked d t))
  | .closeWrite ic, .none =>
    match (s.conn c).state.closeWrite with
    | none => some (s.leaveClose g c ic)
    | some st =>
      some ((s.setConn c { s.conn c with state := st, didCloseWrite := true }).goto g (.shutdown ic))
  | .shutdown ic, .sendFin mem =>
    if s.lock = .free then
      let s := s.access c .shutdownTx
      some ((s.setTcp c ((s.pcb c).tcp.sendFin mem)).leaveClose g c ic)
    else none
  | .closeRead ic, .none =>
    some ((s.setConn c { s.conn c with sndPipeReaderClosed := true }).goto g
      (if ic then .closeWrite true else .idle))
  | .close, .none =>
    match (s.conn c).closeOnce with
    | .fresh => some ((s.setConn c { s.conn c with closeOnce := .running }).goto g (.closeRead true))
    | .running => none
    | .done => some (s.goto g .idle)
  | .abort, .none =>
    some ((s.setConn c { s.conn c with state := (s.conn c).state.abort }).goto g .abortLock)
  | .abortLock, .none =>
    if s.lock = .free then some ((s.setLock (.abort g c .isClosed)).goto g .aborting) else none
  | .read n, .none =>
    match (s.conn c).state.readCheck with
    | .pass => some (s.goto g (.readPipe n))
    | _ => some (s.goto g .idle)
  | .readPipe n, .none =>
    some (s.goto g (if (s.conn c).pipeDone then .idle else .readWait n))
  | .readWait n, .none =>
    match s.lock with
    | .pipe h p c' d rest once =>
      if c' = c ∧ (rest ≠ [] ∨ once = true) then
        some ((s.setLock (.pipe h p c' d (rest.drop n) false)).goto g .idle)
      else none
    | _ => none
  | .readWait _, .pipeDone => if (s.conn c).pipeDone then some (s.goto g .idle) else none
  | _, _ => none

end Sys

/-- One atomic step. A process that panicked takes no more. -/
def step (M : Lwip) (s : Sys) (a : Act) : Option Sys :=
  if s.panicked then none
  else match a with
    | .lock => if s.lock = .free then some (s.setLock (.lwip .lwip)) else none
    | .unlock =>
      if s.lock = .lwip .lwip ∧ s.Settled then some (s.setLock .free) else none
    | .accept key => if s.lock = .lwip .lwip then some (s.newTCPConn key) else none
    | .lwip p e t => s.lwipStep M p e t
    | .held x => s.heldStep x
    | .call g c op => s.callStep g c op
    | .go g x => s.goStep g x

section
variable {M : Lwip} {s s' : Sys}

theorem lwipStep_of_step {p : Nat} {e : LwEv} {t : Tcp} (h : step M s (.lwip p e t) = some s') :
    s.lwipStep M p e t = some s' := by
  unfold step at h
  split at h
  · cases h
  · exact h

theorem heldStep_of_step {x : Env} (h : step M s (.held x) = some s') : s.heldStep x = some s' := by
  unfold step at h
  split at h
  · cases h
  · exact h

theorem goStep_of_step {g : Gid} {x : Env} (h : step M s (.go g x) = some s') :
    s.goStep g x = some s' := by
  unfold step at h
  split at h
  · cases h
  · exact h

end

end Core
