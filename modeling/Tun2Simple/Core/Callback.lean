import Mathlib.Algebra.GroupWithZero.Nat
import Tun2Simple.Core.Step

/-!
# The calls of a callback

What a callback of lwIP does that its contract is about: the calls of `tcp_recved` and `tcp_abort`,
the `pbuf_free` that `tcpRecvFn` defers, the bytes that the handler reads meanwhile, and the code it
returns. `Sys.calls` says which of these a section makes, `record` collects them for each call that
lwIP makes in a run.
-/

namespace Core

/-- A callback with a return code; `tcpRecvFn` with its `pbuf`. -/
inductive Fn
  | tcpRecvFn (p : Option Bytes)
  | tcpSentFn
  | tcpPollFn
  deriving DecidableEq, Repr

/-- The callback that lwIP calls for an event. -/
def LwEv.fn : LwEv → Option Fn
  | .recv d => some (.tcpRecvFn (some d))
  | .fin => some (.tcpRecvFn none)
  | .sent => some .tcpSentFn
  | .poll => some .tcpPollFn
  | .err | .free | .tau => none

def Fn.pbuf : Fn → Option Bytes
  | .tcpRecvFn p => p
  | .tcpSentFn | .tcpPollFn => none

/-- `p.tot_len`. -/
def totLen (d : Bytes) : UInt16 := UInt16.ofNat d.length

inductive CbCall
  | tcpRecved (p : Nat) (len : UInt16)
  | tcpAbort (p : Nat)
  | pbufFree
  /-- A `Read` of the handler takes bytes from the pipe. -/
  | read (d : Bytes)
  | return_ (err : LwipErr)
  deriving DecidableEq, Repr

/-- A callback returns, after what it deferred. -/
def leave (pbuf : Option Bytes) (shouldFreePbuf : Bool) (err : LwipErr) : List CbCall :=
  if pbuf.isSome && shouldFreePbuf then [.pbufFree, .return_ err] else [.return_ err]

/-- `tcpRecvFn` after `Receive` returned `LWIP_ERR_CLSD`. -/
def recvClsdCalls (p : Nat) (d : Bytes) : List CbCall :=
  .tcpRecved p (totLen d) :: leave (some d) true .ok

namespace Sys

variable (s : Sys)

/-- A section of `checkState`, and the `switch` on what it returns. -/
def checkCalls (c : Nat) : CheckPc → List CbCall
  | .isClosed => []
  | .checkClosing => if (s.conn c).state = .closing then leave none true .ok else []
  | .checkAborting =>
    if (s.conn c).state = .aborting then .tcpAbort c :: leave none true .abrt else []
  | .broadcast => leave none true .ok

def heldCalls (x : Env) : List CbCall :=
  match s.lock, x with
  | .receive _ p c d, .none =>
    match (s.conn c).state.receiveCheck with
    | none => []
    | some .conn => leave (some d) false .conn
    | some .clsd => recvClsdCalls p d
    | some .abrt => .tcpAbort c :: leave (some d) true .abrt
    | some .ok => leave (some d) true .ok
  | .pipeWrite _ p c d, .none => if (s.conn c).pipeDone then recvClsdCalls p d else []
  | .pipe _ _ c d rest once, .none =>
    if rest = [] ∧ once = false then .tcpRecved c (UInt16.ofNat d.length) :: leave (some d) true .ok
    else []
  | .pipe _ p _ d _ _, .pipeDone => recvClsdCalls p d
  | .check _ _ c k, .none => s.checkCalls c k
  | _, _ => []

/-- What the section of step `a` calls, if a callback is running or starts. -/
def calls : Act → List CbCall
  | .lwip p e _ =>
    match e.fn, s.tcpConns (s.conn p).connKey with
    | some f, none => .tcpAbort p :: leave f.pbuf true .abrt
    | _, _ => []
  | .held x => s.heldCalls x
  | .go g .none =>
    match (s.gos g).pc, s.lock with
    | .readWait n, .pipe _ _ _ _ rest _ => [.read (rest.take n)]
    | _, _ => []
  | _ => []

end Sys

/-- A call that lwIP makes, and what it did so far. -/
structure Callback where
  fn : Fn
  /-- The callback's `tpcb`. -/
  p : Nat
  recved : List (Nat × UInt16) := []
  aborts : List Nat := []
  frees : Nat := 0
  read : Bytes := []
  deriving DecidableEq, Repr

structure Record where
  /-- The callback that runs. -/
  running : Option Callback := none
  /-- Those that returned, with their codes. -/
  returned : List (Callback × LwipErr) := []
  deriving DecidableEq, Repr

namespace Record

variable (r : Record)

def add : CbCall → Record
  | .tcpRecved p len =>
    { r with running := r.running.map fun b => { b with recved := b.recved ++ [(p, len)] } }
  | .tcpAbort p => { r with running := r.running.map fun b => { b with aborts := b.aborts ++ [p] } }
  | .pbufFree => { r with running := r.running.map fun b => { b with frees := b.frees + 1 } }
  | .read d => { r with running := r.running.map fun b => { b with read := b.read ++ d } }
  | .return_ err => ⟨none, r.returned ++ (r.running.map fun b => (b, err)).toList⟩

/-- lwIP calls a callback. -/
def start : Act → Record
  | .lwip p e _ =>
    match e.fn with
    | some f => { r with running := some { fn := f, p } }
    | none => r
  | _ => r

def step (s : Sys) (a : Act) : Record := (s.calls a).foldl add (r.start a)

end Record

/-- The callbacks of a run. -/
def record (tr : List (Sys × Act)) : Record := tr.foldl (fun r x => r.step x.1 x.2) {}

/-! ## The contract -/

/-- How many pbufs the callback has to free. -/
def Callback.pbufs (b : Callback) : Nat := if b.fn.pbuf.isSome then 1 else 0

/-- What `tcp_recved` credited. -/
def Callback.credited (b : Callback) : Nat := (b.recved.map fun x => x.2.toNat).sum

def Callback.totLen (b : Callback) : Nat := (b.fn.pbuf.map fun d => (Core.totLen d).toNat).getD 0

/-- The outcome of `tcpRecvFn`: the data was taken, it is to be delivered again, or the pcb was
aborted. -/
inductive Outcome (b : Callback) : LwipErr → Prop
  | ok : b.frees = b.pbufs → (∀ x ∈ b.recved, x.1 = b.p) → b.credited = b.totLen → Outcome b .ok
  | conn : b.frees = 0 → b.recved = [] → b.read = [] → Outcome b .conn
  | abrt : b.aborts = [b.p] → b.frees = b.pbufs → Outcome b .abrt

/-- What lwIP expects of a callback that returned `err`. -/
structure Contract (b : Callback) (err : LwipErr) : Prop where
  outcome : ∀ p, b.fn = .tcpRecvFn p → Outcome b err
  abrt_iff : err = .abrt ↔ b.aborts ≠ []

end Core
