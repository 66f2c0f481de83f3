import Tun2Simple.Core.Step
import Tun2Simple.Lib.Run

/-!
# The received stream of a connection

What can be seen of a run at connection `c`: what lwIP gives to `tcpRecvFn` for it and what becomes
of that, what its `Read`s return, and the calls that end its reading side. `Sys.obs` says which of
these a step is. `stream` sums up a run: the segments in lwIP's order, each one once, those that
were not refused, the one that was refused last and is not re-delivered yet, and the bytes that the
`Read`s returned.
-/

namespace Core

inductive Obs
  /-- `tcpRecvFn` is called with `d` and finds the connection. -/
  | deliver (d : Bytes)
  /-- `Receive` returns `LWIP_ERR_CONN` for `d`: lwIP keeps it. -/
  | refuse (d : Bytes)
  /-- `tcpRecvFn` is called without data and finds the connection. -/
  | fin
  /-- `setLocalClosed` sets the state. -/
  | localClosed
  /-- `Read` returns bytes. -/
  | read (d : Bytes)
  /-- `Read` returns `io.EOF`. -/
  | eof
  /-- A section of `CloseRead` (also for `Close`) or of `Abort`, or `Err`. -/
  | torn
  deriving DecidableEq, Repr

namespace Sys

variable (s : Sys) (c : Nat)

/-- A callback for pcb `p` finds connection `c`. -/
def finds (p : Nat) : Bool := (s.pcb p).hooked && s.tcpConns (s.conn p).connKey == some c

def lwipObs (p : Nat) (e : LwEv) : Option Obs :=
  if s.finds c p then
    match e with
    | .recv d => some (.deliver d)
    | .fin => some .fin
    | .err => some .torn
    | _ => none
  else none

def heldObs : Option Obs :=
  match s.lock with
  | .receive _ _ c' d =>
    if c' = c ∧ (s.conn c).state.receiveCheck = some .conn then some (.refuse d) else none
  | .localClosed _ _ c' =>
    if c' = c ∧ (s.conn c).state.setLocalClosed ≠ none then some .localClosed else none
  | _ => none

/-- A section of a goroutine that is in a method of connection `c`. `Read` returns `io.EOF` also
where the pipe returns `io.ErrClosedPipe`. -/
def goObs (pc : Pc) (x : Env) : Option Obs :=
  match pc, x with
  | .closeRead _, .none | .abort, .none => some .torn
  | .read _, .none => if (s.conn c).state.readCheck = .eof then some .eof else none
  | .readPipe _, .none | .readWait _, .pipeDone => if (s.conn c).pipeDone then some .eof else none
  | .readWait n, .none =>
    match s.lock with
    | .pipe _ _ _ _ rest _ => some (.read (rest.take n))
    | _ => none
  | _, _ => none

/-- What step `a` is at connection `c`. -/
def obs : Act → Option Obs
  | .lwip p e _ => s.lwipObs c p e
  | .held .none => s.heldObs c
  | .go g x => if (s.gos g).conn = c then s.goObs c (s.gos g).pc x else none
  | _ => none

end Sys

/-- The sum of a run (module doc). -/
structure Stream where
  segs : List Bytes := []
  accepted : List Bytes := []
  pending : Option Bytes := none
  returned : Bytes := []
  deriving DecidableEq, Repr

/-- A segment that is delivered while one is kept is that one again. -/
def Stream.add (x : Stream) : Obs → Stream
  | .deliver d =>
    { x with segs := if x.pending.isSome then x.segs else x.segs ++ [d]
             accepted := x.accepted ++ [d]
             pending := none }
  | .refuse d => { x with accepted := x.accepted.dropLast, pending := some d }
  | .read d => { x with returned := x.returned ++ d }
  | _ => x

def obsOf (c : Nat) (tr : List (Sys × Act)) : List Obs := tr.filterMap fun y => y.1.obs c y.2

def stream (c : Nat) (tr : List (Sys × Act)) : Stream := (obsOf c tr).foldl Stream.add {}

/-- A segment that was refused, `kept` at first, is delivered again before any other data or FIN. -/
def redelivers (kept : Option Bytes) : List Obs → Prop
  | [] => True
  | .deliver d :: os => (kept = none ∨ kept = some d) ∧ redelivers none os
  | .fin :: os => kept = none ∧ redelivers kept os
  | .refuse d :: os => redelivers (some d) os
  | .localClosed :: os | .read _ :: os | .eof :: os | .torn :: os => redelivers kept os

instance decRedelivers : (kept : Option Bytes) → (os : List Obs) → Decidable (redelivers kept os)
  | _, [] => .isTrue trivial
  | kept, .deliver d :: os =>
    @instDecidableAnd (kept = none ∨ kept = some d) _ inferInstance (decRedelivers none os)
  | kept, .fin :: os => @instDecidableAnd (kept = none) _ inferInstance (decRedelivers kept os)
  | _, .refuse d :: os => decRedelivers (some d) os
  | kept, .localClosed :: os | kept, .read _ :: os | kept, .eof :: os | kept, .torn :: os =>
    decRedelivers kept os

/-- lwIP re-delivers a refused segment of connection `c` before any later data or FIN. -/
def Redelivers (c : Nat) (tr : List (Sys × Act)) : Prop := redelivers none (obsOf c tr)

instance (c : Nat) (tr : List (Sys × Act)) : Decidable (Redelivers c tr) :=
  decRedelivers none (obsOf c tr)

/-- No `CloseRead`, `Close`, `Abort` or `Err` of connection `c` had an effect. -/
def Untorn (c : Nat) (tr : List (Sys × Act)) : Prop := Obs.torn ∉ obsOf c tr

instance (c : Nat) (tr : List (Sys × Act)) : Decidable (Untorn c tr) :=
  inferInstanceAs (Decidable (Obs.torn ∉ obsOf c tr))

end Core
