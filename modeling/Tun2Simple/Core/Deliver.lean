import Tun2Simple.Core.UdpConn

/-!
# What becomes of the datagrams of a `udpConn`

The calls of `ReceiveTo` of a connection, numbered as they begin, and what becomes of each: `seen`
says what a step is for them, and `ledger` keeps the books over a run. A call is early until it
queues its datagram, is refused or gives the datagram to the handler, and in the last case inside
until the handler returns. The loop of the connect goroutine gives the queued datagrams to the
handler.
-/

namespace Udp

open Pool

/-- What a step is for the calls of a connection. -/
inductive Seen
  /-- Goroutine `g` calls `ReceiveTo`. -/
  | call (g : Gid) (d : Dgram)
  /-- The call of `g` queues its datagram and returns `nil`. -/
  | queue (g : Gid)
  /-- It returns the error of `checkState`. -/
  | refuse (g : Gid)
  /-- It gives `d` to the handler. -/
  | hand (g : Gid) (d : Dgram)
  /-- The handler returns, and the call of `g` with it. -/
  | return_ (g : Gid) (err : Bool)
  /-- The loop gives `d` to the handler. -/
  | drain (d : Dgram)
  /-- The loop finds nothing more. -/
  | ended
  deriving DecidableEq, Repr

section
variable {H : Handler} (c : Nat)

/-- What the next section of goroutine `g` is for the calls of connection `c`. -/
def seenSec (s : Shared H) (g : Gid) (x : Go H.P) (e : Env H.E) : Option Seen :=
  match x.pc, e with
  | .load src d, .none => if s.udpConns src = some c then some (.call g d) else none
  | .store c' d, .none => if c' = c then some (.call g d) else none
  | .receiveTo c' d _, .none =>
    if c' = c ∧ ((s.conn c).enqueueEarlyPacket d).isSome then some (.queue g) else none
  | .receiveCheck c' d _, .none =>
    if c' = c then some (if (s.conn c).checkState then .refuse g else .hand g d) else none
  | .handler p err, .handler e =>
    match H.step s.h p err e with
    | some (_, .call c' (.receiveTo d) _) => if c' = c then some (.call g d) else none
    | _ => none
  | .drain c', .none =>
    if c' = c then
      match (s.conn c).pending with
      | some (d :: _) => some (.drain d)
      | _ => some .ended
    else none
  | .ret err, .none =>
    match x.stack with
    | .receiveTo c' _ :: _ => if c' = c then some (.return_ g err) else none
    | _ => none
  | _, _ => none

def seen (s : Sys H) : Act H → Option Seen
  | .start _ => none
  | .sec g e => seenSec c s.shared g (s.thread g) e

/-- `handler.ReceiveTo` returns an error to `ReceiveTo` of `c` or to the loop. -/
def receiveToFails (s : Sys H) : Act H → Bool
  | .start _ => false
  | .sec g _ =>
    match (s.thread g).pc, (s.thread g).stack with
    | .ret true, .drain c' :: _ | .ret true, .receiveTo c' _ :: _ => c' = c
    | _, _ => false

end

/-- The books of a connection; calls are named by their numbers. -/
structure Ledger where
  /-- The datagrams of the calls so far. -/
  calls : List Dgram := []
  /-- The early call of a goroutine. -/
  early : Gid → Option Nat := fun _ => none
  /-- The calls of a goroutine that are inside the handler, the last one first. -/
  inside : Gid → List Nat := fun _ => []
  /-- The calls whose datagrams are in the queue. -/
  pending : List Nat := []
  /-- What the handler got, and in which call it came. -/
  received : List (Nat × Dgram) := []
  /-- The calls that returned, and whether with an error. -/
  returned : List (Nat × Bool) := []
  /-- The calls that queued their datagrams, in this order. -/
  queued : List Nat := []
  /-- The calls whose datagrams the loop gave to the handler, in this order. -/
  drained : List Nat := []
  ended : Bool := false

namespace Ledger

variable (l : Ledger)

def see : Seen → Ledger
  | .call g d =>
    { l with calls := l.calls ++ [d], early := Function.update l.early g (some l.calls.length) }
  | .queue g =>
    match l.early g with
    | some k =>
      { l with
        early := Function.update l.early g none
        pending := l.pending ++ [k]
        queued := l.queued ++ [k]
        returned := l.returned ++ [(k, false)] }
    | none => l
  | .refuse g =>
    match l.early g with
    | some k =>
      { l with early := Function.update l.early g none, returned := l.returned ++ [(k, true)] }
    | none => l
  | .hand g d =>
    match l.early g with
    | some k =>
      { l with
        early := Function.update l.early g none
        inside := Function.update l.inside g (k :: l.inside g)
        received := l.received ++ [(k, d)] }
    | none => l
  | .return_ g err =>
    match l.inside g with
    | k :: ks =>
      { l with inside := Function.update l.inside g ks, returned := l.returned ++ [(k, err)] }
    | [] => l
  | .drain d =>
    match l.pending with
    | k :: ks =>
      { l with pending := ks, received := l.received ++ [(k, d)], drained := l.drained ++ [k] }
    | [] => l
  | .ended => { l with ended := true }

end Ledger

/-- The books of connection `c` after a run. -/
def ledger {H : Handler} (c : Nat) (tr : List (Sys H × Act H)) : Ledger :=
  (tr.filterMap fun x => seen c x.1 x.2).foldl Ledger.see {}

end Udp
