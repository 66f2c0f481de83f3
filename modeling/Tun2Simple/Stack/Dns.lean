import Mathlib.Data.List.AList
import Tun2Simple.Lib.Bytes
import Tun2Simple.Lib.Pool

/-!
# `dnsHandler`

The DNS half of the UDP handler that `newUdpHandler` builds (`stack/dns.go`): `ReceiveTo` sends the
queries of all connections from one socket, the pivot, and keeps each connection in `dnsMap` under
the ID of its query; `dnsWaitResponse` reads the replies and looks up whom they are for;
`expireConn` closes the connections whose entry has not been used for `ExpireTime`. A failed write
makes `ReceiveTo` replace the pivot (`setupPivot`) and start one more `dnsWaitResponse`; a failed
read ends a `dnsWaitResponse`, with the deferred `close`.

A section is one under `cLocker`, one operation on a socket or a connection, or one access to a
field that no lock guards (`pivot`, `updateTime`). The read lock of `expireConn` spans several
sections (`rLocked`). What `dnsmessage` makes of a message is a parameter (`unpack`). Of a
connection only matters whether it was closed. The redirection of other ports is left out.

The runtime is a thread of its own: the clock, the ticker, the context, and whoever else closes
connections.
-/

namespace Dns

/-- `time.Minute * 3`, in nanoseconds. -/
def ExpireTime : Nat := 3 * 60 * 1000000000

/-- What the handler reads of a `dnsmessage.Message`. -/
structure Msg where
  ID : UInt16
  /-- `len(msg.Answers)`. -/
  answers : Nat
  deriving DecidableEq, Repr

/-- The ID of a message on the wire: its first two bytes. -/
def wireID : Bytes → Option UInt16
  | hi :: lo :: _ => some (hi.toUInt16 <<< 8 ||| lo.toUInt16)
  | _ => none

/-- `dnsConn`. -/
structure DnsConn where
  conn : Nat
  updateTime : Nat
  /-- Ghost: the pivot when it was added. -/
  pivot : Nat
  deriving DecidableEq, Repr

structure Sock where
  closed : Bool := false
  /-- Ghost: a write or a read on it failed. -/
  failed : Bool := false
  /-- Ghost: `setupPivot` made it the pivot. -/
  installed : Bool := false
  deriving DecidableEq, Repr

/-- A query that was sent: for which connection, from which socket and when. -/
structure Query where
  conn : Nat
  data : Bytes
  sock : Nat
  sentAt : Nat
  deriving DecidableEq, Repr

/-- A message that was read, with the number of the query that it answers, if any. -/
structure Reply where
  data : Bytes
  query : Option Nat
  deriving DecidableEq, Repr

/-- What became of a reply. -/
inductive Outcome
  /-- `Unpack` failed. -/
  | unparsed
  /-- There is no entry under its ID. -/
  | missing
  | noAnswers
  /-- `WriteFrom` failed: the connection is closed. -/
  | failed
  | written (c : Nat)
  deriving DecidableEq, Repr

/-- A reply that `dnsWaitResponse` is done with; `at_` is when it looked for its connection. -/
structure Handled where
  reply : Reply
  outcome : Outcome
  at_ : Nat
  deriving DecidableEq, Repr

/-- Who calls `close`. -/
inductive Closer
  /-- The `dnsWaitResponse` whose read on socket `k` failed. -/
  | reader (k : Nat)
  | expireConn
  deriving DecidableEq, Repr

/-- What `close` does. -/
inductive Ev
  /-- It takes entry `e` out of `dnsMap`. -/
  | drop (w : Closer) (e : Nat)
  | closePivot (w : Closer) (k : Nat)
  | stopTicker (w : Closer)
  deriving DecidableEq, Repr

/-- `dnsMap`: the number of the entry under an ID. -/
abbrev DnsMap := AList fun _ : UInt16 => Nat

/-- `dnsHandler` and what it lives in. -/
structure S where
  now : Nat := 0
  /-- The connections that were closed. -/
  closed : Nat → Bool := fun _ => false
  /-- The number of sockets opened so far. -/
  socks : Nat := 1
  sock : Nat → Sock := fun k => { installed := k == 0 }
  pivot : Nat := 0
  /-- The number of entries made so far. -/
  entries : Nat := 0
  entry : Nat → DnsConn := fun _ => ⟨0, 0, 0⟩
  dnsMap : DnsMap := ∅
  /-- `expireConn` holds `cLocker` for reading. -/
  rLocked : Bool := false
  /-- The ticker's channel. -/
  expire : Option Nat := none
  expireStopped : Bool := false
  ctxDone : Bool := false
  /-- Ghost: the queries sent so far. -/
  queries : List Query := []
  /-- Ghost: the connection for which the last entry under an ID was added. -/
  owner : UInt16 → Option Nat := fun _ => none
  /-- Ghost: the replies that `dnsWaitResponse` is done with. -/
  handled : List Handled := []
  /-- Ghost: what `close` did. -/
  log : List Ev := []

/-- The places in the code. -/
inductive P
  /-- `ReceiveTo`, at `dh.pivot`. -/
  | receiveTo (c : Nat) (data : Bytes)
  /-- `ReceiveTo`, at `WriteToUDP`. -/
  | write (c : Nat) (data : Bytes) (k : Nat)
  /-- `ReceiveTo`, at `conn.Close()` after a failed write. -/
  | writeFailed (c : Nat)
  /-- `setupPivot`, at `dh.pivot`. -/
  | setupPivot
  /-- `setupPivot`, at `dh.pivot.Close()`. -/
  | setupClose (k : Nat)
  /-- `setupPivot`, at `ListenUDP`. -/
  | listen
  /-- `setupPivot`, at `dh.pivot = pc`. -/
  | install (k : Nat)
  /-- `ReceiveTo`, at `go dh.dnsWaitResponse()`. -/
  | restart
  /-- `ReceiveTo`, at `Unpack`. -/
  | unpack (c : Nat) (data : Bytes)
  /-- `ReceiveTo`, at `dh.dnsMap[msg.ID] = ...`. -/
  | add (c : Nat) (ID : UInt16)
  /-- `dnsWaitResponse`, at `dh.pivot`. -/
  | wait
  /-- `dnsWaitResponse`, in `ReadFromUDP`. -/
  | read (k : Nat)
  /-- `dnsWaitResponse`, at `Unpack`. -/
  | reply (r : Reply)
  /-- `dnsWaitResponse`, at its lookup. -/
  | lookup (r : Reply) (msg : Msg)
  /-- `dnsWaitResponse`, at `conn.updateTime = time.Now()`. -/
  | touch (r : Reply) (e : Nat) (at_ : Nat)
  /-- `dnsWaitResponse`, at `WriteFrom`. -/
  | writeFrom (r : Reply) (e : Nat) (at_ : Nat)
  /-- `close`, at `cLocker.Lock()`. -/
  | close (w : Closer)
  /-- `close`, at `dh.pivot`. -/
  | closePivot (w : Closer)
  /-- `close`, at `dh.pivot.Close()`. -/
  | closeSock (w : Closer) (k : Nat)
  /-- `close`, at `dh.expire.Stop()`. -/
  | stop (w : Closer)
  /-- `expireConn`, at its `select`. -/
  | select
  /-- `expireConn`, at `cLocker.RLock()`. -/
  | ticked (tim : Nat)
  /-- `expireConn`, in its loop; `todo` are the IDs that the `range` has not yet yielded. -/
  | scan (tim : Nat) (todo toDelete : List UInt16)
  /-- `expireConn`, at `cLocker.Lock()`. -/
  | delete (toDelete : List UInt16)
  | runtime
  | done
  deriving DecidableEq, Repr

/-- What a section gets from outside. -/
inductive E
  | none
  | write (ok : Bool)
  | listen (ok : Bool)
  /-- `none` where the read fails. -/
  | read (r : Option Reply)
  /-- The `range` yields an ID. -/
  | range (ID : UInt16)
  /-- `select` takes a case. -/
  | tick
  | ctxDone
  /-- The runtime: time passes, the ticker fires, the context is cancelled, connection `c` is
  closed. -/
  | advance (d : Nat)
  | fire
  | cancel
  | closeConn (c : Nat)
  deriving DecidableEq, Repr

namespace S

variable (s : S)

def setSock (k : Nat) (x : Sock) : S := { s with sock := Function.update s.sock k x }

def closeSock (k : Nat) : S := s.setSock k { s.sock k with closed := true }

/-- A write or a read on socket `k` fails. -/
def fail (k : Nat) : S := s.setSock k { s.sock k with failed := true }

/-- `conn.Close()`. -/
def closeConn (c : Nat) : S := { s with closed := Function.update s.closed c true }

def emit (e : Ev) : S := { s with log := s.log ++ [e] }

/-- `ListenUDP` opens socket `s.socks`. -/
def listen : S := { s with socks := s.socks + 1, sock := Function.update s.sock s.socks {} }

/-- `dh.pivot = pc`. -/
def install (k : Nat) : S :=
  { s.setSock k { s.sock k with installed := true } with pivot := k }

/-- `dh.dnsMap[msg.ID] = &dnsConn{conn, time.Now()}`. -/
def add (c : Nat) (ID : UInt16) : S :=
  { s with
    entries := s.entries + 1
    entry := Function.update s.entry s.entries ⟨c, s.now, s.pivot⟩
    dnsMap := s.dnsMap.insert ID s.entries
    owner := Function.update s.owner ID (some c) }

/-- The query that a reply answers. -/
def query (r : Reply) : Option Query := r.query.bind fun i => s.queries[i]?

/-- The message can be read from socket `k`: what answers a query has its ID and comes to the socket
it was sent from. -/
def Arrives (k : Nat) (r : Reply) : Prop :=
  (s.sock k).closed = false ∧ ∀ i ∈ r.query, ∃ q ∈ s.queries[i]?,
    q.sock = k ∧ wireID r.data = wireID q.data

instance (k : Nat) (r : Reply) : Decidable (s.Arrives k r) :=
  inferInstanceAs (Decidable (_ ∧ _))

def handle (r : Reply) (o : Outcome) (at_ : Nat) : S :=
  { s with handled := s.handled ++ [⟨r, o, at_⟩] }

/-- `conn.updateTime = time.Now()`. -/
def touch (e : Nat) : S :=
  { s with entry := Function.update s.entry e { s.entry e with updateTime := s.now } }

/-- The connection has an entry in `dnsMap`. -/
def listed (c : Nat) : Bool := s.dnsMap.entries.any fun x => (s.entry x.2).conn == c

/-- The section of `close` under `cLocker`. -/
def drop (w : Closer) : S :=
  { s with
    closed := fun c => s.closed c || s.listed c
    dnsMap := ∅
    log := s.log ++ s.dnsMap.entries.map fun x => .drop w x.2 }

/-- `delete(dh.dnsMap, idx)` for every `idx` of `toDelete`. -/
def delete (toDelete : List UInt16) : S :=
  { s with dnsMap := toDelete.foldl (fun m ID => m.erase ID) s.dnsMap }

end S

section
variable (unpack : Bytes → Option Msg)

/-- The next section of `ReceiveTo` and `setupPivot`. -/
def receiveSec (s : S) : P → E → Option (S × P × Option P)
  | .receiveTo c d, .none => some (s, .write c d s.pivot, none)
  | .write c d k, .write true =>
    if (s.sock k).closed then none
    else some ({ s with queries := s.queries ++ [⟨c, d, k, s.now⟩] }, .unpack c d, none)
  | .write c _ k, .write false => some (s.fail k, .writeFailed c, none)
  | .writeFailed c, .none => some (s.closeConn c, .setupPivot, none)
  | .setupPivot, .none => some (s, .setupClose s.pivot, none)
  | .setupClose k, .none => some (s.closeSock k, .listen, none)
  | .listen, .listen true => some (s.listen, .install s.socks, none)
  | .listen, .listen false => some (s, .done, none)
  | .install k, .none => some (s.install k, .restart, none)
  | .restart, .none => some (s, .done, some .wait)
  | .unpack c d, .none =>
    match unpack d with
    | none => some (s, .done, none)
    | some msg => some (s, .add c msg.ID, none)
  | .add c ID, .none => if s.rLocked then none else some (s.add c ID, .done, none)
  | _, _ => none

/-- The next section of `dnsWaitResponse`, up to its deferred `close`. -/
def waitSec (s : S) : P → E → Option (S × P × Option P)
  | .wait, .none => some (s, .read s.pivot, none)
  | .read k, .read (some r) => if s.Arrives k r then some (s, .reply r, none) else none
  | .read k, .read none => some (s.fail k, .close (.reader k), none)
  | .reply r, .none =>
    match unpack r.data with
    | none => some (s.handle r .unparsed s.now, .wait, none)
    | some msg => some (s, .lookup r msg, none)
  | .lookup r msg, .none =>
    match s.dnsMap.lookup msg.ID with
    | none => some (s.handle r .missing s.now, .wait, none)
    | some e =>
      if msg.answers = 0 then some (s.handle r .noAnswers s.now, .wait, none)
      else some (s, .touch r e s.now, none)
  | .touch r e t, .none => some (s.touch e, .writeFrom r e t, none)
  | .writeFrom r e t, .none =>
    let c := (s.entry e).conn
    some (s.handle r (if s.closed c then .failed else .written c) t, .wait, none)
  | _, _ => none

/-- The next section of `close`. -/
def closeSec (s : S) : P → E → Option (S × P × Option P)
  | .close w, .none => if s.rLocked then none else some (s.drop w, .closePivot w, none)
  | .closePivot w, .none => some (s, .closeSock w s.pivot, none)
  | .closeSock w k, .none => some ((s.closeSock k).emit (.closePivot w k), .stop w, none)
  | .stop w, .none => some ({ s with expireStopped := true }.emit (.stopTicker w), .done, none)
  | _, _ => none

/-- The next section of `expireConn`, up to its `close`. -/
def expireSec (s : S) : P → E → Option (S × P × Option P)
  | .select, .ctxDone => if s.ctxDone then some (s, .close .expireConn, none) else none
  | .select, .tick => s.expire.map fun tim => ({ s with expire := none }, .ticked tim, none)
  | .ticked tim, .none => some ({ s with rLocked := true }, .scan tim s.dnsMap.keys [], none)
  | .scan tim todo toDelete, .range ID =>
    if ID ∈ todo then
      (s.dnsMap.lookup ID).map fun e =>
        let conn := s.entry e
        if (tim : Int) - conn.updateTime ≤ ExpireTime then
          (s, .scan tim (todo.erase ID) toDelete, none)
        else (s.closeConn conn.conn, .scan tim (todo.erase ID) (toDelete ++ [ID]), none)
    else none
  | .scan _ [] toDelete, .none =>
    some ({ s with rLocked := false }, if toDelete = [] then .select else .delete toDelete, none)
  | .delete toDelete, .none =>
    if s.rLocked then none else some (s.delete toDelete, .select, none)
  | _, _ => none

/-- What happens around the handler. A tick that finds the channel full is lost. -/
def runtimeSec (s : S) : E → Option (S × P × Option P)
  | .advance d => some ({ s with now := s.now + d }, .runtime, none)
  | .fire =>
    if s.expireStopped then none
    else some ({ s with expire := some (s.expire.getD s.now) }, .runtime, none)
  | .cancel => some ({ s with ctxDone := true }, .runtime, none)
  | .closeConn c => some (s.closeConn c, .runtime, none)
  | _ => none

/-- The next section at a place. -/
def sec (s : S) (p : P) (e : E) : Option (S × P × Option P) :=
  match p with
  | .receiveTo _ _ | .write _ _ _ | .writeFailed _ | .setupPivot | .setupClose _ | .listen
  | .install _ | .restart | .unpack _ _ | .add _ _ => receiveSec unpack s p e
  | .wait | .read _ | .reply _ | .lookup _ _ | .touch _ _ _ | .writeFrom _ _ _ =>
    waitSec unpack s p e
  | .close _ | .closePivot _ | .closeSock _ _ | .stop _ => closeSec s p e
  | .select | .ticked _ | .scan _ _ _ | .delete _ => expireSec s p e
  | .runtime => runtimeSec s e
  | .done => none

/-- The goroutines of `dnsHandler`; from outside a `ReceiveTo` to port 53 is called for a
connection, with its data. -/
def dnsHandler : Pool.Prog S P (Nat × Bytes) E where
  start s _ a := some (s, .receiveTo a.1 a.2)
  sec s _ p e := sec unpack s p e

end

/-- After `newUdpHandler`: socket 0 is the pivot. -/
def init : Pool.State S P where
  shared := {}
  n := 3
  thread g := if g = 0 then .wait else if g = 1 then .select else .runtime

end Dns
