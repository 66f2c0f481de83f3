import Tun2Simple.Core.UdpConn

/-!
# `udpPivot`

The UDP handler of the stack (`stack/udp.go`): `Connect` dials a socket for a connection and its
target and starts the goroutine that reads it (`redirectWaitForRemote`), `ReceiveTo` writes the
app's datagrams to the socket it finds under `udpID`, and `clearUdpRelay` closes that socket and
takes it out of `redirectMap`.

A section is one under `rLocker` or one operation on a socket. Sockets are numbered in the order of
the `Connect` calls that dialed them. What the network does is the `Env` of a section: whether a
dial, a write or a read succeeds and what is read; a closed socket is neither read nor written.
-/

namespace Udp

open Net

/-- `udpID`. -/
def udpID (src dst : Addr) : Bytes := src ++ ascii "->" ++ dst

/-- A dialed socket, with the local address of the connection it was dialed for. -/
structure Sock where
  localAddr : Addr := []
  target : Addr := []
  closed : Bool := false
  /-- Ghost: `Connect` has put it into `redirectMap`. -/
  stored : Bool := false
  /-- Ghost: its `redirectWaitForRemote` has returned. -/
  readerDone : Bool := false
  deriving DecidableEq, Repr

/-- Why a socket is closed: the reader of socket `k` ended, or a write on socket `k` failed. -/
inductive Cause
  | reader (k : Nat)
  | write (k : Nat)
  deriving DecidableEq, Repr

namespace Pivot

/-- `udpPivot`, and the record of what was done to the sockets. -/
structure S where
  /-- The number of sockets dialed so far. -/
  n : Nat := 0
  sock : Nat → Sock := fun _ => {}
  redirectMap : Bytes → Option Nat := fun _ => none
  /-- The datagrams written to sockets. -/
  written : List (Nat × Dgram) := []
  /-- The data read from sockets. -/
  read : List (Nat × Bytes) := []
  /-- The calls of `Close` on open sockets. -/
  closes : List (Nat × Cause) := []

/-- The relay of a socket: connection, its local address, target and socket. -/
structure Relay where
  conn : Nat
  localAddr : Addr
  target : Addr
  sock : Nat
  deriving DecidableEq, Repr

def Relay.id (r : Relay) : Bytes := udpID r.localAddr r.target

/-- Who called `clearUdpRelay`. -/
inductive Clear
  /-- The deferred call of `redirectWaitForRemote`. -/
  | reader (r : Relay)
  /-- `ReceiveTo` of connection `c`, after a write to socket `k` failed. -/
  | write (c k : Nat)
  deriving DecidableEq, Repr

def Clear.cause : Clear → Cause
  | .reader r => .reader r.sock
  | .write _ k => .write k

/-- The places in the code of `udpPivot`. -/
inductive P
  /-- `Connect`, at `SafeConn`. -/
  | dial (c : Nat) (localAddr target : Addr)
  /-- `Connect`, after the `Close` that follows a failed dial. -/
  | dialFailed
  /-- `Connect`, at `up.redirectMap[id] = peerUdp`. -/
  | store (r : Relay)
  /-- `Connect`, at its `go`. -/
  | go (r : Relay)
  | connected
  /-- `ReceiveTo`, at its lookup. -/
  | lookup (c : Nat) (localAddr : Addr) (d : Dgram)
  /-- `ReceiveTo`, after the last `Close` of its connection. -/
  | failed
  /-- `ReceiveTo`, at `peerUdp.Write`. -/
  | write (c : Nat) (localAddr : Addr) (d : Dgram) (k : Nat)
  /-- `redirectWaitForRemote`, at `peerUdp.Read`. -/
  | read (r : Relay)
  /-- `redirectWaitForRemote`, after `WriteFrom`. -/
  | wrote (r : Relay)
  /-- `redirectWaitForRemote`, after its deferred `Close`. -/
  | closed (r : Relay)
  /-- `clearUdpRelay`, at its lookup. -/
  | clear (id : Bytes) (w : Clear)
  /-- `clearUdpRelay`, at `peerUdp.Close()`. -/
  | clearClose (id : Bytes) (k : Nat) (w : Clear)
  /-- `clearUdpRelay`, at its delete. -/
  | clearDelete (id : Bytes) (w : Clear)
  /-- `clearUdpRelay` returns. -/
  | cleared (w : Clear)
  deriving DecidableEq, Repr

/-- What the network does. -/
inductive E
  | none
  | dial (ok : Bool)
  | write (ok : Bool)
  /-- `none` where the read fails. -/
  | read (data : Option Bytes)
  deriving DecidableEq, Repr

namespace S

variable (s : S)

def setSock (k : Nat) (x : Sock) : S := { s with sock := Function.update s.sock k x }

def dial (localAddr target : Addr) : S :=
  { s with n := s.n + 1, sock := Function.update s.sock s.n { localAddr, target } }

/-- `up.redirectMap[id] = peerUdp`. -/
def store (id : Bytes) (k : Nat) : S :=
  { s.setSock k { s.sock k with stored := true } with
    redirectMap := Function.update s.redirectMap id (some k) }

/-- `delete(up.redirectMap, id)`. -/
def delete (id : Bytes) : S := { s with redirectMap := Function.update s.redirectMap id none }

/-- `peerUdp.Close()`. -/
def closeSock (k : Nat) (w : Cause) : S :=
  if (s.sock k).closed then s
  else { s.setSock k { s.sock k with closed := true } with closes := s.closes ++ [(k, w)] }

end S

/-- The section at a place. -/
def step (s : S) : P → Bool → E → Option (S × Next P)
  | .dial c l t, _, .dial true => some (s.dial l t, .goto (.store ⟨c, l, t, s.n⟩))
  | .dial c _ _, _, .dial false => some (s, .call c .close .dialFailed)
  | .dialFailed, _, .none => some (s, .return_ true)
  | .store r, _, .none => some (s.store r.id r.sock, .goto (.go r))
  | .go r, _, .none => some (s, .spawn (.read r) .connected)
  | .connected, _, .none => some (s, .return_ false)
  | .lookup c l d, _, .none =>
    match s.redirectMap (udpID l d.addr) with
    | none => some (s, .call c .close .failed)
    | some k => some (s, .goto (.write c l d k))
  | .failed, _, .none => some (s, .return_ true)
  | .write _ _ d k, _, .write true =>
    if (s.sock k).closed then none
    else some ({ s with written := s.written ++ [(k, d)] }, .return_ false)
  | .write c l d k, _, .write false => some (s, .goto (.clear (udpID l d.addr) (.write c k)))
  | .read r, _, .read (some data) =>
    if (s.sock r.sock).closed then none
    else some ({ s with read := s.read ++ [(r.sock, data)] },
      .call r.conn (.writeFrom ⟨r.sock, data, r.target⟩) (.wrote r))
  | .read r, _, .read none => some (s, .call r.conn .close (.closed r))
  | .wrote r, err, .none =>
    if err then some (s, .call r.conn .close (.closed r)) else some (s, .goto (.read r))
  | .closed r, _, .none => some (s, .goto (.clear r.id (.reader r)))
  | .clear id w, _, .none =>
    match s.redirectMap id with
    | none => some (s, .goto (.cleared w))
    | some k => some (s, .goto (.clearClose id k w))
  | .clearClose id k w, _, .none => some (s.closeSock k w.cause, .goto (.clearDelete id w))
  | .clearDelete id w, _, .none => some (s.delete id, .goto (.cleared w))
  | .cleared (.reader r), _, .none =>
    some (s.setSock r.sock { s.sock r.sock with readerDone := true }, .return_ false)
  | .cleared (.write c _), _, .none => some (s, .call c .close .failed)
  | _, _, _ => none

end Pivot

/-- `udpPivot` as the handler of the UDP core. -/
abbrev udpPivot : Handler where
  S := Pivot.S
  P := Pivot.P
  E := Pivot.E
  init := {}
  connect c l t := .dial c l t
  receiveTo c l d := .lookup c l d
  step := Pivot.step

end Udp
