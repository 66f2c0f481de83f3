import Tun2Simple.Core.Sys

/-!
# A connection to an echoing target

One connection in `tcpConnected` with its two relays, the lwIP thread, an app that takes whatever it
is sent and a target that echoes what it reads. `Receive` writes to the connection's pipe in the
lwIP thread, which holds `lwipMutex` until the relay has read all of it; the relay that writes to
the app needs `lwipMutex` as well (`conn.Write`), and so do the app's ACKs. The sockets to and from
the target hold a bounded number of bytes, and a write to a full one waits.

The bytes stand where they are, in the order of their way: `Loop.flight` lists them from the app's
end back to lwIP.
-/

namespace Echo

/-- The capacities of the target's sockets and of lwIP's send buffer, and the length of the relays'
buffers. -/
structure Caps where
  toTar : Nat
  fromTar : Nat
  sndBuf : Nat
  buf : Nat
  toTar_pos : 0 < toTar
  fromTar_pos : 0 < fromTar
  sndBuf_pos : 0 < sndBuf
  buf_pos : 0 < buf

structure Loop where
  /-- What is left of the pipe's `Write`; `none` where `lwipMutex` is free. -/
  pipe : Option Bytes := none
  /-- What `relay(tarConn, conn)` has read and not yet written. -/
  up : Bytes := []
  toTar : Bytes := []
  /-- What the target has read and not yet written. -/
  target : Bytes := []
  fromTar : Bytes := []
  /-- What `relay(conn, tarConn)` has read and not yet written. -/
  down : Bytes := []
  /-- Queued by `tcp_write`, not yet acknowledged. -/
  snd : Bytes := []
  accepted : Bytes := []
  returned : Bytes := []
  deriving DecidableEq, Repr

inductive Act
  /-- `tcpRecvFn` for a segment with the data `d`. -/
  | receive (d : Bytes)
  /-- The pipe's `Write` returns, `Receive` and the packet input with it. -/
  | received
  /-- `Read` on the pipe, which takes as much of the `Write` as the buffer holds. -/
  | upRead
  | upWrite (n : Nat)
  | tarRead (n : Nat)
  | tarWrite (n : Nat)
  | downRead (n : Nat)
  /-- The section of `conn.Write` under `lwipMutex`. -/
  | downWrite (n : Nat)
  /-- The app acknowledges `n` bytes. -/
  | ack (n : Nat)
  deriving DecidableEq, Repr

/-- A write of `n` of the bytes `c` to a buffer that holds `buf` and has the capacity `cap`. -/
def fits (c buf : Bytes) (cap n : Nat) : Bool := 0 < n ∧ n ≤ c.length ∧ buf.length + n ≤ cap

/-- A read of `n` bytes from `buf` by a loop that has written what it read before. -/
def reads (c buf : Bytes) (n : Nat) : Bool := c = [] ∧ buf ≠ [] ∧ 0 < n

def step (k : Caps) (s : Loop) : Act → Option Loop
  | .receive d =>
    if s.pipe = none ∧ d ≠ [] then some { s with pipe := some d, accepted := s.accepted ++ d }
    else none
  | .received => if s.pipe = some [] then some { s with pipe := none } else none
  | .upRead =>
    match s.pipe with
    | some rest =>
      if reads s.up rest k.buf then
        some { s with up := rest.take k.buf, pipe := some (rest.drop k.buf) }
      else none
    | none => none
  | .upWrite n =>
    if fits s.up s.toTar k.toTar n then
      some { s with toTar := s.toTar ++ s.up.take n, up := s.up.drop n }
    else none
  | .tarRead n =>
    if reads s.target s.toTar n then
      some { s with target := s.toTar.take n, toTar := s.toTar.drop n }
    else none
  | .tarWrite n =>
    if fits s.target s.fromTar k.fromTar n then
      some { s with fromTar := s.fromTar ++ s.target.take n, target := s.target.drop n }
    else none
  | .downRead n =>
    if n ≤ k.buf ∧ reads s.down s.fromTar n then
      some { s with down := s.fromTar.take n, fromTar := s.fromTar.drop n }
    else none
  | .downWrite n =>
    if s.pipe = none ∧ fits s.down s.snd k.sndBuf n then
      some { s with snd := s.snd ++ s.down.take n, down := s.down.drop n }
    else none
  | .ack n =>
    if s.pipe = none ∧ 0 < n ∧ s.snd ≠ [] then
      some { s with returned := s.returned ++ s.snd.take n, snd := s.snd.drop n }
    else none

/-- The bytes in the hands of the relays and of the target and in the sockets. -/
def Loop.ahead (s : Loop) : Bytes := s.down ++ (s.fromTar ++ (s.target ++ (s.toTar ++ s.up)))

/-- The bytes between the relay that writes to the app and lwIP. -/
def Loop.held (s : Loop) : Bytes := s.ahead ++ s.pipe.getD []

/-- The bytes accepted from the app and not yet returned, the oldest first. -/
def Loop.flight (s : Loop) : Bytes := s.snd ++ s.held

end Echo
