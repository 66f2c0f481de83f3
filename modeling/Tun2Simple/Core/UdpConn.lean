import Tun2Simple.Lib.Ip
import Tun2Simple.Lib.Pool

/-!
# The UDP core

`Shared H` is the state of the UDP half of `core/` (`udp_conn.go`, `udp_callback_export.go`,
`udp_conn_map.go`): every `udpConn` that `newUDPConn` ever made and the map `udpConns`. Its threads
(`Lib/Pool.lean`) are the goroutines that are in `udpRecvFn`, in a method of a connection, in the
goroutine of `newUDPConn` or in code of the handler. An address is its text (`net.UDPAddr.String`).

A goroutine has a program counter (`Pc`), which stands before the next section that is atomic (one
under the connection's mutex, or one operation on `udpConns` or on the channel `pending`), and a
stack of the callers to return to (`Frame`).

The handler is a parameter (`Handler`): its state, the places in its code and what the section at a
place does. It may call any method of any connection from any of its goroutines.
-/

namespace Udp

open Net

abbrev Gid := Nat

abbrev Addr := Bytes

/-- `udpConnState`. -/
inductive State
  | connecting
  | connected
  | closed
  deriving DecidableEq, Repr

/-- A datagram between the app and `addr`. The `tag` tells datagrams apart: for one from the app its
number among the received ones. -/
structure Dgram where
  tag : Nat
  data : Bytes
  addr : Addr
  deriving DecidableEq, Repr

/-- `udpConn`. Two ghost fields record that `udpRecvFn` stored it in `udpConns` and that a `Close`
set `udpClosed`. -/
structure Conn where
  localAddr : Addr := []
  state : State := .connecting
  /-- The channel's content, `none` where it is `nil`. -/
  pending : Option (List Dgram) := some []
  stored : Bool := false
  wasClosed : Bool := false
  deriving DecidableEq, Repr

/-- The capacity of `pending`. -/
def pendingCap : Nat := 64

namespace Conn

/-- `checkState` returns an error. -/
def checkState (x : Conn) : Bool :=
  match x.state with
  | .closed | .connecting => true
  | .connected => false

/-- `enqueueEarlyPacket`: `none` where it returns false. -/
def enqueueEarlyPacket (x : Conn) (d : Dgram) : Option Conn :=
  match x.state, x.pending with
  | .connecting, some ds =>
    if ds.length < pendingCap then some { x with pending := some (ds ++ [d]) } else none
  | _, _ => none

end Conn

/-! ## The handler -/

/-- A method of a connection. -/
inductive Method
  | close
  | receiveTo (d : Dgram)
  | writeFrom (d : Dgram)
  deriving DecidableEq, Repr

/-- How a goroutine goes on after a section of the handler's code. -/
inductive Next (P : Type)
  | goto (p : P)
  /-- It calls a method of connection `c` and comes back to `p`. -/
  | call (c : Nat) (m : Method) (p : P)
  /-- It starts a goroutine at `new`. -/
  | spawn (new p : P)
  /-- The method of the handler returns, `err` with an error. -/
  | return_ (err : Bool)

/-- `UDPConnHandler`. -/
structure Handler where
  S : Type
  /-- The places in its code. -/
  P : Type
  /-- What its sections get from outside. -/
  E : Type
  init : S
  /-- `Connect(conn, target)`, for connection `c` with its local address. -/
  connect (c : Nat) (localAddr target : Addr) : P
  /-- `ReceiveTo(conn, data, addr)`. -/
  receiveTo (c : Nat) (localAddr : Addr) (d : Dgram) : P
  /-- The section at a place; the flag is the error of the call that the place waited for. -/
  step : S → P → Bool → E → Option (S × Next P)

/-! ## The state -/

/-- The next section of a goroutine. In the methods, `late` says that the call began after a `Close`
of the connection had set `udpClosed`. -/
inductive Pc (P : Type)
  | idle
  /-- `udpRecvFn`, at `udpConns.Load`. -/
  | load (src : Addr) (d : Dgram)
  /-- `udpRecvFn`, at `udpConns.Store`. -/
  | store (c : Nat) (d : Dgram)
  /-- `ReceiveTo`, at `enqueueEarlyPacket`. -/
  | receiveTo (c : Nat) (d : Dgram) (late : Bool)
  /-- `ReceiveTo`, at `checkState`. -/
  | receiveCheck (c : Nat) (d : Dgram) (late : Bool)
  | handler (p : P) (err : Bool)
  /-- The connect goroutine, at `conn.state = udpConnected`. -/
  | setConnected (c : Nat)
  /-- The connect goroutine, at the `select` of its loop. -/
  | drain (c : Nat)
  /-- `WriteFrom`, at `checkState`. -/
  | writeFrom (c : Nat) (d : Dgram) (late : Bool)
  /-- `WriteFrom`, past `checkState`. -/
  | sendto (c : Nat) (d : Dgram) (late : Bool)
  /-- `Close`, at `conn.state = udpClosed`. -/
  | close (c : Nat)
  /-- `Close`, at `udpConns.Delete`. -/
  | delete (c : Nat)
  /-- The function returns to the top of the stack. -/
  | ret (err : Bool)
  deriving DecidableEq

/-- A caller. -/
inductive Frame (P : Type)
  /-- `udpRecvFn` for a datagram from `src`. -/
  | recvFn (src : Addr)
  /-- `ReceiveTo`, in `handler.ReceiveTo`. -/
  | receiveTo (c : Nat) (late : Bool)
  /-- The connect goroutine, in `handler.Connect`. -/
  | connect (c : Nat)
  /-- The connect goroutine, in the `handler.ReceiveTo` of its loop. -/
  | drain (c : Nat)
  | handler (p : P)
  deriving DecidableEq

structure Go (P : Type) where
  pc : Pc P := .idle
  stack : List (Frame P) := []
  deriving DecidableEq

inductive Ev
  /-- `ReceiveTo` gives a datagram to the handler. -/
  | handled (c : Nat) (d : Dgram) (late : Bool)
  /-- `udp_sendto`: a datagram from `d.addr` goes to the TUN. -/
  | tun (c : Nat) (d : Dgram) (late : Bool)
  /-- `ReceiveTo`, or `WriteFrom` of some data, returns. -/
  | ret (c : Nat) (err late : Bool)
  deriving DecidableEq, Repr

structure Shared (H : Handler) where
  /-- The number of connections made so far. -/
  n : Nat := 0
  conn : Nat → Conn := fun _ => {}
  udpConns : Addr → Option Nat := fun _ => none
  /-- The goroutine in `udpRecvFn`, which lwIP calls with `lwipMutex` held. -/
  lock : Option Gid := none
  /-- The datagrams that came in, with their sources. -/
  received : List (Addr × Dgram) := []
  log : List Ev := []
  h : H.S

/-- The first section of a call of `m`. -/
def Method.pc {P : Type} (m : Method) (c : Nat) (late : Bool) : Pc P :=
  match m with
  | .close => .close c
  | .receiveTo d => .receiveTo c d late
  | .writeFrom d => .writeFrom c d late

namespace Shared

variable {H : Handler} (s : Shared H)

def setConn (c : Nat) (x : Conn) : Shared H := { s with conn := Function.update s.conn c x }

def emit (e : Ev) : Shared H := { s with log := s.log ++ [e] }

/-- The entry of `handler.ReceiveTo` for connection `c`. -/
def receiveTo (c : Nat) (d : Dgram) : Pc H.P :=
  .handler (H.receiveTo c (s.conn c).localAddr d) false

/-- `newUDPConn`, without its goroutine. -/
def newUDPConn (src : Addr) : Shared H :=
  { s with n := s.n + 1, conn := Function.update s.conn s.n { localAddr := src } }

/-- `udpConns.Store` of `udpRecvFn`. -/
def store (c : Nat) : Shared H :=
  let x := s.conn c
  { s.setConn c { x with stored := true } with
    udpConns := Function.update s.udpConns x.localAddr (some c) }

/-- The section of `Close` under the connection's mutex. -/
def close (c : Nat) : Shared H :=
  s.setConn c { s.conn c with state := .closed, wasClosed := true }

/-- `udpConns.Delete` of `Close`. -/
def delete (c : Nat) : Shared H :=
  { s with udpConns := Function.update s.udpConns (s.conn c).localAddr none }

end Shared

/-- What a section gets from outside. -/
inductive Env (E : Type)
  | none
  /-- Whether `ipaddr_aton` accepts the address. -/
  | aton (ok : Bool)
  | handler (e : E)

/-- What starts a goroutine from outside. -/
inductive Call
  /-- lwIP calls `udpRecvFn`. -/
  | recv (src dst : Addr) (data : Bytes)
  /-- `lwipStack.Close` calls `Close` of connection `c`. -/
  | close (c : Nat)
  deriving DecidableEq, Repr

section
variable {H : Handler}

/-- The state after a section, how its goroutine goes on and the goroutine it starts. -/
abbrev Out (H : Handler) := Shared H × Go H.P × Option (Go H.P)

def start (s : Shared H) (g : Gid) : Call → Option (Shared H × Go H.P)
  | .recv src dst data =>
    if s.lock = none then
      let d : Dgram := ⟨s.received.length, data, dst⟩
      some ({ s with lock := some g, received := s.received ++ [(src, d)] },
        ⟨.load src d, [.recvFn src]⟩)
    else none
  | .close c => if c < s.n then some (s, ⟨.close c, []⟩) else none

/-- A function returns to frame `f`, with the rest `st` of the stack below it. -/
def Shared.return_ (s : Shared H) (err : Bool) (f : Frame H.P) (st : List (Frame H.P)) : Out H :=
  match f with
  | .recvFn _ => ({ s with lock := none }, ⟨.idle, []⟩, none)
  | .receiveTo c late => (s.emit (.ret c err late), ⟨.ret err, st⟩, none)
  | .connect c => (s, ⟨if err then .close c else .setConnected c, st⟩, none)
  | .drain c => (s, ⟨if err then .ret false else .drain c, st⟩, none)
  | .handler p => (s, ⟨.handler p err, st⟩, none)

/-- A goroutine with stack `st` goes on in the handler. -/
def Shared.next (s : Shared H) (st : List (Frame H.P)) : Next H.P → Option (Out H)
  | .goto p => some (s, ⟨.handler p false, st⟩, none)
  | .call c m p =>
    if c < s.n then some (s, ⟨m.pc c (s.conn c).wasClosed, .handler p :: st⟩, none) else none
  | .spawn new p => some (s, ⟨.handler p false, st⟩, some ⟨.handler new false, []⟩)
  | .return_ err => some (s, ⟨.ret err, st⟩, none)

/-- The next section of goroutine `x`. -/
def sec (s : Shared H) (_ : Gid) (x : Go H.P) (e : Env H.E) : Option (Out H) :=
  let st := x.stack
  match x.pc, e with
  | .load src d, .none =>
    match s.udpConns src with
    | some c => some (s, ⟨.receiveTo c d (s.conn c).wasClosed, st⟩, none)
    | none =>
      some (s.newUDPConn src, ⟨.store s.n d, st⟩,
        some ⟨.handler (H.connect s.n src d.addr) false, [.connect s.n]⟩)
  | .store c d, .none => some (s.store c, ⟨.receiveTo c d (s.conn c).wasClosed, st⟩, none)
  | .receiveTo c d late, .none =>
    match (s.conn c).enqueueEarlyPacket d with
    | some y => some ((s.setConn c y).emit (.ret c false late), ⟨.ret false, st⟩, none)
    | none => some (s, ⟨.receiveCheck c d late, st⟩, none)
  | .receiveCheck c d late, .none =>
    if (s.conn c).checkState then some (s.emit (.ret c true late), ⟨.ret true, st⟩, none)
    else some (s.emit (.handled c d late), ⟨s.receiveTo c d, .receiveTo c late :: st⟩, none)
  | .handler p err, .handler e =>
    match H.step s.h p err e with
    | some (h, nx) => { s with h }.next st nx
    | none => none
  | .setConnected c, .none =>
    some (s.setConn c { s.conn c with state := .connected }, ⟨.drain c, st⟩, none)
  | .drain c, .none =>
    match (s.conn c).pending with
    | some (d :: ds) =>
      some (s.setConn c { s.conn c with pending := some ds },
        ⟨s.receiveTo c d, .drain c :: st⟩, none)
    | _ => some (s.setConn c { s.conn c with pending := none }, ⟨.ret false, st⟩, none)
  | .writeFrom c d late, .none =>
    if d.data = [] then some (s, ⟨.ret false, st⟩, none)
    else if (s.conn c).checkState then some (s.emit (.ret c true late), ⟨.ret true, st⟩, none)
    else some (s, ⟨.sendto c d late, st⟩, none)
  | .sendto c d late, .aton ok =>
    if ok then some ((s.emit (.tun c d late)).emit (.ret c false late), ⟨.ret false, st⟩, none)
    else some (s.emit (.ret c true late), ⟨.ret true, st⟩, none)
  | .close c, .none => some (s.close c, ⟨.delete c, st⟩, none)
  | .delete c, .none => some (s.delete c, ⟨.ret false, st⟩, none)
  | .ret err, .none =>
    match st with
    | [] => some (s, ⟨.idle, []⟩, none)
    | f :: st => some (s.return_ err f st)
  | _, _ => none

end

/-- The program of the UDP core. -/
def prog (H : Handler) : Pool.Prog (Shared H) (Go H.P) Call (Env H.E) := ⟨start, sec⟩

abbrev Sys (H : Handler) := Pool.State (Shared H) (Go H.P)

abbrev Act (H : Handler) := Pool.Act Call (Env H.E)

/-- One atomic step. -/
abbrev step (H : Handler) : Sys H → Act H → Option (Sys H) := Pool.step (prog H)

def init (H : Handler) : Sys H := ⟨{ h := H.init }, 0, fun _ => {}⟩

end Udp
