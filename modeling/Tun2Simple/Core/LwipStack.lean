import Tun2Simple.Core.Input
import Tun2Simple.Core.Step
import Tun2Simple.Core.UdpConn

/-!
# The stack

`lwipStack` (`lwip.go`) over the TCP core and the UDP core: the calls of `Write` and their way into
lwIP, the timeout goroutine, and one call of `Close`. `lwipMutex` is the lock of the TCP core; a
`Write` that has it lets lwIP call `tcpAcceptFn`, the callbacks of the TCP connections and
`udpRecvFn` while the stack's callbacks are registered.

A step of the stack (`step`) is a step of each core that its label asks for, where `may` allows it,
and a step of the control (`ctl`). Goroutine `0` of the TCP core is the one that calls `Close`.

`sync.Map.Range` calls its function for entries that it finds, for no key twice; it leaves out no
entry that is in the map from its beginning to its end.
-/

namespace LwipStack

open Core (Lwip)
open Udp (Handler Addr)

/-- Where a call of `Write` is. -/
inductive WritePc
  /-- The context was not done and `input` takes the packet; at `lwipMutex.Lock()`. -/
  | checked
  | inside
  | returned
  deriving DecidableEq, Repr

/-- Who took `lwipMutex` to call into lwIP. -/
inductive Party
  | write (w : Nat)
  /-- The timeout goroutine. -/
  | timeouts
  deriving DecidableEq, Repr

def Party.isWrite : Party → Bool
  | .write _ => true
  | .timeouts => false

/-- A call of `Range`. -/
structure Range where
  /-- The connections in the map when it began. -/
  start : List Nat
  visited : List Nat := []
  /-- The connection that its function is called for. -/
  cur : Option Nat := none
  deriving DecidableEq, Repr

/-- Where `Close` is. -/
inductive ClosePc
  | idle
  /-- After `s.cancel()`. -/
  | cancelled
  | rangeTcp (r : Range)
  | sweptTcp
  /-- `g` is the goroutine of the UDP core that runs the last call. -/
  | rangeUdp (r : Range) (g : Udp.Gid)
  | sweptUdp
  | returned
  deriving DecidableEq, Repr

end LwipStack

/-- `lwipStack`, with the state of both cores. -/
structure LwipStack (H : Udp.Handler) where
  tcp : Core.Sys := {}
  udp : Udp.Sys H
  /-- `s.ctx` is done. -/
  done : Bool := false
  /-- The accept and the recv callback are registered. -/
  hooked : Bool := true
  party : Option LwipStack.Party := none
  /-- The number of calls of `Write`. -/
  writes : Nat := 0
  write : Nat → LwipStack.WritePc := fun _ => .returned
  close : LwipStack.ClosePc := .idle

namespace LwipStack

open Core (Lwip)
open Udp (Handler Addr)

inductive Act (H : Handler)
  /-- A call of `Write`, up to `lwipMutex.Lock()` or its return. -/
  | write (pkt : Bytes)
  | enter (w : Nat)
  /-- `Write` returns. -/
  | leave (w : Nat)
  /-- The timeout goroutine enters lwIP. -/
  | tick
  | tock
  /-- lwIP calls `tcpAcceptFn`. -/
  | accept (key : UInt32)
  /-- Any other step of the TCP core. -/
  | tcp (a : Core.Act)
  /-- lwIP calls `udpRecvFn`. -/
  | recv (src dst : Addr) (data : Bytes)
  /-- The next section of goroutine `g` of the UDP core. -/
  | udp (g : Udp.Gid) (e : Udp.Env H.E)
  /-- `Close`, at `s.cancel()`. -/
  | cancel
  /-- `Range` begins. -/
  | range
  /-- `Range` calls `Abort` of TCP connection `c`. -/
  | abort (c : Nat)
  /-- `Range` calls `Close` of UDP connection `c`. -/
  | close (c : Nat)
  /-- The call returns to `Range`. -/
  | back
  | endRange
  /-- The last section of `Close`. -/
  | unhook

section
variable {H : Handler}

def Act.tcpAct : Act H → Option Core.Act
  | .enter _ | .tick => some .lock
  | .leave _ | .tock => some .unlock
  | .accept key => some (.accept key)
  | .tcp a => some a
  | .abort c => some (.call 0 c .abort)
  | _ => none

def Act.udpAct : Act H → Option (Udp.Act H)
  | .recv src dst data => some (.start (.recv src dst data))
  | .udp g e => some (.sec g e)
  | .close c => some (.start (.close c))
  | _ => none

variable (s : LwipStack H)

/-- A step of the TCP core that is none of the stack's own. -/
def mayTcp : Core.Act → Bool
  | .lock | .unlock | .accept _ => false
  | .lwip _ _ _ => s.udp.shared.lock.isNone
  | .held (.spawn g) => g != 0
  | .held _ | .go _ _ => true
  | .call g c _ => g != 0 && (s.tcp.conn c).started

def tcpConns : List Nat :=
  (List.range s.tcp.n).filter fun c => s.tcp.tcpConns (s.tcp.conn c).connKey == some c

def udpConns : List Nat :=
  (List.range s.udp.shared.n).filter fun c =>
    s.udp.shared.udpConns (s.udp.shared.conn c).localAddr == some c

/-- `Range` can end: it has visited what was in the map from its beginning on. -/
def Range.complete (r : Range) (now : List Nat) : Bool :=
  r.cur.isNone && r.start.all fun c => c ∈ r.visited || c ∉ now

/-- The next call of `Range` can be for `c`. -/
def Range.finds {K : Type} [DecidableEq K] (r : Range) (key : Nat → K) (now : List Nat) (c : Nat) :
    Bool :=
  r.cur.isNone && c ∈ now && r.visited.all fun d => key d ≠ key c

def may : Act H → Bool
  | .write pkt => s.done || Core.inputInPlace pkt != .error .panic
  | .enter w => s.write w == .checked
  | .leave w => s.party == some (.write w) && s.udp.shared.lock.isNone
  | .tick => true
  | .tock => s.party == some .timeouts
  | .accept _ => s.hooked && s.party.any Party.isWrite && s.udp.shared.lock.isNone
  | .tcp a => s.mayTcp a
  | .recv _ _ _ => s.hooked && s.party.any Party.isWrite && s.tcp.lock == .lwip .lwip
  | .udp _ _ => true
  | .cancel => s.close == .idle
  | .range =>
    match s.close with
    | .cancelled | .sweptTcp => true
    | _ => false
  | .abort c =>
    match s.close with
    | .rangeTcp r => r.finds (fun d => (s.tcp.conn d).connKey) s.tcpConns c
    | _ => false
  | .close c =>
    match s.close with
    | .rangeUdp r _ => r.finds (fun d => (s.udp.shared.conn d).localAddr) s.udpConns c
    | _ => false
  | .back =>
    match s.close with
    | .rangeTcp r => r.cur.isSome && (s.tcp.gos 0).pc == .idle
    | .rangeUdp r g => r.cur.isSome && match (s.udp.thread g).pc with
      | .idle => true
      | _ => false
    | _ => false
  | .endRange =>
    match s.close with
    | .rangeTcp r => r.complete s.tcpConns
    | .rangeUdp r _ => r.complete s.udpConns
    | _ => false
  | .unhook => s.close == .sweptUdp && s.tcp.lock == .free

def setWrite (w : Nat) (pc : WritePc) : LwipStack H := { s with write := Function.update s.write w pc }

/-- What a step does to the control. -/
def ctl : Act H → LwipStack H
  | .write pkt =>
    let pc : WritePc := if s.done then .returned else match Core.inputInPlace pkt with
      | .ok (some _) => .checked
      | _ => .returned
    { s.setWrite s.writes pc with writes := s.writes + 1 }
  | .enter w => { s.setWrite w .inside with party := some (.write w) }
  | .leave w => { s.setWrite w .returned with party := none }
  | .tick => { s with party := some .timeouts }
  | .tock => { s with party := none }
  | .accept _ | .tcp _ | .recv _ _ _ | .udp _ _ => s
  | .cancel => { s with done := true, close := .cancelled }
  | .range =>
    { s with close := match s.close with
        | .cancelled => .rangeTcp { start := s.tcpConns }
        | .sweptTcp => .rangeUdp { start := s.udpConns } 0
        | pc => pc }
  | .abort c =>
    { s with close := match s.close with
        | .rangeTcp r => .rangeTcp { r with visited := c :: r.visited, cur := some c }
        | pc => pc }
  | .close c =>
    { s with close := match s.close with
        | .rangeUdp r _ => .rangeUdp { r with visited := c :: r.visited, cur := some c } s.udp.n
        | pc => pc }
  | .back =>
    { s with close := match s.close with
        | .rangeTcp r => .rangeTcp { r with cur := none }
        | .rangeUdp r g => .rangeUdp { r with cur := none } g
        | pc => pc }
  | .endRange =>
    { s with close := match s.close with
        | .rangeTcp _ => .sweptTcp
        | .rangeUdp _ _ => .sweptUdp
        | pc => pc }
  | .unhook => { s with hooked := false, close := .returned }

end

/-- One atomic step (module doc). -/
def step (M : Lwip) (H : Handler) (s : LwipStack H) (a : Act H) : Option (LwipStack H) := do
  guard (s.may a)
  let tcp ← a.tcpAct.elim (some s.tcp) (Core.step M s.tcp)
  let udp ← a.udpAct.elim (some s.udp) (Udp.step H s.udp)
  return { s.ctl a with tcp, udp }

/-- `newLwip` has made the stack. -/
def init (H : Handler) : LwipStack H := { udp := Udp.init H }

end LwipStack
