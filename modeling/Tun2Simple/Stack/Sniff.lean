import Tun2Simple.Lib.Run
import Tun2Simple.Stack.Rule

/-!
# Packets from the TUN device (`stackV1.WriteToStack`)

`WriteToStack` counts the TCP packets of each source port and gives the payload of the third and the
fourth to `ParseHost`, whose answer goes into the cache of `Rule`. Packets come as `gopacket`
decodes them. `regexp.MatchString` and `ParseHost` are parameters; `none` of `parseHost` is a panic.
-/

namespace Stack

open Net

structure IPv4 where
  srcIP : IP
  dstIP : IP
deriving DecidableEq

structure TCP where
  srcPort : UInt16
  dstPort : UInt16
  syn : Bool
  ack : Bool
  payload : Bytes
deriving DecidableEq

/-- The layers of a packet. -/
structure Packet where
  ip4 : Option IPv4
  tcp : Option TCP
deriving DecidableEq

/-- The counters of `stackV1`, an `int` of 64 bits for each port, and the singleton `Rule`. -/
structure StackV1 where
  counter : Nat → BitVec 64
  rule : Rule

def newStackV1 (rule : Rule) : StackV1 := ⟨fun _ => 0, rule⟩

/-- What a call of `WriteToStack` does: the payloads it gives to `ParseHost`, whether lwIP gets the
packet, and the state after it unless it panics. -/
structure Written where
  parsed : List Bytes
  toLwip : Bool
  next : Option StackV1

section
variable (matchString : Bytes → Bytes → Option Bool) (parseHost : Bytes → Option Bytes)

/-- The rules after a host was found for a destination. -/
def foundHost (rule : Rule) (host : Bytes) (dstIP : IP) : Rule :=
  if host.length > 0 then rule.directIPAndHost matchString (host ++ [46]) (string dstIP) else rule

def writeToStack (s1 : StackV1) (packet : Packet) : Written :=
  match packet.ip4, packet.tcp with
  | none, _ => ⟨[], false, some s1⟩
  | some _, none => ⟨[], true, some s1⟩
  | some ip4, some tcp =>
    let srcPort := tcp.srcPort.toNat
    let counter := Function.update s1.counter srcPort (s1.counter srcPort + 1)
    if (counter srcPort = 3 ∨ counter srcPort = 4) ∧ tcp.payload.length > 10 then
      match parseHost tcp.payload with
      | none => ⟨[tcp.payload], false, none⟩
      | some host =>
        ⟨[tcp.payload], true, some ⟨counter, foundHost matchString s1.rule host ip4.dstIP⟩⟩
    else ⟨[], true, some ⟨counter, s1.rule⟩⟩

/-- One packet, `none` if the process panics. -/
def deliver (s1 : StackV1) (packet : Packet) : Option StackV1 :=
  (writeToStack matchString parseHost s1 packet).next

end

/-! ## Connections -/

structure Flow where
  srcIP : IP
  srcPort : UInt16
  dstIP : IP
  dstPort : UInt16
deriving DecidableEq

namespace Packet

def flow (p : Packet) : Option Flow :=
  match p.ip4, p.tcp with
  | some ip4, some tcp => some ⟨ip4.srcIP, tcp.srcPort, ip4.dstIP, tcp.dstPort⟩
  | _, _ => none

def payload (p : Packet) : Bytes := (p.tcp.map TCP.payload).getD []

/-- The app's SYN. -/
def isSyn (p : Packet) : Bool := p.tcp.any fun tcp => tcp.syn && !tcp.ack

end Packet

/-- The packets with a source port. -/
def portCount (port : UInt16) (ps : List Packet) : Nat :=
  ps.countP fun p => p.flow.map Flow.srcPort = some port

/-- The packets of a connection. -/
def flowCount (f : Flow) (ps : List Packet) : Nat := ps.countP fun p => p.flow = some f

/-- The packets with a source port that are not of the connection. -/
def othersCount (f : Flow) (ps : List Packet) : Nat :=
  ps.countP fun p => p.flow.map Flow.srcPort = some f.srcPort ∧ p.flow ≠ some f

/-- The connection that `syn` starts has sent no data before `p`. A later SYN in `during` is a
retransmission. -/
structure FirstData (f : Flow) (syn : Packet) (during : List Packet) (p : Packet) : Prop where
  syn_flow : syn.flow = some f
  syn_isSyn : syn.isSyn = true
  syn_payload : syn.payload = []
  no_data : ∀ q ∈ during, q.flow = some f → q.payload = []
  flow : p.flow = some f
  not_syn : p.isSyn = false
  data : p.payload.length > 10

/-- Which packet of its connection `p` is. -/
def place (f : Flow) (syn : Packet) (during : List Packet) (p : Packet) : Nat :=
  flowCount f (syn :: during ++ [p])

/-- The packets from the port that are not of the connection: those before its SYN, also with the
same addresses, and those to other destinations since. -/
def interference (f : Flow) (earlier during : List Packet) : Nat :=
  portCount f.srcPort earlier + othersCount f during

end Stack
