import Tun2Simple.Lib.HostPort
import Tun2Simple.Stack.Handle
import Tun2Simple.Stack.Sniff
import Tun2Simple.Utils.ParseHost

/-!
# The targets that the proxy is asked for

The domains in the cache come from the packets that the app sends: `WriteToStack` puts the host that
`ParseHost` finds in them there, and `Handle` joins the domain with the port of a connection. Here
`WriteToStack` runs with `ParseHost` itself; `net/http.ReadRequest` stays a parameter. A payload
comes with what lies behind it in the packet's buffer.
-/

namespace Stack

open Net Go

/-- A call that changes the cache. -/
inductive TargetOp where
  | setup (s : Bytes)
  | writeToStack (packet : Packet) (behind : Bytes)

section
variable (matchString : Bytes → Bytes → Option Bool) (readRequest : Bytes → Option Bytes)

/-- `ParseHost` of a payload. -/
def hostOf (behind payload : Bytes) : Option Bytes :=
  Utils.parseHost readRequest (Slice.ofList payload behind)

/-- One call, `none` if the process panics. -/
def targetStep (s1 : StackV1) : TargetOp → Option StackV1
  | .setup s => some { s1 with rule := s1.rule.setup s }
  | .writeToStack packet behind => deliver matchString (hostOf readRequest behind) s1 packet

end

/-- Whatever the other rules are, `Handle` asks the proxy for the cached domain of a target and the
target's port. -/
def TargetsSplit (rule : Rule) : Prop :=
  ∀ (ips : IpRules) (dialled : Bool) (target : TCPAddr) (domain : Bytes),
    rule.ipToDomain.lookup (string target.ip) = some domain →
      ∃ addr, ((⟨rule, ips⟩ : Rules).handle dialled target).head? = some (.setupSimpleConn addr) ∧
        splitHostPort addr = .ok (domain, itoa target.port)

end Stack
