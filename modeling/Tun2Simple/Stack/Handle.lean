import Tun2Simple.Stack.Rule

/-!
# Where a connection goes (`stackV1.Handle`)

`Handle` asks the cache of `Rule` and the two lists of `IpRules`, and either opens a connection
through the proxy or dials the target. The rules change by the calls of `Op`.
-/

namespace Stack

open Net

/-! ## Addresses with a port -/

structure TCPAddr where
  ip : IP
  port : Int
  zone : Bytes

def itoa (n : Int) : Bytes := ascii (toString n)

/-- `JoinHostPort`: a host with a colon stands in brackets. -/
def joinHostPort (host port : Bytes) : Bytes :=
  if 58 ∈ host then [91] ++ host ++ [93, 58] ++ port else host ++ [58] ++ port

def TCPAddr.string (a : TCPAddr) : Bytes :=
  let ip := if a.ip.length = 0 then [] else Net.string a.ip
  if a.zone ≠ [] then joinHostPort (ip ++ [37] ++ a.zone) (itoa a.port)
  else joinHostPort ip (itoa a.port)

/-! ## Handle -/

/-- What `Handle` does with the connection. -/
inductive Effect where
  | setupSimpleConn (addr : Bytes)
  | safeConn (addr : Bytes)
  | close
  | relays
deriving DecidableEq

structure Rules where
  rule : Rule
  ips : IpRules

/-- The address to ask the proxy for, `none` if the target is dialled directly. -/
def Rules.matched (rs : Rules) (target : TCPAddr) : Option Bytes :=
  let dnsMatched := rs.rule.needProxy (Net.string target.ip)
  let isMustProxy := rs.ips.isMustHits target.ip
  if dnsMatched.length > 0 then some (dnsMatched ++ [58] ++ itoa target.port)
  else if isMustProxy then some target.string
  else if rs.ips.isInnerIP target.ip = false then some target.string
  else none

/-- `dialled` says whether the connection that `Handle` opens comes up. -/
def Rules.handle (rs : Rules) (dialled : Bool) (target : TCPAddr) : List Effect :=
  match rs.matched target with
  | some addr => [.setupSimpleConn addr, if dialled then .relays else .close]
  | none => [.safeConn target.string, if dialled then .relays else .close]

/-! ## Runs -/

/-- A call that changes the rules. -/
inductive Op where
  | setGlobal (g : Bool)
  | loadInners (innerIPs : Bytes)
  | loadMustHits (ips : Bytes)
  | setup (s : Bytes)
  | directIPAndHost (host ip : Bytes)
  | parseDns (msg : Message)

section
variable (matchString : Bytes → Bytes → Option Bool)

def Rules.step (rs : Rules) : Op → Rules
  | .setGlobal g => { rs with ips := rs.ips.setGlobal g }
  | .loadInners t => { rs with ips := rs.ips.loadInners t }
  | .loadMustHits t => { rs with ips := rs.ips.loadMustHits t }
  | .setup s => { rs with rule := rs.rule.setup s }
  | .directIPAndHost host ip => { rs with rule := rs.rule.directIPAndHost matchString host ip }
  | .parseDns msg => { rs with rule := rs.rule.parseDns matchString msg }

/-- The rules after a sequence of calls. -/
def rulesAfter (ops : List Op) : Rules := ops.foldl (Rules.step matchString) ⟨newRule, newIpRules⟩

end

/-- The argument of the last of the calls that `f` selects. -/
def latest {α : Type} (f : Op → Option α) (ops : List Op) : Option α := (ops.filterMap f).getLast?

def Op.global? : Op → Option Bool
  | .setGlobal g => some g
  | _ => none

def Op.inners? : Op → Option Bytes
  | .loadInners t => some t
  | _ => none

def Op.mustHits? : Op → Option Bytes
  | .loadMustHits t => some t
  | _ => none

/-- The text last loaded has a valid line. -/
def Loaded (text : Option Bytes) : Prop := ∃ t, text = some t ∧ cidrs t ≠ []

/-- The connection goes through the proxy and the target is not dialled. -/
def Proxied (effects : List Effect) : Prop :=
  (∃ addr, .setupSimpleConn addr ∈ effects) ∧ ∀ addr, .safeConn addr ∉ effects

end Stack
