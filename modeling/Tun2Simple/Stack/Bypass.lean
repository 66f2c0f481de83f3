import Mathlib.Data.List.AList
import Tun2Simple.Lib.Cidr

/-!
# The lists of inner and of must-hit networks (`stack/bypass.go`)

Each list is a Go map from the text of an address to a mask, filled from a text with one CIDR a
line. The locks of `IpRules` are left out: every method is one step.
-/

namespace Stack

open Net

/-- A Go map with strings as keys. -/
abbrev StrMap (β : Type) := AList fun _ : Bytes => β

structure IpRules where
  innerIpMasks : StrMap IPMask
  mustHitMasks : StrMap IPMask
  global : Bool

/-- The rules that `IPRuleInst` makes. The nil map of `mustHitMasks` reads as the empty one. -/
def newIpRules : IpRules := ⟨∅, ∅, false⟩

/-- `strings.Split` at the newlines. -/
def splitLines (s : Bytes) : List Bytes := s.splitOn 10

/-- The map of a text. A line that is no CIDR is skipped, a later line with the text of an earlier
address replaces its mask. -/
def loadMasks (ips : Bytes) : StrMap IPMask :=
  (splitLines ips).foldl (fun masks cidr =>
    match parseCIDR cidr with
    | none => masks
    | some (ip, subNet) => masks.insert (string ip) subNet.mask) ∅

/-- Whether a masked address is one of the keys. -/
def hits (masks : StrMap IPMask) (srcIP : IP) : Bool :=
  masks.entries.any fun e => string (mask srcIP e.2) = e.1

namespace IpRules

def loadInners (bp : IpRules) (innerIPs : Bytes) : IpRules :=
  { bp with innerIpMasks := loadMasks innerIPs }

def isInnerIP (bp : IpRules) (srcIP : IP) : Bool :=
  if bp.innerIpMasks.entries.length = 0 then true
  else if bp.global then false
  else hits bp.innerIpMasks srcIP

def isMustHits (bp : IpRules) (srcIP : IP) : Bool :=
  if bp.mustHitMasks.entries.length = 0 then false
  else if bp.global then true
  else hits bp.mustHitMasks srcIP

def loadMustHits (bp : IpRules) (ips : Bytes) : IpRules := { bp with mustHitMasks := loadMasks ips }

def setGlobal (bp : IpRules) (g : Bool) : IpRules := { bp with global := g }

end IpRules

/-! ## The networks of a text -/

/-- A line: the address and the network of its CIDR. -/
abbrev Cidr := IP × IPNet

/-- The valid lines of a text. -/
def cidrs (ips : Bytes) : List Cidr := (splitLines ips).filterMap parseCIDR

/-- The address is in the network of a line. -/
def Listed (ips : Bytes) (x : IP) : Prop := ∃ l ∈ cidrs ips, l.2.contains x

/-- The address has no bits beyond the prefix. -/
def NoHostBits (l : Cidr) : Prop := to16 l.2.ip = some l.1

/-- A line such that no later one has its address. -/
def LastOf (ls : List Cidr) (l : Cidr) : Prop :=
  ∃ before after, ls = before ++ l :: after ∧ ∀ l' ∈ after, l'.1 ≠ l.1

/-- A line that the map keeps and whose key a masked address can be. -/
def Effective (ips : Bytes) (l : Cidr) : Prop := LastOf (cidrs ips) l ∧ NoHostBits l

/-- An address that the list decides: if it is in the network of a line, then also in that of an
effective one; and no effective IPv6 line has it by its 16-byte form alone. -/
structure Decided (ips : Bytes) (x : IP) : Prop where
  effective : Listed ips x →
    ∃ l, Effective ips l ∧ (l.2.contains x = true ∨ l.2.coversMapped x = true)
  mapped : ∀ l, Effective ips l → l.2.coversMapped x = true → Listed ips x

end Stack
