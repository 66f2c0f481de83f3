import Tun2Simple.Core.Pbuf

/-!
# Packet input

The checks of `input.go` on an IP packet. A Go function that reads the packet by index ends with an
error or, where an index is out of range, with a panic (`Fault`). `input` makes a pbuf of the packet
and calls the input function of lwIP's interface, which is a parameter; it is `none` where it panics
or reads or writes out of range.
-/

namespace Core

inductive Fault
  | error (text : String)
  | panic
  deriving DecidableEq, Repr

/-- `p[i]`. -/
def index (p : Bytes) (i : Nat) : Except Fault UInt8 :=
  match p[i]? with
  | some b => .ok b
  | none => .error .panic

def ipv4 : UInt8 := 4

def ipv6 : UInt8 := 6

def protoUdp : UInt8 := 17

def peekIPVer (p : Bytes) : Except Fault UInt8 :=
  if p.length < 1 then .error (.error "short IP packet")
  else do return ((← index p 0) &&& 0xf0) >>> 4

def moreFrags (ipv : UInt8) (p : Bytes) : Except Fault Bool :=
  if ipv = ipv4 then do
    -- has MF (More Fragments) bit set
    return 0 < (← index p 6) &&& 0x20
  else return ipv = ipv6

def fragOffset (ipv : UInt8) (p : Bytes) : Except Fault UInt16 :=
  if ipv = ipv4 then do
    let hi ← index p 6
    let lo ← index p 7
    return (hi.toUInt16 <<< 8 ||| lo.toUInt16) &&& 0x1fff
  else return if ipv = ipv6 then 1 else 0

def peekNextProto (ipv : UInt8) (p : Bytes) : Except Fault UInt8 :=
  if ipv = ipv4 then
    if p.length < 9 then .error (.error "short IPv4 packet") else index p 9
  else if ipv = ipv6 then
    if p.length < 6 then .error (.error "short IPv6 packet") else index p 6
  else .error (.error "unknown IP version")

/-- `input` up to its first call into lwIP: `none` where it returns without one, else whether the
packet is given to lwIP in place, without a copy. -/
def inputInPlace (pkt : Bytes) : Except Fault (Option Bool) :=
  if pkt = [] then return none
  else do
    let ipv ← peekIPVer pkt
    let nextProto ← peekNextProto ipv pkt
    if nextProto = protoUdp then
      if ← moreFrags ipv pkt then return some false
      else return some ((← fragOffset ipv pkt) = 0)
    else return some false

/-- What `input` returns, and the pbufs that it called lwIP with. -/
structure InputResult where
  n : Nat
  err : Option String
  given : Option (List Pbuf)
  deriving DecidableEq, Repr

/-- An error of a check is returned. -/
def orReturn {α : Type} (x : Except Fault α) (k : α → Option InputResult) : Option InputResult :=
  match x with
  | .ok a => k a
  | .error (.error text) => some ⟨0, some text, none⟩
  | .error .panic => none

/-- Whether the packet is given to lwIP without a copy. -/
def noCopy (ipv nextProto : UInt8) (pkt : Bytes) : Except Fault Bool :=
  if nextProto = protoUdp then do
    if ← moreFrags ipv pkt then return false
    return (← fragOffset ipv pkt) = 0
  else return false

/-- The pbufs of a packet, whose length is converted to 16 bits. -/
def pbufOf (memp : Nat → Block) (pkt : Bytes) (inPlace : Bool) : Option (List Pbuf) :=
  if inPlace then some (pbufAllocReference pkt (UInt16.ofNat pkt.length))
  else pbufTake (pbufAlloc memp (UInt16.ofNat pkt.length)) pkt (UInt16.ofNat pkt.length)

def input (netifInput : List Pbuf → Int8) (memp : Nat → Block) (pkt : Bytes) : Option InputResult :=
  if pkt.length = 0 then some ⟨0, none, none⟩
  else
    orReturn (peekIPVer pkt) fun ipv =>
      orReturn (peekNextProto ipv pkt) fun nextProto =>
        orReturn (noCopy ipv nextProto pkt) fun inPlace => do
          let buf ← pbufOf memp pkt inPlace
          if netifInput buf ≠ errOk then return ⟨0, some "packet not handled", some buf⟩
          return ⟨pkt.length, none, some buf⟩

/-- `lwipStack.Write`; `done` is whether the stack's context is done. -/
def lwipStackWrite (done : Bool) (netifInput : List Pbuf → Int8) (memp : Nat → Block) (data : Bytes) :
    Option InputResult :=
  if done then some ⟨0, some "stack closed", none⟩ else input netifInput memp data

end Core
