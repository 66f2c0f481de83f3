import Tun2Simple.Lib.HostPort
import Tun2Simple.Lib.Parse
import Tun2Simple.Lib.Reader
import Tun2Simple.Stack.Handle

/-!
# SOCKS addresses (`socks.go`)

An address is a type byte, the host and the port: an IPv4 or IPv6 address, or a domain behind its
length. `ParseAddr` makes one from a text and `String` prints it; `SplitAddr` and `ReadAddr` take
one from the head of a slice and of a stream. A result is `none` where the code panics, and within
it `none` stands for `nil`.
-/

namespace Socks

open Net Go Stack

def atypIPv4 : UInt8 := 1

def atypDomainName : UInt8 := 3

def atypIPv6 : UInt8 := 4

abbrev ipv4len : Nat := 4

abbrev ipv6len : Nat := 16

abbrev maxAddrLen : Nat := 1 + 1 + 255 + 2

inductive Err
  | io (e : IoError)
  | socks (code : UInt8)
  deriving DecidableEq

def Err.error : Err → Bytes
  | io e => ascii e.error
  | socks code => ascii "SOCKS error: " ++ itoa code.toNat

def errAddressNotSupported : Err := .socks 8

abbrev Addr := Slice UInt8

/-- The text of a port. -/
def portText (hi lo : UInt8) : Bytes := itoa ((hi.toNat <<< 8 ||| lo.toNat : Nat) : Int)

def Addr.string (a : Addr) : Option Bytes := do
  let atyp ← a.get 0
  if atyp = atypDomainName then
    let n := (← a.get 1).toNat
    let host ← a.slice 2 (2 + n)
    return joinHostPort host.toList (portText (← a.get (2 + n)) (← a.get (2 + n + 1)))
  else if atyp = atypIPv4 then
    let host ← a.slice 1 (1 + ipv4len)
    return joinHostPort (Net.string host.toList)
      (portText (← a.get (1 + ipv4len)) (← a.get (1 + ipv4len + 1)))
  else if atyp = atypIPv6 then
    let host ← a.slice 1 (1 + ipv6len)
    return joinHostPort (Net.string host.toList)
      (portText (← a.get (1 + ipv6len)) (← a.get (1 + ipv6len + 1)))
  else return joinHostPort [] []

/-- What `readAddr` returns, with its buffer and the reader after it. -/
structure ReadResult where
  addr : Option Addr
  err : Option Err
  buf : Slice UInt8
  r : Reader

/-- The last read of `readAddr`: `b[lo:hi]`, and with it the address `b[:hi]`. -/
def readTail (r : Reader) (b : Slice UInt8) (lo hi : Nat) : Option ReadResult := do
  let (err, b, r) ← readInto r b lo hi
  return ⟨← b.slice 0 hi, err.map .io, b, r⟩

def readAddr (r : Reader) (b : Slice UInt8) : Option ReadResult :=
  if b.len < maxAddrLen then some ⟨none, some (.io .shortBuffer), b, r⟩
  else do
    let (err, b, r) ← readInto r b 0 1
    if err ≠ none then return ⟨none, err.map .io, b, r⟩
    let atyp ← b.get 0
    if atyp = atypDomainName then
      let (err, b, r) ← readInto r b 1 2
      if err ≠ none then return ⟨none, err.map .io, b, r⟩
      readTail r b 2 (2 + (← b.get 1).toNat + 2)
    else if atyp = atypIPv4 then readTail r b 1 (1 + ipv4len + 2)
    else if atyp = atypIPv6 then readTail r b 1 (1 + ipv6len + 2)
    else return ⟨none, some errAddressNotSupported, b, r⟩

/-- `ReadAddr`, with a new buffer. -/
def readAddrNew (r : Reader) : Option ReadResult :=
  readAddr r (Slice.ofList (List.replicate maxAddrLen 0) [])

/-- The address of `n` bytes at the head of `b`. -/
def splitAt (b : Slice UInt8) (n : Nat) : Option (Option Addr) :=
  if b.len < n then some none else (b.slice 0 n).map some

def splitAddr (b : Slice UInt8) : Option (Option Addr) :=
  if b.len < 1 then some none
  else do
    let atyp ← b.get 0
    if atyp = atypDomainName then
      if b.len < 2 then return none
      splitAt b (1 + 1 + (← b.get 1).toNat + 2)
    else if atyp = atypIPv4 then splitAt b (1 + ipv4len + 2)
    else if atyp = atypIPv6 then splitAt b (1 + ipv6len + 2)
    else return none

/-- The address up to its port. -/
def parseHead (host : Bytes) : Option Bytes :=
  match parseIP host with
  | some ip =>
    match to4 ip with
    | some ip4 => some (atypIPv4 :: ip4)
    | none => some (atypIPv6 :: ip)
  | none =>
    if host.length > 255 then none else some (atypDomainName :: UInt8.ofNat host.length :: host)

def parseAddr (s : Bytes) : Option Addr :=
  match splitHostPort s with
  | .error _ => none
  | .ok (host, port) => do
    let head ← parseHead host
    let portnum ← parseUint port 16
    return Slice.ofList (head ++ [UInt8.ofNat (portnum >>> 8), UInt8.ofNat portnum]) []

end Socks
