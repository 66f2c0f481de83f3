import Mathlib.Algebra.Group.Nat.Defs
import Tun2Simple.Lib.Ip
import Tun2Simple.Lib.Slice

/-!
# The host of a connection's first data (`utils/common.go`)

`ParseHost` looks into the first data that an app sends: the `Host` of an HTTP request, or the
server name of a TLS ClientHello, for which `getSNI` walks through the hello. A result is `none`
where the code panics. `net/http.ReadRequest` is a parameter: the `Host` of the request, `none`
where it returns no request.

The lengths are computed as the source does, in bytes: `(data[i] << 8) + data[i+1]` is a `byte`
before it is made an `int`.
-/

namespace Utils

open Net Go

/-- The errors of the three block functions. -/
inductive SniError
  | notSNIBlock
  | noSNI
  | notClientHello
  | sessionID
  | cipherList
  | compression
  | noExtensions
  | notSNBlock
  | extensionLength
  | noSNBlock
  deriving DecidableEq, Repr

def SniError.error : SniError → String
  | notSNIBlock => "not enough bytes to be an SNI block"
  | noSNI => "finished parsing the SN block without finding an SNI"
  | notClientHello => "not enough bits to be a Client Hello"
  | sessionID => "not enough bytes for the SessionID"
  | cipherList => "not enough bytes for the Cipher List"
  | compression => "not enough bytes for the compression length"
  | noExtensions => "no extensions"
  | notSNBlock => "not enough bytes to be an SN block"
  | extensionLength => "extension looks bonkers"
  | noSNBlock => "finished parsing the Extension block without finding an SN block"

/-- Go's `x << n` on a `byte`. -/
def shl (x : UInt8) (n : Nat) : UInt8 := UInt8.ofNat (x.toNat * 2 ^ n)

/-- `int((hi << 8) + lo)`. -/
def length16 (hi lo : UInt8) : Nat := (shl hi 8 + lo).toNat

abbrev Block := Except SniError (Slice UInt8)

abbrev tlsHeaderLength : Nat := 5

/-- The loop of `GetSNIBlock`. -/
def getSNIBlockLoop (data : Slice UInt8) (index : Nat) : Option Block :=
  if index ≥ data.len then some (.error .noSNI)
  else do
    let length := length16 (← data.get index) (← data.get (index + 1))
    let endIndex := index + 2 + length
    if (← data.get (index + 2)) = 0 then
      let sni ← data.from_ (index + 3)
      let sniLength := length16 (← sni.get 0) (← sni.get 1)
      return .ok (← sni.slice 2 (sniLength + 2))
    else getSNIBlockLoop data endIndex
termination_by data.len - index

def getSNIBlock (data : Slice UInt8) : Option Block :=
  if data.len < 4 then some (.error .notSNIBlock) else getSNIBlockLoop data 0

def getExtensionBlock (data : Slice UInt8) : Option Block :=
  let index := tlsHeaderLength + 38
  if data.len ≤ index + 1 then some (.error .notClientHello)
  else do
    -- at the length of the session id
    let index := index + 1 + (← data.get index).toNat
    if ¬ index + 2 < data.len then return .error .sessionID
    -- at the length of the cipher list
    let index := index + 2 + length16 (← data.get index) (← data.get (index + 1))
    if ¬ index + 1 < data.len then return .error .cipherList
    -- at the length of the compression list
    let index := index + 1 + (← data.get index).toNat
    if ¬ index < data.len then return .error .compression
    -- at the extensions
    let extensions ← data.from_ index
    if extensions.len = 0 then return .error .noExtensions
    return .ok extensions

/-- The loop of `GetSNBlock`. -/
def getSNBlockLoop (data : Slice UInt8) (index : Nat) : Option Block :=
  if index + 3 ≥ data.len then some (.error .noSNBlock)
  else do
    let length := length16 (← data.get (index + 2)) (← data.get (index + 3))
    let endIndex := index + 4 + length
    if (← data.get index) = 0 ∧ (← data.get (index + 1)) = 0 then
      return .ok (← data.slice (index + 4) endIndex)
    else getSNBlockLoop data endIndex
termination_by data.len - index

def getSNBlock (data : Slice UInt8) : Option Block :=
  if data.len < 2 then some (.error .notSNBlock)
  else do
    let extensionLength := length16 (← data.get 0) (← data.get 1)
    if extensionLength + 2 > data.len then return .error .extensionLength
    getSNBlockLoop (← data.slice 2 (extensionLength + 2)) 0

def getSNI (data : Slice UInt8) : Option Bytes :=
  if data.len = 0 then some []
  else do
    if (← data.get 0) ≠ 0x16 then return []
    match ← getExtensionBlock data with
    | .error _ => return []
    | .ok extensions =>
      match ← getSNBlock extensions with
      | .error _ => return []
      | .ok sn =>
        match ← getSNIBlock sn with
        | .error _ => return []
        | .ok sni => return sni.toList

def parseHost (readRequest : Bytes → Option Bytes) (data : Slice UInt8) : Option Bytes := do
  let c ← data.get 0
  -- GET, HEAD, POST, PUT, DELETE, OPTIONS, TRACE, CONNECT
  if c ∈ ascii "GHPDOTC" then return (readRequest data.toList).getD []
  if c = 0x16 then getSNI data else return []

end Utils
