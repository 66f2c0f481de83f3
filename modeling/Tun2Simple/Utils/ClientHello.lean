import Tun2Simple.Utils.ParseHost

/-!
# ClientHello records (RFC 8446)

`ClientHello` is a hello as RFC 8446 and, for the server_name extension, RFC 6066 allow it, and
`ClientHello.record` the handshake record that holds it. The lengths are the RFC's: a value of the
type has them by its fields.
-/

namespace Utils

open Net

/-- A number of 16 bits on the wire. -/
def be16 (n : Nat) : Bytes := [UInt8.ofNat (n / 256), UInt8.ofNat n]

def be24 (n : Nat) : Bytes := [UInt8.ofNat (n / 65536), UInt8.ofNat (n / 256), UInt8.ofNat n]

/-- A vector with its length in 16 bits. -/
def vec16 (xs : Bytes) : Bytes := be16 xs.length ++ xs

/-- An entry of a server name list. The only type that is defined is host_name, which is 0; others
would have a length of 16 bits too. -/
structure ServerName where
  nameType : UInt8
  name : Bytes
  deriving DecidableEq

def ServerName.bytes (n : ServerName) : Bytes := n.nameType :: vec16 n.name

inductive Extension
  | serverName (names : List ServerName)
  | other (type : UInt16) (data : Bytes)
  deriving DecidableEq

namespace Extension

def type : Extension → UInt16
  | serverName _ => 0
  | other t _ => t

def data : Extension → Bytes
  | serverName names => vec16 (names.flatMap ServerName.bytes)
  | other _ d => d

def bytes (e : Extension) : Bytes := be16 e.type.toNat ++ vec16 e.data

/-- One name of each type in a server name list, and what is not a server_name has another type. -/
def WellFormed : Extension → Prop
  | serverName names => names ≠ [] ∧ (names.map ServerName.nameType).Nodup ∧
      ∀ n ∈ names, 0 < n.name.length
  | other t _ => t ≠ 0

instance : (e : Extension) → Decidable e.WellFormed
  | serverName names => inferInstanceAs (Decidable (names ≠ [] ∧ _ ∧ ∀ n ∈ names, _))
  | other t _ => inferInstanceAs (Decidable (t ≠ 0))

end Extension

/-- The extensions one after the other. -/
def extBytes (es : List Extension) : Bytes := es.flatMap Extension.bytes

structure ClientHello where
  recordVersion : UInt8 × UInt8
  version : UInt8 × UInt8
  random : Bytes
  sessionId : Bytes
  cipherSuites : List (UInt8 × UInt8)
  compression : Bytes
  extensions : List Extension
  random_length : random.length = 32
  sessionId_length : sessionId.length ≤ 32
  cipherSuites_length : 1 ≤ cipherSuites.length ∧ 2 * cipherSuites.length ≤ 65534
  compression_length : 1 ≤ compression.length ∧ compression.length ≤ 255
  extensions_length : (extBytes extensions).length < 65536
  extensions_nodup : (extensions.map Extension.type).Nodup
  extensions_ok : ∀ e ∈ extensions, e.WellFormed

namespace ClientHello

variable (h : ClientHello)

def cipherBytes : Bytes := h.cipherSuites.flatMap fun c => [c.1, c.2]

/-- The handshake message without its header. -/
def body : Bytes :=
  [h.version.1, h.version.2] ++ h.random ++ UInt8.ofNat h.sessionId.length :: h.sessionId ++
    vec16 h.cipherBytes ++ UInt8.ofNat h.compression.length :: h.compression ++
    vec16 (extBytes h.extensions)

def handshake : Bytes := 1 :: be24 h.body.length ++ h.body

/-- A record has at most `2^14` bytes: the hello fits into one. -/
def OneRecord : Prop := h.handshake.length ≤ 2 ^ 14

instance : Decidable h.OneRecord := inferInstanceAs (Decidable (_ ≤ _))

def record : Bytes := [0x16, h.recordVersion.1, h.recordVersion.2] ++ vec16 h.handshake

end ClientHello

end Utils
