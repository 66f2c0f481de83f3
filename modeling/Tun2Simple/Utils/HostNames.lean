import Tun2Simple.Lib.Ip

/-!
# The host names of a ClientHello, by RFC 8446

`hostNames` walks over the bytes of a handshake record as RFC 8446 and, for the server_name
extension, RFC 6066 lay a hello out: the session id and the compression methods behind a length of 8
bits, the cipher suites, the extensions, each extension's data, the server name list and each name
behind one of 16 bits, the high byte first. It gives the place and the bytes of every host_name that
the walk comes to inside the extensions.
-/

namespace Utils

open Net

/-- A number of 16 bits. -/
def read16 (xs : Bytes) (i : Nat) : Option Nat := do
  return 256 * (← xs[i]?).toNat + (← xs[i + 1]?).toNat

/-- Where the extensions start and end. -/
def extensionsOf (xs : Bytes) : Option (Nat × Nat) := do
  let cipher := 44 + (← xs[43]?).toNat
  let compression := cipher + 2 + (← read16 xs cipher)
  let extensions := compression + 1 + (← xs[compression]?).toNat
  return (extensions + 2, extensions + 2 + (← read16 xs extensions))

/-- The entries from `i` on of a server name list that ends at `stop`: where each starts, with the
end of its list. -/
def entriesFrom (xs : Bytes) (stop i : Nat) : List (Nat × Nat) :=
  if i + 3 ≤ stop then
    match read16 xs (i + 1) with
    | some n => (i, stop) :: entriesFrom xs stop (i + 3 + n)
    | none => []
  else []
termination_by stop - i

/-- The entries of the list in the server_name extension whose data starts at `i` and ends at
`stop`. -/
def entriesOf (xs : Bytes) (stop i : Nat) : List (Nat × Nat) :=
  match read16 xs i with
  | some n => if i + 2 + n ≤ stop then entriesFrom xs (i + 2 + n) (i + 2) else []
  | none => []

/-- The entries of all server_name extensions from `i` on, where the extensions end at `stop`. -/
def extEntries (xs : Bytes) (stop i : Nat) : List (Nat × Nat) :=
  match read16 xs i, read16 xs (i + 2) with
  | some type, some n =>
    if i + 4 + n ≤ stop then
      (if type = 0 then entriesOf xs (i + 4 + n) (i + 4) else []) ++ extEntries xs stop (i + 4 + n)
    else []
  | _, _ => []
termination_by stop - i

/-- The entries of the hello's server name lists. -/
def entries (xs : Bytes) : List (Nat × Nat) :=
  match extensionsOf xs with
  | some (i, stop) => extEntries xs stop i
  | none => []

/-- The name of the entry at `i`, if it is a host_name that ends inside its list and the data. -/
def hostAt (xs : Bytes) (i stop : Nat) : Option (Nat × Bytes) := do
  let nameType ← xs[i]?
  let n ← read16 xs (i + 1)
  if nameType = 0 ∧ i + 3 + n ≤ stop ∧ i + 3 + n ≤ xs.length then
    return (i + 3, (xs.drop (i + 3)).take n)
  else none

def hostNames (xs : Bytes) : List (Nat × Bytes) := (entries xs).filterMap fun e => hostAt xs e.1 e.2

end Utils
