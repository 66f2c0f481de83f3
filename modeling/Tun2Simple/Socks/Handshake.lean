import Tun2Simple.Socks.Addr

/-!
# The SOCKS handshake (`socks.go`)

`Handshake` reads the client's greeting, its request and the target address, and answers both. The
one buffer is used for the methods, the request's header and the address.
-/

namespace Socks

open Net Go

def cmdConnect : UInt8 := 1

def cmdUDPAssociate : UInt8 := 3

def errCommandNotSupported : Err := .socks 7

def infoUDPAssociate : Err := .socks 9

/-- The connection to the client. -/
structure ReadWriter where
  r : Reader
  /-- What was written, without the writes that failed. -/
  written : List Bytes
  /-- What the next writes return; those after them succeed. -/
  writeErrs : List (Option IoError)
  /-- The text of `LocalAddr`, if it is a `net.Conn`. -/
  localAddr : Option Bytes

namespace ReadWriter

variable (rw : ReadWriter)

def write (b : Bytes) : Option IoError × ReadWriter :=
  match rw.writeErrs with
  | [] => (none, { rw with written := rw.written ++ [b] })
  | none :: errs => (none, { rw with written := rw.written ++ [b], writeErrs := errs })
  | some e :: errs => (some e, { rw with writeErrs := errs })

/-- `io.ReadFull(rw, buf[:n])`. -/
def readFull (buf : Slice UInt8) (n : Nat) : Option (Option IoError × Slice UInt8 × ReadWriter) := do
  let (err, buf, r) ← readInto rw.r buf 0 n
  return (err, buf, { rw with r })

end ReadWriter

/-- What `Handshake` returns, and the connection after it. -/
structure HandshakeResult where
  addr : Option Addr
  err : Option Err
  rw : ReadWriter

/-- VER METHOD: no authentication. -/
def methodReply : Bytes := [5, 0]

/-- SOCKS v5, reply succeeded. -/
def successReply : Bytes := [5, 0, 0, 1, 0, 0, 0, 0, 0, 0]

/-- The end of `Handshake`: the reply to the command. -/
def reply (udpEnabled : Bool) (cmd : UInt8) (addr : Option Addr) (rw : ReadWriter) :
    Option HandshakeResult :=
  if cmd = cmdConnect then
    let (err, rw) := rw.write successReply
    some ⟨addr, err.map .io, rw⟩
  else if cmd = cmdUDPAssociate then
    if ¬ udpEnabled then some ⟨none, some errCommandNotSupported, rw⟩
    else do
      let listenAddr := parseAddr (← rw.localAddr)
      let (err, rw) := rw.write ([5, 0, 0] ++ (listenAddr.map Slice.toList).getD [])
      if err ≠ none then return ⟨none, some errCommandNotSupported, rw⟩
      return ⟨addr, some infoUDPAssociate, rw⟩
  else some ⟨none, some errCommandNotSupported, rw⟩

/-- `Handshake` from the request on. -/
def request (udpEnabled : Bool) (buf : Slice UInt8) (rw : ReadWriter) : Option HandshakeResult := do
  -- VER CMD RSV
  let (err, buf, rw) ← rw.readFull buf 3
  if err ≠ none then return ⟨none, err.map .io, rw⟩
  let cmd ← buf.get 1
  -- ATYP DST.ADDR DST.PORT
  let res ← readAddr rw.r buf
  let rw := { rw with r := res.r }
  if res.err ≠ none then return ⟨none, res.err, rw⟩
  reply udpEnabled cmd res.addr rw

def handshake (udpEnabled : Bool) (rw : ReadWriter) : Option HandshakeResult := do
  let buf := Slice.ofList (List.replicate maxAddrLen 0) []
  -- VER, NMETHODS, METHODS
  let (err, buf, rw) ← rw.readFull buf 2
  if err ≠ none then return ⟨none, err.map .io, rw⟩
  let nmethods ← buf.get 1
  let (err, buf, rw) ← rw.readFull buf nmethods.toNat
  if err ≠ none then return ⟨none, err.map .io, rw⟩
  let (err, rw) := rw.write methodReply
  if err ≠ none then return ⟨none, err.map .io, rw⟩
  request udpEnabled buf rw

end Socks
