import Tun2Simple.Core.Input
import Tun2Simple.Core.Step
import Tun2Simple.Core.UdpConn

/-!
# Calls into lwIP

The parties that call into lwIP, each as the list of what it does with `lwipMutex` and with lwIP
(`Code`): the code of a source function for the data that it finds on its way, whatever that is. A
call of a lwIP function is an enter and a leave step; in between lwIP may call back into Go, and the
callback may enter lwIP again. The threads of the pool (`Lib/Pool.lean`) are the parties.

lwIP's functions are those of the vendored code; `free_conn_key_arg` and its siblings, which are
the repository's own C code, are not.
-/

namespace Core

/-- The functions of lwIP that the Go code calls. -/
inductive LwipFn
  | pbufAlloc
  | pbufAllocReference
  | pbufTake
  | pbufCopyPartial
  | pbufFree
  | input
  | sysCheckTimeouts
  | sysRestartTimeouts
  | tcpAccept
  | tcpArg
  | tcpRecv
  | tcpSent
  | tcpErr
  | tcpPoll
  | tcpWrite
  | tcpOutput
  | tcpRecved
  | tcpShutdown
  | tcpClose
  | tcpAbort
  | tcpProcessRefusedData
  | udpRecv
  | udpSendto
  | udpRemove
  | ipaddrAton
  | ipaddrNtoa
  deriving DecidableEq, Repr

/-- One thing that a party does. -/
inductive Instr
  /-- `lwipMutex.Lock()`. -/
  | lock
  /-- `lwipMutex.Unlock()`. -/
  | unlock
  | call (f : LwipFn)
  deriving DecidableEq, Repr

abbrev Code := List Instr

/-- The calls of a section under `lwipMutex`. -/
def locked (fs : List LwipFn) : Code := .lock :: (fs.map .call ++ [.unlock])

/-! ## `tcp_conn.go` -/

def closeInternalCalls : List LwipFn := [.tcpArg, .tcpRecv, .tcpSent, .tcpErr, .tcpPoll, .tcpClose]

def abortInternalCalls : List LwipFn := [.tcpAbort]

/-- The states that the three tests of `checkState` find. -/
structure Checked where
  isClosed : TcpConnState
  checkClosing : TcpConnState
  checkAborting : TcpConnState
  deriving DecidableEq, Repr

def checkStateCalls (k : Checked) : List LwipFn :=
  if k.isClosed = .closed then []
  else if k.checkClosing = .closing then closeInternalCalls
  else if k.checkAborting = .aborting then abortInternalCalls
  else []

/-- `Abort`. -/
def abortCode (k : Checked) : Code := locked (checkStateCalls k)

def closeWriteCode (st : TcpConnState) : Code :=
  match st.closeWrite with
  | none => []
  | some _ => locked [.tcpShutdown]

/-- What one round of `Write`'s loop finds: the state, `snd_buf` and what `tcp_write` returns. -/
structure Round where
  state : TcpConnState
  sndBuf : UInt16
  ret : WriteRet
  deriving DecidableEq, Repr

/-- The section of `Write` under `lwipMutex`. -/
def writeCalls (r : Round) : List LwipFn :=
  if 0 < r.sndBuf.toNat then .tcpWrite :: if r.ret = .ok then [.tcpOutput] else [] else []

/-- `Write`, for as many rounds as it makes. -/
def writeCode (data : Bytes) : List Round → Code
  | [] => []
  | r :: rs =>
    if data = [] then []
    else match r.state.writeCheck with
      | .pass =>
        let (written, failed) := writeSection data r.sndBuf r.ret
        locked (writeCalls r) ++
          if failed ∨ data.drop written = [] then [] else writeCode (data.drop written) rs
      | _ => []

/-- The connect goroutine: `handler.Handle` failed and `Abort` finds `k`, or it succeeded and the
connection is in state `st` with or without refused data. -/
def connectCode (failed : Bool) (k : Checked) (st : TcpConnState) (refusedData : Bool) : Code :=
  if failed then abortCode k
  else if st ≠ .connecting then []
  else locked (if refusedData then [.tcpProcessRefusedData] else [])

/-! ## `udp_conn.go` -/

/-- `WriteFrom` of a connection as it finds it; `aton` is whether `ipaddr_aton` takes
the address. -/
def writeFromCode (conn : Udp.Conn) (data : Bytes) (aton : Bool) : Code :=
  if data = [] then []
  else if conn.checkState then []
  else .call .ipaddrAton :: if aton then
      [.call .pbufAllocReference, .call .udpSendto, .call .pbufFree]
    else []

/-! ## `lwip.go` and `input.go` -/

/-- `input`; `handled` is whether lwIP's input function returns `ERR_OK`. -/
def inputCode (pkt : Bytes) (handled : Bool) : Code :=
  match inputInPlace pkt with
  | .ok (some inPlace) =>
    locked ((if inPlace then [.pbufAllocReference] else [.pbufAlloc, .pbufTake]) ++
      .input :: if handled then [] else [.pbufFree])
  | _ => []

/-- `lwipStack.Write`; `done` is whether the stack's context is. -/
def stackWriteCode (done : Bool) (pkt : Bytes) (handled : Bool) : Code :=
  if done then [] else inputCode pkt handled

/-- The timeout goroutine of `newLwip`, for as many ticks as it makes. -/
def timeoutsCode (ticks : Nat) : Code := (List.replicate ticks (locked [.sysCheckTimeouts])).flatten

def restartTimeoutsCode : Code := locked [.sysRestartTimeouts]

/-- `lwipStack.Close`, with what the `Abort`s of its sweep find. -/
def stackCloseCode (conns : List Checked) : Code :=
  conns.flatMap abortCode ++ locked [.tcpAccept, .udpRecv, .tcpClose, .udpRemove]

/-! ## Callbacks -/

/-- What `output` (`output_export.go`) calls. -/
def outputCalls : List LwipFn := [.pbufCopyPartial]

/-- What the callbacks of `tcp_callback_export.go` and `udp_callback_export.go` call. -/
def callbackCalls : List LwipFn :=
  [LwipFn.tcpArg, .tcpRecv, .tcpSent, .tcpErr, .tcpPoll, .ipaddrNtoa] ++
    [LwipFn.pbufCopyPartial, .pbufFree, .tcpRecved, .tcpShutdown, .tcpClose, .tcpAbort]

/-- What the callbacks call that lwIP may make inside a function. -/
def LwipFn.nested : LwipFn → List LwipFn
  | .input | .sysCheckTimeouts | .tcpProcessRefusedData => callbackCalls
  | .tcpOutput | .tcpRecved | .tcpShutdown | .tcpClose | .tcpAbort | .udpSendto => outputCalls
  | _ => []

/-! ## The parties -/

inductive Party
  | stackWrite (done : Bool) (pkt : Bytes) (handled : Bool)
  | timeouts (ticks : Nat)
  | write (data : Bytes) (rounds : List Round)
  | closeWrite (st : TcpConnState)
  | abort (k : Checked)
  | connect (failed : Bool) (k : Checked) (st : TcpConnState) (refusedData : Bool)
  | writeFrom (conn : Udp.Conn) (data : Bytes) (aton : Bool)
  | restartTimeouts
  | stackClose (conns : List Checked)
  deriving DecidableEq, Repr

def Party.code : Party → Code
  | .stackWrite done pkt handled => stackWriteCode done pkt handled
  | .timeouts ticks => timeoutsCode ticks
  | .write data rounds => writeCode data rounds
  | .closeWrite st => closeWriteCode st
  | .abort k => abortCode k
  | .connect failed k st refusedData => connectCode failed k st refusedData
  | .writeFrom conn data aton => writeFromCode conn data aton
  | .restartTimeouts => restartTimeoutsCode
  | .stackClose conns => stackCloseCode conns

/-- `WriteFrom` of a UDP connection. -/
def Party.isWriteFrom : Party → Bool
  | .writeFrom _ _ _ => true
  | _ => false

namespace Entry

/-- A party on its way: what it has still to do, and the lwIP functions that it is in. -/
structure Thread where
  party : Party
  code : Code
  inside : List LwipFn := []
  deriving DecidableEq, Repr

/-- What a party does next. -/
inductive Act
  /-- The next instruction. -/
  | next
  /-- The innermost function returns. -/
  | leave
  /-- A callback calls `f`. -/
  | nested (f : LwipFn)
  deriving DecidableEq, Repr

/-- Who holds `lwipMutex`. -/
abbrev Mutex := Option Nat

def start (m : Mutex) (_ : Nat) (p : Party) : Option (Mutex × Thread) :=
  some (m, ⟨p, p.code, []⟩)

def sec (m : Mutex) (g : Nat) (x : Thread) : Act → Option (Mutex × Thread × Option Thread)
  | .next =>
    match x.inside, x.code with
    | [], .lock :: code => if m = none then some (some g, { x with code }, none) else none
    | [], .unlock :: code => some (none, { x with code }, none)
    | [], .call f :: code => some (m, { x with code, inside := [f] }, none)
    | _, _ => none
  | .leave =>
    match x.inside with
    | _ :: fs => some (m, { x with inside := fs }, none)
    | [] => none
  | .nested f =>
    match x.inside with
    | f' :: fs =>
      if f ∈ f'.nested then some (m, { x with inside := f :: f' :: fs }, none) else none
    | [] => none

/-- The program of the parties. -/
def prog : Pool.Prog Mutex Thread Party Act := ⟨start, sec⟩

abbrev Sys := Pool.State Mutex Thread

/-- Nobody is there yet: `newLwip` has just made the stack. -/
def init : Sys := ⟨none, 0, fun _ => ⟨.restartTimeouts, [], []⟩⟩

end Entry

end Core
