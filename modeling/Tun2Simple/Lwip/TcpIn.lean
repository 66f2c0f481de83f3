import Tun2Simple.Core.Lwip
import Tun2Simple.Lib.Serial

/-!
# The receiving side of lwIP's TCP (`c/core/tcp_in.c`, `c/core/tcp.c`)

The part of a pcb that takes in the peer's stream: `rcv_nxt`, the window, the queue of segments that
came out of order and the data that the recv callback refused. `tcpReceive` is the part of
`tcp_receive` that follows the processing of the ACK, `tcpInput` what `tcp_input` does with a segment
of an active connection from the accept on. An `LWIP_ASSERT` that fails aborts the program: `none`.

The data of a chain of pbufs is one list of bytes; `recv_data == NULL` is the empty one. Of the
sending side there is only what `tcp_process` reads: whether the segment acknowledges data, and
whether it acknowledges all that was sent. `tcp_output` may send a segment at any time, which
announces the window (`Act.output`).
-/

namespace Lwip

open Core

/-- The cast to `u16_t`. -/
def u16 (n : Nat) : Nat := n % 65536

/-- `TCP_WND`, which is also `TCP_WND_MAX`. -/
def tcpWnd : Nat := 32 * 1024

/-- A `tcp_seg`, with what is read of its header after `tcp_input`. -/
structure TcpSeg where
  seqno : BitVec 32
  len : Nat
  /-- The bytes of its pbufs. -/
  p : Bytes
  fin : Bool
  syn : Bool
  deriving DecidableEq, Repr

/-- `TCP_TCPLEN`. -/
def TcpSeg.tcplen (g : TcpSeg) : Nat := g.len + if g.fin || g.syn then 1 else 0

/-- The sequence number after the data. -/
def TcpSeg.stop (g : TcpSeg) : BitVec 32 := g.seqno + BitVec.ofNat 32 g.len

/-- A new length, with `pbuf_realloc`. -/
def TcpSeg.trim (g : TcpSeg) (len : Nat) : TcpSeg := { g with len, p := g.p.take len }

structure TcpPcb where
  state : TcpSt := .established
  rcvNxt : BitVec 32
  rcvWnd : Nat := tcpWnd
  rcvAnnWnd : Nat := tcpWnd
  rcvAnnRightEdge : BitVec 32
  mss : Nat := 1460
  ooseq : List TcpSeg := []
  /-- `refused_data`, and whether a FIN came with it (`PBUF_FLAG_TCP_FIN`). -/
  refused : Option (Bytes × Bool) := none
  /-- `TF_RXCLOSED`. -/
  rxClosed : Bool := false
  /-- `TF_ACK_DELAY`. -/
  ackDelay : Bool := false
  /-- `TF_ACK_NOW`. -/
  ackNow : Bool := false
  deriving DecidableEq, Repr

namespace TcpPcb

variable (pcb : TcpPcb)

/-- The right edge of the window that there is room for. -/
def rightEdge : BitVec 32 := pcb.rcvNxt + BitVec.ofNat 32 pcb.rcvWnd

/-! ## ACKs and the announced window -/

def tcpAckNow : TcpPcb := { pcb with ackNow := true }

def tcpAck : TcpPcb :=
  if pcb.ackDelay then { pcb with ackDelay := false, ackNow := true } else { pcb with ackDelay := true }

/-- A segment is sent, with `rcv_nxt` and the window in its header. -/
def announce : TcpPcb :=
  { pcb with rcvAnnRightEdge := pcb.rcvNxt + BitVec.ofNat 32 pcb.rcvAnnWnd }

/-- `tcp_send_empty_ack`; `mem` is whether the pbuf could be allocated. -/
def tcpSendEmptyAck (mem : Bool) : TcpPcb :=
  if mem then { pcb.announce with ackDelay := false, ackNow := false }
  else { pcb with ackDelay := true, ackNow := true }

/-- The window to announce, and how much more that is than was announced. -/
def tcpUpdateRcvAnnWnd : Option (TcpPcb × Nat) :=
  if Serial.ge pcb.rightEdge (pcb.rcvAnnRightEdge + BitVec.ofNat 32 (min (tcpWnd / 2) pcb.mss)) then
    some ({ pcb with rcvAnnWnd := pcb.rcvWnd }, (pcb.rightEdge - pcb.rcvAnnRightEdge).toNat)
  else if Serial.gt pcb.rcvNxt pcb.rcvAnnRightEdge then
    -- the other end sent outside the announced window
    some ({ pcb with rcvAnnWnd := 0 }, 0)
  else
    let newRcvAnnWnd := (pcb.rcvAnnRightEdge - pcb.rcvNxt).toNat
    if newRcvAnnWnd ≤ 0xffff then some ({ pcb with rcvAnnWnd := newRcvAnnWnd }, 0) else none

/-- `TCP_WND_UPDATE_THRESHOLD`. -/
def tcpWndUpdateThreshold : Nat := min (tcpWnd / 4) (1460 * 4)

/-- `tcp_recved`; the `tcp_output` at its end is a step of its own. -/
def tcpRecved (len : Nat) : Option TcpPcb := do
  let rcvWnd := u16 (pcb.rcvWnd + u16 len)
  let pcb := { pcb with rcvWnd := if tcpWnd < rcvWnd ∨ rcvWnd < pcb.rcvWnd then tcpWnd else rcvWnd }
  let (pcb, wndInflation) ← pcb.tcpUpdateRcvAnnWnd
  return if tcpWndUpdateThreshold ≤ wndInflation then pcb.tcpAckNow else pcb

/-! ## The queue of segments that came out of order -/

/-- The loop of `tcp_oos_insert_segment` that frees the segments which `cseg` covers. -/
def freeCovered (cseg : TcpSeg) : List TcpSeg → TcpSeg × List TcpSeg
  | [] => (cseg, [])
  | next :: rest =>
    if Serial.ge cseg.stop next.stop then freeCovered { cseg with fin := cseg.fin || next.fin } rest
    else (cseg, next :: rest)

/-- `cseg` is put before `next`; the queue from there on. -/
def tcpOosInsertSegment (cseg : TcpSeg) (next : List TcpSeg) : List TcpSeg :=
  if cseg.fin then [cseg]
  else
    match freeCovered cseg next with
    | (cseg, []) => [cseg]
    | (cseg, n :: rest) =>
      if Serial.gt cseg.stop n.seqno then cseg.trim (u16 (n.seqno - cseg.seqno).toNat) :: n :: rest
      else cseg :: n :: rest

/-- `seg` without what `seqno` starts. -/
def trimTo (seg : TcpSeg) (seqno : BitVec 32) : TcpSeg :=
  if Serial.gt seg.stop seqno then seg.trim (u16 (seqno - seg.seqno).toNat) else seg

/-- The segment at the end of the queue, trimmed where it overruns the window. -/
def trimToWindow (inseg : TcpSeg) : Option TcpSeg :=
  if Serial.gt (inseg.seqno + BitVec.ofNat 32 inseg.tcplen) pcb.rightEdge then
    let seg := { inseg with fin := false }.trim (u16 (pcb.rightEdge - inseg.seqno).toNat)
    if seg.seqno + BitVec.ofNat 32 (u16 seg.tcplen) = pcb.rightEdge then some seg else none
  else some inseg

/-- The loop over the queue that finds the place of `inseg`: the queue from `prev` on, which is the
segment before the rest of the queue. -/
def oosInsert (inseg : TcpSeg) : Option TcpSeg → List TcpSeg → Option (List TcpSeg)
  | prev, [] => some prev.toList
  | prev, next :: rest =>
    if inseg.seqno = next.seqno then
      -- the one with less data is discarded
      if next.len < inseg.len then some (prev.toList ++ tcpOosInsertSegment inseg (next :: rest))
      else some (prev.toList ++ next :: rest)
    else
      let goOn : Option (List TcpSeg) :=
        if rest = [] ∧ Serial.gt inseg.seqno next.seqno = true then
          -- the end of the queue; a segment with a FIN has all data already
          if next.fin then some (prev.toList ++ [next])
          else do return prev.toList ++ [trimTo next inseg.seqno, ← pcb.trimToWindow inseg]
        else do return prev.toList ++ (← oosInsert inseg (some next) rest)
      match prev with
      | none =>
        if Serial.lt inseg.seqno next.seqno then some (tcpOosInsertSegment inseg (next :: rest))
        else goOn
      | some p =>
        if Serial.between inseg.seqno (p.seqno + 1) (next.seqno - 1) then
          some (trimTo p inseg.seqno :: tcpOosInsertSegment inseg (next :: rest))
        else goOn

/-- A segment that is out of sequence is queued; `mem` is whether `tcp_seg_copy` has memory. -/
def tcpQueueOoseq (mem : Bool) (inseg : TcpSeg) : Option TcpPcb :=
  if mem then
    if pcb.ooseq = [] then some { pcb with ooseq := [inseg] }
    else do return { pcb with ooseq := ← pcb.oosInsert inseg none pcb.ooseq }
  else some pcb

/-! ## Segments in sequence -/

/-- `inseg` without what overruns the window. -/
def trimInseg (inseg : TcpSeg) : Option TcpSeg :=
  if pcb.rcvWnd < u16 inseg.tcplen then
    let seg := { inseg with fin := false }.trim (pcb.rcvWnd - if inseg.syn then 1 else 0)
    if seg.seqno + BitVec.ofNat 32 (u16 seg.tcplen) = pcb.rightEdge then some seg else none
  else some inseg

/-- The segments that `inseg` covers are removed from the queue, and a FIN that one of them has is
copied to it. -/
def removeCovered (inseg : TcpSeg) : List TcpSeg → TcpSeg × List TcpSeg
  | [] => (inseg, [])
  | next :: rest =>
    if Serial.ge (inseg.seqno + BitVec.ofNat 32 (u16 inseg.tcplen)) next.stop then
      removeCovered (if next.fin && !inseg.syn then { inseg with fin := true } else inseg) rest
    else (inseg, next :: rest)

/-- The queue and `inseg`, without what they have in common. -/
def adjustOoseq (inseg : TcpSeg) (ooseq : List TcpSeg) : Option (TcpSeg × List TcpSeg) :=
  if ooseq = [] ∨ inseg.fin = true then some (inseg, [])
  else
    match removeCovered inseg ooseq with
    | (inseg, []) => some (inseg, [])
    | (inseg, next :: rest) =>
      if Serial.gt (inseg.seqno + BitVec.ofNat 32 (u16 inseg.tcplen)) next.seqno then
        let len := u16 (next.seqno - inseg.seqno).toNat
        let seg := inseg.trim (if inseg.syn then u16 (len + 65535) else len)
        if seg.seqno + BitVec.ofNat 32 (u16 seg.tcplen) = next.seqno then some (seg, next :: rest)
        else none
      else some (inseg, next :: rest)

/-- What `tcp_receive` leaves in the pcb, in `recv_data` and in `TF_GOT_FIN` of `recv_flags`. -/
structure Received where
  pcb : TcpPcb
  recvData : Bytes := []
  gotFin : Bool := false
  deriving DecidableEq, Repr

/-- `seg` is taken over: `rcv_nxt` and the window move on. -/
def Received.take (r : Received) (seg : TcpSeg) (tcplen : Nat) : Option Received :=
  if r.pcb.rcvWnd < tcplen then none
  else do
    let pcb := { r.pcb with
      rcvNxt := seg.seqno + BitVec.ofNat 32 tcplen
      rcvWnd := r.pcb.rcvWnd - tcplen }
    let (pcb, _) ← pcb.tcpUpdateRcvAnnWnd
    return ⟨pcb, r.recvData ++ seg.p, r.gotFin || seg.fin⟩

/-- The loop that takes the segments of the queue which are now in sequence. -/
def dequeue : List TcpSeg → Received → Option Received
  | [], r => some { r with pcb := { r.pcb with ooseq := [] } }
  | cseg :: rest, r =>
    if cseg.seqno = r.pcb.rcvNxt then do
      let r ← r.take cseg cseg.tcplen
      dequeue rest <|
        if cseg.fin = true ∧ r.pcb.state = .established then
          { r with pcb := { r.pcb with state := .closeWait } }
        else r
    else some { r with pcb := { r.pcb with ooseq := cseg :: rest } }

/-- A segment in sequence. -/
def receiveInSeq (inseg : TcpSeg) : Option Received := do
  let inseg ← pcb.trimInseg inseg
  let (inseg, ooseq) ← adjustOoseq inseg pcb.ooseq
  let r ← Received.take { pcb } inseg (u16 inseg.tcplen)
  let r ← dequeue ooseq r
  return { r with pcb := r.pcb.tcpAck }

/-- The segment starts before `rcv_nxt` and goes on behind it. -/
def startsBefore (inseg : TcpSeg) : Bool :=
  Serial.between pcb.rcvNxt (inseg.seqno + 1) (inseg.seqno + BitVec.ofNat 32 inseg.tcplen - 1)

/-- The first edge of such a segment is trimmed. -/
def trimFront (inseg : TcpSeg) : Option TcpSeg :=
  if pcb.startsBefore inseg then
    let off := (pcb.rcvNxt - inseg.seqno).toNat
    if off < 0xffff ∧ off ≤ inseg.p.length then
      some { inseg with seqno := pcb.rcvNxt, len := inseg.len - off, p := inseg.p.drop off }
    else none
  else some inseg

/-- What may fail for want of memory. -/
structure Mem where
  segCopy : Bool := true
  ack : Bool := true
  deriving DecidableEq, Repr

/-- `seqno` is in the window. -/
def inWindow (seqno : BitVec 32) : Bool := Serial.between seqno pcb.rcvNxt (pcb.rightEdge - 1)

/-- `tcp_receive`, after the processing of the ACK. -/
def tcpReceive (mem : Mem) (inseg : TcpSeg) : Option Received :=
  if 0 < inseg.tcplen ∧ pcb.state.accepts = true then do
    -- a duplicate of what was received already
    let old := !pcb.startsBefore inseg && Serial.lt inseg.seqno pcb.rcvNxt
    let inseg ← pcb.trimFront inseg
    let pcb := if old then pcb.tcpAckNow else pcb
    if pcb.inWindow inseg.seqno then
      if pcb.rcvNxt = inseg.seqno then pcb.receiveInSeq inseg
      else return { pcb := (← pcb.tcpQueueOoseq mem.segCopy inseg).tcpSendEmptyAck mem.ack }
    else return { pcb := pcb.tcpSendEmptyAck mem.ack }
  else some { pcb := if pcb.inWindow inseg.seqno then pcb else pcb.tcpAckNow }

/-! ## `tcp_process` -/

/-- An incoming segment. -/
structure Incoming where
  seqno : BitVec 32
  data : Bytes
  fin : Bool := false
  syn : Bool := false
  rst : Bool := false
  /-- It acknowledges data bytes (`recv_acked > 0`). -/
  acked : Bool := false
  /-- `ackno == pcb->snd_nxt && pcb->unsent == NULL`. -/
  ackAll : Bool := false
  deriving DecidableEq, Repr

def Incoming.inseg (i : Incoming) : TcpSeg := ⟨i.seqno, i.data.length, i.data, i.fin, i.syn⟩

/-- What `tcp_process` returns with. -/
inductive Processed
  /-- `TF_RESET`. -/
  | reset
  /-- `closed` is `TF_CLOSED`. -/
  | goOn (r : Received) (closed : Bool)
  deriving DecidableEq, Repr

/-- `tcp_pcb_purge`, when the pcb goes to `TIME_WAIT`. -/
def purge : TcpPcb :=
  if pcb.state = .timeWait then { pcb with refused := none, ooseq := [] } else pcb

/-- The state after `tcp_receive`. -/
def afterReceive (ackAll gotFin : Bool) : TcpPcb :=
  { pcb with state := pcb.state.onSeg ackAll gotFin, ackNow := pcb.ackNow || gotFin }.purge

def tcpProcess (mem : Mem) (i : Incoming) : Option Processed :=
  if i.rst then
    if i.seqno = pcb.rcvNxt then some .reset
    -- a challenge ACK for a RST inside the window
    else if Serial.between i.seqno pcb.rcvNxt pcb.rightEdge then
      some (.goOn { pcb := pcb.tcpAckNow } false)
    else some (.goOn { pcb } false)
  else if i.syn then some (.goOn { pcb := pcb.tcpAckNow } false)
  else do
    let r ← pcb.tcpReceive mem i.inseg
    return .goOn { r with pcb := r.pcb.afterReceive i.ackAll r.gotFin }
      (pcb.state == .lastAck && i.ackAll)

/-- `tcp_timewait_input`. -/
def tcpTimewaitInput (i : Incoming) : TcpPcb :=
  if i.rst ∨ (i.syn = true ∧ Serial.between i.seqno pcb.rcvNxt pcb.rightEdge = true) then pcb
  else if 0 < i.inseg.tcplen then pcb.announce.tcpAckNow else pcb

end TcpPcb

/-! ## Callbacks and `tcp_input` -/

/-- `ERR_OK`, `ERR_ABRT` or another error. -/
inductive Ret
  | ok
  | abrt
  | other
  deriving DecidableEq, Repr

/-- What a callback does with the pcb and returns. -/
structure Answer where
  /-- Its calls of `tcp_recved`. -/
  recved : List Nat := []
  /-- It calls `tcp_shutdown(pcb, 1, 0)`. -/
  shutRx : Bool := false
  ret : Ret := .ok
  deriving DecidableEq, Repr

/-- The answers of the callbacks during one `tcp_input`, by the place of the call. -/
structure Answers where
  refused : Answer := {}
  refusedFin : Answer := {}
  sent : Answer := {}
  recv : Answer := {}
  fin : Answer := {}
  deriving DecidableEq, Repr

/-- A call of the recv callback, with data or, at the end of the stream, without. -/
inductive Event
  | recv (d : Bytes) (ret : Ret)
  | closed
  deriving DecidableEq, Repr

/-- A pcb, whether it is still there, and the calls of its recv callback so far. -/
structure Rx where
  pcb : TcpPcb
  live : Bool := true
  events : List Event := []
  deriving DecidableEq, Repr

namespace Rx

variable (x : Rx)

def answer (a : Answer) : Option Rx := do
  let pcb ← a.recved.foldlM TcpPcb.tcpRecved x.pcb
  return { x with
    pcb := if a.shutRx then { pcb with rxClosed := true, refused := none } else pcb
    live := a.ret != .abrt }

/-- `TCP_EVENT_RECV`. -/
def eventRecv (d : Bytes) (a : Answer) : Option Rx :=
  { x with events := x.events ++ [Event.recv d a.ret] }.answer a

/-- `TCP_EVENT_CLOSED`, after `rcv_wnd` is corrected for the FIN. -/
def eventClosed (a : Answer) : Option Rx :=
  { x with
    pcb := if x.pcb.rcvWnd = tcpWnd then x.pcb else { x.pcb with rcvWnd := x.pcb.rcvWnd + 1 }
    events := x.events ++ [Event.closed] }.answer a

def tcpProcessRefusedData (recv fin : Answer) : Option Rx :=
  match x.pcb.refused with
  | none => some x
  | some (d, f) => do
    let y ← { x with pcb := { x.pcb with refused := none } }.eventRecv d recv
    match recv.ret with
    | .ok => if f then y.eventClosed fin else return y
    | .abrt => return y
    | .other => return { y with pcb := { y.pcb with refused := some (d, f) } }

/-- The recv callback for the data of the segment and what was queued behind it. -/
def deliver (recvData : Bytes) (a : Answer) : Option Rx :=
  if recvData = [] then some x
  else if x.pcb.refused.isSome then none
  -- data for a pcb whose rx side is shut down: `tcp_abort`
  else if x.pcb.rxClosed then some { x with live := false }
  else do
    let y ← x.eventRecv recvData a
    return if a.ret = .other then { y with pcb := { y.pcb with refused := some (recvData, false) } }
      else y

/-- The FIN, which waits for data that was refused. -/
def deliverFin (gotFin : Bool) (a : Answer) : Option Rx :=
  if gotFin && x.live then
    match x.pcb.refused with
    | some (d, _) => some { x with pcb := { x.pcb with refused := some (d, true) } }
    | none => x.eventClosed a
  else some x

/-- `TCP_EVENT_SENT`. -/
def eventSent (acked : Bool) (a : Answer) : Option Rx := if acked then x.answer a else some x

/-- The rest of `tcp_input` after `tcp_process`. -/
def finish (r : TcpPcb.Received) (closed acked : Bool) (ans : Answers) : Option Rx := do
  let x ← { x with pcb := r.pcb }.eventSent acked ans.sent
  if x.live && !closed then (← x.deliver r.recvData ans.recv).deliverFin r.gotFin ans.fin
  else return { x with live := false }

/-- `tcp_input` for a segment of this connection. -/
def tcpInput (mem : TcpPcb.Mem) (i : TcpPcb.Incoming) (ans : Answers) : Option Rx :=
  let tcplen := i.inseg.tcplen
  -- the length does not fit in 16 bits
  if 65535 < tcplen then some x
  else if x.pcb.state = .timeWait then some { x with pcb := x.pcb.tcpTimewaitInput i }
  else do
    let x ← x.tcpProcessRefusedData ans.refused ans.refusedFin
    if x.live = false then return x
    else if x.pcb.refused.isSome = true ∧ 0 < tcplen then
      return if x.pcb.rcvAnnWnd = 0 then { x with pcb := x.pcb.tcpSendEmptyAck mem.ack } else x
    else
      match ← x.pcb.tcpProcess mem i with
      | .reset => return { x with live := false }
      | .goOn r closed => x.finish r closed i.acked ans

/-- `tcp_fasttmr` for this pcb: a delayed ACK and the refused data. -/
def tcpFasttmr (ans : Answers) : Option Rx :=
  let pcb := if x.pcb.ackDelay then { x.pcb.announce with ackDelay := false, ackNow := false }
    else x.pcb
  { x with pcb }.tcpProcessRefusedData ans.refused ans.refusedFin

end Rx

/-- `tcp_shutdown(pcb, 0, 1)` that enqueues a FIN. -/
def shutdownTx : TcpSt → TcpSt
  | .established => .finWait1
  | .closeWait => .lastAck
  | st => st

/-- What happens to a connection. -/
inductive Act
  | segment (mem : TcpPcb.Mem) (i : TcpPcb.Incoming) (ans : Answers)
  | fasttmr (ans : Answers)
  | recved (len : Nat)
  /-- A segment is sent. -/
  | output
  | shutdownRx
  | shutdownTx
  deriving DecidableEq, Repr

/-- A step of a connection; none where an assertion fails, and none of a pcb that is freed. -/
def Rx.step (x : Rx) (a : Act) : Option Rx :=
  if x.live then
    match a with
    | .segment mem i ans => x.tcpInput mem i ans
    | .fasttmr ans => if x.pcb.state = .timeWait then none else x.tcpFasttmr ans
    | .recved len => return { x with pcb := ← x.pcb.tcpRecved len }
    | .output => some { x with pcb := { x.pcb.announce with ackDelay := false, ackNow := false } }
    | .shutdownRx => some { x with pcb := { x.pcb with rxClosed := true, refused := none } }
    | .shutdownTx => some { x with pcb := { x.pcb with state := shutdownTx x.pcb.state } }
  else none

end Lwip
