import Tun2Simple.Core.Step

/-!
# lwIP's side of a connection

`tcpLwip` is the behaviour of the vendored lwIP (`c/core/tcp_in.c`, `c/core/tcp.c`) as far as it
decides which callbacks are called and how a pcb is freed: the states of TCP from the accept on,
`TF_RXCLOSED`, `TF_CLOSEPEND` and the refused data. Sequence numbers, windows and timers are left
open: any segment (`Seg`) may come in, a RST may be accepted and a timer may remove an active pcb at
any time.

A segment is taken in (`Work.seg`, after data that was refused before), processed
(`Tcp.process`) and its callbacks are called one by one (`Work.events`). A pcb on which `tcp_close`
was called is of no concern any more.
-/

namespace Core

/-- `pcb->state < CLOSE_WAIT`: the text of a segment and its FIN are accepted. -/
def TcpSt.accepts : TcpSt → Bool
  | .established | .finWait1 | .finWait2 => true
  | _ => false

/-- The state after `tcp_process`; `fin` is `TF_GOT_FIN`. -/
def TcpSt.onSeg (st : TcpSt) (ackAll fin : Bool) : TcpSt :=
  match st with
  | .established | .closeWait => if fin then .closeWait else st
  | .finWait1 =>
    if fin then (if ackAll then .timeWait else .closing)
    else if ackAll then .finWait2 else .finWait1
  | .finWait2 => if fin then .timeWait else .finWait2
  | .closing => if ackAll then .timeWait else .closing
  | .lastAck | .timeWait => st

/-- `tcp_process` and `tcp_receive`. -/
def Tcp.process (t : Tcp) (g : Seg) : Tcp :=
  let fin := t.st.accepts && g.fin
  { t with
    st := t.st.onSeg g.ackAll fin
    work := .events g.acked (t.st == .lastAck && g.ackAll)
      (if t.st.accepts = true ∧ g.data ≠ [] then some g.data else none) fin }

/-- The steps of lwIP between two segments that call nothing: a segment comes in, refused data is
tried again, a pending FIN is sent. -/
def Tcp.idleTau (t t' : Tcp) : Bool :=
  match t'.work with
  | .seg g => t.refused.isNone && t' == { t with work := .seg g }
  | .refused next => t.refused.isSome && t' == { t with work := .refused next }
  | _ => t.closePend && (t' == { t with closePend := false }.sendFin true ||
      t' == { t with closePend := false }.sendFin false)

/-- What lwIP may do next with an open pcb. -/
def Tcp.mayDo (t : Tcp) (e : LwEv) (t' : Tcp) : Bool :=
  match t.work, e with
  | .refused next, .recv d =>
    match t.refused with
    | some (d', fin) => d == d' && t' ==
        { t with refused := none, work := if fin then .refusedFin next else .ofNext next }
    | none => false
  | .refusedFin next, .fin => t' == { t with work := .ofNext next }
  | .seg g, .tau =>
    -- refused data is still refused and the segment is not a pure ACK: it is dropped
    if t.refused.isSome = true ∧ (g.data ≠ [] ∨ g.fin = true) then t' == { t with work := .done }
    else t' == t.process g
  | .events true close recv fin, .sent => t' == { t with work := .events false close recv fin }
  | .events false true _ _, .free => t.rxClosed && t' == t
  | .events false true _ _, .err => !t.rxClosed && t' == t
  -- data for a pcb whose rx side is shut down: `tcp_abort`
  | .events false false (some _) _, .free => t.rxClosed && t.st == .timeWait && t' == t
  | .events false false (some _) _, .err => t.rxClosed && t.st != .timeWait && t' == t
  | .events false false (some d) fin, .recv d' =>
    !t.rxClosed && d == d' && t' == { t with work := .events false false none fin }
  | .events false false none true, .fin => t.refused.isNone && t' == { t with work := .done }
  | .events false false none true, .tau =>
    match t.refused with
    | some (d, _) => t' == { t with refused := some (d, true), work := .done }
    | none => false
  | .events false false none false, .tau => t.st != .timeWait && t.idleTau t'
  -- a RST, or a timer removes the pcb from the active list
  | .events false false none false, .err => t.st != .timeWait && t' == t
  | .events false false none false, .poll => t.st != .timeWait && t' == t
  -- the end of `TIME_WAIT`
  | .events false false none false, .free => t.st == .timeWait && t' == t
  | _, _ => false

/-- The vendored lwIP. -/
def tcpLwip : Lwip where
  ev b e t := if b.closed then e == .tau || e == .free else b.tcp.mayDo e t

end Core
