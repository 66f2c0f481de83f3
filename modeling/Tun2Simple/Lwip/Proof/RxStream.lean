import Tun2Simple.Lib.Run
import Tun2Simple.Lwip.Proof.TcpIn

/-!
# The recv callback sees the peer's stream in order

`Orderly S` describes the calls of the recv callback that keep the order of the stream `S`: each call
offers bytes that follow those accepted before, data that was refused is offered again before
anything else, and the call without data comes once, last, after all of `S` was accepted. In every run
in which the peer's segments are parts of `S`, the calls are orderly as long as the application does
not shut down its receiving side, and what it accepted is a prefix of `S` in any case
(`events_orderly`). The segments may come in any order, repeat and overlap, and memory may run out.
-/

namespace Lwip

open Core TcpPcb Trans

/-- The bytes that the application accepted. -/
def accepted : List Event → Bytes
  | [] => []
  | .recv d .ok :: es => d ++ accepted es
  | _ :: es => accepted es

/-- The data of the last call, if it was refused. -/
def kept (es : List Event) : Option Bytes :=
  match es.getLast? with
  | some (.recv d .other) => some d
  | _ => none

/-- The calls keep the order of the stream (module doc). -/
inductive Orderly (S : Bytes) : List Event → Prop
  | nil : Orderly S []
  | recv {es : List Event} {d : Bytes} (ret : Ret) : Orderly S es → .closed ∉ es →
      (∀ d' ∈ kept es, d = d') → accepted es ++ d <+: S → Orderly S (es ++ [.recv d ret])
  | closed {es : List Event} : Orderly S es → .closed ∉ es → kept es = none → accepted es = S →
      Orderly S (es ++ [.closed])

/-- What was received: accepted, or refused and not offered again yet. -/
def Rx.received (x : Rx) : Bytes := accepted x.events ++ ((x.pcb.refused.map Prod.fst).getD [])

/-- A connection after the accept: `isn` is the sequence number of the peer's first byte. -/
def Rx.start (isn : BitVec 32) (mss : Nat) : Rx where
  pcb := { rcvNxt := isn, rcvAnnRightEdge := isn + BitVec.ofNat 32 tcpWnd, mss }

/-- The segments of the peer are parts of its stream, less than 512 MiB away from what was received. -/
def FromPeer (isn : BitVec 32) (S : Bytes) (x : Rx) : Act → Prop
  | .segment _ i _ => i.rst = false → i.syn = false → ∃ off, Genuine isn S off i.inseg ∧
      off < x.received.length + 2 ^ 29 ∧ x.received.length < off + 2 ^ 29
  | _ => True

theorem accepted_append (es es' : List Event) : accepted (es ++ es') = accepted es ++ accepted es' := by
  induction es with
  | nil => rfl
  | cons e es ih =>
    cases e with
    | recv d ret => cases ret <;> simp [accepted, ih]
    | closed => simp [accepted, ih]

@[simp] theorem kept_snoc_recv (es : List Event) (d : Bytes) (ret : Ret) :
    kept (es ++ [.recv d ret]) = if ret = .other then some d else none := by
  cases ret <;> simp [kept]

@[simp] theorem kept_snoc_closed (es : List Event) : kept (es ++ [.closed]) = none := by simp [kept]

/-! ## What an answer does -/

/-- The answer of a callback widens the window only, or shuts down the receiving side. -/
structure WindowOnly (pcb pcb' : TcpPcb) : Prop where
  nxt : pcb'.rcvNxt = pcb.rcvNxt
  state : pcb'.state = pcb.state
  ooseq : pcb'.ooseq = pcb.ooseq
  wnd : pcb.rcvWnd ≤ tcpWnd → pcb.rcvWnd ≤ pcb'.rcvWnd ∧ pcb'.rcvWnd ≤ tcpWnd
  refused : pcb'.rxClosed = false → pcb'.refused = pcb.refused
  dropped : pcb'.refused = pcb.refused ∨ pcb'.refused = none
  rxClosed : pcb'.rxClosed = false → pcb.rxClosed = false

theorem WindowOnly.refl (pcb : TcpPcb) : WindowOnly pcb pcb :=
  ⟨rfl, rfl, rfl, fun h => ⟨Nat.le_refl _, h⟩, fun _ => rfl, .inl rfl, id⟩

theorem WindowOnly.trans {a b c : TcpPcb} (h : WindowOnly a b) (h' : WindowOnly b c) : WindowOnly a c where
  nxt := h'.nxt.trans h.nxt
  state := h'.state.trans h.state
  ooseq := h'.ooseq.trans h.ooseq
  wnd hw := by
    obtain ⟨hle, hw'⟩ := h.wnd hw
    exact ⟨hle.trans (h'.wnd hw').1, (h'.wnd hw').2⟩
  refused hx := (h'.refused hx).trans (h.refused (h'.rxClosed hx))
  dropped := by
    rcases h'.dropped with hd | hd
    · rw [hd]
      exact h.dropped
    · exact .inr hd
  rxClosed hx := h.rxClosed (h'.rxClosed hx)

theorem AckOnly.windowOnly {pcb pcb' : TcpPcb} (a : AckOnly pcb pcb') : WindowOnly pcb pcb' :=
  ⟨a.nxt, a.state, a.ooseq, fun h => ⟨Nat.le_of_eq a.wnd.symm, a.wnd ▸ h⟩, fun _ => a.refused,
    .inl a.refused, fun h => a.rxClosed ▸ h⟩

theorem tcpRecved_windowOnly {pcb pcb' : TcpPcb} {len : Nat} (h : pcb.tcpRecved len = some pcb') :
    WindowOnly pcb pcb' := by
  rw [tcpRecved] at h
  obtain ⟨⟨p, k⟩, hu, h⟩ := Option.bind_eq_some_iff.1 h
  obtain ⟨w, rfl⟩ := tcpUpdateRcvAnnWnd_eq hu
  cases h
  have hle : ∀ a b : Nat, b ≤ tcpWnd → b ≤ (if tcpWnd < a ∨ a < b then tcpWnd else a) ∧
      (if tcpWnd < a ∨ a < b then tcpWnd else a) ≤ tcpWnd := by
    intro a b hb
    split <;> omega
  split <;> exact ⟨rfl, rfl, rfl, hle _ _, fun _ => rfl, .inl rfl, id⟩

theorem foldlM_recved_windowOnly {ns : List Nat} {pcb pcb' : TcpPcb}
    (h : ns.foldlM tcpRecved pcb = some pcb') : WindowOnly pcb pcb' := by
  induction ns generalizing pcb with
  | nil =>
    cases h
    exact .refl _
  | cons n ns ih =>
    obtain ⟨p, hp, h⟩ := Option.bind_eq_some_iff.1 h
    exact (tcpRecved_windowOnly hp).trans (ih h)

/-- `tcp_shutdown(pcb, 1, 0)`. -/
theorem shutRx_windowOnly (pcb : TcpPcb) : WindowOnly pcb { pcb with rxClosed := true, refused := none } :=
  ⟨rfl, rfl, rfl, fun h => ⟨Nat.le_refl _, h⟩, fun hx => (by cases hx), .inr rfl, fun hx => (by cases hx)⟩

/-- A segment is sent, or an ACK is asked for. -/
theorem ack_windowOnly (pcb : TcpPcb) (edge : BitVec 32) (delay now : Bool) :
    WindowOnly pcb { pcb with rcvAnnRightEdge := edge, ackDelay := delay, ackNow := now } :=
  AckOnly.windowOnly ⟨rfl, rfl, rfl, rfl, rfl, rfl⟩

theorem answer_spec {x y : Rx} {a : Answer} (h : x.answer a = some y) :
    WindowOnly x.pcb y.pcb ∧ y.events = x.events ∧ y.live = (a.ret != .abrt) := by
  rw [Rx.answer] at h
  obtain ⟨pcb, hp, h⟩ := Option.bind_eq_some_iff.1 h
  cases h
  refine ⟨(foldlM_recved_windowOnly hp).trans ?_, rfl, rfl⟩
  show WindowOnly pcb (if a.shutRx = true then { pcb with rxClosed := true, refused := none } else pcb)
  split
  · exact shutRx_windowOnly pcb
  · exact .refl pcb

theorem eventRecv_spec {x y : Rx} {d : Bytes} {a : Answer} (h : x.eventRecv d a = some y) :
    WindowOnly x.pcb y.pcb ∧ y.events = x.events ++ [.recv d a.ret] ∧ y.live = (a.ret != .abrt) :=
  answer_spec h

theorem eventClosed_spec {x y : Rx} {a : Answer} (h : x.eventClosed a = some y) :
    WindowOnly x.pcb y.pcb ∧ y.events = x.events ++ [.closed] ∧ y.live = (a.ret != .abrt) := by
  obtain ⟨hw, he, hl⟩ := answer_spec h
  refine ⟨WindowOnly.trans ?_ hw, he, hl⟩
  dsimp only
  split
  · exact .refl _
  · rename_i hne
    refine ⟨rfl, rfl, rfl, fun hle => ⟨Nat.le_succ _, ?_⟩, fun _ => rfl, .inl rfl, id⟩
    show x.pcb.rcvWnd + 1 ≤ tcpWnd
    omega

theorem eventSent_spec {x y : Rx} {acked : Bool} {a : Answer} (h : x.eventSent acked a = some y) :
    WindowOnly x.pcb y.pcb ∧ y.events = x.events := by
  rw [Rx.eventSent] at h
  split at h
  · exact ⟨(answer_spec h).1, (answer_spec h).2.1⟩
  · cases h
    exact ⟨.refl _, rfl⟩

theorem WindowOnly.upTo {isn : BitVec 32} {S : Bytes} {n : Nat} {pcb pcb' : TcpPcb}
    (w : WindowOnly pcb pcb') (h : UpTo isn S n pcb) : UpTo isn S n pcb' :=
  ⟨w.nxt.trans h.nxt, h.bound, (w.wnd h.wnd).2, w.ooseq ▸ h.queue⟩

/-! ## The invariant -/

section Inv

variable (isn : BitVec 32) (S : Bytes)

/-- The bytes of `refused_data`. -/
def held (pcb : TcpPcb) : Bytes := (pcb.refused.map Prod.fst).getD []

/-- How far a connection is, whose receiving side is open, after the calls `es`. -/
inductive Phase (es : List Event) (pcb : TcpPcb) : Prop
  /-- The FIN is still to come. -/
  | receiving (acc : pcb.state.accepts = true) (upTo : UpTo isn S (accepted es ++ held pcb).length pcb)
      (pre : accepted es ++ held pcb <+: S) (noFin : .closed ∉ es)
      (keep : kept es = pcb.refused.map Prod.fst) (flag : ∀ p ∈ pcb.refused, p.2 = false)
  /-- The FIN waits for data that was refused. -/
  | ending (acc : pcb.state.accepts = false) (d : Bytes) (refused : pcb.refused = some (d, true))
      (keep : kept es = some d) (all : accepted es ++ d = S) (noFin : .closed ∉ es)
  /-- There is nothing more to pass on. -/
  | ended (acc : pcb.state.accepts = false) (refused : pcb.refused = none)
  | timeWait (state : pcb.state = .timeWait)

/-- What holds of a connection in every run. -/
structure Inv (x : Rx) : Prop where
  pre : accepted x.events <+: S
  received : x.live = true → x.received <+: S
  orderly : x.pcb.rxClosed = false → Orderly S x.events
  phase : x.pcb.rxClosed = false → x.live = true → Phase isn S x.events x.pcb

variable {isn S}

theorem Rx.received_eq (x : Rx) : x.received = accepted x.events ++ held x.pcb := rfl

theorem held_none {pcb : TcpPcb} (h : pcb.refused = none) : held pcb = [] := by rw [held, h]; rfl

theorem held_some {pcb : TcpPcb} {d : Bytes} {f : Bool} (h : pcb.refused = some (d, f)) : held pcb = d := by
  rw [held, h]; rfl

theorem accepted_snoc_recv (es : List Event) (d : Bytes) (ret : Ret) :
    accepted (es ++ [.recv d ret]) = accepted es ++ if ret = .ok then d else [] := by
  rw [accepted_append]
  cases ret <;> simp [accepted]

@[simp] theorem accepted_snoc_closed (es : List Event) : accepted (es ++ [.closed]) = accepted es := by
  simp [accepted_append, accepted]

/-- Another call of the callback with data that was received. -/
theorem accepted_recv_prefix {es : List Event} {d : Bytes} (ret : Ret) (h : accepted es ++ d <+: S) :
    accepted (es ++ [.recv d ret]) <+: S := by
  rw [accepted_snoc_recv]
  split
  · exact h
  · rw [List.append_nil]
    exact (List.prefix_append _ _).trans h

/-- A freed pcb. -/
theorem Inv.dead {x y : Rx} (h : Inv isn S x) (he : y.events = x.events)
    (hx : y.pcb.rxClosed = false → x.pcb.rxClosed = false) (hl : y.live = false) : Inv isn S y where
  pre := he ▸ h.pre
  received hb := by rw [hl] at hb; cases hb
  orderly hc := he ▸ h.orderly (hx hc)
  phase _ hb := by rw [hl] at hb; cases hb

/-- A phase does not depend on the window. -/
theorem Phase.window {es : List Event} {pcb pcb' : TcpPcb} (h : Phase isn S es pcb)
    (w : WindowOnly pcb pcb') (hx : pcb'.rxClosed = false) : Phase isn S es pcb' := by
  have hr := w.refused hx
  have hh : held pcb' = held pcb := by rw [held, held, hr]
  cases h with
  | receiving acc upTo pre noFin keep flag =>
    exact .receiving (w.state ▸ acc) (by rw [hh]; exact w.upTo upTo) (by rw [hh]; exact pre) noFin
      (by rw [hr]; exact keep) (by rw [hr]; exact flag)
  | ending acc d refused keep all noFin =>
    exact .ending (w.state ▸ acc) d (hr.trans refused) keep all noFin
  | ended acc refused => exact .ended (w.state ▸ acc) (hr.trans refused)
  | timeWait state => exact .timeWait (w.state.trans state)

theorem WindowOnly.held_prefix {es : List Event} {pcb pcb' : TcpPcb} (w : WindowOnly pcb pcb')
    (h : accepted es ++ held pcb <+: S) : accepted es ++ held pcb' <+: S := by
  rcases w.dropped with hd | hd
  · rw [held, hd]
    exact h
  · rw [held_none hd, List.append_nil]
    exact (List.prefix_append _ _).trans h

/-- The callback is not called. -/
theorem Inv.window {x y : Rx} (h : Inv isn S x) (hl : x.live = true) (w : WindowOnly x.pcb y.pcb)
    (he : y.events = x.events) : Inv isn S y where
  pre := he ▸ h.pre
  received _ := by
    rw [Rx.received_eq, he]
    exact w.held_prefix (h.received hl)
  orderly hx := he ▸ h.orderly (w.rxClosed hx)
  phase hx _ := he ▸ (h.phase (w.rxClosed hx) hl).window w hx

/-- What is known of a connection that has refused data, when it is offered again: `f` is whether the
FIN waits for it. -/
structure Offered (isn : BitVec 32) (S : Bytes) (x z : Rx) (d : Bytes) (f : Bool) (ret : Ret) : Prop where
  window : WindowOnly { x.pcb with refused := none } z.pcb
  events : z.events = x.events ++ [.recv d ret]
  none : z.pcb.refused = none
  pre : accepted x.events ++ d <+: S
  orderly : z.pcb.rxClosed = false → Orderly S z.events
  phase : z.pcb.rxClosed = false → Event.closed ∉ z.events ∧
    ((f = false ∧ z.pcb.state.accepts = true ∧ UpTo isn S (accepted x.events ++ d).length z.pcb) ∨
      (f = true ∧ z.pcb.state.accepts = false ∧ accepted x.events ++ d = S))

theorem eventRecv_offered {x z : Rx} {d : Bytes} {f : Bool} {a : Answer} (h : Inv isn S x)
    (hl : x.live = true) (hst : x.pcb.state ≠ .timeWait) (href : x.pcb.refused = some (d, f))
    (hz : { x with pcb := { x.pcb with refused := none } }.eventRecv d a = some z) :
    Offered isn S x z d f a.ret := by
  obtain ⟨w, he, -⟩ := eventRecv_spec hz
  dsimp only at w he
  have hrec : accepted x.events ++ d <+: S := by
    have := h.received hl
    rwa [Rx.received_eq, held_some href] at this
  have hno' : Event.closed ∉ x.events → Event.closed ∉ z.events := by
    intro hno
    rw [he]
    simpa using hno
  -- the data is the data of the last call
  have hcall : x.pcb.rxClosed = false → kept x.events = some d → Event.closed ∉ x.events →
      Orderly S z.events := by
    intro hx hk hno
    rw [he]
    refine .recv _ (h.orderly hx) hno ?_ hrec
    rw [hk]
    intro d' hd'
    cases hd'
    rfl
  refine ⟨w, he, by rcases w.dropped with hd | hd <;> exact hd, hrec, fun hx => ?_, fun hx => ?_⟩
  · rcases h.phase (w.rxClosed hx) hl with ⟨-, -, -, noFin, keep, -⟩ | ⟨-, d', refused, keep, -, noFin⟩ |
      ⟨-, refused⟩ | hs
    · exact hcall (w.rxClosed hx) (by rw [keep, href]; rfl) noFin
    · cases href.symm.trans refused
      exact hcall (w.rxClosed hx) keep noFin
    · cases href.symm.trans refused
    · exact absurd hs hst
  · rcases h.phase (w.rxClosed hx) hl with ⟨acc, upTo, -, noFin, -, flag⟩ | ⟨acc, d', refused, -, all, noFin⟩ |
      ⟨-, refused⟩ | hs
    · rw [held_some href] at upTo
      have hup : UpTo isn S (accepted x.events ++ d).length { x.pcb with refused := none } :=
        ⟨upTo.nxt, upTo.bound, upTo.wnd, upTo.queue⟩
      exact ⟨hno' noFin, .inl ⟨flag _ href, by rw [w.state]; exact acc, w.upTo hup⟩⟩
    · cases href.symm.trans refused
      exact ⟨hno' noFin, .inr ⟨rfl, by rw [w.state]; exact acc, all⟩⟩
    · cases href.symm.trans refused
    · exact absurd hs hst

namespace Offered

variable {x z : Rx} {d : Bytes} {f : Bool} {ret : Ret} (h : Offered isn S x z d f ret)
include h

theorem accepted_prefix : accepted z.events <+: S := by
  rw [h.events]
  exact accepted_recv_prefix ret h.pre

theorem kept_eq : kept z.events = if ret = .other then some d else Option.none := by
  rw [h.events, kept_snoc_recv]

theorem accepted_eq : accepted z.events = accepted x.events ++ if ret = .ok then d else [] := by
  rw [h.events, accepted_snoc_recv]

/-- The data is accepted and no FIN waits for it. -/
theorem inv_accepted (hret : ret = .ok) (hf : f = false) : Inv isn S z := by
  have hacc : accepted z.events = accepted x.events ++ d := by rw [h.accepted_eq, if_pos hret]
  have hh : accepted z.events ++ held z.pcb = accepted x.events ++ d := by
    rw [held_none h.none, List.append_nil, hacc]
  refine ⟨h.accepted_prefix, fun _ => ?_, h.orderly, fun hx _ => ?_⟩
  · rw [Rx.received_eq, hh]
    exact h.pre
  · obtain ⟨hno, ⟨-, acc, upTo⟩ | ⟨hf', -⟩⟩ := h.phase hx
    · refine .receiving acc (by rw [hh]; exact upTo) (by rw [hh]; exact h.pre) hno ?_ ?_
      · rw [h.kept_eq, h.none, hret]
        rfl
      · rw [h.none]
        intro p hp
        cases hp
    · rw [hf] at hf'
      cases hf'

/-- The data is accepted, and the callback is called for the FIN. -/
theorem inv_closed {y : Rx} {a : Answer} (hret : ret = .ok) (hf : f = true)
    (hy : z.eventClosed a = some y) : Inv isn S y := by
  obtain ⟨w, he, -⟩ := eventClosed_spec hy
  have hnone : y.pcb.refused = Option.none := by
    rcases w.dropped with hd | hd
    · exact hd.trans h.none
    · exact hd
  have hacc : accepted y.events = accepted z.events := by rw [he, accepted_snoc_closed]
  refine ⟨hacc ▸ h.accepted_prefix, fun _ => ?_, fun hx => ?_, fun hx _ => ?_⟩
  · rw [Rx.received_eq, held_none hnone, List.append_nil, hacc]
    exact h.accepted_prefix
  · obtain ⟨hno, ⟨hf', -⟩ | ⟨-, -, hall⟩⟩ := h.phase (w.rxClosed hx)
    · rw [hf] at hf'
      cases hf'
    · rw [he]
      refine .closed (h.orderly (w.rxClosed hx)) hno ?_ ?_
      · rw [h.kept_eq, hret]
        rfl
      · rw [h.accepted_eq, if_pos hret]
        exact hall
  · obtain ⟨-, ⟨hf', -⟩ | ⟨-, acc, -⟩⟩ := h.phase (w.rxClosed hx)
    · rw [hf] at hf'
      cases hf'
    · exact .ended (by rw [w.state]; exact acc) hnone

/-- The data is refused again. -/
theorem inv_refused (hret : ret = .other) :
    Inv isn S { z with pcb := { z.pcb with refused := some (d, f) } } := by
  have hacc : accepted z.events = accepted x.events := by
    rw [h.accepted_eq, if_neg (by rw [hret]; decide), List.append_nil]
  have hh : accepted z.events ++ held { z.pcb with refused := some (d, f) } = accepted x.events ++ d := by
    rw [hacc]
    rfl
  have hkept : kept z.events = some d := by rw [h.kept_eq, if_pos hret]
  refine ⟨h.accepted_prefix, fun _ => ?_, h.orderly, fun hx _ => ?_⟩
  · show accepted z.events ++ held { z.pcb with refused := some (d, f) } <+: S
    rw [hh]
    exact h.pre
  · obtain ⟨hno, ⟨rfl, acc, upTo⟩ | ⟨rfl, acc, hall⟩⟩ := h.phase hx
    · refine .receiving acc ?_ (by dsimp only; rw [hh]; exact h.pre) hno hkept ?_
      · dsimp only
        rw [hh]
        exact ⟨upTo.nxt, upTo.bound, upTo.wnd, upTo.queue⟩
      · intro p hp
        cases hp
        rfl
    · exact .ending acc d rfl hkept (by rw [hacc]; exact hall) hno

end Offered

/-- `tcp_process_refused_data`. -/
theorem tcpProcessRefusedData_inv {x y : Rx} {recv fin : Answer} (h : Inv isn S x) (hl : x.live = true)
    (hst : x.pcb.state ≠ .timeWait) (hr : x.tcpProcessRefusedData recv fin = some y) : Inv isn S y := by
  rw [Rx.tcpProcessRefusedData] at hr
  split at hr
  · cases hr
    exact h
  · rename_i d f href
    obtain ⟨z, hz, hr⟩ := Option.bind_eq_some_iff.1 hr
    have ho := eventRecv_offered h hl hst href hz
    split at hr
    · rename_i hret
      split at hr
      · rename_i hf
        exact ho.inv_closed hret hf hr
      · rename_i hf
        cases hr
        exact ho.inv_accepted hret (by simpa using hf)
    · rename_i hret
      cases hr
      have hdead : y.live = false := by rw [(eventRecv_spec hz).2.2, hret]; rfl
      refine ⟨ho.accepted_prefix, fun hb => ?_, ho.orderly, fun _ hb => ?_⟩ <;>
        exact absurd hb (by simp [hdead])
    · rename_i hret
      cases hr
      exact ho.inv_refused hret

/-! ## `tcp_process` -/

/-- `tcp_receive` leaves the refused data and `TF_RXCLOSED` alone. -/
def SameRefused (pcb pcb' : TcpPcb) : Prop := pcb'.refused = pcb.refused ∧ pcb'.rxClosed = pcb.rxClosed

theorem AckOnly.sameRefused {pcb pcb' : TcpPcb} (a : AckOnly pcb pcb') : SameRefused pcb pcb' :=
  ⟨a.refused, a.rxClosed⟩

theorem SameRefused.trans {a b c : TcpPcb} (h : SameRefused a b) (h' : SameRefused b c) :
    SameRefused a c := ⟨h'.1.trans h.1, h'.2.trans h.2⟩

theorem take_sameRefused {r r' : Received} {g : TcpSeg} {n : Nat} (h : r.take g n = some r') :
    SameRefused r.pcb r'.pcb := by
  rw [Received.take] at h
  split at h
  · cases h
  · obtain ⟨⟨pcb', k⟩, hu, h⟩ := Option.bind_eq_some_iff.1 h
    obtain ⟨w, rfl⟩ := tcpUpdateRcvAnnWnd_eq hu
    cases h
    exact ⟨rfl, rfl⟩

theorem dequeue_sameRefused {q : List TcpSeg} {r r' : Received} (h : dequeue q r = some r') :
    SameRefused r.pcb r'.pcb := by
  induction q generalizing r with
  | nil =>
    cases h
    exact ⟨rfl, rfl⟩
  | cons g q ih =>
    rw [dequeue] at h
    split at h
    · obtain ⟨r1, hr1, h⟩ := Option.bind_eq_some_iff.1 h
      refine (take_sameRefused hr1).trans (SameRefused.trans ?_ (ih h))
      split <;> exact ⟨rfl, rfl⟩
    · cases h
      exact ⟨rfl, rfl⟩

theorem receiveInSeq_sameRefused {pcb : TcpPcb} {g : TcpSeg} {r : Received}
    (h : pcb.receiveInSeq g = some r) : SameRefused pcb r.pcb := by
  rw [receiveInSeq] at h
  obtain ⟨g1, -, h⟩ := Option.bind_eq_some_iff.1 h
  obtain ⟨⟨g2, q⟩, -, h⟩ := Option.bind_eq_some_iff.1 h
  obtain ⟨r1, hr1, h⟩ := Option.bind_eq_some_iff.1 h
  obtain ⟨r2, hr2, h⟩ := Option.bind_eq_some_iff.1 h
  cases h
  exact ((take_sameRefused hr1).trans (dequeue_sameRefused hr2)).trans (tcpAck_ackOnly _).sameRefused

theorem tcpQueueOoseq_sameRefused {pcb pcb' : TcpPcb} {g : TcpSeg} {mem : Bool}
    (h : pcb.tcpQueueOoseq mem g = some pcb') : SameRefused pcb pcb' := by
  rw [tcpQueueOoseq] at h
  split at h
  · split at h
    · cases h
      exact ⟨rfl, rfl⟩
    · obtain ⟨q, -, h⟩ := Option.bind_eq_some_iff.1 h
      cases h
      exact ⟨rfl, rfl⟩
  · cases h
    exact ⟨rfl, rfl⟩

theorem tcpReceive_sameRefused {pcb : TcpPcb} {g : TcpSeg} {r : Received} {mem : Mem}
    (h : pcb.tcpReceive mem g = some r) : SameRefused pcb r.pcb := by
  rw [tcpReceive] at h
  split at h
  · obtain ⟨g1, -, h⟩ := Option.bind_eq_some_iff.1 h
    dsimp only at h
    have hp : SameRefused pcb
        (if (!pcb.startsBefore g && Serial.lt g.seqno pcb.rcvNxt) = true then pcb.tcpAckNow else pcb) := by
      split <;> exact ⟨rfl, rfl⟩
    generalize (if (!pcb.startsBefore g && Serial.lt g.seqno pcb.rcvNxt) = true then pcb.tcpAckNow
      else pcb) = pcb1 at h hp
    refine hp.trans ?_
    split at h
    · split at h
      · exact receiveInSeq_sameRefused h
      · obtain ⟨pcb2, hq, h⟩ := Option.bind_eq_some_iff.1 h
        cases h
        exact (tcpQueueOoseq_sameRefused hq).trans (tcpSendEmptyAck_ackOnly _ _).sameRefused
    · cases h
      exact (tcpSendEmptyAck_ackOnly _ _).sameRefused
  · cases h
    dsimp only
    split <;> exact ⟨rfl, rfl⟩

/-- A segment that brings nothing. -/
theorem tcpReceive_quiet {pcb : TcpPcb} {g : TcpSeg} {r : Received} {mem : Mem}
    (hq : ¬ (0 < g.tcplen ∧ pcb.state.accepts = true)) (h : pcb.tcpReceive mem g = some r) :
    AckOnly pcb r.pcb ∧ r.recvData = [] ∧ r.gotFin = false := by
  rw [tcpReceive, if_neg hq] at h
  cases h
  refine ⟨?_, rfl, rfl⟩
  dsimp only
  split
  · exact .refl pcb
  · exact tcpAckNow_ackOnly pcb

theorem onSeg_accepts {st : TcpSt} (h : st.accepts = true) (ackAll : Bool) :
    (st.onSeg ackAll false).accepts = true ∧ (st.onSeg ackAll true).accepts = false := by
  cases st <;> cases ackAll <;> first | exact ⟨rfl, rfl⟩ | cases h

theorem onSeg_not_accepts {st : TcpSt} (h : st.accepts = false) (ackAll fin : Bool) :
    (st.onSeg ackAll fin).accepts = false := by
  cases st <;> cases ackAll <;> cases fin <;> first | rfl | cases h

theorem afterReceive_refused (pcb : TcpPcb) (ackAll gotFin : Bool) :
    (pcb.afterReceive ackAll gotFin).state = pcb.state.onSeg ackAll gotFin ∧
    ((pcb.afterReceive ackAll gotFin).refused = pcb.refused ∧
        (pcb.afterReceive ackAll gotFin).ooseq = pcb.ooseq ∨
      (pcb.afterReceive ackAll gotFin).refused = none ∧
        pcb.state.onSeg ackAll gotFin = .timeWait) ∧
    (pcb.afterReceive ackAll gotFin).rxClosed = pcb.rxClosed ∧
    (pcb.afterReceive ackAll gotFin).rcvNxt = pcb.rcvNxt ∧
    (pcb.afterReceive ackAll gotFin).rcvWnd = pcb.rcvWnd := by
  rw [afterReceive, purge]
  split
  · rename_i hs
    exact ⟨rfl, .inr ⟨rfl, hs⟩, rfl, rfl, rfl⟩
  · exact ⟨rfl, .inl ⟨rfl, rfl⟩, rfl, rfl, rfl⟩

/-- What `tcp_process` leaves to be passed on, `d` and a FIN if `f`, after the calls `es`. -/
inductive Pending (isn : BitVec 32) (S : Bytes) (es : List Event) (pcb : TcpPcb) (d : Bytes) (f : Bool) :
    Prop
  | data (acc : pcb.state.accepts = true) (noFin : f = false) (free : pcb.refused = none)
      (upTo : UpTo isn S (accepted es ++ d).length pcb) (pre : accepted es ++ d <+: S)
      (notClosed : .closed ∉ es) (keep : kept es = none)
  | fin (acc : pcb.state.accepts = false) (isFin : f = true) (free : pcb.refused = none)
      (all : accepted es ++ d = S) (notClosed : .closed ∉ es) (keep : kept es = none)
  | quiet (noData : d = []) (noFin : f = false) (phase : Phase isn S es pcb)

/-- The phase stays where a segment brings nothing. -/
theorem Phase.quiet {es : List Event} {pcb pcb' : TcpPcb} (h : Phase isn S es pcb)
    (a : AckOnly pcb pcb') (ackAll : Bool) : Phase isn S es (pcb'.afterReceive ackAll false) := by
  obtain ⟨hs, hr, hx, hn, hw⟩ := afterReceive_refused pcb' ackAll false
  rw [a.state] at hs
  by_cases htw : pcb.state.onSeg ackAll false = .timeWait
  · exact .timeWait (hs.trans htw)
  · obtain ⟨hr, hq⟩ : (pcb'.afterReceive ackAll false).refused = pcb.refused ∧
        (pcb'.afterReceive ackAll false).ooseq = pcb.ooseq := by
      rcases hr with ⟨hr, hq⟩ | ⟨-, ht⟩
      · exact ⟨hr.trans a.refused, hq.trans a.ooseq⟩
      · rw [a.state] at ht
        exact absurd ht htw
    have hh : held (pcb'.afterReceive ackAll false) = held pcb := by rw [held, held, hr]
    cases h with
    | receiving acc upTo pre noFin keep flag =>
      refine .receiving (by rw [hs]; exact (onSeg_accepts acc ackAll).1) ?_ (by rw [hh]; exact pre) noFin
        (by rw [hr]; exact keep) (by rw [hr]; exact flag)
      rw [hh]
      exact ⟨hn.trans (a.nxt.trans upTo.nxt), upTo.bound, by rw [hw, a.wnd]; exact upTo.wnd,
        by rw [hq]; exact upTo.queue⟩
    | ending acc d refused keep all noFin =>
      exact .ending (by rw [hs]; exact onSeg_not_accepts acc ackAll false) d (hr.trans refused) keep all
        noFin
    | ended acc refused =>
      exact .ended (by rw [hs]; exact onSeg_not_accepts acc ackAll false) (hr.trans refused)
    | timeWait state =>
      exact absurd (by rw [state]; rfl) htw

theorem Phase.ackOnly {es : List Event} {pcb pcb' : TcpPcb} (h : Phase isn S es pcb)
    (a : AckOnly pcb pcb') : Phase isn S es pcb' := by
  have hh : held pcb' = held pcb := by rw [held, held, a.refused]
  cases h with
  | receiving acc upTo pre noFin keep flag =>
    exact .receiving (by rw [a.state]; exact acc) (by rw [hh]; exact a.upTo upTo) (by rw [hh]; exact pre)
      noFin (by rw [a.refused]; exact keep) (by rw [a.refused]; exact flag)
  | ending acc d refused keep all noFin =>
    exact .ending (by rw [a.state]; exact acc) d (a.refused.trans refused) keep all noFin
  | ended acc refused => exact .ended (by rw [a.state]; exact acc) (a.refused.trans refused)
  | timeWait state => exact .timeWait (a.state.trans state)

theorem prefix_eq_take {d : Bytes} (h : d <+: S) : d = S.take d.length := List.prefix_iff_eq_take.1 h

/-- What is taken from a segment goes on where the accepted bytes end. -/
theorem Taken.append {pcb : TcpPcb} {es : List Event} {m : Nat} {r : Received}
    (h : Taken isn S pcb (accepted es).length m r) (hpre : accepted es <+: S) :
    accepted es ++ r.recvData = S.take m := by
  have hle := h.le
  have ha := prefix_eq_take hpre
  calc accepted es ++ r.recvData
      = S.take (accepted es).length ++ (S.drop (accepted es).length).take (m - (accepted es).length) := by
        rw [← ha, h.data]
    _ = S.take ((accepted es).length + (m - (accepted es).length)) := List.take_add.symm
    _ = S.take m := by rw [Nat.add_sub_cancel' hle]

theorem tcpProcess_frame {pcb : TcpPcb} {mem : Mem} {i : Incoming} {r : Received} {closed : Bool}
    (h : pcb.tcpProcess mem i = some (.goOn r closed)) :
    r.pcb.rxClosed = pcb.rxClosed ∧ (r.pcb.refused = pcb.refused ∨ r.pcb.refused = none) := by
  rw [tcpProcess] at h
  split at h
  · split at h
    · cases h
    · split at h <;> cases h <;> exact ⟨rfl, .inl rfl⟩
  · split at h
    · cases h
      exact ⟨rfl, .inl rfl⟩
    · obtain ⟨r1, hr1, h⟩ := Option.bind_eq_some_iff.1 h
      cases h
      have hsame := tcpReceive_sameRefused hr1
      obtain ⟨-, hr, hx, -, -⟩ := afterReceive_refused r1.pcb i.ackAll r1.gotFin
      refine ⟨hx.trans hsame.2, ?_⟩
      rcases hr with ⟨hr, -⟩ | ⟨hr, -⟩
      · exact .inl (hr.trans hsame.1)
      · exact .inr hr

/-- The segment of a peer in `tcp_process`. -/
theorem tcpProcess_pending {es : List Event} {pcb : TcpPcb} {mem : Mem} {i : Incoming} {r : Received}
    {closed : Bool} (h : Phase isn S es pcb) (hst : pcb.state ≠ .timeWait)
    (hshort : i.inseg.tcplen ≤ 65535) (hfree : pcb.refused.isSome = true → i.inseg.tcplen = 0)
    (hpeer : i.rst = false → i.syn = false → ∃ off, Genuine isn S off i.inseg ∧
      off < (accepted es ++ held pcb).length + 2 ^ 29 ∧
      (accepted es ++ held pcb).length < off + 2 ^ 29)
    (hr : pcb.tcpProcess mem i = some (.goOn r closed)) :
    Pending isn S es r.pcb r.recvData r.gotFin := by
  rw [tcpProcess] at hr
  by_cases hrst : i.rst = true
  · rw [if_pos hrst] at hr
    split at hr
    · cases hr
    · split at hr <;> cases hr
      · exact .quiet rfl rfl (h.ackOnly (tcpAckNow_ackOnly pcb))
      · exact .quiet rfl rfl h
  · rw [if_neg hrst] at hr
    by_cases hsyn : i.syn = true
    · rw [if_pos hsyn] at hr
      cases hr
      exact .quiet rfl rfl (h.ackOnly (tcpAckNow_ackOnly pcb))
    · rw [if_neg hsyn] at hr
      obtain ⟨r1, hr1, hr⟩ := Option.bind_eq_some_iff.1 hr
      cases hr
      by_cases hq : 0 < i.inseg.tcplen ∧ pcb.state.accepts = true
      · -- a segment with data or a FIN, before the FIN was received
        obtain ⟨off, hg, h1, h2⟩ := hpeer (by simpa using hrst) (by simpa using hsyn)
        have hnone : pcb.refused = none := by
          cases hb : pcb.refused with
          | none => rfl
          | some p =>
            have := hfree (by rw [hb]; rfl)
            omega
        obtain ⟨upTo, pre, noFin, keep⟩ : UpTo isn S (accepted es).length pcb ∧ accepted es <+: S ∧
            Event.closed ∉ es ∧ kept es = none := by
          rcases h with ⟨-, upTo, pre, noFin, keep, -⟩ | ⟨acc, -⟩ | ⟨acc, -⟩ | hs
          · rw [held_none hnone, List.append_nil] at upTo pre
            exact ⟨upTo, pre, noFin, by rw [keep, hnone]; rfl⟩
          · exact absurd hq.2 (by simp [acc])
          · exact absurd hq.2 (by simp [acc])
          · exact absurd hs hst
        rw [held_none hnone, List.append_nil] at h1 h2
        obtain ⟨m, hT, hQ, -⟩ := tcpReceive_spec upTo hg h1 h2 hshort hq.2 hr1
        have happ := hT.append pre
        obtain ⟨hs, hr, -, hn, hw⟩ := afterReceive_refused r1.pcb i.ackAll r1.gotFin
        have hfree' : (r1.pcb.afterReceive i.ackAll r1.gotFin).refused = none := by
          rcases hr with ⟨hr, -⟩ | ⟨hr, -⟩
          · exact hr.trans (hT.refused.trans hnone)
          · exact hr
        cases hfin : r1.gotFin with
        | false =>
          have hstate : r1.pcb.state = pcb.state := by
            rcases hT.state with hs | ⟨-, hb, -⟩
            · exact hs
            · rw [hfin] at hb
              cases hb
          rw [hfin, hstate] at hs hr
          rw [hfin] at hn hw hfree'
          have hacc := (onSeg_accepts hq.2 i.ackAll).1
          have hnxt := hT.nxt
          have hwnd := hT.wnd
          rw [hfin] at hnxt hwnd
          simp only [Bool.toNat_false, Nat.add_zero] at hnxt hwnd
          have hlen : (accepted es ++ r1.recvData).length = m := by
            rw [happ, List.length_take, Nat.min_eq_left hT.bound]
          have hpre : accepted es ++ r1.recvData <+: S := happ ▸ List.take_prefix m S
          rw [← hs] at hacc
          refine .data hacc rfl hfree' ?_ hpre noFin keep
          rw [hlen]
          refine ⟨hn.trans hnxt, hT.bound, ?_, ?_⟩
          · rw [hw]
            have := upTo.wnd
            have := hT.le
            omega
          · rcases hr with ⟨-, hq'⟩ | ⟨-, htw⟩
            · rw [hq']
              exact hQ hfin
            · rw [hs, htw] at hacc
              cases hacc
        | true =>
          rw [hfin] at hs hfree'
          have hacc : (r1.pcb.state.onSeg i.ackAll true).accepts = false := by
            rcases hT.state with hst' | ⟨-, -, hst'⟩
            · rw [hst']
              exact (onSeg_accepts hq.2 i.ackAll).2
            · rw [hst']
              rfl
          rw [← hs] at hacc
          refine .fin hacc rfl hfree' ?_ noFin keep
          rw [happ, hT.fin hfin, List.take_length]
      · obtain ⟨ha, hd, hf⟩ := tcpReceive_quiet hq hr1
        refine .quiet hd hf ?_
        dsimp only
        rw [hf]
        exact h.quiet ha i.ackAll

/-! ## The rest of `tcp_input` -/

/-- A connection before the callback is called with `d` and, if `f`, for the FIN. -/
structure Ready (isn : BitVec 32) (S : Bytes) (x : Rx) (d : Bytes) (f : Bool) : Prop where
  received : x.received <+: S
  orderly : x.pcb.rxClosed = false → Orderly S x.events
  pending : x.pcb.rxClosed = false → Pending isn S x.events x.pcb d f

/-- All data was offered, and the callback is to be called for the FIN. -/
structure LastCall (S : Bytes) (es : List Event) (pcb : TcpPcb) : Prop where
  acc : pcb.state.accepts = false
  notClosed : .closed ∉ es
  keep : kept es = pcb.refused.map Prod.fst
  all : accepted es ++ held pcb = S

/-- A connection before the callback is called for the FIN, if `f`. -/
structure Given (isn : BitVec 32) (S : Bytes) (x : Rx) (f : Bool) : Prop where
  pre : accepted x.events <+: S
  received : x.live = true → x.received <+: S
  orderly : x.pcb.rxClosed = false → Orderly S x.events
  phase : x.pcb.rxClosed = false → x.live = true →
    if f then LastCall S x.events x.pcb else Phase isn S x.events x.pcb

theorem Pending.window {es : List Event} {pcb pcb' : TcpPcb} {d : Bytes} {f : Bool}
    (h : Pending isn S es pcb d f) (w : WindowOnly pcb pcb') (hx : pcb'.rxClosed = false) :
    Pending isn S es pcb' d f := by
  have hr := w.refused hx
  cases h with
  | data acc noFin free upTo pre notClosed keep =>
    exact .data (w.state ▸ acc) noFin (hr.trans free) (w.upTo upTo) pre notClosed keep
  | fin acc isFin free all notClosed keep =>
    exact .fin (w.state ▸ acc) isFin (hr.trans free) all notClosed keep
  | quiet noData noFin phase => exact .quiet noData noFin (phase.window w hx)

theorem Ready.accepted_prefix {x : Rx} {d : Bytes} {f : Bool} (h : Ready isn S x d f) :
    accepted x.events <+: S := (List.prefix_append _ _).trans h.received

/-- There is no data to pass on. -/
theorem Ready.given {x : Rx} {f : Bool} (h : Ready isn S x [] f) : Given isn S x f where
  pre := h.accepted_prefix
  received _ := h.received
  orderly := h.orderly
  phase hx _ := by
    rcases h.pending hx with ⟨acc, rfl, free, upTo, pre, noFin, keep⟩ |
      ⟨acc, rfl, free, all, noFin, keep⟩ | ⟨-, rfl, phase⟩
    · have hh : accepted x.events ++ held x.pcb = accepted x.events ++ [] := by rw [held_none free]
      refine Phase.receiving acc (hh ▸ upTo) (hh ▸ pre) noFin (by rw [keep, free]; rfl) ?_
      rw [free]
      intro p hp
      cases hp
    · exact ⟨acc, noFin, by rw [keep, free]; rfl, by rw [held_none free]; exact all⟩
    · exact phase

/-- The callback is called with the data of the segment. -/
theorem Ready.given_recv {x y : Rx} {d : Bytes} {f : Bool} {a : Answer} (h : Ready isn S x d f)
    (hd : d ≠ []) (hx : x.pcb.rxClosed = false) (hy : x.eventRecv d a = some y) :
    Given isn S
      (if a.ret = .other then { y with pcb := { y.pcb with refused := some (d, false) } } else y) f := by
  obtain ⟨w, he, hl⟩ := eventRecv_spec hy
  obtain ⟨hpre, free, noFin, keep, hrest⟩ : accepted x.events ++ d <+: S ∧ x.pcb.refused = none ∧
      Event.closed ∉ x.events ∧ kept x.events = none ∧
      if f then x.pcb.state.accepts = false ∧ accepted x.events ++ d = S
      else x.pcb.state.accepts = true ∧ UpTo isn S (accepted x.events ++ d).length x.pcb := by
    rcases h.pending hx with ⟨acc, rfl, free, upTo, pre, noFin, keep⟩ |
      ⟨acc, rfl, free, all, noFin, keep⟩ | ⟨hnil, -, -⟩
    · exact ⟨pre, free, noFin, keep, acc, upTo⟩
    · exact ⟨by rw [all], free, noFin, keep, acc, all⟩
    · exact absurd hnil hd
  have hno : Event.closed ∉ y.events := by
    rw [he]
    simpa using noFin
  have hord : Orderly S y.events := by
    rw [he]
    refine .recv _ (h.orderly hx) noFin ?_ hpre
    rw [keep]
    intro d' hd'
    cases hd'
  have hnone : y.pcb.refused = none := by
    rcases w.dropped with hd | hd
    · exact hd.trans free
    · exact hd
  have hacc : accepted y.events = accepted x.events ++ if a.ret = .ok then d else [] := by
    rw [he, accepted_snoc_recv]
  have hkept : kept y.events = if a.ret = .other then some d else none := by rw [he, kept_snoc_recv]
  have haccpre : accepted y.events <+: S := by
    rw [he]
    exact accepted_recv_prefix a.ret hpre
  -- after the call: `z` has what it leaves in `refused_data`
  have hgiven : ∀ z : Rx, z.events = y.events → WindowOnly { x.pcb with refused := z.pcb.refused } z.pcb →
      (z.live = true → accepted z.events ++ held z.pcb = accepted x.events ++ d ∧
        kept z.events = z.pcb.refused.map Prod.fst ∧ ∀ p ∈ z.pcb.refused, p.2 = false) → Given isn S z f := by
    intro z hze hzw hz
    refine ⟨hze ▸ haccpre, fun hb => ?_, fun _ => hze ▸ hord, fun _ hb => ?_⟩
    · rw [Rx.received_eq, (hz hb).1]
      exact hpre
    · obtain ⟨hall, hk, hflag⟩ := hz hb
      cases f with
      | false =>
        obtain ⟨acc, upTo⟩ := hrest
        have hup : UpTo isn S (accepted x.events ++ d).length { x.pcb with refused := z.pcb.refused } :=
          ⟨upTo.nxt, upTo.bound, upTo.wnd, upTo.queue⟩
        exact Phase.receiving (hzw.state ▸ acc) (by rw [hall]; exact hzw.upTo hup)
          (by rw [hall]; exact hpre) (hze ▸ hno) hk hflag
      | true =>
        obtain ⟨acc, all⟩ := hrest
        exact ⟨hzw.state ▸ acc, hze ▸ hno, hk, hall.trans all⟩
  split
  · rename_i hret
    refine hgiven _ rfl ⟨w.nxt, w.state, w.ooseq, w.wnd, fun _ => rfl, .inl rfl, w.rxClosed⟩ fun _ => ?_
    refine ⟨?_, by rw [hkept, if_pos hret]; rfl, fun p hp => by cases hp; rfl⟩
    show accepted y.events ++ d = _
    rw [hacc, hret]
    simp
  · rename_i hret
    refine hgiven y rfl ⟨w.nxt, w.state, w.ooseq, w.wnd, fun _ => rfl, .inl rfl, w.rxClosed⟩ fun hb => ?_
    have hok : a.ret = .ok := by
      cases ha : a.ret with
      | ok => rfl
      | abrt =>
        rw [hl, ha] at hb
        cases hb
      | other => exact absurd ha hret
    refine ⟨by rw [held_none hnone, List.append_nil, hacc, if_pos hok], by rw [hkept, if_neg hret, hnone]; rfl,
      fun p hp => ?_⟩
    rw [hnone] at hp
    cases hp

theorem deliver_given {x y : Rx} {d : Bytes} {f : Bool} {a : Answer} (h : Ready isn S x d f)
    (hy : x.deliver d a = some y) : Given isn S y f := by
  rw [Rx.deliver] at hy
  split at hy
  · rename_i hd
    subst hd
    cases hy
    exact h.given
  · rename_i hd
    split at hy
    · cases hy
    · split at hy
      · rename_i hx
        cases hy
        refine ⟨h.accepted_prefix, fun hb => ?_, fun hx' => ?_, fun _ hb => ?_⟩
        · cases hb
        · exact absurd hx (by simpa using hx')
        · cases hb
      · rename_i hx
        obtain ⟨z, hz, hy⟩ := Option.bind_eq_some_iff.1 hy
        cases hy
        exact h.given_recv hd (by simpa using hx) hz

/-- The FIN waits for data that was refused. -/
theorem Given.inv_waits {x : Rx} {d : Bytes} {g : Bool} (h : Given isn S x true) (hl : x.live = true)
    (href : x.pcb.refused = some (d, g)) :
    Inv isn S { x with pcb := { x.pcb with refused := some (d, true) } } where
  pre := h.pre
  received _ := by
    have hrec := h.received hl
    rw [Rx.received_eq, held_some href] at hrec
    exact hrec
  orderly := h.orderly
  phase hx _ := by
    obtain ⟨acc, noFin, keep, all⟩ := h.phase hx hl
    rw [href] at keep
    rw [held_some href] at all
    exact .ending acc d rfl keep all noFin

/-- The callback is called for the FIN. -/
theorem Given.inv_closed {x y : Rx} {a : Answer} (h : Given isn S x true) (hl : x.live = true)
    (href : x.pcb.refused = none) (hy : x.eventClosed a = some y) : Inv isn S y := by
  obtain ⟨w, he, -⟩ := eventClosed_spec hy
  have hnone : y.pcb.refused = none := by
    rcases w.dropped with hd | hd
    · exact hd.trans href
    · exact hd
  have hacc : accepted y.events = accepted x.events := by rw [he, accepted_snoc_closed]
  refine ⟨hacc ▸ h.pre, fun _ => ?_, fun hx => ?_, fun hx _ => ?_⟩
  · rw [Rx.received_eq, held_none hnone, List.append_nil, hacc]
    exact h.pre
  · obtain ⟨-, noFin, keep, all⟩ := h.phase (w.rxClosed hx) hl
    rw [he]
    refine .closed (h.orderly (w.rxClosed hx)) noFin (by rw [keep, href]; rfl) ?_
    rwa [held_none href, List.append_nil] at all
  · obtain ⟨acc, -, -, -⟩ := h.phase (w.rxClosed hx) hl
    exact .ended (w.state ▸ acc) hnone

theorem deliverFin_inv {x y : Rx} {f : Bool} {a : Answer} (h : Given isn S x f)
    (hy : x.deliverFin f a = some y) : Inv isn S y := by
  rw [Rx.deliverFin] at hy
  split at hy
  · rename_i hb
    obtain ⟨rfl, hl⟩ : f = true ∧ x.live = true := by simpa using hb
    split at hy
    · rename_i href
      cases hy
      exact h.inv_waits hl href
    · rename_i href
      exact h.inv_closed hl href hy
  · rename_i hb
    cases hy
    refine ⟨h.pre, h.received, h.orderly, fun hx hl => ?_⟩
    have hf : f = false := by simpa [hl] using hb
    subst hf
    exact h.phase hx hl

theorem finish_inv {x y : Rx} {r : Received} {closed acked : Bool} {ans : Answers}
    (h : Ready isn S { x with pcb := r.pcb } r.recvData r.gotFin)
    (hy : x.finish r closed acked ans = some y) : Inv isn S y := by
  rw [Rx.finish] at hy
  obtain ⟨x1, hx1, hy⟩ := Option.bind_eq_some_iff.1 hy
  obtain ⟨w, he⟩ := eventSent_spec hx1
  dsimp only at w he
  have h1 : Ready isn S x1 r.recvData r.gotFin := by
    refine ⟨?_, fun hx => he ▸ h.orderly (w.rxClosed hx), fun hx => ?_⟩
    · rw [Rx.received_eq, he]
      exact w.held_prefix h.received
    · rw [he]
      exact (h.pending (w.rxClosed hx)).window w hx
  split at hy
  · obtain ⟨x2, hx2, hy⟩ := Option.bind_eq_some_iff.1 hy
    exact deliverFin_inv (deliver_given h1 hx2) hy
  · cases hy
    refine ⟨h1.accepted_prefix, fun hb => ?_, h1.orderly, fun _ hb => ?_⟩ <;> cases hb

theorem tcpTimewaitInput_inv {x : Rx} {i : Incoming} (h : Inv isn S x) (hl : x.live = true) :
    Inv isn S { x with pcb := x.pcb.tcpTimewaitInput i } := by
  refine h.window hl ?_ rfl
  dsimp only
  rw [tcpTimewaitInput]
  split
  · exact .refl _
  · split
    · exact ack_windowOnly _ _ _ _
    · exact .refl _

theorem tcpProcess_ready {x : Rx} {mem : Mem} {i : Incoming} {r : Received} {closed : Bool}
    (h : Inv isn S x) (hl : x.live = true) (hst : x.pcb.state ≠ .timeWait)
    (hshort : i.inseg.tcplen ≤ 65535) (hfree : x.pcb.refused.isSome = true → i.inseg.tcplen = 0)
    (hpeer : x.pcb.rxClosed = false → FromPeer isn S x (.segment mem i {}))
    (hr : x.pcb.tcpProcess mem i = some (.goOn r closed)) :
    Ready isn S { x with pcb := r.pcb } r.recvData r.gotFin := by
  obtain ⟨hx, href⟩ := tcpProcess_frame hr
  refine ⟨?_, fun hc => h.orderly (hx ▸ hc), fun hc => ?_⟩
  · show accepted x.events ++ held r.pcb <+: S
    rcases href with href | href
    · rw [held, href]
      exact h.received hl
    · rw [held_none href, List.append_nil]
      exact h.pre
  · exact tcpProcess_pending (h.phase (hx ▸ hc) hl) hst hshort hfree (hpeer (hx ▸ hc)) hr

/-- What was received does not change while refused data is offered again. -/
theorem tcpProcessRefusedData_received {x y : Rx} {recv fin : Answer}
    (hr : x.tcpProcessRefusedData recv fin = some y) (hl : y.live = true) :
    (y.pcb.rxClosed = false → y.received = x.received) ∧ y.pcb.state = x.pcb.state ∧
      y.pcb.ooseq = x.pcb.ooseq := by
  rw [Rx.tcpProcessRefusedData] at hr
  split at hr
  · cases hr
    exact ⟨fun _ => rfl, rfl, rfl⟩
  · rename_i d f href
    obtain ⟨z, hz, hr⟩ := Option.bind_eq_some_iff.1 hr
    obtain ⟨w, he, hzl⟩ := eventRecv_spec hz
    have hnone : z.pcb.refused = none := by rcases w.dropped with hd | hd <;> exact hd
    have hacc : accepted z.events = accepted x.events ++ if recv.ret = .ok then d else [] := by
      rw [he, accepted_snoc_recv]
    rw [Rx.received_eq, Rx.received_eq, held_some href]
    split at hr
    · rename_i hret
      rw [if_pos hret] at hacc
      split at hr
      · obtain ⟨w', he', -⟩ := eventClosed_spec hr
        refine ⟨fun hx => ?_, w'.state.trans w.state, w'.ooseq.trans w.ooseq⟩
        rw [he', accepted_snoc_closed, hacc, held_none ((w'.refused hx).trans hnone), List.append_nil]
      · cases hr
        refine ⟨fun _ => ?_, w.state, w.ooseq⟩
        rw [hacc, held_none hnone, List.append_nil]
    · rename_i hret
      cases hr
      rw [hzl, hret] at hl
      cases hl
    · rename_i hret
      cases hr
      refine ⟨fun _ => ?_, w.state, w.ooseq⟩
      show accepted z.events ++ d = _
      rw [hacc, hret]
      simp

theorem tcpInput_inv {x y : Rx} {mem : Mem} {i : Incoming} {ans : Answers} (h : Inv isn S x)
    (hl : x.live = true) (hpeer : FromPeer isn S x (.segment mem i ans))
    (hr : x.tcpInput mem i ans = some y) : Inv isn S y := by
  rw [Rx.tcpInput] at hr
  split at hr
  · cases hr
    exact h
  · rename_i hshort
    split at hr
    · cases hr
      exact tcpTimewaitInput_inv h hl
    · rename_i hst
      obtain ⟨z, hz, hr⟩ := Option.bind_eq_some_iff.1 hr
      have hi := tcpProcessRefusedData_inv h hl hst hz
      split at hr
      · cases hr
        exact hi
      · rename_i hzl
        have hzl : z.live = true := by simpa using hzl
        obtain ⟨hrec, hzst, -⟩ := tcpProcessRefusedData_received hz hzl
        split at hr
        · -- data that is refused still: the segment is dropped
          cases hr
          split
          · exact hi.window hzl (tcpSendEmptyAck_ackOnly z.pcb mem.ack).windowOnly rfl
          · exact hi
        · rename_i hdrop
          obtain ⟨p, hp, hr⟩ := Option.bind_eq_some_iff.1 hr
          cases p with
          | reset =>
            cases hr
            exact hi.dead rfl id rfl
          | goOn r closed =>
            refine finish_inv (tcpProcess_ready hi hzl (by rwa [hzst]) (by omega) ?_ ?_ hp) hr
            · intro hsome
              have : ¬ 0 < i.inseg.tcplen := fun hpos => hdrop ⟨hsome, hpos⟩
              omega
            · intro hx
              simp only [FromPeer, hrec hx]
              exact hpeer

/-! ## Runs -/

theorem shutdownTx_phase {es : List Event} {pcb : TcpPcb} (h : Phase isn S es pcb) :
    Phase isn S es { pcb with state := shutdownTx pcb.state } := by
  have hacc : (shutdownTx pcb.state).accepts = pcb.state.accepts := by cases pcb.state <;> rfl
  cases h with
  | receiving acc upTo pre noFin keep flag =>
    exact .receiving (hacc.trans acc) ⟨upTo.nxt, upTo.bound, upTo.wnd, upTo.queue⟩ pre noFin keep flag
  | ending acc d refused keep all noFin => exact .ending (hacc.trans acc) d refused keep all noFin
  | ended acc refused => exact .ended (hacc.trans acc) refused
  | timeWait state => exact .timeWait (by simp only [state]; rfl)

theorem step_inv {x y : Rx} {a : Act} (h : Inv isn S x) (hpeer : FromPeer isn S x a)
    (hr : x.step a = some y) : Inv isn S y := by
  unfold Rx.step at hr
  split at hr
  · rename_i hl
    cases a with
    | segment mem i ans => exact tcpInput_inv h hl hpeer hr
    | fasttmr ans =>
      dsimp only at hr
      split at hr
      · cases hr
      · rename_i hst
        rw [Rx.tcpFasttmr] at hr
        apply tcpProcessRefusedData_inv _ _ _ hr
        · refine h.window hl ?_ rfl
          dsimp only
          split
          · exact ack_windowOnly _ _ _ _
          · exact .refl _
        · exact hl
        · dsimp only
          split <;> exact hst
    | recved len =>
      obtain ⟨pcb, hp, hr⟩ := Option.bind_eq_some_iff.1 hr
      cases hr
      exact h.window hl (tcpRecved_windowOnly hp) rfl
    | output =>
      cases hr
      exact h.window hl (ack_windowOnly _ _ _ _) rfl
    | shutdownRx =>
      cases hr
      exact h.window hl (shutRx_windowOnly _) rfl
    | shutdownTx =>
      cases hr
      exact ⟨h.pre, h.received, h.orderly, fun hx hl => shutdownTx_phase (h.phase hx hl)⟩
  · cases hr

theorem start_inv (isn : BitVec 32) (S : Bytes) (mss : Nat) : Inv isn S (Rx.start isn mss) where
  pre := List.nil_prefix
  received _ := List.nil_prefix
  orderly _ := .nil
  phase _ _ := by
    refine .receiving rfl ⟨(Serial.at_zero isn).symm, Nat.zero_le _, Nat.le_refl _, trivial⟩ List.nil_prefix
      (List.not_mem_nil) rfl fun p hp => ?_
    cases hp

theorem run_inv {mss : Nat} {tr : List (Rx × Act)} {x : Rx} (h : Run Rx.step (Rx.start isn mss) tr x)
    (hp : Meets (FromPeer isn S) tr) : Inv isn S x :=
  h.inv hp (start_inv isn S mss) fun _ _ _ hi hc hs => step_inv hi hc hs

/-- In every run with a peer that sends the stream `S`, the application accepts a prefix of `S`, and
unless it shuts down its receiving side, the calls of its callback keep the order of `S`. -/
theorem events_orderly {mss : Nat} {tr : List (Rx × Act)} {x : Rx}
    (h : Run Rx.step (Rx.start isn mss) tr x) (hp : Meets (FromPeer isn S) tr) :
    accepted x.events <+: S ∧ (x.pcb.rxClosed = false → Orderly S x.events) :=
  ⟨(run_inv h hp).pre, (run_inv h hp).orderly⟩

/-- The peer's segments, checked at the offset that their sequence number gives. -/
def fromPeerCheck (isn : BitVec 32) (S : Bytes) (x : Rx) : Act → Bool
  | .segment _ i _ =>
    let off := (i.seqno - isn).toNat
    decide (Genuine isn S off i.inseg ∧ off < x.received.length + 2 ^ 29 ∧
      x.received.length < off + 2 ^ 29)
  | _ => true

theorem fromPeer_of_check {x : Rx} {a : Act} (h : fromPeerCheck isn S x a = true) :
    FromPeer isn S x a := by
  cases a with
  | segment mem i ans => exact fun _ _ => ⟨_, of_decide_eq_true h⟩
  | _ => trivial

theorem meets_of_check {tr : List (Rx × Act)} (h : Meets (fun x a => fromPeerCheck isn S x a = true) tr) :
    Meets (FromPeer isn S) tr := fun y hy => fromPeer_of_check (h y hy)

/-- The peer's stream is `1, 2, 3, 4, 5`, and its sequence numbers wrap around. The second segment
comes first; the data is refused once. -/
def reordered : List Act :=
  [.segment {} { seqno := 0, data := [3, 4] } {},
   .segment {} { seqno := 4294967294, data := [1, 2, 3] } { recv := { ret := .other } },
   .fasttmr {},
   .segment {} { seqno := 1, data := [4, 5], fin := true } {}]

theorem events_orderly_reordered : ∃ tr x, Run Rx.step (Rx.start 4294967294 1460) tr x ∧
    x.events = [.recv [1, 2, 3, 4] .other, .recv [1, 2, 3, 4] .ok, .recv [5] .ok, .closed] ∧
    accepted x.events <+: [1, 2, 3, 4, 5] ∧ (x.pcb.rxClosed = false → Orderly [1, 2, 3, 4, 5] x.events) := by
  obtain ⟨x, hrun, he⟩ := exists_run Rx.step (Rx.start 4294967294 1460) reordered
    (fun x => x.events == [.recv [1, 2, 3, 4] .other, .recv [1, 2, 3, 4] .ok, .recv [5] .ok, .closed])
    (by decide +kernel)
  refine ⟨_, x, hrun, by simpa using he, events_orderly hrun (meets_of_check ?_)⟩
  decide +kernel

end Inv

end Lwip
