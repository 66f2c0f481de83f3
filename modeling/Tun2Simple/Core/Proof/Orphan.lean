import Tun2Simple.Core.Lwip
import Tun2Simple.Core.Proof.HalfClose
import Tun2Simple.Core.Proof.Lifetime

/-!
# Orphaned connections

A pcb that lwIP frees without its err callback leaves its connection in `tcpConns` for good. The
vendored lwIP does so at the end of `TIME_WAIT`, on the final ACK in `LAST_ACK` and for data in
`TIME_WAIT`, the last two only with `TF_RXCLOSED`, which `tcpRecvFn` sets for data it can no longer
deliver.

`Wire` relates lwIP's fields to the connection: with lwIP's side closed the handler's `CloseWrite`
took effect; a FIN that lwIP took in was reported or is about to be; a pcb in `CLOSING` or
`TIME_WAIT` whose connection has not ended is about to call the callback that ends it. So only two
kinds of segment orphan a connection (`Seg.Orphans`), and `freed_ended` is about the runs without
them. `close_orphans` is a run with one.
-/

namespace Core

open Trans

/-! ## The relation between lwIP and a connection -/

/-- lwIP's side is closed, or its FIN is on its way out. -/
def TcpSt.txShut : TcpSt → Bool
  | .established | .closeWait => false
  | _ => true

/-- The app's FIN was taken in. -/
def TcpSt.rxFin : TcpSt → Bool
  | .closeWait | .closing | .lastAck | .timeWait => true
  | _ => false

namespace TcpSt

theorem txShut_onSeg (st : TcpSt) (a f : Bool) : (st.onSeg a f).txShut = st.txShut := by
  cases st <;> cases a <;> cases f <;> rfl

theorem rxFin_onSeg (st : TcpSt) (a : Bool) : (st.onSeg a false).rxFin = st.rxFin := by
  cases st <;> cases a <;> rfl

/-- A segment with text that leads to `TIME_WAIT` carries the FIN. -/
theorem onSeg_timeWait {st : TcpSt} {a f : Bool} (hacc : st.accepts = true)
    (h : st.onSeg a f = .timeWait) :
    f = true ∧ (st = .finWait2 ∨ (st = .finWait1 ∧ a = true)) := by
  cases st <;> cases a <;> cases f <;> simp_all [onSeg, accepts]

/-- `CLOSING` and `TIME_WAIT` are entered with the FIN. -/
theorem onSeg_fin {st : TcpSt} {a f : Bool} (hold : ¬ (st = .closing ∨ st = .timeWait))
    (h : st.onSeg a f = .closing ∨ st.onSeg a f = .timeWait) : f = true := by
  cases st <;> cases a <;> cases f <;> simp_all [onSeg]

end TcpSt

namespace Work

def sent : Work → Bool
  | .events b _ _ _ => b
  | _ => false

def close : Work → Bool
  | .events _ b _ _ => b
  | _ => false

def recv : Work → Option Bytes
  | .events _ _ d _ => d
  | _ => none

/-- The callback without data is still to be called. -/
def fin : Work → Bool
  | .refusedFin _ => true
  | .events _ _ _ b => b
  | _ => false

variable (n : Option Seg)

@[simp] theorem sent_ofNext : (ofNext n).sent = false := by cases n <;> rfl
@[simp] theorem close_ofNext : (ofNext n).close = false := by cases n <;> rfl
@[simp] theorem recv_ofNext : (ofNext n).recv = none := by cases n <;> rfl
@[simp] theorem fin_ofNext : (ofNext n).fin = false := by cases n <;> rfl
@[simp] theorem fin_refusedFin : (Work.refusedFin n).fin = true := rfl
@[simp] theorem sent_refusedFin : (Work.refusedFin n).sent = false := rfl
@[simp] theorem close_refusedFin : (Work.refusedFin n).close = false := rfl
@[simp] theorem recv_refusedFin : (Work.refusedFin n).recv = none := rfl
@[simp] theorem fin_refused : (Work.refused n).fin = false := rfl
@[simp] theorem recv_refused : (Work.refused n).recv = none := rfl
@[simp] theorem close_refused : (Work.refused n).close = false := rfl
@[simp] theorem fin_seg (g : Seg) : (Work.seg g).fin = false := rfl
@[simp] theorem recv_seg (g : Seg) : (Work.seg g).recv = none := rfl
@[simp] theorem close_seg (g : Seg) : (Work.seg g).close = false := rfl
@[simp] theorem fin_done : done.fin = false := rfl
@[simp] theorem recv_done : done.recv = none := rfl
@[simp] theorem close_done : done.close = false := rfl

@[simp] theorem ofNext_ne_refusedFin (m : Option Seg) : ofNext n ≠ .refusedFin m := by
  cases n <;> simp [ofNext, done]

section
variable (a b c : Bool) (d : Option Bytes)

@[simp] theorem sent_events : (Work.events a b d c).sent = a := rfl
@[simp] theorem close_events : (Work.events a b d c).close = b := rfl
@[simp] theorem recv_events : (Work.events a b d c).recv = d := rfl
@[simp] theorem fin_events : (Work.events a b d c).fin = c := rfl

end

end Work

/-- What the holder of `lwipMutex` does for pcb `p`. -/
inductive At
  /-- lwIP is not running. -/
  | free
  /-- lwIP is running, or a callback of another pcb. -/
  | lwip
  | accept
  | recv
  | fin
  | check (k : CheckPc)
  deriving DecidableEq, Repr

def Lock.at (l : Lock) (p : Nat) : At :=
  match l with
  | .free | .abort _ _ _ => .free
  | .lwip _ => .lwip
  | .accept c => if c = p then .accept else .lwip
  | .receive _ q _ _ | .pipeWrite _ q _ _ | .pipe _ q _ _ _ _ => if q = p then .recv else .lwip
  | .localClosed _ q _ => if q = p then .fin else .lwip
  | .check _ q _ k => if q = p then .check k else .lwip

/-- The callback in progress ends the connection, whatever other goroutines do. -/
def Doomed (x : Conn) : At → Prop
  | .fin => x.didCloseWrite = true
  | .check k => ((k = .isClosed ∨ k = .checkClosing) ∧ (x.state = .closing ∨ x.state = .aborting)) ∨
      (k = .checkAborting ∧ x.state = .aborting)
  | _ => False

/-- lwIP's fields `t` of a connection `x` that has not ended. -/
structure Wire (t : Tcp) (x : Conn) (l : At) : Prop where
  tx : t.st.txShut = true ∨ t.closePend = true → x.didCloseWrite = true
  rx : t.st.rxFin = true → x.didLocalClose = true ∨ x.state = .aborting ∨ t.work.fin = true ∨
    (∃ d, t.refused = some (d, true)) ∨ l = .fin
  fresh : l = .accept → t = {}
  settled : l = .free → t.work = .done
  atRecv : l = .recv → t.refused = none ∧ t.work.sent = false ∧ t.work.close = false ∧
    t.work.recv = none
  refusedFin : ∀ n, t.work = .refusedFin n → t.refused = none
  seg : ∀ g, t.work = .seg g → t.refused ≠ none → t.st.txShut = false ∧ t.closePend = false
  recv : t.work.recv ≠ none → t.refused = none ∧ ¬ (t.rxClosed = true ∧ t.st = .timeWait)
  tw : t.st = .closing ∨ t.st = .timeWait → t.refused = none ∧ (t.work.fin = true ∨ Doomed x l)
  close : t.work.close = true → t.st = .lastAck ∧ t.refused = none ∧ t.work.fin = false ∧
    (t.rxClosed = true → t.work.sent = true ∨ Doomed x l)

theorem wire_init (x : Conn) (l : At) : Wire {} x l := by
  constructor <;> simp [TcpSt.txShut, TcpSt.rxFin, Work.done, Work.sent, Work.close, Work.recv]

/-- A segment that makes lwIP free the pcb without its err callback. -/
def Seg.Orphans (g : Seg) (t : Tcp) : Prop :=
  t.rxClosed = true ∧
    ((t.st = .lastAck ∧ g.ackAll = true ∧ g.acked = false) ∨
      (g.data ≠ [] ∧ g.fin = true ∧
        (t.st = .finWait2 ∨ (t.st = .finWait1 ∧ g.ackAll = true))))

instance (g : Seg) (t : Tcp) : Decidable (g.Orphans t) := inferInstanceAs (Decidable (_ ∧ _))

namespace Wire

variable {t t' : Tcp} {x x' : Conn} {l l' : At}

/-- The connection's side changes. -/
theorem conn (h : Wire t x l) (hw : x.didCloseWrite = true → x'.didCloseWrite = true)
    (hr : x.didLocalClose = true ∨ x.state = .aborting ∨ l = .fin →
      x'.didLocalClose = true ∨ x'.state = .aborting ∨ l' = .fin)
    (ha : l' = .accept → l = .accept) (hf : l' = .free → l = .free) (hv : l' = .recv → l = .recv)
    (hd : Doomed x l → Doomed x' l') : Wire t x' l' where
  tx hs := hw (h.tx hs)
  rx hs := by
    rcases h.rx hs with h1 | h1 | h1 | h1 | h1
    · rcases hr (.inl h1) with h2 | h2 | h2 <;> simp [h2]
    · rcases hr (.inr (.inl h1)) with h2 | h2 | h2 <;> simp [h2]
    · exact .inr (.inr (.inl h1))
    · exact .inr (.inr (.inr (.inl h1)))
    · rcases hr (.inr (.inr h1)) with h2 | h2 | h2 <;> simp [h2]
  fresh hl := h.fresh (ha hl)
  settled hl := h.settled (hf hl)
  atRecv hl := h.atRecv (hv hl)
  refusedFin := h.refusedFin
  seg := h.seg
  recv := h.recv
  tw hs := ⟨(h.tw hs).1, (h.tw hs).2.imp_right hd⟩
  close hc := ⟨(h.close hc).1, (h.close hc).2.1, (h.close hc).2.2.1,
    fun hrx => ((h.close hc).2.2.2 hrx).imp_right hd⟩

/-- Another goroutine's section; the callback in progress is the same. -/
theorem conn_same (h : Wire t x l) (hw : x.didCloseWrite = true → x'.didCloseWrite = true)
    (hr : x.didLocalClose = true ∨ x.state = .aborting →
      x'.didLocalClose = true ∨ x'.state = .aborting)
    (hd : Doomed x l → Doomed x' l) : Wire t x' l := by
  refine h.conn hw (fun hr' => ?_) id id id hd
  rcases hr' with h1 | h1 | h1
  · rcases hr (.inl h1) with h2 | h2 <;> simp [h2]
  · rcases hr (.inr h1) with h2 | h2 <;> simp [h2]
  · exact .inr (.inr h1)

/-- The state of the connection once lwIP's side is in `LAST_ACK` and nothing is pending. -/
theorem closing_or_aborting (h : Wire t x l) (hb : x.state.live →
    Book x.state x.didCloseWrite x.didLocalClose) (he : x.state.terminal = false)
    (hst : t.st = .lastAck) (href : t.refused = none) (hfin : t.work.fin = false) (hl : l ≠ .fin) :
    x.state = .closing ∨ x.state = .aborting := by
  by_cases ha : x.state = .aborting
  · exact .inr ha
  · have hw := h.tx (.inl (by rw [hst]; rfl))
    have hr : x.didLocalClose = true := by
      rcases h.rx (by rw [hst]; rfl) with h1 | h1 | h1 | ⟨d, h1⟩ | h1
      · exact h1
      · exact absurd h1 ha
      · rw [hfin] at h1; cases h1
      · rw [href] at h1; cases h1
      · exact absurd h1 hl
    refine .inl ((hb ⟨ha, ?_⟩).closing.2 ⟨hw, hr⟩)
    exact TcpConnState.terminal_eq_false.1 he

/-! ### lwIP's own steps -/

/-- With lwIP running nothing is about to end the connection but the FIN's callback. -/
theorem tw_lwip (h : Wire t x .lwip) (hst : t.st = .closing ∨ t.st = .timeWait) :
    t.refused = none ∧ t.work.fin = true := by
  obtain ⟨h1, h2⟩ := h.tw hst
  exact ⟨h1, h2.resolve_right id⟩

theorem rx_lwip (h : Wire t x .lwip) (hst : t.st.rxFin = true) :
    x.didLocalClose = true ∨ x.state = .aborting ∨ t.work.fin = true ∨
      ∃ d, t.refused = some (d, true) := by
  rcases h.rx hst with h1 | h1 | h1 | h1 | h1
  · exact .inl h1
  · exact .inr (.inl h1)
  · exact .inr (.inr (.inl h1))
  · exact .inr (.inr (.inr h1))
  · cases h1

/-- A pcb with refused data is in neither `CLOSING` nor `TIME_WAIT`. -/
theorem not_tw (h : Wire t x l) (href : t.refused ≠ none) :
    ¬ (t.st = .closing ∨ t.st = .timeWait) := fun hst => href (h.tw hst).1

/-- Refused data is passed to the recv callback again. -/
theorem refused_recv (h : Wire t x .lwip) {d : Bytes} {fin : Bool} {next : Option Seg}
    (href : t.refused = some (d, fin)) (hwork : t.work = .refused next) :
    Wire { t with refused := none, work := if fin then .refusedFin next else .ofNext next } x
      .recv where
  tx := h.tx
  rx hst := by
    rcases h.rx_lwip hst with h1 | h1 | h1 | ⟨d', h1⟩
    · exact .inl h1
    · exact .inr (.inl h1)
    · simp [hwork] at h1
    · rw [href] at h1; cases h1; exact .inr (.inr (.inl rfl))
  fresh hl := by cases hl
  settled hl := by cases hl
  atRecv _ := by cases fin <;> simp
  refusedFin _ _ := rfl
  seg _ _ hr := absurd rfl hr
  recv hr := by cases fin <;> simp at hr
  tw hst := absurd hst (h.not_tw (by rw [href]; simp))
  close hc := by cases fin <;> simp at hc

/-- The FIN that was refused with the data is reported. -/
theorem refusedFin_fin (h : Wire t x .lwip) {next : Option Seg} (hwork : t.work = .refusedFin next) :
    Wire { t with work := .ofNext next } x .fin where
  tx := h.tx
  rx _ := .inr (.inr (.inr (.inr rfl)))
  fresh hl := by cases hl
  settled hl := by cases hl
  atRecv hl := by cases hl
  refusedFin _ _ := h.refusedFin next hwork
  seg _ _ hr := absurd (h.refusedFin next hwork) hr
  recv hr := by simp at hr
  tw hst := ⟨h.refusedFin next hwork, .inr (h.tx (.inl (by rcases hst with h | h <;> rw [h] <;> rfl)))⟩
  close hc := by simp at hc

/-- Nothing is left to do for the segment. -/
theorem drop (h : Wire t x .lwip) (href : t.refused ≠ none) {g : Seg} (hwork : t.work = .seg g) :
    Wire { t with work := .done } x .lwip where
  tx := h.tx
  rx hst := by
    rcases h.rx_lwip hst with h1 | h1 | h1 | h1
    · exact .inl h1
    · exact .inr (.inl h1)
    · simp [hwork] at h1
    · exact .inr (.inr (.inr (.inl h1)))
  fresh hl := by cases hl
  settled hl := by cases hl
  atRecv hl := by cases hl
  refusedFin n hn := by simp [Work.done] at hn
  seg g hn := by simp [Work.done] at hn
  recv hr := by simp at hr
  tw hst := absurd hst (h.not_tw href)
  close hc := by simp at hc

/-- A segment is processed. -/
theorem process (h : Wire t x .lwip) {g : Seg} (hwork : t.work = .seg g)
    (href : t.refused ≠ none → g.data = [] ∧ g.fin = false) (ho : ¬ g.Orphans t) :
    Wire (t.process g) x .lwip where
  tx hst := by
    refine h.tx (hst.imp_left fun hst => ?_)
    rwa [Tcp.process, TcpSt.txShut_onSeg] at hst
  rx hst := by
    by_cases hfin : (t.st.accepts && g.fin) = true
    · exact .inr (.inr (.inl hfin))
    · have hold : t.st.rxFin = true := by
        rw [Bool.not_eq_true] at hfin
        simpa only [Tcp.process, hfin, TcpSt.rxFin_onSeg] using hst
      rcases h.rx_lwip hold with h1 | h1 | h1 | h1
      · exact .inl h1
      · exact .inr (.inl h1)
      · simp [hwork] at h1
      · exact .inr (.inr (.inr (.inl h1)))
  fresh hl := by cases hl
  settled hl := by cases hl
  atRecv hl := by cases hl
  refusedFin n hn := by simp [Tcp.process] at hn
  seg g hn := by simp [Tcp.process] at hn
  recv hr := by
    have hacc : t.st.accepts = true ∧ g.data ≠ [] := by
      by_contra hn
      simp [Tcp.process, hn] at hr
    refine ⟨Classical.byContradiction fun hn => hacc.2 (href hn).1, ?_⟩
    rintro ⟨hrx, hst⟩
    obtain ⟨hfin, hst'⟩ := TcpSt.onSeg_timeWait hacc.1 hst
    rw [hacc.1, Bool.true_and] at hfin
    exact ho ⟨hrx, .inr ⟨hacc.2, hfin, hst'⟩⟩
  tw hst := by
    have hnot : ¬ (t.st = .closing ∨ t.st = .timeWait) := fun hold => by
      have := (h.tw_lwip hold).2
      simp [hwork] at this
    have hfin := TcpSt.onSeg_fin hnot hst
    refine ⟨Classical.byContradiction fun hn => ?_, .inl hfin⟩
    rw [(href hn).2] at hfin
    simp at hfin
  close hc := by
    have hc' : t.st = .lastAck ∧ g.ackAll = true := by simpa [Tcp.process] using hc
    obtain ⟨hst, hack⟩ := hc'
    refine ⟨?_, Classical.byContradiction fun hn => ?_, ?_, fun hrx =>
      .inl (Classical.byContradiction fun hn => ?_)⟩
    · simp [Tcp.process, hst, TcpSt.onSeg]
    · have := (h.seg g hwork hn).1
      rw [hst] at this
      cases this
    · simp [Tcp.process, hst, TcpSt.accepts]
    · exact ho ⟨hrx, .inl ⟨hst, hack, by simpa [Tcp.process] using hn⟩⟩

/-- The sent callback of a closing connection ends it. -/
theorem sent (h : Wire t x .lwip) (hb : x.state.live →
    Book x.state x.didCloseWrite x.didLocalClose) (he : x.state.terminal = false) {c f : Bool}
    {r : Option Bytes} (hwork : t.work = .events true c r f) :
    Wire { t with work := .events false c r f } x (.check .isClosed) where
  tx := h.tx
  rx hst := by
    have := h.rx_lwip hst
    rw [hwork] at this
    rcases this with h1 | h1 | h1 | h1
    · exact .inl h1
    · exact .inr (.inl h1)
    · exact .inr (.inr (.inl h1))
    · exact .inr (.inr (.inr (.inl h1)))
  fresh hl := by cases hl
  settled hl := by cases hl
  atRecv hl := by cases hl
  refusedFin n hn := by cases hn
  seg g hn := by cases hn
  recv hr := h.recv (by rw [hwork]; exact hr)
  tw hst := by
    have := h.tw_lwip hst
    rw [hwork] at this
    exact ⟨this.1, .inl this.2⟩
  close hc := by
    have hcl : t.work.close = true := by rw [hwork]; exact hc
    obtain ⟨hst, href, hfin, -⟩ := h.close hcl
    refine ⟨hst, href, by rw [hwork] at hfin; exact hfin, fun _ => .inr (.inl ⟨.inl rfl, ?_⟩)⟩
    exact h.closing_or_aborting hb he hst href hfin (by simp)

/-- Data is passed to the recv callback. -/
theorem recv_event (h : Wire t x .lwip) {d : Bytes} {f : Bool}
    (hwork : t.work = .events false false (some d) f) :
    Wire { t with work := .events false false none f } x .recv where
  tx := h.tx
  rx hst := by
    have := h.rx_lwip hst
    rw [hwork] at this
    rcases this with h1 | h1 | h1 | h1
    · exact .inl h1
    · exact .inr (.inl h1)
    · exact .inr (.inr (.inl h1))
    · exact .inr (.inr (.inr (.inl h1)))
  fresh hl := by cases hl
  settled hl := by cases hl
  atRecv _ := ⟨(h.recv (by rw [hwork]; simp)).1, rfl, rfl, rfl⟩
  refusedFin n hn := by cases hn
  seg g hn := by cases hn
  recv hr := by simp at hr
  tw hst := by
    have := h.tw_lwip hst
    rw [hwork] at this
    exact ⟨this.1, .inl this.2⟩
  close hc := by simp at hc

/-- The FIN is reported. -/
theorem fin_event (h : Wire t x .lwip) (href : t.refused = none) :
    Wire { t with work := .done } x .fin where
  tx := h.tx
  rx _ := .inr (.inr (.inr (.inr rfl)))
  fresh hl := by cases hl
  settled hl := by cases hl
  atRecv hl := by cases hl
  refusedFin n hn := by cases hn
  seg g hn := by cases hn
  recv hr := by simp at hr
  tw hst := ⟨href, .inr (h.tx (.inl (by rcases hst with h | h <;> rw [h] <;> rfl)))⟩
  close hc := by simp at hc

/-- The FIN stays with refused data. -/
theorem fin_refuse (h : Wire t x .lwip) {d : Bytes} {b : Bool} (href : t.refused = some (d, b)) :
    Wire { t with refused := some (d, true), work := .done } x .lwip where
  tx := h.tx
  rx _ := .inr (.inr (.inr (.inl ⟨d, rfl⟩)))
  fresh hl := by cases hl
  settled hl := by cases hl
  atRecv hl := by cases hl
  refusedFin n hn := by cases hn
  seg g hn := by cases hn
  recv hr := by simp at hr
  tw hst := absurd hst (h.not_tw (by rw [href]; simp))
  close hc := by simp at hc

/-- lwIP's side is closed, or marked to be. -/
theorem setTx (h : Wire t x l) (hw : x.didCloseWrite = true) (hwork : t.work = .done)
    (ha : l ≠ .accept) {st : TcpSt} {b : Bool}
    (hst : st = t.st ∨ (t.st = .established ∧ st = .finWait1) ∨
      (t.st = .closeWait ∧ st = .lastAck)) : Wire { t with st := st, closePend := b } x l where
  tx _ := hw
  rx hrx := by
    refine h.rx ?_
    rcases hst with rfl | ⟨-, rfl⟩ | ⟨h1, rfl⟩
    · exact hrx
    · cases hrx
    · rw [h1]; rfl
  fresh hl := absurd hl ha
  settled := h.settled
  atRecv := h.atRecv
  refusedFin := h.refusedFin
  seg g hn := by rw [hwork] at hn; cases hn
  recv hr := by simp [hwork] at hr
  tw hs := by
    rcases hst with rfl | ⟨-, rfl⟩ | ⟨-, rfl⟩
    · exact h.tw hs
    · simp at hs
    · simp at hs
  close hc := by simp [hwork] at hc

theorem sendFin (h : Wire t x l) (hw : x.didCloseWrite = true) (hwork : t.work = .done)
    (ha : l ≠ .accept) (mem : Bool) : Wire (t.sendFin mem) x l := by
  have hsame : Wire { t with st := t.st, closePend := t.closePend } x l := h
  cases hst : t.st <;> cases mem <;> simp only [Tcp.sendFin, hst]
  case established.true => exact h.setTx hw hwork ha (.inl hst.symm)
  case established.false => exact h.setTx hw hwork ha (.inr (.inl ⟨hst, rfl⟩))
  case closeWait.true => exact h.setTx hw hwork ha (.inl hst.symm)
  case closeWait.false => exact h.setTx hw hwork ha (.inr (.inr ⟨hst, rfl⟩))
  all_goals exact hsame

/-- A segment comes in, or refused data is tried again. -/
theorem start (h : Wire t x l) (hwork : t.work = .done) (hl : l = .lwip ∨ l = .free) {w : Work}
    (hw : (∃ g, w = .seg g ∧ t.refused = none) ∨ ∃ n, w = .refused n) :
    Wire { t with work := w } x .lwip := by
  have hd : ¬ Doomed x l := by rcases hl with rfl | rfl <;> exact id
  have hnot : ¬ (t.st = .closing ∨ t.st = .timeWait) := fun hst => by
    rcases (h.tw hst).2 with h1 | h1
    · simp [hwork] at h1
    · exact hd h1
  have hw1 : w.fin = false ∧ w.recv = none ∧ w.close = false := by
    rcases hw with ⟨g, rfl, -⟩ | ⟨n, rfl⟩ <;> simp
  exact {
    tx := h.tx
    rx := fun hst => by
      rcases h.rx hst with h1 | h1 | h1 | h1 | h1
      · exact .inl h1
      · exact .inr (.inl h1)
      · simp [hwork] at h1
      · exact .inr (.inr (.inr (.inl h1)))
      · rcases hl with rfl | rfl <;> cases h1
    fresh := fun hl => by cases hl
    settled := fun hl => by cases hl
    atRecv := fun hl => by cases hl
    refusedFin := fun n hn => by rcases hw with ⟨g, rfl, -⟩ | ⟨m, rfl⟩ <;> cases hn
    seg := fun g hn hr => by
      rcases hw with ⟨g', rfl, href⟩ | ⟨m, rfl⟩
      · exact absurd href hr
      · cases hn
    recv := fun hr => absurd hw1.2.1 hr
    tw := fun hst => absurd hst hnot
    close := fun hc => by rw [hw1.2.2] at hc; cases hc }

/-- The poll callback. -/
theorem poll (h : Wire t x .lwip) (hwork : t.work = .done) : Wire t x (.check .isClosed) := by
  have hnot : ¬ (t.st = .closing ∨ t.st = .timeWait) := fun hst => by
    have := (h.tw_lwip hst).2
    simp [hwork] at this
  exact {
    tx := h.tx
    rx := fun hst => by
      rcases h.rx_lwip hst with h1 | h1 | h1 | h1
      · exact .inl h1
      · exact .inr (.inl h1)
      · exact .inr (.inr (.inl h1))
      · exact .inr (.inr (.inr (.inl h1)))
    fresh := fun hl => by cases hl
    settled := fun hl => by cases hl
    atRecv := fun hl => by cases hl
    refusedFin := h.refusedFin
    seg := h.seg
    recv := h.recv
    tw := fun hst => absurd hst hnot
    close := fun hc => by simp [hwork] at hc }

end Wire

/-- Where a callback for `e` starts. -/
def LwEv.at : LwEv → At
  | .sent | .poll => .check .isClosed
  | .recv _ => .recv
  | .fin => .fin
  | .err | .free | .tau => .lwip

/-- Between two segments. -/
theorem Wire.idleTau {t t' : Tcp} {x : Conn} (h : Wire t x .lwip) (hwork : t.work = .done)
    (hev : t.idleTau t' = true) : Wire t' x .lwip := by
  unfold Tcp.idleTau at hev
  split at hev
  case h_1 g _ =>
    simp only [Bool.and_eq_true, Option.isNone_iff_eq_none, beq_iff_eq] at hev
    obtain ⟨href, ht'⟩ := hev
    rw [ht']
    exact h.start hwork (.inl rfl) (.inl ⟨g, rfl, href⟩)
  case h_2 next _ =>
    simp only [Bool.and_eq_true, beq_iff_eq] at hev
    rw [hev.2]
    exact h.start hwork (.inl rfl) (.inr ⟨next, rfl⟩)
  case h_3 =>
    simp only [Bool.and_eq_true, Bool.or_eq_true, beq_iff_eq] at hev
    obtain ⟨hp, ht'⟩ := hev
    have hw := h.tx (.inr hp)
    have h' : Wire { t with closePend := false } x .lwip :=
      h.setTx hw hwork (by simp) (.inl rfl)
    rcases ht' with rfl | rfl
    · exact h'.sendFin hw hwork (by simp) true
    · exact h'.sendFin hw hwork (by simp) false

/-- lwIP's own steps keep the relation, and none frees the pcb without its err callback. -/
theorem Wire.mayDo {t t' : Tcp} {x : Conn} (h : Wire t x .lwip) (hb : x.state.live →
    Book x.state x.didCloseWrite x.didLocalClose) (he : x.state.terminal = false) {e : LwEv}
    (hev : t.mayDo e t' = true) (ho : ∀ g, t.work = .seg g → ¬ g.Orphans t) :
    e ≠ .free ∧ (e ≠ .err → Wire t' x e.at) := by
  unfold Tcp.mayDo at hev
  split at hev
  case h_1 next d hwork =>
    split at hev
    case h_1 d' fin href =>
      simp only [Bool.and_eq_true, beq_iff_eq] at hev
      rw [hev.2]
      exact ⟨by simp, fun _ => h.refused_recv href hwork⟩
    case h_2 => cases hev
  case h_2 next hwork =>
    rw [beq_iff_eq.1 hev]
    exact ⟨by simp, fun _ => h.refusedFin_fin hwork⟩
  case h_3 g hwork =>
    refine ⟨by simp, fun _ => ?_⟩
    split at hev
    case isTrue hd =>
      rw [beq_iff_eq.1 hev]
      exact h.drop (by simpa [Option.isSome_iff_ne_none] using hd.1) hwork
    case isFalse hd =>
      rw [beq_iff_eq.1 hev]
      refine h.process hwork (fun href => ?_) (ho g hwork)
      simpa [Option.isSome_iff_ne_none, href] using hd
  case h_4 c r f hwork =>
    rw [beq_iff_eq.1 hev]
    exact ⟨by simp, fun _ => h.sent hb he hwork⟩
  case h_5 r f hwork =>
    simp only [Bool.and_eq_true, beq_iff_eq] at hev
    rcases (h.close (by rw [hwork]; rfl)).2.2.2 hev.1 with h1 | h1
    · simp [hwork] at h1
    · exact absurd h1 id
  case h_6 => exact ⟨by simp, fun h => absurd rfl h⟩
  case h_7 r f hwork =>
    simp only [Bool.and_eq_true, beq_iff_eq] at hev
    exact absurd hev.1 (h.recv (by rw [hwork]; simp)).2
  case h_8 => exact ⟨by simp, fun h => absurd rfl h⟩
  case h_9 d f d' hwork =>
    simp only [Bool.and_eq_true, beq_iff_eq] at hev
    rw [hev.2]
    exact ⟨by simp, fun _ => h.recv_event hwork⟩
  case h_10 hwork =>
    simp only [Bool.and_eq_true, Option.isNone_iff_eq_none, beq_iff_eq] at hev
    rw [hev.2]
    exact ⟨by simp, fun _ => h.fin_event hev.1⟩
  case h_11 hwork =>
    refine ⟨by simp, fun _ => ?_⟩
    split at hev
    case h_1 d b href =>
      rw [beq_iff_eq.1 hev]
      exact h.fin_refuse href
    case h_2 => cases hev
  case h_12 hwork =>
    simp only [Bool.and_eq_true] at hev
    exact ⟨by simp, fun _ => h.idleTau hwork hev.2⟩
  case h_13 => exact ⟨by simp, fun h => absurd rfl h⟩
  case h_14 hwork =>
    simp only [Bool.and_eq_true, beq_iff_eq] at hev
    rw [hev.2]
    exact ⟨by simp, fun _ => h.poll hwork⟩
  case h_15 hwork =>
    simp only [Bool.and_eq_true, beq_iff_eq] at hev
    have := (h.tw_lwip (.inr hev.1)).2
    simp [hwork] at this
  case h_16 => cases hev

/-! ### The callbacks -/

namespace Wire

variable {t t' : Tcp} {x x' : Conn} {l : At}

/-- `Receive` returns. -/
theorem received (h : Wire t x .recv) : Wire t x .lwip :=
  h.conn id (by simp) (by simp) (by simp) (by simp) id

/-- `tcpRecvFn` shuts the rx side down. -/
theorem shutdownRx (h : Wire t x .recv) : Wire t.shutdownRx x .lwip := by
  obtain ⟨href, -, hclose, hrecv⟩ := h.atRecv rfl
  have h' := h.received
  exact {
    tx := h'.tx
    rx := fun hst => by
      rcases h'.rx_lwip hst with h1 | h1 | h1 | ⟨d, h1⟩
      · exact .inl h1
      · exact .inr (.inl h1)
      · exact .inr (.inr (.inl h1))
      · rw [href] at h1; cases h1
    fresh := fun hl => by cases hl
    settled := fun hl => by cases hl
    atRecv := fun hl => by cases hl
    refusedFin := fun _ _ => rfl
    seg := fun _ _ hr => absurd rfl hr
    recv := fun hr => absurd hrecv hr
    tw := fun hst => ⟨rfl, (h'.tw hst).2⟩
    close := fun hc => absurd (hclose.symm.trans hc) (by simp) }

/-- lwIP keeps data that was refused: the handler has closed nothing yet. -/
theorem refuse (h : Wire t x .recv) (hw : x.didCloseWrite = false) (d : Bytes) :
    Wire (t.refuse d) x .lwip := by
  obtain ⟨-, -, hclose, hrecv⟩ := h.atRecv rfl
  have h' := h.received
  have htx : ¬ (t.st.txShut = true ∨ t.closePend = true) := fun hs => by
    rw [h.tx hs] at hw; cases hw
  have htw : ¬ (t.st = .closing ∨ t.st = .timeWait) := fun hst =>
    htx (.inl (by rcases hst with h | h <;> rw [h] <;> rfl))
  obtain ⟨hst, hcp⟩ : t.st.txShut = false ∧ t.closePend = false := by simpa using htx
  have hfields : (t.refuse d).st = t.st ∧ (t.refuse d).closePend = t.closePend ∧
      (t.refuse d).refused = some (d, t.work.fin) ∧ (t.refuse d).work.fin = false ∧
      (t.refuse d).work.recv = none ∧ (t.refuse d).work.close = false ∧
      ∀ n, (t.refuse d).work ≠ .refusedFin n := by
    unfold Tcp.refuse
    split
    · rename_i next hwork
      exact ⟨rfl, rfl, by rw [hwork]; rfl, by simp, by simp, by simp, by simp⟩
    · rename_i hwork
      rw [hwork] at hclose hrecv
      exact ⟨rfl, rfl, by rw [hwork]; rfl, rfl, hrecv, hclose, by simp⟩
    · rename_i hn1 hn2
      have hfin : t.work.fin = false := by
        cases hwork : t.work with
        | refusedFin next => exact absurd hwork (hn1 next)
        | events a b c f =>
          cases f
          · rfl
          · exact absurd hwork (hn2 a b c)
        | _ => rfl
      exact ⟨rfl, rfl, by rw [hfin], hfin, hrecv, hclose, fun n => hn1 n⟩
  obtain ⟨est, ecp, eref, efin, erecv, eclose, ene⟩ := hfields
  exact {
    tx := fun hs => by rw [est, ecp] at hs; exact absurd hs htx
    rx := fun hs => by
      rw [est] at hs
      rcases h'.rx_lwip hs with h1 | h1 | h1 | h1
      · exact .inl h1
      · exact .inr (.inl h1)
      · exact .inr (.inr (.inr (.inl ⟨d, by rw [eref, h1]⟩)))
      · obtain ⟨d', h1⟩ := h1
        rw [(h.atRecv rfl).1] at h1; cases h1
    fresh := fun hl => by cases hl
    settled := fun hl => by cases hl
    atRecv := fun hl => by cases hl
    refusedFin := fun n hn => absurd hn (ene n)
    seg := fun _ _ _ => by rw [est, ecp]; exact ⟨hst, hcp⟩
    recv := fun hr => absurd erecv hr
    tw := fun hs => by rw [est] at hs; exact absurd hs htw
    close := fun hc => absurd (eclose.symm.trans hc) (by simp) }

/-- `setLocalClosed` takes effect. -/
theorem localClosed (h : Wire t x .fin) (hb : x.state.live →
    Book x.state x.didCloseWrite x.didLocalClose) {st : TcpConnState}
    (hst : x.state.setLocalClosed = some st) (hw : x'.didCloseWrite = x.didCloseWrite)
    (hr : x'.didLocalClose = true) (hs : x'.state = st) : Wire t x' (.check .isClosed) := by
  have hlive : x.state.live := TcpConnState.live_of_setLocalClosed (by rw [hst]; simp)
  refine h.conn (by rw [hw]; exact id) (fun _ => .inl hr) (by simp) (by simp) (by simp) fun hd => ?_
  refine .inl ⟨.inl rfl, .inl ?_⟩
  rw [hs]
  exact ((hb hlive).setLocalClosed hst).2.closing.2 ⟨hd, rfl⟩

/-- `setLocalClosed` returns at once. -/
theorem localClosed_none (h : Wire t x .fin) (hb : x.state.live →
    Book x.state x.didCloseWrite x.didLocalClose) (he : x.state.terminal = false)
    (hst : x.state.setLocalClosed = none) : Wire t x (.check .isClosed) := by
  have hr : x.didLocalClose = true ∨ x.state = .aborting := by
    cases hx : x.state <;> simp [hx, TcpConnState.setLocalClosed, TcpConnState.num] at hst
    case receiveClosed => exact .inl ((hb (by rw [hx]; decide)).receiveClosed.1 hx).1
    case closing => exact .inl ((hb (by rw [hx]; decide)).closing.1 hx).2
    case aborting => exact .inr rfl
    case closed => rw [hx] at he; cases he
    case errored => rw [hx] at he; cases he
  refine h.conn id (fun _ => hr.imp_right .inl) (by simp) (by simp) (by simp) fun hd => ?_
  by_cases ha : x.state = .aborting
  · exact .inl ⟨.inl rfl, .inr ha⟩
  · have hlive : x.state.live := ⟨ha, TcpConnState.terminal_eq_false.1 he⟩
    exact .inl ⟨.inl rfl, .inl ((hb hlive).closing.2 ⟨hd, hr.resolve_right ha⟩)⟩

/-- `checkState` goes on to its next section. -/
theorem check {k k' : CheckPc} (h : Wire t x (.check k)) (hd : Doomed x (.check k) →
    Doomed x (.check k')) : Wire t x (.check k') :=
  h.conn id (by simp) (by simp) (by simp) (by simp) hd

/-- `checkState` returns. -/
theorem checked (h : Wire t x (.check .broadcast)) : Wire t x .lwip :=
  h.conn id (by simp) (by simp) (by simp) (by simp) (by simp [Doomed])

end Wire

/-! ## All connections -/

/-- lwIP's fields of every connection that has not ended. -/
def Wires (s : Sys) : Prop :=
  ∀ p < s.n, (s.conn p).state.terminal = false → Wire (s.pcb p).tcp (s.conn p) (s.lock.at p)

/-- The segment that lwIP processes next. -/
def Work.next : Work → Option Seg
  | .seg g => some g
  | _ => none

/-- lwIP processes no segment that makes it free the pcb without its err callback. -/
def NoOrphanSeg (s : Sys) : Act → Prop
  | .lwip p .tau _ =>
    (s.pcb p).hooked = true → ∀ g ∈ (s.pcb p).tcp.work.next, ¬ g.Orphans (s.pcb p).tcp
  | _ => True

instance (s : Sys) : (a : Act) → Decidable (NoOrphanSeg s a)
  | .lwip p .tau _ => inferInstanceAs (Decidable ((s.pcb p).hooked = true → ∀ g ∈ _, _))
  | .lwip _ .sent _ | .lwip _ .poll _ | .lwip _ (.recv _) _ | .lwip _ .fin _ | .lwip _ .err _
  | .lwip _ .free _ | .lock | .unlock | .accept _ | .held _ | .call _ _ _ | .go _ _ => .isTrue trivial

/-- What the relation needs to know of the state before a step. -/
structure Wired (s : Sys) : Prop extends Inv s where
  half : Half s
  shut : Shut s
  kept : s.registry.Kept
  wires : Wires s

section
variable {s s' : Sys} {a : Act} {M : Lwip}

/-! ### Goroutines -/

/-- What a goroutine's section leaves of a connection. -/
structure Keeps (x x' : Conn) : Prop where
  w : x.didCloseWrite = true → x'.didCloseWrite = true
  r : x.didLocalClose = true ∨ x.state = .aborting → x'.didLocalClose = true ∨ x'.state = .aborting
  closing : x.state = .closing → x'.state = .closing ∨ x'.state = .aborting
  aborting : x.state = .aborting → x'.state = .aborting

theorem Keeps.doomed {x x' : Conn} (h : Keeps x x') {l : At} (hd : Doomed x l) : Doomed x' l := by
  cases l with
  | fin => exact h.w hd
  | check k =>
    rcases hd with ⟨hk, hst | hst⟩ | ⟨hk, hst⟩
    · exact .inl ⟨hk, h.closing hst⟩
    · exact .inl ⟨hk, .inr (h.aborting hst)⟩
    · exact .inr ⟨hk, h.aborting hst⟩
  | _ => exact hd

theorem Wire.keeps {t : Tcp} {x x' : Conn} {l : At} (h : Wire t x l) (hk : Keeps x x') :
    Wire t x' l :=
  h.conn_same hk.w hk.r hk.doomed

theorem keeps_of_go {g : Gid} {x : Env} (h : s.goStep g x = some s') (c : Nat) :
    Keeps (s.conn c) (s'.conn c) := by
  have of_life : ∀ {l : Life}, s'.registry.life c = l →
      Keeps (s.conn c) { state := l.state, didCloseWrite := l.w, didLocalClose := l.r } →
      Keeps (s.conn c) (s'.conn c) := by
    rintro _ rfl ⟨h1, h2, h3, h4⟩
    exact ⟨h1, h2, h3, h4⟩
  have he := goStep_effect h
  generalize hR : s'.registry = R at he
  have set : ∀ {d : Nat} {l : Life}, R = s.registry.set d l →
      Keeps (s.conn d) { state := l.state, didCloseWrite := l.w, didLocalClose := l.r } →
      Keeps (s.conn c) (s'.conn c) := by
    rintro d l rfl hk
    by_cases hc : c = d
    · subst hc
      exact of_life (by rw [hR, Registry.set_life_self]) hk
    · refine of_life (l := s.registry.life c) (by rw [hR, Registry.set_life_ne _ _ hc]) ?_
      exact ⟨id, id, .inl, id⟩
  cases he with
  | quiet => exact of_life (by rw [hR]) ⟨id, id, .inl, id⟩
  | connected g c _ _ hst => exact set rfl ⟨id, by simp [hst, Sys.registry], by simp [hst], by simp [hst]⟩
  | closeWrite g c ic st _ _ hst =>
    have := TcpConnState.closeWrite_eq_some hst
    refine set rfl ⟨fun _ => rfl, ?_, ?_, ?_⟩
    all_goals rcases this with ⟨h, rfl⟩ | ⟨h | h | h, rfl⟩ <;> simp [h, Sys.registry]
  | abort g c =>
    refine set rfl ⟨id, ?_, ?_, ?_⟩
    all_goals cases h : (s.conn c).state <;>
      simp [h, Sys.registry, TcpConnState.abort, TcpConnState.num]
  | _ => contradiction

/-- What a goroutine's section does to lwIP's fields of `p`, and to what is done for it. -/
inductive GoTcp (s : Sys) (g : Gid) (p : Nat) (t : Tcp) (l : At) : Prop
  | same : t = (s.pcb p).tcp → l = s.lock.at p → GoTcp s g p t l
  /-- The connect goroutine calls `tcp_process_refused_data`. -/
  | refused : s.lock = .free → t = (s.pcb p).tcp ∨ t = { (s.pcb p).tcp with work := .refused none } →
      l = .lwip → GoTcp s g p t l
  | settled (h : Holder) : s.lock = .lwip h → s.Settled → t = (s.pcb p).tcp → l = .free →
      GoTcp s g p t l
  | shutdown (mem : Bool) : s.lock = .free → s.AtShutdown g p → t = (s.pcb p).tcp.sendFin mem →
      l = .free → GoTcp s g p t l

theorem Sys.setTcp_tcp_self (s : Sys) (p : Nat) (t : Tcp) : ((s.setTcp p t).pcb p).tcp = t := by
  simp [Sys.setTcp, Sys.setPcb]

theorem Sys.setTcp_pcb_ne (s : Sys) {p q : Nat} (t : Tcp) (h : q ≠ p) :
    (s.setTcp p t).pcb q = s.pcb q := by
  simp [Sys.setTcp, Sys.setPcb, h]

theorem goStep_tcp {g : Gid} {x : Env} (h : s.goStep g x = some s') (p : Nat) :
    GoTcp s g p (s'.pcb p).tcp (s'.lock.at p) := by
  unfold Sys.goStep at h
  simp only at h
  split at h
  case h_1 => cases h; exact .same rfl rfl
  case h_2 => split at h <;> cases h <;> exact .same rfl rfl
  case h_3 =>
    split at h
    · rename_i hl
      split at h <;> cases h
      · refine .refused hl ?_ rfl
        by_cases hp : p = (s.gos g).conn
        · subst hp; exact .inr (Sys.setTcp_tcp_self _ _ _)
        · exact .inl (congrArg Pcb.tcp (Sys.setTcp_pcb_ne _ _ hp))
      · exact .same rfl rfl
    · cases h
  case h_4 =>
    split at h <;> cases h
    rename_i hl
    exact .settled _ hl.1 hl.2 rfl rfl
  case h_5 => split at h <;> cases h; exact .same rfl rfl
  case h_6 => split at h <;> cases h; exact .same rfl rfl
  case h_7 =>
    split at h
    · cases h; exact .same rfl rfl
    · split at h <;> cases h <;> exact .same rfl rfl
  case h_8 =>
    split at h
    · split at h <;> cases h <;> refine .same ?_ ?_ <;>
        simp only [Sys.leaveWrite, Sys.goto, Sys.setConn] <;> split <;> split <;> rfl
    · cases h
  case h_9 => cases h; exact .same rfl rfl
  case h_10 ic _ =>
    split at h <;> cases h
    · cases ic <;> exact .same rfl rfl
    · exact .same rfl rfl
  case h_11 ic mem hpc =>
    split at h <;> cases h
    rename_i hl
    have hpcb : ∀ s₁ : Sys, (s₁.leaveClose g (s.gos g).conn ic).pcb = s₁.pcb := by
      intro s₁; cases ic <;> rfl
    rw [hpcb, Sys.leaveClose_lock]
    by_cases hp : p = (s.gos g).conn
    · subst hp
      refine .shutdown mem hl ⟨ic, by rw [← hpc]⟩ (Sys.setTcp_tcp_self _ _ _) ?_
      rw [Sys.setTcp_lock, Sys.access_lock, hl]
      rfl
    · exact .same (congrArg Pcb.tcp (Sys.setTcp_pcb_ne _ _ hp)) rfl
  case h_12 => cases h; exact .same rfl rfl
  case h_13 => split at h <;> cases h <;> exact .same rfl rfl
  case h_14 => cases h; exact .same rfl rfl
  case h_15 => split at h <;> cases h; rename_i hl; exact .same rfl (by rw [hl]; rfl)
  case h_16 => split at h <;> cases h <;> exact .same rfl rfl
  case h_17 => cases h; exact .same rfl rfl
  case h_18 =>
    split at h
    · rename_i hl
      split at h <;> cases h
      exact .same rfl (by rw [hl]; rfl)
    · cases h
  case h_19 => split at h <;> cases h; exact .same rfl rfl
  case h_20 => cases h

/-- `lwipMutex` is taken with lwIP, or released with nothing left to do. -/
theorem Wire.locked {t : Tcp} {x : Conn} (h : Wire t x .free) : Wire t x .lwip :=
  h.conn id (by simp) (by simp) (by simp) (by simp) id

theorem Wire.unlocked {t : Tcp} {x : Conn} (h : Wire t x .lwip) (hwork : t.work = .done) :
    Wire t x .free :=
  have hcheck : Wire t x (.check .broadcast) :=
    h.conn id (by simp) (by simp) (by simp) (by simp) (by simp [Doomed])
  { hcheck with
    rx := fun hst => by
      rcases h.rx_lwip hst with h1 | h1 | h1 | h1
      · exact .inl h1
      · exact .inr (.inl h1)
      · exact .inr (.inr (.inl h1))
      · exact .inr (.inr (.inr (.inl h1)))
    fresh := by simp
    settled := fun _ => hwork
    atRecv := by simp
    tw := fun hst => ⟨(h.tw hst).1, (h.tw hst).2⟩
    close := fun hc => by simp [hwork] at hc }

/-- The pcb of a connection that has not ended is settled with lwIP. -/
theorem Wired.settled (h : Wired s) (hs : s.Settled) {p : Nat} (hp : p < s.n)
    (he : (s.conn p).state.terminal = false) : (s.pcb p).tcp.work = .done := by
  rcases hs p hp with hf | hw
  · exact absurd ((h.kept p hp he).2.2.symm.trans hf) (by simp)
  · exact hw

theorem Wired.go_step (h : Wired s) {g : Gid} {x : Env} (hs : s.goStep g x = some s') {p : Nat}
    (hp : p < s.n) (he : (s.conn p).state.terminal = false) :
    Wire (s'.pcb p).tcp (s'.conn p) (s'.lock.at p) := by
  have hw := (h.wires p hp he).keeps (keeps_of_go hs p)
  cases goStep_tcp hs p with
  | same ht hl => rw [ht, hl]; exact hw
  | refused hfree ht hl =>
    rw [hfree] at hw
    rw [hl]
    rcases ht with ht | ht
    · rw [ht]; exact hw.locked
    · rw [ht]; exact hw.start (hw.settled rfl) (.inr rfl) (.inr ⟨none, rfl⟩)
  | settled hd hlock hset ht hl =>
    rw [hlock] at hw
    rw [ht, hl]
    exact hw.unlocked (h.settled hset hp he)
  | shutdown mem hfree hat ht hl =>
    rw [hfree] at hw
    rw [ht, hl]
    exact hw.sendFin ((keeps_of_go hs p).w (h.shut.pending hat).1) (hw.settled rfl) (by simp [Lock.at]) mem

/-! ### Code that runs with `lwipMutex` held -/

/-- The pcb and the connection `p` are as they were. -/
def Sys.Same (s s' : Sys) (p : Nat) : Prop := s'.pcb p = s.pcb p ∧ s'.conn p = s.conn p

theorem Sys.same_closeInternal (s : Sys) {c p : Nat} (hp : p ≠ c) : s.Same (s.closeInternal c) p := by
  constructor <;> simp [Sys.closeInternal, Sys.access, Sys.emit, Sys.setPcb, Sys.release, hp]

theorem Sys.same_tcpAbort (s : Sys) {p q : Nat} (hq : q ≠ p)
    (h : s.tcpConns (s.conn p).connKey = none) : s.Same (s.tcpAbort p) q := by
  have h' : ((s.access p .abort).free p).tcpConns
      (((s.access p .abort).free p).conn p).connKey = none := h
  unfold Sys.tcpAbort
  split
  · rw [Sys.tcpErrFn_of_none _ h']
    constructor <;> simp [Sys.emit, Sys.free, Sys.setPcb, Sys.access, hq]
  · constructor <;> simp [Sys.emit, Sys.free, Sys.setPcb, Sys.access, hq]

theorem Sys.same_abortInternal (s : Sys) {c p : Nat} (hp : p ≠ c) :
    s.Same (s.abortInternal c) p := by
  obtain ⟨h1, h2⟩ := (s.release c).same_tcpAbort hp (s.release_lookup c)
  exact ⟨h1, h2.trans (by simp [Sys.release, hp])⟩

theorem Sys.same_checkState (s : Sys) {c p : Nat} (hp : p ≠ c) (k : CheckPc) :
    s.Same (s.checkState c k).1 p := by
  cases k <;> simp only [Sys.checkState]
  case isClosed => exact ⟨rfl, rfl⟩
  case checkClosing =>
    split
    · exact s.same_closeInternal hp
    · exact ⟨rfl, rfl⟩
  case checkAborting =>
    split
    · exact s.same_abortInternal hp
    · exact ⟨rfl, rfl⟩
  case broadcast => exact ⟨rfl, rfl⟩

theorem Sys.same_recvClsd (s : Sys) (h : Holder) {q p : Nat} (hp : p ≠ q) :
    s.Same (s.recvClsd h q) p :=
  ⟨Sys.setTcp_pcb_ne _ _ hp, rfl⟩

theorem Sys.same_checkReturn {s s₁ : Sys} {p : Nat} (h : s.Same s₁ p) (hd : Holder)
    (e : Option LwipErr) : s.Same (s₁.checkReturn hd e) p := by
  unfold Sys.checkReturn
  split <;> exact h

/-- The code that runs for one connection leaves the others alone. -/
theorem heldStep_other {x : Env} (h : s.heldStep x = some s') {c p : Nat}
    (hc : s.lock.conn = some c) (hf : ∀ {q d}, s.lock.frame = .callback q d → q = d)
    (hp : p ≠ c) : s.Same s' p ∧ s'.lock.at p = s.lock.at p := by
  unfold Sys.heldStep at h
  split at h
  case h_1 hl =>
    rw [hl] at hc; cases hc
    split at h <;> cases h
    refine ⟨⟨rfl, Function.update_of_ne hp _ _⟩, ?_⟩
    rw [hl]
    simp [Lock.at, hp.symm]
  case h_2 hd q d b hl =>
    rw [hl] at hc; cases hc
    obtain rfl := hf (q := q) (d := c) (by rw [hl]; rfl)
    cases h
    have hat : s.lock.at p = .lwip := by rw [hl]; simp [Lock.at, hp.symm]
    rw [hat]
    unfold Sys.receiveCheck
    split
    · exact ⟨⟨rfl, rfl⟩, by simp [Lock.at, hp.symm]⟩
    · exact ⟨⟨Sys.setTcp_pcb_ne _ _ hp, rfl⟩, rfl⟩
    · exact ⟨s.same_recvClsd hd hp, rfl⟩
    · exact ⟨Sys.same_abortInternal (s.emit _) hp, rfl⟩
    · exact ⟨⟨rfl, rfl⟩, rfl⟩
  case h_3 hd q d b hl =>
    rw [hl] at hc; cases hc
    obtain rfl := hf (q := q) (d := c) (by rw [hl]; rfl)
    have hat : s.lock.at p = .lwip := by rw [hl]; simp [Lock.at, hp.symm]
    rw [hat]
    split at h <;> cases h
    · exact ⟨s.same_recvClsd hd hp, rfl⟩
    · exact ⟨⟨rfl, rfl⟩, by simp [Lock.at, hp.symm]⟩
  case h_4 hd q d b rest once hl =>
    rw [hl] at hc; cases hc
    obtain rfl := hf (q := q) (d := c) (by rw [hl]; rfl)
    split at h <;> cases h
    exact ⟨⟨rfl, rfl⟩, by rw [hl]; simp [Lock.at, hp.symm]⟩
  case h_5 hd q d b rest once hl =>
    rw [hl] at hc; cases hc
    obtain rfl := hf (q := q) (d := c) (by rw [hl]; rfl)
    split at h <;> cases h
    exact ⟨s.same_recvClsd hd hp, by rw [hl]; simp [Lock.at, hp.symm]⟩
  case h_6 hd q d hl =>
    rw [hl] at hc; cases hc
    obtain rfl := hf (q := q) (d := c) (by rw [hl]; rfl)
    cases h
    refine ⟨?_, by rw [hl]; simp [Lock.at, hp.symm]⟩
    simp only [Sys.setLocalClosed]
    split
    · exact ⟨rfl, rfl⟩
    · exact ⟨rfl, Function.update_of_ne hp _ _⟩
  case h_7 hd q d k hl =>
    rw [hl] at hc; cases hc
    obtain rfl := hf (q := q) (d := c) (by rw [hl]; rfl)
    have hsame := s.same_checkState hp k
    have hat : s.lock.at p = .lwip := by rw [hl]; simp [Lock.at, hp.symm]
    rw [hat]
    split at h
    · rename_i hk
      cases h
      rw [hk] at hsame
      exact ⟨hsame, by simp [Lock.at, hp.symm]⟩
    · rename_i s₁ e hk
      cases h
      rw [hk] at hsame
      refine ⟨Sys.same_checkReturn hsame hd e, ?_⟩
      rcases checkState_inr hk with rfl | rfl | rfl
      · rw [(checkState_nil hk).1]; exact hat
      · rfl
      · rfl
  case h_8 g d k hl =>
    rw [hl] at hc; cases hc
    have hsame := s.same_checkState hp k
    split at h
    · rename_i hk
      cases h
      rw [hk] at hsame
      exact ⟨hsame, by rw [hl]; rfl⟩
    · rename_i hk
      cases h
      rw [hk] at hsame
      exact ⟨hsame, by rw [hl]; rfl⟩
  case h_9 => cases h

/-- The connection that `checkState` is about to end is ended by one of its next sections. -/
theorem checkState_doomed {c : Nat} {k k' : CheckPc} {s₁ : Sys}
    (h : s.checkState c k = (s₁, .inl k')) (hd : Doomed (s.conn c) (.check k)) :
    Doomed (s.conn c) (.check k') := by
  cases k <;> simp only [Sys.checkState] at h
  case isClosed => split at h <;> cases h; simpa [Doomed] using hd
  case checkClosing =>
    split at h <;> cases h
    rename_i hst
    simpa [Doomed, hst] using hd
  case checkAborting =>
    split at h <;> cases h
    rename_i hst
    simp [Doomed, hst] at hd
  case broadcast => cases h

/-- `checkState` ends the connection or returns after its `Broadcast`. -/
theorem checkState_return {c : Nat} {k : CheckPc} {s₁ : Sys} {e : Option LwipErr}
    (h : s.checkState c k = (s₁, .inr e)) (he : (s.conn c).state.terminal = false)
    (he' : (s₁.conn c).state.terminal = false) :
    k = .broadcast ∧ e = some .ok ∧ s.Same s₁ c := by
  cases k <;> simp only [Sys.checkState] at h
  case isClosed =>
    split at h <;> cases h
    rename_i hst
    rw [hst] at he
    cases he
  case checkClosing =>
    split at h <;> cases h
    have : ((s.closeInternal c).registry.life c).ended = true := by
      simp [Registry.close_eq, Registry.release, Life.ended]
    exact absurd (this.symm.trans he') (by simp)
  case checkAborting =>
    split at h <;> cases h
    have : ((s.abortInternal c).registry.life c).ended = true := by
      simp [Registry.free, Registry.release, Life.ended]
    exact absurd (this.symm.trans he') (by simp)
  case broadcast => cases h; exact ⟨rfl, rfl, rfl, rfl⟩

/-- The connection that the code with `lwipMutex` held is about. -/
theorem Wired.held_self (h : Wired s) {x : Env} (hs : s.heldStep x = some s') {c : Nat}
    (hc : s.lock.conn = some c) (he : (s.conn c).state.terminal = false)
    (he' : (s'.conn c).state.terminal = false) :
    Wire (s'.pcb c).tcp (s'.conn c) (s'.lock.at c) := by
  have hw := h.wires c (h.conn_lt hc) he
  have hb : (s.conn c).state.live → Book (s.conn c).state (s.conn c).didCloseWrite
    (s.conn c).didLocalClose := fun hl => h.half.book hl
  unfold Sys.heldStep at hs
  split at hs
  case h_1 d g hl =>
    rw [hl] at hc hw; cases hc
    split at hs <;> cases hs
    have hfresh : (s.pcb c).tcp = {} := hw.fresh (by simp [Lock.at])
    exact hfresh ▸ wire_init _ _
  case h_2 hd q d b hl =>
    rw [hl] at hc hw; cases hc
    obtain rfl := h.callback_eq (p := q) (c := c) (by rw [hl]; rfl)
    simp only [Lock.at, if_true] at hw
    cases hs
    unfold Sys.receiveCheck
    split
    · simp only [Sys.setLock_lock, Lock.at, if_true]
      exact hw
    · rename_i hr
      have hnew : (s.conn q).didCloseWrite = false := by
        cases hst : (s.conn q).state <;> simp [hst, TcpConnState.receiveCheck] at hr
        · exact ((hb (by rw [hst]; decide)).neither_of (.inl hst)).1
        · exact ((hb (by rw [hst]; decide)).neither_of (.inr (.inl hst))).1
      have := hw.refuse hnew b
      rwa [← Sys.setTcp_tcp_self s q ((s.pcb q).tcp.refuse b)] at this
    · exact (Sys.setTcp_tcp_self ..).symm ▸ hw.shutdownRx
    · rename_i hr
      exfalso
      refine h.not_errored hl ?_
      cases hst : (s.conn q).state <;> simp [hst, TcpConnState.receiveCheck] at hr ⊢
    · exact hw.received
  case h_3 hd q d b hl =>
    rw [hl] at hc hw; cases hc
    obtain rfl := h.callback_eq (p := q) (c := c) (by rw [hl]; rfl)
    simp only [Lock.at, if_true] at hw
    split at hs <;> cases hs
    · exact (Sys.setTcp_tcp_self ..).symm ▸ hw.shutdownRx
    · simp only [Sys.setLock_lock, Lock.at, if_true]
      exact hw
  case h_4 hd q d b rest once hl =>
    rw [hl] at hc hw; cases hc
    obtain rfl := h.callback_eq (p := q) (c := c) (by rw [hl]; rfl)
    simp only [Lock.at, if_true] at hw
    split at hs <;> cases hs
    exact hw.received
  case h_5 hd q d b rest once hl =>
    rw [hl] at hc hw; cases hc
    obtain rfl := h.callback_eq (p := q) (c := c) (by rw [hl]; rfl)
    simp only [Lock.at, if_true] at hw
    split at hs <;> cases hs
    exact (Sys.setTcp_tcp_self ..).symm ▸ hw.shutdownRx
  case h_6 hd q d hl =>
    rw [hl] at hc hw; cases hc
    obtain rfl := h.callback_eq (p := q) (c := c) (by rw [hl]; rfl)
    simp only [Lock.at, if_true] at hw
    cases hs
    simp only [Sys.setLock_lock, Lock.at, if_true, Sys.setLocalClosed]
    split
    · exact hw.localClosed_none hb he ‹_›
    · rename_i st hst
      refine hw.localClosed hb hst ?_ ?_ ?_ <;> simp [Sys.setLock, Sys.broadcast, Sys.setConn]
  case h_7 hd q d k hl =>
    rw [hl] at hc hw; cases hc
    obtain rfl := h.callback_eq (p := q) (c := c) (by rw [hl]; rfl)
    simp only [Lock.at, if_true] at hw
    split at hs
    · rename_i hk
      cases hs
      rw [checkState_inl hk]
      simp only [Sys.setLock_lock, Lock.at, if_true]
      exact hw.check (checkState_doomed hk)
    · rename_i s₁ e hk
      cases hs
      have he₁ : (s₁.conn q).state.terminal = false := by
        unfold Sys.checkReturn at he'
        split at he' <;> exact he'
      obtain ⟨rfl, rfl, hp, hx⟩ := checkState_return hk he he₁
      show Wire (s₁.pcb q).tcp (s₁.conn q) .lwip
      rw [hp, hx]
      exact hw.checked
  case h_8 g d k hl =>
    rw [hl] at hc hw; cases hc
    split at hs
    · rename_i hk
      cases hs
      rw [checkState_inl hk]
      exact hw
    · rename_i s₁ e hk
      cases hs
      obtain ⟨-, -, hp, hx⟩ := checkState_return hk he he'
      show Wire (s₁.pcb c).tcp (s₁.conn c) .free
      rw [hp, hx]
      exact hw
  case h_9 => cases hs

theorem Wired.held_step (h : Wired s) {x : Env} (hs : s.heldStep x = some s') {p : Nat}
    (hp : p < s.n) (he : (s.conn p).state.terminal = false)
    (he' : (s'.conn p).state.terminal = false) :
    Wire (s'.pcb p).tcp (s'.conn p) (s'.lock.at p) := by
  have hc : ∃ c, s.lock.conn = some c := by
    cases hl : s.lock <;> simp [Lock.conn, Sys.heldStep, hl] at hs ⊢
  obtain ⟨c, hc⟩ := hc
  by_cases hpc : p = c
  · subst hpc
    exact h.held_self hs hc he he'
  · obtain ⟨⟨h1, h2⟩, h3⟩ := heldStep_other hs hc h.callback_eq hpc
    rw [h1, h2, h3]
    exact h.wires p hp he

/-! ### lwIP -/

theorem Sys.lookup_of_some (s : Sys) {p c : Nat} (h : Holder) (k : Nat → Lock)
    (hc : s.tcpConns (s.conn p).connKey = some c) : s.lookup h p k =
      (s.emit (.key p (0 < (s.conn p).cellFrees))).setLock (k c) := by
  have h' : (s.emit (.key p (0 < (s.conn p).cellFrees))).tcpConns
      ((s.emit (.key p (0 < (s.conn p).cellFrees))).conn p).connKey = some c := hc
  simp only [Sys.lookup, h']

/-- What a step of lwIP does to the pcb of a connection that has not ended. -/
theorem Wired.lwip_self (h : Wired s) {p : Nat} {e : LwEv} {t : Tcp}
    (hs : s.lwipStep tcpLwip p e t = some s') (hp : p < s.n)
    (he : (s.conn p).state.terminal = false) (hn : NoOrphanSeg s (.lwip p e t)) :
    e ≠ .free ∧ (e ≠ .err → Wire (s'.pcb p).tcp (s'.conn p) (s'.lock.at p)) := by
  obtain ⟨hhook, hcl, -⟩ := h.kept p hp he
  have hhook' : (s.pcb p).hooked = true := hhook
  have hcl' : (s.pcb p).closed = false := hcl
  have hreg : s.tcpConns (s.conn p).connKey = some p := h.ok.reg hp he
  unfold Sys.lwipStep at hs
  split at hs
  case h_2 => cases hs
  case h_1 hd hl =>
    split at hs
    case isFalse => cases hs
    case isTrue hg =>
      have hw := h.wires p hp he
      rw [hl] at hw
      have hev : (s.pcb p).tcp.mayDo e t = true := by
        simpa [tcpLwip, hcl'] using hg.2.2.2
      have ho : ∀ g, (s.pcb p).tcp.work = .seg g → ¬ g.Orphans (s.pcb p).tcp := by
        intro g hwork
        cases e with
        | tau => simpa [NoOrphanSeg, hwork, hhook', Work.next] using hn
        | _ => simp [Tcp.mayDo, hwork] at hev
      obtain ⟨hfree, hkeep⟩ := hw.mayDo (fun hl => h.half.book hl) he hev ho
      refine ⟨hfree, fun herr => ?_⟩
      have hkeep := hkeep herr
      have hhook₁ : ((s.setTcp p t).pcb p).hooked = true := by
        rw [← hhook']; simp [Sys.setTcp, Sys.setPcb]
      have found : ∀ k : Nat → Lock, (k p).at p = e.at →
          Wire (((s.setTcp p t).lookup hd p k).pcb p).tcp (((s.setTcp p t).lookup hd p k).conn p)
            (((s.setTcp p t).lookup hd p k).lock.at p) := by
        intro k hk
        rw [(s.setTcp p t).lookup_of_some hd k hreg, Sys.setLock_lock, hk]
        exact (s.setTcp_tcp_self p t).symm ▸ hkeep
      cases e with
      | free => exact absurd rfl hfree
      | err => exact absurd rfl herr
      | tau =>
        cases hs
        rw [Sys.setTcp_lock, hl]
        exact (s.setTcp_tcp_self p t).symm ▸ hkeep
      | _ =>
        simp only [hhook₁, if_true, Option.some.injEq] at hs
        subst hs
        exact found _ (by simp [Lock.at, LwEv.at])

theorem Wired.lwip_other (h : Wired s) {p q : Nat} {e : LwEv} {t : Tcp}
    (hs : s.lwipStep M p e t = some s') (hq : q ≠ p) :
    s.Same s' q ∧ s'.lock.at q = s.lock.at q := by
  unfold Sys.lwipStep at hs
  split at hs
  case h_2 => cases hs
  case h_1 hd hl =>
    split at hs
    case isFalse => cases hs
    case isTrue hg =>
      have hset : s.Same (s.setTcp p t) q := ⟨s.setTcp_pcb_ne t hq, rfl⟩
      have hhook : ((s.setTcp p t).pcb p).hooked = (s.pcb p).hooked := by
        simp [Sys.setTcp, Sys.setPcb]
      have hat : s.lock.at q = .lwip := by rw [hl]; rfl
      have hfree : ∀ {s₁ : Sys}, s.Same s₁ q → s.Same (s₁.free p) q := fun h1 =>
        ⟨(Function.update_of_ne hq _ _).trans h1.1, h1.2⟩
      have hcb : ∀ k : Nat → Lock, (∀ c, (k c).at q = .lwip) →
          s.Same ((s.setTcp p t).lookup hd p k) q ∧
            ((s.setTcp p t).lookup hd p k).lock.at q = .lwip := by
        intro k hk
        cases hc : s.tcpConns (s.conn p).connKey with
        | some c =>
          rw [(s.setTcp p t).lookup_of_some hd k hc]
          exact ⟨hset, hk c⟩
        | none =>
          have hc' : ((s.setTcp p t).emit (.key p (0 < ((s.setTcp p t).conn p).cellFrees))).tcpConns
              (((s.setTcp p t).emit (.key p (0 < ((s.setTcp p t).conn p).cellFrees))).conn
                p).connKey = none := hc
          obtain ⟨h1, h2⟩ := Sys.same_tcpAbort _ hq hc'
          simp only [Sys.lookup, hc']
          exact ⟨⟨h1.trans hset.1, h2.trans hset.2⟩, rfl⟩
      rw [hat]
      cases e with
      | tau => cases hs; exact ⟨hset, hat⟩
      | free => cases hs; exact ⟨hfree hset, hat⟩
      | err =>
        cases hs
        rw [hhook]
        split
        · rename_i hh
          refine ⟨hfree ?_, by rw [Sys.free_lock, Sys.tcpErrFn_lock]; exact hat⟩
          cases hc : s.tcpConns (s.conn p).connKey with
          | none => rw [(s.setTcp p t).tcpErrFn_of_none hc]; exact hset
          | some c =>
            obtain rfl := h.hooked_conn hg.1 hh hc
            have hc' : ((s.setTcp p t).emit (.key p (0 < ((s.setTcp p t).conn p).cellFrees))).tcpConns
                (((s.setTcp p t).emit (.key p (0 < ((s.setTcp p t).conn p).cellFrees))).conn
                  p).connKey = some p := hc
            simp only [Sys.tcpErrFn, hc']
            refine ⟨hset.1, ?_⟩
            simp [Sys.err, Sys.broadcast, Sys.setConn, Sys.release, Sys.emit, Sys.setTcp,
              Sys.setPcb, hq]
        · exact ⟨hfree hset, hat⟩
      | _ =>
        simp only [hhook] at hs
        split at hs <;> cases hs
        exact hcb _ fun c => by simp [Lock.at, hq.symm]

/-- The vendored lwIP frees a pcb without its err callback only after its connection has ended. -/
theorem Wired.noSilentFree (h : Wired s) (hs : step tcpLwip s a = some s') (hn : NoOrphanSeg s a) :
    NoSilentFree s a := by
  unfold NoSilentFree
  split
  · rename_i p t
    have hs' := lwipStep_of_step hs
    have hp : p < s.n := by
      unfold Sys.lwipStep at hs'
      split at hs'
      · split at hs'
        · exact (‹_ ∧ _› : p < s.n ∧ _).1
        · cases hs'
      · cases hs'
    rw [← Bool.not_eq_false]
    intro he
    exact (h.lwip_self hs' hp he hn).1 rfl
  · trivial

/-- The err callback ends the connection. -/
theorem Wired.err_ended (h : Wired s) {p : Nat} {t : Tcp}
    (hs : s.lwipStep M p .err t = some s') (hp : p < s.n)
    (he : (s.conn p).state.terminal = false) : (s'.conn p).state.terminal = true := by
  have hreg : (s.setTcp p t).tcpConns ((s.setTcp p t).conn p).connKey = some p := h.ok.reg hp he
  have hhook : ((s.setTcp p t).pcb p).hooked = true := by
    have : (s.pcb p).hooked = true := (h.kept p hp he).1
    rw [← this]; simp [Sys.setTcp, Sys.setPcb]
  unfold Sys.lwipStep at hs
  split at hs
  · split at hs
    · simp only [hhook, if_true, Option.some.injEq] at hs
      have hR : s'.registry = (s.registry.err p).free p := by
        rw [← hs, Sys.registry_free, Sys.registry_tcpErrFn_of_some _ hreg, Sys.registry_setTcp]
      have hend : (s'.registry.life p).ended = true := by
        rw [hR, Registry.err_free_eq]; simp [Life.ended]
      exact hend
    · cases hs
  · cases hs

/-- Only an accept makes a connection. -/
theorem step_newTCPConn (hs : step M s a = some s') {p : Nat} (hp : ¬ p < s.n) (hp' : p < s'.n) :
    p = s.n ∧ ∃ key, s' = s.newTCPConn key := by
  have he := step_effect hs
  generalize hR : s'.registry = R at he
  have hn : s'.n = R.n := by rw [← hR]; rfl
  rw [hn] at hp'
  cases he with
  | accept key ha =>
    subst ha
    have hlt : p < s.n + 1 := hp'
    refine ⟨by omega, key, ?_⟩
    unfold step at hs
    split at hs
    · cases hs
    · simp only at hs
      split at hs <;> cases hs
      rfl
  | _ => exact absurd hp' hp

theorem Wired.wires_step (h : Wired s) (hs : step tcpLwip s a = some s') (hn : NoOrphanSeg s a) :
    Wires s' := by
  intro p hp' he'
  by_cases hp : p < s.n
  · have he : (s.conn p).state.terminal = false := by
      rw [← Bool.not_eq_true]
      intro hend
      rw [h.ended_step hs hp hend, hend] at he'
      cases he'
    have hw := h.wires p hp he
    cases a with
    | held x => exact h.held_step (heldStep_of_step hs) hp he he'
    | go g x => exact h.go_step (goStep_of_step hs) hp he
    | lwip q e t =>
      have hs := lwipStep_of_step hs
      by_cases hpq : p = q
      · subst hpq
        refine (h.lwip_self hs hp he hn).2 ?_
        rintro rfl
        rw [h.err_ended hs hp he] at he'
        cases he'
      · obtain ⟨⟨h1, h2⟩, h3⟩ := h.lwip_other hs hpq
        rw [h1, h2, h3]
        exact hw
    | lock =>
      unfold step at hs
      split at hs
      · cases hs
      · simp only at hs
        split at hs <;> cases hs
        rename_i hl
        rw [hl] at hw
        exact hw.locked
    | unlock =>
      unfold step at hs
      split at hs
      · cases hs
      · simp only at hs
        split at hs <;> cases hs
        rename_i hl
        rw [hl.1] at hw
        exact hw.unlocked (h.settled hl.2 hp he)
    | accept key =>
      unfold step at hs
      split at hs
      · cases hs
      · simp only at hs
        split at hs <;> cases hs
        rename_i hl
        have hne : p ≠ s.n := Nat.ne_of_lt hp
        rw [hl] at hw
        simpa [Sys.newTCPConn, Lock.at, hne, hne.symm] using hw
    | call g c op =>
      have hsame : s'.pcb = s.pcb ∧ s'.conn = s.conn ∧ s'.lock = s.lock := by
        unfold step at hs
        split at hs
        · cases hs
        · simp only [Sys.callStep] at hs
          split at hs <;> cases hs
          exact ⟨rfl, rfl, rfl⟩
      rw [hsame.1, hsame.2.1, hsame.2.2]
      exact hw
  · obtain ⟨rfl, key, rfl⟩ := step_newTCPConn hs hp hp'
    have hnew : ((s.newTCPConn key).pcb s.n).tcp = {} := by simp [Sys.newTCPConn]
    rw [hnew]
    exact wire_init _ _

theorem wired_run {tr : List (Sys × Act)} (hr : Run (step tcpLwip) {} tr s) (hk : Meets FreshKey tr)
    (hn : Meets NoOrphanSeg tr) : Wired s := by
  induction hr with
  | nil =>
    exact ⟨inv_init, half_init, shut_init, fun c hc => absurd hc (Nat.not_lt_zero c),
      fun p hp => absurd hp (Nat.not_lt_zero p)⟩
  | snoc hr hs ih =>
    rw [meets_snoc] at hk hn
    have h := ih hk.1 hn.1
    have hrun := hr.snoc hs
    exact ⟨h.toInv.step hk.2 hs, half_run hrun, shut_run hrun,
      kept_step h.toInv h.kept (h.noSilentFree hs hn.2) hs, h.wires_step hs hn.2⟩

/-- In every run of the vendored lwIP without a segment that orphans its connection: once lwIP has
freed a pcb its connection is not in `tcpConns` and is closed or errored. -/
theorem freed_ended {tr : List (Sys × Act)} (hr : Run (step tcpLwip) {} tr s)
    (hk : Meets FreshKey tr) (hn : Meets NoOrphanSeg tr) :
    ∀ p < s.n, (s.pcb p).freed = true →
      ¬ s.Registered p ∧ ((s.conn p).state = .closed ∨ (s.conn p).state = .errored) := by
  intro p hp hf
  have h := wired_run hr hk hn
  have hend : (s.conn p).state.terminal = true := by
    rw [← Bool.not_eq_false]
    intro he
    exact absurd ((h.kept p hp he).2.2.symm.trans hf) (by simp)
  refine ⟨?_, TcpConnState.terminal_iff.1 hend⟩
  rw [h.registered_iff hp, hend]
  simp

end

/-- A segment is taken in and processed by lwIP with the fields `t`. -/
def segActs (t : Tcp) (g : Seg) : List Act :=
  [.lock, .lwip 0 .tau { t with work := .seg g }, .lwip 0 .tau ({ t with work := .seg g }.process g)]

/-- `Close` of a connected connection, preempted between `CloseRead` and `CloseWrite`. Data comes in
and is not delivered, then the app's FIN; both are processed before `CloseWrite` goes on. -/
def closeActs : List Act :=
  [Act.lock, .accept 7, .held (.spawn 0), .unlock, .go 0 (.handle true), .go 0 .none,
    .call 1 0 .close, .go 1 .none, .go 1 .none] ++
  segActs {} ⟨false, true, [65], false⟩ ++
  [Act.lwip 0 (.recv [65]) {}, .held .none, .held .none, .unlock] ++
  segActs { rxClosed := true } ⟨false, true, [], true⟩ ++
  [Act.lwip 0 .fin { st := .closeWait, rxClosed := true }, .held .none, .held .none, .held .none,
    .held .none, .held .none, .unlock, .go 1 .none, .go 1 (.sendFin false)]

/-- Without the data lwIP calls the err callback. -/
theorem freed_ended_lastAck :
    ∃ tr s, Run (step tcpLwip) {} tr s ∧ Meets FreshKey tr ∧ Meets NoOrphanSeg tr ∧
      (s.pcb 0).freed = true ∧ ¬ s.Registered 0 := by
  let t : Tcp := { st := .lastAck }
  let g : Seg := ⟨false, true, [], false⟩
  let acts := [Act.lock, .accept 7, .held (.spawn 0)] ++ (segActs {} ⟨false, true, [], true⟩).tail ++
    [Act.lwip 0 .fin { st := .closeWait }, .held .none, .held .none, .held .none, .held .none,
      .held .none, .unlock, .call 1 0 .closeWrite, .go 1 .none, .go 1 (.sendFin false)] ++
    segActs t g ++ [Act.lwip 0 .err ({ t with work := .seg g }.process g), .unlock]
  obtain ⟨s, hr, hs⟩ := exists_run (step tcpLwip) {} acts
    (fun s => decide (s.n = 1 ∧ (s.pcb 0).freed = true)) (by decide)
  obtain ⟨hn, hf⟩ := of_decide_eq_true hs
  have hk : Meets FreshKey (execTrace (step tcpLwip) {} acts) := by decide
  have ho : Meets NoOrphanSeg (execTrace (step tcpLwip) {} acts) := by decide
  exact ⟨_, s, hr, hk, ho, hf, (freed_ended hr hk ho 0 (by omega) hf).1⟩

/-- The app's ACK of the FIN acknowledges no data: lwIP calls no sent callback, and frees the pcb
without its err callback, since its rx side is shut down. -/
theorem close_orphans :
    ¬ ∀ tr s, Run (step tcpLwip) {} tr s → Meets FreshKey tr → s.lock = .free → ∀ p < s.n,
      (s.pcb p).freed = true →
        ¬ s.Registered p ∧ ((s.conn p).state = .closed ∨ (s.conn p).state = .errored) := by
  intro h
  let t : Tcp := { st := .lastAck, rxClosed := true }
  let g : Seg := ⟨false, true, [], false⟩
  let acts := closeActs ++ segActs t g ++
    [Act.lwip 0 .free ({ t with work := .seg g }.process g), .unlock]
  obtain ⟨s, hr, hs⟩ := exists_run (step tcpLwip) {} acts
    (fun s => decide (s.lock = .free ∧ s.n = 1 ∧ (s.pcb 0).freed = true ∧
      (s.conn 0).state = .closing)) (by decide)
  obtain ⟨hl, hn, hf, hst⟩ := of_decide_eq_true hs
  have hk : Meets FreshKey (execTrace (step tcpLwip) {} acts) := by decide
  have := (h _ s hr hk hl 0 (by omega) hf).2
  rw [hst] at this
  exact absurd this (by decide)

end Core
