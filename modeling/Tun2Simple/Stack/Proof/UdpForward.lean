import Mathlib.Algebra.BigOperators.Group.Multiset.Basic
import Mathlib.Data.Multiset.OrderedMonoid
import Tun2Simple.Stack.Proof.UdpPivot

/-!
# Which of the app's datagrams are forwarded

In every run the datagrams that came in are the ones written to sockets, waiting in a `pending`,
carried by a goroutine or given up in some section (`account_run`); the work that is left is bounded
(`work_run`).

In a calm run, whose datagrams come from one source, nothing fails and nobody but the app acts. As
long as nothing is given up there is one connection, dialed to the destination of the first datagram
(`Single`), and a datagram to another one is given up at the lookup of `udpPivot.ReceiveTo`. So
every datagram is forwarded exactly where all have one destination (`forwarded_iff`).
-/

namespace Udp

open Net Trans Pool

/-! ## The account of the datagrams -/

/-- The app's datagrams that a goroutine at the place carries. -/
def Pivot.P.held : Pivot.P → Multiset Dgram
  | .lookup _ _ d | .write _ _ d _ => {d}
  | _ => 0

def Pc.held : Pc udpPivot.P → Multiset Dgram
  | .load _ d | .store _ d | .receiveTo _ d _ | .receiveCheck _ d _ => {d}
  | .handler p _ => Pivot.P.held p
  | _ => 0

/-- The callers' part; `udpRecvFn` is the last caller. -/
def heldBelow : List (Frame udpPivot.P) → Multiset Dgram
  | [] | .recvFn _ :: _ => 0
  | .handler p :: st => Pivot.P.held p + heldBelow st
  | _ :: st => heldBelow st

def Go.held (x : Go udpPivot.P) : Multiset Dgram := x.pc.held + heldBelow x.stack

def Conn.queued (x : Conn) : Multiset Dgram := x.pending.getD []

/-- The datagrams that wait in the connections' `pending`. -/
def Shared.queued (s : Shared udpPivot) : Multiset Dgram := ∑ c ∈ Finset.range s.n, (s.conn c).queued

def Shared.written (s : Shared udpPivot) : Multiset Dgram := s.h.written.map Prod.snd

def Shared.arrived (s : Shared udpPivot) : Multiset Dgram := s.received.map Prod.snd

/-- The datagram that the section at `pc` gives up. -/
def Shared.lost (s : Shared udpPivot) : Pc udpPivot.P → Env udpPivot.E → Multiset Dgram
  | .receiveCheck c d _, _ => if (s.conn c).checkState then {d} else 0
  | .handler (.lookup _ l d) _, _ => if s.h.redirectMap (udpID l d.addr) = none then {d} else 0
  | .handler (.write _ _ d _) _, .handler (.write false) => {d}
  | _, _ => 0

def Sys.lost (s : Sys udpPivot) : Act udpPivot → Multiset Dgram
  | .start _ => 0
  | .sec g e => s.shared.lost (s.thread g).pc e

section
variable {s s' : Shared udpPivot} {st : List (Frame udpPivot.P)} {pc : Pc udpPivot.P}
  {e : Env udpPivot.E} {o : Out udpPivot} {g : Gid}

theorem queued_update {c : Nat} {x : Conn} (hlt : c < s.n) (hn : s'.n = s.n)
    (hc : s'.conn = Function.update s.conn c x) :
    s'.queued + (s.conn c).queued = s.queued + x.queued := by
  have hmem : c ∈ Finset.range s.n := Finset.mem_range.2 hlt
  have hrest : ∑ d ∈ (Finset.range s.n).erase c, (s'.conn d).queued =
      ∑ d ∈ (Finset.range s.n).erase c, (s.conn d).queued := by
    refine Finset.sum_congr rfl fun d hd => ?_
    rw [hc, Function.update_of_ne (Finset.mem_erase.1 hd).1]
  rw [Shared.queued, Shared.queued, hn, ← Finset.add_sum_erase _ _ hmem,
    ← Finset.add_sum_erase (Finset.range s.n) (fun d => (s.conn d).queued) hmem, hrest, hc,
    Function.update_self]
  abel

/-- A change of a connection that leaves its `pending` alone. -/
theorem queued_update_same {c : Nat} {x : Conn} (hlt : c < s.n) (hn : s'.n = s.n)
    (hc : s'.conn = Function.update s.conn c x) (hx : x.pending = (s.conn c).pending) :
    s'.queued = s.queued := by
  have hq : x.queued = (s.conn c).queued := by rw [Conn.queued, hx, Conn.queued]
  have h := queued_update hlt hn hc
  rw [hq] at h
  exact Multiset.add_left_inj.1 h

theorem queued_push {c : Nat} {d : Dgram} {ds : List Dgram} (hlt : c < s.n)
    (hp : (s.conn c).pending = some ds) :
    (s.setConn c { s.conn c with pending := some (ds ++ [d]) }).queued = s.queued + {d} := by
  have h : (s.setConn c { s.conn c with pending := some (ds ++ [d]) }).queued + (s.conn c).queued =
      s.queued + ({ s.conn c with pending := some (ds ++ [d]) } : Conn).queued :=
    queued_update hlt rfl rfl
  simp only [Conn.queued, hp, Option.getD_some, ← Multiset.coe_add] at h
  rw [add_comm (ds : Multiset Dgram), ← add_assoc] at h
  exact Multiset.add_left_inj.1 h

theorem queued_pop {c : Nat} {d : Dgram} {ds : List Dgram} (hlt : c < s.n)
    (hp : (s.conn c).pending = some (d :: ds)) :
    (s.setConn c { s.conn c with pending := some ds }).queued + {d} = s.queued := by
  have h : (s.setConn c { s.conn c with pending := some ds }).queued + (s.conn c).queued =
      s.queued + ({ s.conn c with pending := some ds } : Conn).queued := queued_update hlt rfl rfl
  simp only [Conn.queued, hp, Option.getD_some, ← Multiset.cons_coe, ← Multiset.singleton_add] at h
  rw [← add_assoc] at h
  exact Multiset.add_left_inj.1 h

theorem queued_drained {c : Nat} (hlt : c < s.n)
    (hp : ∀ d ds, (s.conn c).pending ≠ some (d :: ds)) :
    (s.setConn c { s.conn c with pending := none }).queued = s.queued := by
  have hq : (s.conn c).queued = 0 := by
    unfold Conn.queued
    cases hc : (s.conn c).pending with
    | none => rfl
    | some ds =>
      cases ds with
      | nil => rfl
      | cons d ds => exact absurd hc (hp d ds)
  have h : (s.setConn c { s.conn c with pending := none }).queued + (s.conn c).queued =
      s.queued + ({ s.conn c with pending := none } : Conn).queued := queued_update hlt rfl rfl
  rw [hq, add_zero] at h
  exact h.trans (add_zero _)

theorem queued_new (src : Addr) : (s.newUDPConn src).queued = s.queued := by
  have hrest : ∑ d ∈ Finset.range s.n, ((s.newUDPConn src).conn d).queued = s.queued := by
    refine Finset.sum_congr rfl fun d hd => ?_
    simp only [Shared.newUDPConn, Function.update_of_ne (Nat.ne_of_lt (Finset.mem_range.1 hd))]
  have hnew : ((s.newUDPConn src).conn s.n).queued = 0 := by
    simp only [Shared.newUDPConn, Function.update_self]
    rfl
  rw [Shared.queued, show (s.newUDPConn src).n = s.n + 1 from rfl, Finset.sum_range_succ, hrest,
    hnew, add_zero]

/-- What a section of `udpPivot` leaves a goroutine and the one it starts. -/
def Next.held : Next udpPivot.P → Multiset Dgram
  | .goto p | .call _ _ p => Pivot.P.held p
  | .spawn new p => Pivot.P.held new + Pivot.P.held p
  | .return_ _ => 0

theorem Pivot.Sec.account {p : Pivot.P} {err : Bool} {e : Pivot.E} {h' : Pivot.S}
    {nx : Next Pivot.P} (h : Pivot.Sec s.h p err e (h', nx)) :
    { s with h := h' : Shared udpPivot }.written + Next.held nx + s.lost (.handler p err) (.handler e) =
      s.written + p.held := by
  cases h with
  | missing c l d err hm => simp [Shared.lost, hm, Next.held, Pivot.P.held, Shared.written]
  | found c l d err k hf => simp [Shared.lost, hf, Next.held, Pivot.P.held, Shared.written]
  | write c l d k err hcl =>
    simp only [Shared.written, Shared.lost, Next.held, Pivot.P.held, List.map_append, List.map_cons,
      List.map_nil, add_zero]
    rfl
  | go r err => simp [Shared.lost, Next.held, Pivot.P.held, Shared.written]
  | writeFail c l d k err => simp [Shared.lost, Next.held, Pivot.P.held, Shared.written]
  | clearClose id k w err =>
    simp only [Shared.written, Pivot.S.closeSock]
    split <;> exact add_zero _
  | return_ p err r hp => obtain rfl | rfl | rfl := hp <;> exact add_zero _
  | _ => exact add_zero _

theorem return_held (err : Bool) (f : Frame udpPivot.P) (st : List (Frame udpPivot.P)) :
    (s.return_ err f st).2.1.held = heldBelow (f :: st) := by
  cases f with
  | connect c => cases err <;> exact zero_add _
  | drain c => cases err <;> exact zero_add _
  | handler p => rfl
  | _ => exact zero_add _

theorem method_held (m : Method) (c : Nat) (late : Bool) (hm : ∀ d, m ≠ .receiveTo d) :
    (m.pc c late).held = 0 := by
  cases m with
  | receiveTo d => exact absurd rfl (hm d)
  | _ => rfl

/-- `udpPivot` gives no datagram back to the core. -/
theorem Pivot.Sec.call_ne_receiveTo {h h' : Pivot.S} {p q : Pivot.P} {err : Bool} {e : Pivot.E}
    {c : Nat} {m : Method} (hs : Pivot.Sec h p err e (h', .call c m q)) (d : Dgram) :
    m ≠ .receiveTo d := by
  cases hs <;> simp

/-- The account of a section that changes neither what is written nor what is queued. -/
theorem account_of_held {m m' lost : Multiset Dgram} (hw : s'.written = s.written)
    (hq : s'.queued = s.queued) (hm : m' + lost = m) :
    s'.written + s'.queued + m' + lost = s.written + s.queued + m := by
  rw [hw, hq, add_assoc, hm]

/-- The account of a section of `udpPivot`. -/
theorem account_of_pivot {p : Pivot.P} {err : Bool} {e : Pivot.E} {h' : Pivot.S}
    {nx : Next Pivot.P} (h : udpPivot.step s.h p err e = some (h', nx)) {m : Multiset Dgram}
    (hm : m = Next.held nx + heldBelow st) :
    { s with h := h' : Shared udpPivot }.written + { s with h := h' : Shared udpPivot }.queued + m +
      s.lost (.handler p err) (.handler e) = s.written + s.queued + Go.held ⟨.handler p err, st⟩ := by
  have hp := (Pivot.step_spec h).account
  have hq : { s with h := h' : Shared udpPivot }.queued = s.queued := rfl
  rw [hq, hm]
  calc _ = ({ s with h := h' : Shared udpPivot }.written + Next.held nx +
        s.lost (.handler p err) (.handler e)) + s.queued + heldBelow st := by abel
    _ = s.written + p.held + s.queued + heldBelow st := by rw [hp]
    _ = s.written + s.queued + (p.held + heldBelow st) := by abel

/-- A section hands the datagrams that its goroutine has on, or gives one up. -/
theorem Sec.account (h : Sec s st pc e o) (hl : Local s g ⟨pc, st⟩) :
    o.1.written + o.1.queued + (o.2.1.held + o.2.2.elim 0 Go.held) + s.lost pc e =
      s.written + s.queued + Go.held ⟨pc, st⟩ := by
  cases h with
  | new src d hu =>
    refine account_of_held rfl (queued_new src) ?_
    simp [Go.held, Pc.held, Shared.lost, heldBelow, Pivot.P.held]
  | store c d =>
    refine account_of_held rfl (queued_update_same (hl.pc_lt rfl) rfl rfl rfl) ?_
    simp [Go.held, Pc.held, Shared.lost]
  | enqueue c d late ds hst hp hlen =>
    have hq := queued_push (d := d) (hl.pc_lt rfl) hp
    calc _ = s.written + (s.queued + {d}) + (0 + heldBelow st + 0) + 0 := by rw [← hq]; rfl
      _ = s.written + s.queued + ({d} + heldBelow st) := by
        simp only [add_zero, zero_add, add_assoc]
  | refuse c d late hck =>
    refine account_of_held rfl rfl ?_
    simp [Go.held, Pc.held, Shared.lost, hck, add_comm]
  | handle c d late hck =>
    refine account_of_held rfl rfl ?_
    simp [Go.held, Pc.held, Shared.lost, hck, heldBelow, Pivot.P.held, Shared.receiveTo]
  | goto p err e h q hs => exact account_of_pivot hs (add_zero _)
  | call p err e h c m q hs hc =>
    refine account_of_pivot hs ?_
    have hm := method_held m c (s.conn c).wasClosed (Pivot.step_spec hs).call_ne_receiveTo
    simp [Go.held, hm, heldBelow, Next.held]
  | spawn p err e h new q hs =>
    refine account_of_pivot hs ?_
    simp only [Go.held, Pc.held, heldBelow, Next.held, Option.elim_some]
    abel
  | return_ p err e h r hs => exact account_of_pivot hs (add_zero _)
  | setConnected c =>
    refine account_of_held rfl (queued_update_same (hl.pc_lt rfl) rfl rfl rfl) ?_
    simp [Go.held, Pc.held, Shared.lost]
  | drain c d ds hp =>
    have hq := queued_pop (hl.pc_lt rfl) hp
    calc _ = s.written + (s.setConn c { s.conn c with pending := some ds }).queued +
          ({d} + heldBelow st + 0) + 0 := rfl
      _ = s.written + s.queued + (0 + heldBelow st) := by
        rw [← hq]
        simp only [add_zero, zero_add, add_assoc]
  | drained c hp =>
    refine account_of_held rfl (queued_drained (hl.pc_lt rfl) hp) ?_
    simp [Go.held, Pc.held, Shared.lost]
  | close c =>
    refine account_of_held rfl (queued_update_same (hl.pc_lt rfl) rfl rfl rfl) ?_
    simp [Go.held, Pc.held, Shared.lost]
  | end_ err hst =>
    subst hst
    exact account_of_held rfl rfl rfl
  | ret err f st' hst =>
    subst hst
    have hret := return_held (s := s) err f st'
    cases f <;> refine account_of_held rfl rfl ?_ <;>
      exact (add_zero _).trans ((add_zero _).trans (hret.trans (zero_add _).symm))
  | _ =>
    refine account_of_held rfl rfl ?_
    simp [Go.held, Pc.held, Shared.lost]

theorem Sec.received_eq (h : Sec s st pc e o) : o.1.received = s.received := by
  cases h with
  | ret err f => cases f <;> rfl
  | _ => rfl

theorem start_account {b : Call} {x : Go udpPivot.P} (h : start s g b = some (s', x)) :
    s'.written = s.written ∧ s'.queued = s.queued ∧ s'.arrived = s.arrived + x.held := by
  obtain ⟨src, dst, data, rfl, -, rfl, rfl⟩ | ⟨c, -, rfl, rfl, rfl⟩ := start_spec h
  · refine ⟨rfl, rfl, ?_⟩
    simp only [Shared.arrived, List.map_append, ← Multiset.coe_add, Go.held, Pc.held, heldBelow,
      add_zero]
    rfl
  · exact ⟨rfl, rfl, (add_zero _).symm⟩

end

section
variable {s s' : Sys udpPivot} {a : Act udpPivot}

theorem account_step (hb : Base s) (hs : step udpPivot s a = some s') :
    s'.shared.written + s'.shared.queued + total Go.held s' + Sys.lost s a + s.shared.arrived =
      s.shared.written + s.shared.queued + total Go.held s + s'.shared.arrived := by
  obtain ⟨b, x, t, rfl, hst, rfl⟩ | ⟨g, e, x, t, new, rfl, hg, hsec, rfl⟩ := step_cases hs
  · obtain ⟨hw, hq, harr⟩ := start_account hst
    rw [total_start, State.start_shared, hw, hq, harr, Sys.lost]
    abel
  · have hsp := sec_spec (g := g) hsec
    have hrec : x.received = s.shared.received := hsp.received_eq
    have harr : x.arrived = s.shared.arrived := by rw [Shared.arrived, hrec, Shared.arrived]
    have hacc := hsp.account (hb.thread g hg)
    have htot := total_sec (f := Go.held) hg x t new
    rw [State.sec_shared, harr, Sys.lost]
    refine add_right_cancel (b := (s.thread g).held) ?_
    calc _ = x.written + x.queued + s.shared.lost (s.thread g).pc e + s.shared.arrived +
          (total Go.held (s.sec g x t new) + (s.thread g).held) := by abel
      _ = (x.written + x.queued + (t.held + new.elim 0 Go.held) +
          s.shared.lost (s.thread g).pc e) + s.shared.arrived + total Go.held s := by
        rw [htot]
        abel
      _ = _ := by
        rw [hacc]
        abel

/-- In every run: what came in was written to a socket, waits in a `pending`, is carried by a
goroutine or was given up. -/
theorem account_run {tr : List (Sys udpPivot × Act udpPivot)}
    (hr : Run (step udpPivot) (init udpPivot) tr s) :
    s.shared.written + s.shared.queued + total Go.held s + (tr.map fun x => Sys.lost x.1 x.2).sum =
      s.shared.arrived := by
  induction hr with
  | nil => rfl
  | @snoc tr s s' a hr hs ih =>
    have hstep := account_step (base_run hr) hs
    rw [List.map_append, List.sum_append, List.map_singleton, List.sum_singleton]
    refine add_right_cancel (b := s.shared.arrived) ?_
    calc _ = (s'.shared.written + s'.shared.queued + total Go.held s' + Sys.lost s a +
          s.shared.arrived) + (tr.map fun x => Sys.lost x.1 x.2).sum := by abel
      _ = (s.shared.written + s.shared.queued + total Go.held s +
          (tr.map fun x => Sys.lost x.1 x.2).sum) + s'.shared.arrived := by
        rw [hstep]
        abel
      _ = _ := by rw [ih, add_comm]

end

/-! ## The work that is left -/

/-- A bound on the sections from a place of `udpPivot` to its return; a reader only waits. -/
def Pivot.P.work : Pivot.P → Nat
  | .read _ => 0
  | .connected | .failed | .dialFailed => 2
  | .go _ => 3
  | .store _ => 4
  | .dial _ _ _ | .cleared _ => 6
  | .clearDelete _ _ => 7
  | .clearClose _ _ _ => 8
  | .clear _ _ => 9
  | .write _ _ _ _ | .closed _ => 10
  | .lookup _ _ _ => 11
  | .wrote _ => 14

def Pc.work : Pc udpPivot.P → Nat
  | .idle => 0
  | .ret _ => 1
  | .delete _ | .drain _ | .sendto _ _ _ => 2
  | .close _ | .setConnected _ | .writeFrom _ _ _ => 3
  | .handler p _ => Pivot.P.work p
  | .receiveCheck _ _ _ => 13
  | .receiveTo _ _ _ => 14
  | .store _ _ => 15
  | .load _ _ => 25

def workBelow : List (Frame udpPivot.P) → Nat
  | [] | .recvFn _ :: _ => 0
  | .receiveTo _ _ :: st => 1 + workBelow st
  | .connect _ :: st => 3 + workBelow st
  | .drain _ :: st => 2 + workBelow st
  | .handler p :: st => Pivot.P.work p + workBelow st

def Go.work (x : Go udpPivot.P) : Nat := x.pc.work + workBelow x.stack

def Method.work : Method → Nat
  | .receiveTo _ => 14
  | .close | .writeFrom _ => 3

def Next.work : Next udpPivot.P → Nat
  | .goto p => Pivot.P.work p
  | .call _ m p => m.work + Pivot.P.work p
  | .spawn new p => Pivot.P.work new + Pivot.P.work p
  | .return_ _ => 1

/-- A section of `udpPivot` leaves less, but for the reads. -/
theorem Pivot.Sec.work {h h' : Pivot.S} {p : Pivot.P} {err : Bool} {e : Pivot.E}
    {nx : Next Pivot.P} (hs : Pivot.Sec h p err e (h', nx)) (hp : ∀ r, p ≠ .read r) :
    Next.work nx < p.work := by
  cases hs with
  | read r => exact absurd rfl (hp r)
  | readFail r => exact absurd rfl (hp r)
  | return_ p err r h => obtain rfl | rfl | rfl := h <;> exact Nat.lt_succ_self 1
  | _ => simp [Pivot.P.work, Next.work, Method.work]

section
variable {s s' : Shared udpPivot} {st : List (Frame udpPivot.P)} {pc : Pc udpPivot.P}
  {e : Env udpPivot.E} {o : Out udpPivot} {g : Gid}

theorem method_work (m : Method) (c : Nat) (late : Bool) : (m.pc c late).work = m.work := by
  cases m <;> rfl

theorem return_work (err : Bool) (f : Frame udpPivot.P) (st : List (Frame udpPivot.P)) :
    (s.return_ err f st).2.1.work ≤ workBelow (f :: st) := by
  cases f with
  | connect c => cases err <;> exact Nat.le_refl _
  | drain c =>
    cases err
    · exact Nat.le_refl _
    · exact Nat.add_le_add_right (Nat.le_succ 1) _
  | _ => simp [Shared.return_, Go.work, Pc.work, workBelow]

/-- The work of a section of `udpPivot`. -/
theorem work_of_pivot {p : Pivot.P} {err : Bool} {e : Pivot.E} {h' : Pivot.S} {nx : Next Pivot.P}
    (h : udpPivot.step s.h p err e = some (h', nx)) (hp : ∀ r err', Pc.handler p err ≠ .handler (.read r) err')
    {m : Nat} (hm : m = Next.work nx + workBelow st) : m < Go.work ⟨.handler p err, st⟩ := by
  have hw := (Pivot.step_spec h).work fun r hpr => hp r err (by rw [hpr])
  simp only [Go.work, Pc.work]
  omega

theorem Sec.work (h : Sec s st pc e o) (hl : Local s g ⟨pc, st⟩)
    (hp : ∀ r err, pc ≠ .handler (.read r) err) :
    12 * o.1.queued.card + (o.2.1.work + o.2.2.elim 0 Go.work) <
      12 * s.queued.card + Go.work ⟨pc, st⟩ := by
  -- the sections that leave `pending` alone
  have same : ∀ {m : Nat}, o.1.queued = s.queued → m < Go.work ⟨pc, st⟩ →
      12 * o.1.queued.card + m < 12 * s.queued.card + Go.work ⟨pc, st⟩ := by
    intro m hq hm
    rw [hq]
    exact Nat.add_lt_add_left hm _
  cases h with
  | new src d hu =>
    refine same (queued_new src) ?_
    simp only [Go.work, Pc.work, workBelow, Pivot.P.work, Option.elim_some]
    omega
  | store c d =>
    refine same (queued_update_same (hl.pc_lt rfl) rfl rfl rfl) ?_
    simp [Go.work, Pc.work]
  | enqueue c d late ds hst hq hlen =>
    have hq := congrArg Multiset.card (queued_push (d := d) (hl.pc_lt rfl) hq)
    rw [Multiset.card_add, Multiset.card_singleton] at hq
    have hw : 12 * (s.queued.card + 1) + (1 + workBelow st + 0) <
        12 * s.queued.card + (14 + workBelow st) := by omega
    rw [← hq] at hw
    exact hw
  | handle c d late hck =>
    refine same rfl ?_
    simp only [Go.work, Pc.work, workBelow, Shared.receiveTo, Pivot.P.work, Option.elim_none]
    omega
  | goto p err e h q hs => exact same rfl (work_of_pivot hs hp rfl)
  | call p err e h c m q hs hc =>
    refine same rfl (work_of_pivot hs hp ?_)
    have hm := method_work m c (s.conn c).wasClosed
    show (m.pc c (s.conn c).wasClosed).work + (Pivot.P.work q + workBelow st) + 0 = _
    rw [hm, Next.work]
    omega
  | spawn p err e h new q hs =>
    refine same rfl (work_of_pivot hs hp ?_)
    simp only [Go.work, Pc.work, workBelow, Next.work, Option.elim_some]
    omega
  | return_ p err e h r hs => exact same rfl (work_of_pivot hs hp rfl)
  | setConnected c =>
    refine same (queued_update_same (hl.pc_lt rfl) rfl rfl rfl) ?_
    simp [Go.work, Pc.work]
  | drain c d ds hq =>
    have hq := congrArg Multiset.card (queued_pop (hl.pc_lt rfl) hq)
    rw [Multiset.card_add, Multiset.card_singleton] at hq
    have hw : ∀ n, 12 * n + (11 + (2 + workBelow st) + 0) < 12 * (n + 1) + (2 + workBelow st) := by
      omega
    rw [← hq]
    exact hw _
  | drained c hq =>
    refine same (queued_drained (hl.pc_lt rfl) hq) ?_
    simp [Go.work, Pc.work]
  | close c =>
    refine same (queued_update_same (hl.pc_lt rfl) rfl rfl rfl) ?_
    simp [Go.work, Pc.work]
  | end_ err hst =>
    subst hst
    exact same rfl (by simp [Go.work, Pc.work, workBelow])
  | ret err f st' hst =>
    subst hst
    have hret := return_work (s := s) err f st'
    have hnone : (s.return_ err f st').2.2 = none := by cases f <;> rfl
    refine same (by cases f <;> rfl) ?_
    rw [hnone]
    simp only [Go.work, Pc.work, Option.elim_none] at hret ⊢
    omega
  | _ =>
    refine same rfl ?_
    simp [Go.work, Pc.work]

end

/-! ## Calm runs -/

/-- The goroutine is inside `handler.Connect`. -/
def Go.connecting (x : Go udpPivot.P) : Bool :=
  x.stack.any fun
    | .connect _ => true
    | _ => false

/-- Datagrams come from `S` only, each after `Connect` of every connection has returned; every dial
and every write succeeds, no reply comes in and nobody closes a connection from outside. -/
def Calm (S : Addr) (s : Sys udpPivot) : Act udpPivot → Prop
  | .start (.recv src _ _) => src = S ∧ ∀ g < s.n, (s.thread g).connecting = false
  | .start (.close _) => False
  | .sec _ (.handler (.dial ok)) => ok = true
  | .sec _ (.handler (.write ok)) => ok = true
  | .sec _ (.handler (.read _)) => False
  | .sec _ _ => True

instance (S : Addr) (s : Sys udpPivot) : (a : Act udpPivot) → Decidable (Calm S s a)
  | .start (.recv src _ _) =>
    inferInstanceAs (Decidable (src = S ∧ ∀ g < s.n, (s.thread g).connecting = false))
  | .start (.close _) => inferInstanceAs (Decidable False)
  | .sec _ (.handler (.dial ok)) => inferInstanceAs (Decidable (ok = true))
  | .sec _ (.handler (.write ok)) => inferInstanceAs (Decidable (ok = true))
  | .sec _ (.handler (.read _)) => inferInstanceAs (Decidable False)
  | .sec _ (.handler .none) => inferInstanceAs (Decidable True)
  | .sec _ .none => inferInstanceAs (Decidable True)
  | .sec _ (.aton _) => inferInstanceAs (Decidable True)

/-- The goroutine has ended, or is a reader that waits for its peer. -/
def Go.rests (x : Go udpPivot.P) : Bool :=
  match x.pc with
  | .idle | .handler (.read _) _ => true
  | _ => false

/-- Nobody has anything to do. -/
def Quiet (s : Sys udpPivot) : Prop := ∀ g < s.n, (s.thread g).rests = true

instance (s : Sys udpPivot) : Decidable (Quiet s) :=
  inferInstanceAs (Decidable (∀ g < s.n, (s.thread g).rests = true))

/-- The places that a calm run reaches; a lookup is for a connection that exists. -/
def Pivot.P.Calm (n : Nat) : Pivot.P → Prop
  | .dial _ _ _ | .store _ | .go _ | .connected | .failed | .write _ _ _ _ | .read _ => True
  | .lookup c _ _ => c < n
  | _ => False

/-- What is known of a goroutine in a calm run. -/
structure CalmLocal (s : Shared udpPivot) (_ : Gid) (x : Go udpPivot.P) : Prop where
  place : ∀ {p err}, x.pc = .handler p err → Pivot.P.Calm s.n p
  frame : ∀ {p}, .handler p ∈ x.stack → p = .failed

def SocketsOpen (s : Shared udpPivot) : Prop := ∀ k, (s.h.sock k).closed = false

section
variable {S : Addr} {s s' : Sys udpPivot} {a : Act udpPivot}

theorem Pivot.Sec.read_env {h : Pivot.S} {r : Pivot.Relay} {err : Bool} {e : Pivot.E}
    {o : Pivot.S × Next Pivot.P} (hs : Pivot.Sec h (.read r) err e o) : ∃ d, e = .read d := by
  cases hs with
  | read _ _ data => exact ⟨some data, rfl⟩
  | readFail => exact ⟨none, rfl⟩
  | return_ _ _ _ hp => obtain h | h | h := hp <;> cases h

/-- A reader has no section in a calm run. -/
theorem Calm.not_read {g : Gid} {e : Env udpPivot.E} {x : Shared udpPivot}
    {st : List (Frame udpPivot.P)} {pc : Pc udpPivot.P} {o : Out udpPivot}
    (hc : Calm S s (.sec g e)) (hsec : Sec x st pc e o) (r : Pivot.Relay) (err : Bool) :
    pc ≠ .handler (.read r) err := by
  intro hpc
  subst hpc
  cases hsec <;> rename_i hs <;> obtain ⟨d, rfl⟩ := (Pivot.step_spec hs).read_env <;> exact hc

theorem work_step (hb : Base s) (hc : Calm S s a) (hs : step udpPivot s a = some s') :
    1 + 12 * s'.shared.queued.card + total Go.work s' + 26 * s.shared.received.length ≤
      12 * s.shared.queued.card + total Go.work s + 26 * s'.shared.received.length := by
  obtain ⟨b, x, t, rfl, hst, rfl⟩ | ⟨g, e, x, t, new, rfl, hg, hsec, rfl⟩ := step_cases hs
  · rw [total_start]
    obtain ⟨src, dst, data, rfl, -, rfl, rfl⟩ | ⟨c, -, rfl, rfl, rfl⟩ := start_spec hst
    · have hlen : (s.shared.received ++
          [(src, (⟨s.shared.received.length, data, dst⟩ : Dgram))]).length =
          s.shared.received.length + 1 := List.length_append
      show 1 + 12 * s.shared.queued.card + (total Go.work s + (25 + 0)) + _ ≤ _
      rw [State.start_shared, hlen]
      omega
    · exact hc.elim
  · have hsp := sec_spec (g := g) hsec
    have hrec : x.received = s.shared.received := hsp.received_eq
    have hw : 12 * x.queued.card + (t.work + new.elim 0 Go.work) <
      12 * s.shared.queued.card + (s.thread g).work := hsp.work (hb.thread g hg) (hc.not_read hsp)
    have htot := total_sec (f := Go.work) hg x t new
    rw [State.sec_shared, hrec]
    omega

theorem work_run {tr : List (Sys udpPivot × Act udpPivot)}
    (hr : Run (step udpPivot) (init udpPivot) tr s) (hc : Meets (Calm S) tr) :
    tr.length + 12 * s.shared.queued.card + total Go.work s ≤ 26 * s.shared.received.length := by
  induction hr with
  | nil => exact Nat.le_refl _
  | snoc hr hs ih =>
    obtain ⟨hc, hca⟩ := meets_snoc.1 hc
    have hstep := work_step (base_run hr) hca hs
    have := ih hc
    rw [List.length_append, List.length_singleton]
    omega

/-- A section of `udpPivot` in a calm run. -/
theorem Pivot.Sec.calm {h h' : Pivot.S} {p : Pivot.P} {err : Bool} {e : Pivot.E} {n g : Nat}
    {nx : Next Pivot.P} (hs : Pivot.Sec h p err e (h', nx)) (hp : p.Calm n)
    (hc : Udp.Calm S s (.sec g (.handler e))) (ho : ∀ k, (h.sock k).closed = false) :
    (∀ k, (h'.sock k).closed = false) ∧
      (match nx with
        | .goto q => q.Calm n
        | .call _ _ q => q = .failed
        | .spawn new q => new.Calm n ∧ q.Calm n
        | .return_ _ => True) := by
  have upd : ∀ {j : Nat} {x : Sock}, x.closed = false →
      ∀ k, (Function.update h.sock j x k).closed = false := by
    intro j x hx k
    rw [Function.update_apply]
    split
    · exact hx
    · exact ho k
  cases hs with
  | dial c l t => exact ⟨upd rfl, trivial⟩
  | dialFail => cases hc
  | store r => exact ⟨upd (ho r.sock), trivial⟩
  | go r => exact ⟨ho, trivial, trivial⟩
  | missing => exact ⟨ho, rfl⟩
  | found => exact ⟨ho, trivial⟩
  | write => exact ⟨ho, trivial⟩
  | writeFail => cases hc
  | read => exact hc.elim
  | readFail => exact hc.elim
  | return_ => exact ⟨ho, trivial⟩
  | _ => exact hp.elim

theorem Pivot.P.Calm.mono {n n' : Nat} {p : Pivot.P} (h : p.Calm n) (hn : n ≤ n') : p.Calm n' := by
  cases p with
  | lookup c l d => exact Nat.lt_of_lt_of_le h hn
  | _ => exact h

theorem CalmLocal.mono {x x' : Shared udpPivot} {g : Gid} {y : Go udpPivot.P}
    (h : CalmLocal x g y) (hn : x.n ≤ x'.n) : CalmLocal x' g y :=
  ⟨fun hp => (h.place hp).mono hn, h.frame⟩

/-- A goroutine that goes on outside the handler. -/
theorem CalmLocal.of_core {x : Shared udpPivot} {g : Gid} {pc : Pc udpPivot.P}
    {st : List (Frame udpPivot.P)} (hpc : ∀ p err, pc ≠ .handler p err)
    (hst : ∀ p, .handler p ∈ st → p = .failed) : CalmLocal x g ⟨pc, st⟩ :=
  ⟨fun h => absurd h (hpc _ _), fun hp => hst _ hp⟩

theorem Sec.calm {x : Shared udpPivot} {st : List (Frame udpPivot.P)} {pc : Pc udpPivot.P}
    {e : Env udpPivot.E} {o : Out udpPivot} {g : Gid} (h : Sec x st pc e o)
    (hl : Local x g ⟨pc, st⟩) (hcl : CalmLocal x g ⟨pc, st⟩) (ho : SocketsOpen x)
    (hc : Calm S s (.sec g e)) :
    SocketsOpen o.1 ∧ CalmLocal o.1 g o.2.1 ∧ ∀ g', ∀ u ∈ o.2.2, CalmLocal o.1 g' u := by
  have hst := fun p (hp : .handler p ∈ st) => hcl.frame hp
  cases h with
  | new src d hu =>
    refine ⟨ho, .of_core (by simp) hst, fun g' u hu => ?_⟩
    obtain rfl := Option.some.inj hu
    refine ⟨fun h => ?_, fun hp => ?_⟩
    · cases h; trivial
    · cases hp with
      | tail _ hp => cases hp
  | handle c d late hck =>
    refine ⟨ho, ⟨fun h => ?_, fun hp => ?_⟩, fun _ => by simp⟩
    · cases h; exact hl.pc_lt rfl
    · cases hp with
      | tail _ hp => exact hst _ hp
  | goto p err e h q hs =>
    obtain ⟨ho', hq⟩ := (Pivot.step_spec hs).calm (hcl.place rfl) hc ho
    refine ⟨ho', ⟨fun h => ?_, hst _⟩, fun _ => by simp⟩
    cases h; exact hq
  | call p err e h c m q hs hlt =>
    obtain ⟨ho', hq⟩ := (Pivot.step_spec hs).calm (hcl.place rfl) hc ho
    refine ⟨ho', .of_core (fun p err => ?_) fun p hp => ?_, fun _ => by simp⟩
    · cases m <;> simp [Method.pc]
    · cases hp with
      | head => exact hq
      | tail _ hp => exact hst p hp
  | spawn p err e h new q hs =>
    obtain ⟨ho', hnew, hq⟩ := (Pivot.step_spec hs).calm (hcl.place rfl) hc ho
    refine ⟨ho', ⟨fun h => ?_, hst _⟩, fun g' u hu => ?_⟩
    · cases h; exact hq
    · obtain rfl := Option.some.inj hu
      refine ⟨fun h => ?_, by simp⟩
      cases h; exact hnew
  | return_ p err e h r hs =>
    obtain ⟨ho', -⟩ := (Pivot.step_spec hs).calm (hcl.place rfl) hc ho
    exact ⟨ho', .of_core (by simp) hst, fun _ => by simp⟩
  | drain c d ds hp =>
    refine ⟨ho, ⟨fun h => ?_, fun hp => ?_⟩, fun _ => by simp⟩
    · cases h; exact hl.pc_lt rfl
    · cases hp with
      | tail _ hp => exact hst _ hp
  | end_ err h => exact ⟨ho, .of_core (by simp) (by simp), fun _ => by simp⟩
  | ret err f st' h =>
    subst h
    have hst' := fun p (hp : .handler p ∈ st') => hst p (List.mem_cons_of_mem _ hp)
    cases f with
    | recvFn => exact ⟨ho, .of_core (by simp) (by simp), fun _ => by simp [Shared.return_]⟩
    | receiveTo => exact ⟨ho, .of_core (by simp) hst', fun _ => by simp [Shared.return_]⟩
    | connect => exact ⟨ho, .of_core (by cases err <;> simp) hst', fun _ => by simp [Shared.return_]⟩
    | drain => exact ⟨ho, .of_core (by cases err <;> simp) hst', fun _ => by simp [Shared.return_]⟩
    | handler p =>
      obtain rfl := hst p List.mem_cons_self
      refine ⟨ho, ⟨fun h => ?_, hst' _⟩, fun _ => by simp [Shared.return_]⟩
      cases h; trivial
  | _ => exact ⟨ho, .of_core (by simp) hst, fun _ => by simp⟩

theorem calm_init : Holds SocketsOpen CalmLocal (init udpPivot) :=
  ⟨fun _ => rfl, fun g hg => absurd hg (Nat.not_lt_zero g)⟩

theorem calm_step (hb : Base s) (h : Holds SocketsOpen CalmLocal s) (hc : Calm S s a)
    (hs : step udpPivot s a = some s') : Holds SocketsOpen CalmLocal s' := by
  refine Holds.step h hs ?_ ?_
  · intro b x t hb hst
    subst hb
    obtain ⟨src, dst, data, rfl, -, rfl, rfl⟩ | ⟨c, -, rfl, rfl, rfl⟩ := start_spec hst
    · refine ⟨h.shared, .of_core (by simp) ?_, fun g hg hg' => ⟨hg'.place, hg'.frame⟩⟩
      intro p hp
      cases hp with
      | tail _ hp => cases hp
    · exact hc.elim
  · intro g e x t new he hg hsec
    subst he
    have hsp := sec_spec (g := g) hsec
    obtain ⟨ho, ht, hn⟩ := hsp.calm (hb.thread g hg) (h.thread g hg) h.shared hc
    exact ⟨ho, ht, hn _, fun g' _ _ hg' => hg'.mono hsp.effect.grows.n⟩

theorem calm_run {tr : List (Sys udpPivot × Act udpPivot)}
    (hr : Run (step udpPivot) (init udpPivot) tr s) (hc : Meets (Calm S) tr) :
    Base s ∧ Holds SocketsOpen CalmLocal s := by
  refine hr.inv (P := fun s => Base s ∧ Holds SocketsOpen CalmLocal s) hc
    ⟨base_init _, calm_init⟩ ?_
  intro s a s' h hca hs
  exact ⟨h.1.step hs, calm_step h.1 h.2 hca hs⟩

/-- A place of a calm run at which the goroutine does not wait has a section. -/
theorem Pivot.P.Calm.enabled {h : Pivot.S} {p : Pivot.P} {n : Nat} (hp : p.Calm n) (err : Bool)
    (ho : ∀ k, (h.sock k).closed = false) (hr : ∀ r, p ≠ .read r) :
    ∃ e h' nx, Pivot.step h p err e = some (h', nx) ∧
      (∀ c m q, nx = .call c m q → c < n) ∧ ∀ g, Udp.Calm S s (.sec g (.handler e)) := by
  cases p with
  | dial c l t => exact ⟨.dial true, _, _, rfl, by simp, fun _ => rfl⟩
  | lookup c l d =>
    refine ⟨.none, ?_⟩
    simp only [Pivot.step]
    cases h.redirectMap (udpID l d.addr) with
    | none =>
      refine ⟨_, _, rfl, fun c' m q hnx => ?_, fun _ => trivial⟩
      cases hnx
      exact hp
    | some k => exact ⟨_, .goto (.write c l d k), rfl, by simp, fun _ => trivial⟩
  | write c l d k =>
    have hstep : Pivot.step h (.write c l d k) err (.write true) =
        some ({ h with written := h.written ++ [(k, d)] }, .return_ false) := by
      simp [Pivot.step, ho k]
    exact ⟨.write true, _, _, hstep, by simp, fun _ => rfl⟩
  | read r => exact absurd rfl (hr r)
  | store | go | connected | failed => exact ⟨.none, _, _, rfl, by simp, fun _ => trivial⟩
  | _ => exact hp.elim

theorem next_isSome (x : Shared udpPivot) (st : List (Frame udpPivot.P)) {nx : Next udpPivot.P}
    (h : ∀ c m q, nx = .call c m q → c < x.n) : (x.next st nx).isSome = true := by
  cases nx with
  | call c m q =>
    simp only [Shared.next, if_pos (h c m q rfl)]
    rfl
  | _ => rfl

/-- In a calm run, as long as it is not quiet, somebody has a section. -/
theorem calm_progress (h : Holds SocketsOpen CalmLocal s) (hq : ¬ Quiet s) :
    ∃ g e s', Calm S s (.sec g e) ∧ step udpPivot s (.sec g e) = some s' := by
  simp only [Quiet, not_forall] at hq
  obtain ⟨g, hg, hrest⟩ := hq
  have run : ∀ e, Calm S s (.sec g e) → (sec s.shared g (s.thread g) e).isSome = true →
      ∃ g e s', Calm S s (.sec g e) ∧ step udpPivot s (.sec g e) = some s' := by
    intro e hc he
    obtain ⟨o, ho⟩ := Option.isSome_iff_exists.1 he
    refine ⟨g, e, s.sec g o.1 o.2.1 o.2.2, hc, ?_⟩
    simp only [Udp.step, Pool.step, if_pos hg, prog, ho, Option.map_some]
  have hl := h.thread g hg
  cases hpc : (s.thread g).pc with
  | idle => simp [Go.rests, hpc] at hrest
  | handler p err =>
    obtain ⟨e, h', nx, hstep, hcall, hc⟩ := (hl.place hpc).enabled (S := S) (s := s) err h.shared
      fun r hr => by simp [Go.rests, hpc, hr] at hrest
    refine run (.handler e) (hc g) ?_
    simp only [sec, hpc, hstep]
    exact next_isSome _ _ hcall
  | sendto c d late => exact run (.aton true) trivial (by simp [sec, hpc])
  | _ =>
    refine run .none trivial ?_
    simp only [sec, hpc]
    (repeat' split) <;> rfl

end

/-! ## One connection -/

/-- The connection of source `S` is the only one, registered once nobody is in `udpRecvFn`, and
every socket in `redirectMap` was dialed for it to `D`. -/
structure Single (S D : Addr) (s : Shared udpPivot) : Prop where
  n : s.n ≤ 1
  state : (s.conn 0).state ≠ .closed
  localAddr : 0 < s.n → (s.conn 0).localAddr = S
  registered : s.lock = none → s.udpConns S = some 0
  redirect : ∀ {id k}, s.h.redirectMap id = some k →
    id = udpID S D ∧ k < s.h.n ∧ (s.h.sock k).target = D
  connected : (s.conn 0).state = .connected → s.h.redirectMap (udpID S D) ≠ none
  written : ∀ x ∈ s.h.written, x.2.addr = D ∧ x.1 < s.h.n ∧ (s.h.sock x.1).target = D

/-- The stack of a goroutine in `udpPivot.ReceiveTo`. -/
inductive Carries (S : Addr) (s : Shared udpPivot) : List (Frame udpPivot.P) → Prop
  | recv (late : Bool) : s.udpConns S = some 0 → Carries S s [.receiveTo 0 late, .recvFn S]
  | drain : Carries S s [.drain 0]

/-- The goroutines of a calm run as long as nothing is given up. -/
inductive SingleLocal (S D : Addr) (s : Shared udpPivot) : Go udpPivot.P → Prop
  | idle : SingleLocal S D s ⟨.idle, []⟩
  | first (d : Dgram) : s.n = 0 → d.addr = D → SingleLocal S D s ⟨.load S d, [.recvFn S]⟩
  | load (d : Dgram) : s.udpConns S = some 0 → SingleLocal S D s ⟨.load S d, [.recvFn S]⟩
  | store (d : Dgram) : SingleLocal S D s ⟨.store 0 d, [.recvFn S]⟩
  | receiveTo (d : Dgram) (late : Bool) : s.udpConns S = some 0 →
      SingleLocal S D s ⟨.receiveTo 0 d late, [.recvFn S]⟩
  | receiveCheck (d : Dgram) (late : Bool) : s.udpConns S = some 0 →
      SingleLocal S D s ⟨.receiveCheck 0 d late, [.recvFn S]⟩
  | received : s.udpConns S = some 0 → SingleLocal S D s ⟨.ret false, [.recvFn S]⟩
  | lookup (d : Dgram) (err : Bool) (st : List (Frame udpPivot.P)) : Carries S s st →
      s.h.redirectMap (udpID S D) ≠ none → SingleLocal S D s ⟨.handler (.lookup 0 S d) err, st⟩
  | write (d : Dgram) (k : Nat) (err : Bool) (st : List (Frame udpPivot.P)) : Carries S s st →
      s.h.redirectMap (udpID S D) ≠ none → d.addr = D → k < s.h.n → (s.h.sock k).target = D →
      SingleLocal S D s ⟨.handler (.write 0 S d k) err, st⟩
  | handled (st : List (Frame udpPivot.P)) : Carries S s st →
      s.h.redirectMap (udpID S D) ≠ none → SingleLocal S D s ⟨.ret false, st⟩
  | dial (err : Bool) : SingleLocal S D s ⟨.handler (.dial 0 S D) err, [.connect 0]⟩
  | storing (r : Pivot.Relay) (err : Bool) : r.id = udpID S D → r.sock < s.h.n →
      (s.h.sock r.sock).target = D → SingleLocal S D s ⟨.handler (.store r) err, [.connect 0]⟩
  | go (r : Pivot.Relay) (err : Bool) : s.h.redirectMap (udpID S D) ≠ none →
      SingleLocal S D s ⟨.handler (.go r) err, [.connect 0]⟩
  | connected (err : Bool) : s.h.redirectMap (udpID S D) ≠ none →
      SingleLocal S D s ⟨.handler .connected err, [.connect 0]⟩
  | connectRet : s.h.redirectMap (udpID S D) ≠ none → SingleLocal S D s ⟨.ret false, [.connect 0]⟩
  | setConnected : s.h.redirectMap (udpID S D) ≠ none → SingleLocal S D s ⟨.setConnected 0, []⟩
  | drain : s.h.redirectMap (udpID S D) ≠ none → SingleLocal S D s ⟨.drain 0, []⟩
  | end_ : SingleLocal S D s ⟨.ret false, []⟩
  | read (r : Pivot.Relay) (err : Bool) : SingleLocal S D s ⟨.handler (.read r) err, []⟩

/-- What a goroutine knows stays true. -/
structure Keeps (S D : Addr) (s s' : Shared udpPivot) : Prop where
  registered : s.udpConns S = some 0 → s'.udpConns S = some 0
  redirect : s.h.redirectMap (udpID S D) ≠ none → s'.h.redirectMap (udpID S D) ≠ none
  n : s.h.n ≤ s'.h.n
  target : ∀ k < s.h.n, (s'.h.sock k).target = (s.h.sock k).target

section
variable {S D : Addr} {s s' : Shared udpPivot} {st : List (Frame udpPivot.P)}
  {pc : Pc udpPivot.P} {e : Env udpPivot.E} {o : Out udpPivot} {g : Gid}

theorem Keeps.of_eq (hu : s'.udpConns = s.udpConns) (hh : s'.h = s.h) : Keeps S D s s' :=
  ⟨fun h => by rw [hu]; exact h, fun h => by rw [hh]; exact h, Nat.le_of_eq (by rw [hh]),
    fun k _ => by rw [hh]⟩

theorem Carries.keep (h : Keeps S D s s') (hx : Carries S s st) : Carries S s' st := by
  cases hx with
  | recv late hr => exact .recv late (h.registered hr)
  | drain => exact .drain

theorem SingleLocal.keep {x : Go udpPivot.P} (h : Keeps S D s s') (hx : SingleLocal S D s x)
    (hn : s'.n = s.n ∨ ∀ src d, x.pc ≠ .load src d) : SingleLocal S D s' x := by
  cases hx with
  | idle => exact .idle
  | first d h0 hd =>
    rcases hn with hn | hn
    · exact .first d (hn.trans h0) hd
    · exact absurd rfl (hn _ _)
  | load d hr => exact .load d (h.registered hr)
  | store d => exact .store d
  | receiveTo d late hr => exact .receiveTo d late (h.registered hr)
  | receiveCheck d late hr => exact .receiveCheck d late (h.registered hr)
  | received hr => exact .received (h.registered hr)
  | lookup d err st hst hm => exact .lookup d err st (hst.keep h) (h.redirect hm)
  | write d k err st hst hm hd hk ht =>
    exact .write d k err st (hst.keep h) (h.redirect hm) hd (Nat.lt_of_lt_of_le hk h.n)
      ((h.target k hk).trans ht)
  | handled st hst hm => exact .handled st (hst.keep h) (h.redirect hm)
  | dial err => exact .dial err
  | storing r err hid hk ht =>
    exact .storing r err hid (Nat.lt_of_lt_of_le hk h.n) ((h.target _ hk).trans ht)
  | go r err hm => exact .go r err (h.redirect hm)
  | connected err hm => exact .connected err (h.redirect hm)
  | connectRet hm => exact .connectRet (h.redirect hm)
  | setConnected hm => exact .setConnected (h.redirect hm)
  | drain hm => exact .drain (h.redirect hm)
  | end_ => exact .end_
  | read r err => exact .read r err

theorem Sec.handler_inv {p : Pivot.P} {err : Bool} (h : Sec s st (.handler p err) e o) :
    ∃ e' h' nx, e = .handler e' ∧ Pivot.step s.h p err e' = some (h', nx) ∧
      { s with h := h' : Shared udpPivot }.next st nx = some o := by
  cases h with
  | goto p err e h' q hs => exact ⟨e, h', _, rfl, hs, rfl⟩
  | call p err e h' c m q hs hlt => exact ⟨e, h', _, rfl, hs, if_pos hlt⟩
  | spawn p err e h' new q hs => exact ⟨e, h', _, rfl, hs, rfl⟩
  | return_ p err e h' r hs => exact ⟨e, h', _, rfl, hs, rfl⟩

/-- A section of the core that leaves the only connection where it is. -/
theorem Single.of_eq (hs : Single S D s) (hn : s'.n = s.n) (hh : s'.h = s.h)
    (hst : (s'.conn 0).state = (s.conn 0).state)
    (hl : (s'.conn 0).localAddr = (s.conn 0).localAddr)
    (hreg : s'.lock = none → s'.udpConns S = some 0) : Single S D s' where
  n := hn ▸ hs.n
  state := hst ▸ hs.state
  localAddr h := hl.trans (hs.localAddr (hn ▸ h))
  registered := hreg
  redirect := by rw [hh]; exact hs.redirect
  connected := by rw [hh, hst]; exact hs.connected
  written := by rw [hh]; exact hs.written

/-- A section of `udpPivot`. -/
theorem Single.pivot (hs : Single S D s) {h' : Pivot.S}
    (hk : Keeps S D s { s with h := h' })
    (hr : ∀ {id k}, h'.redirectMap id = some k → id = udpID S D ∧ k < h'.n ∧ (h'.sock k).target = D)
    (hw : ∀ x ∈ h'.written, x ∈ s.h.written ∨ x.2.addr = D ∧ x.1 < h'.n ∧ (h'.sock x.1).target = D) :
    Single S D { s with h := h' } where
  n := hs.n
  state := hs.state
  localAddr := hs.localAddr
  registered := hs.registered
  redirect := hr
  connected h := hk.redirect (hs.connected h)
  written x hx := by
    rcases hw x hx with hx | hx
    · obtain ⟨ha, hlt, ht⟩ := hs.written x hx
      exact ⟨ha, Nat.lt_of_lt_of_le hlt hk.n, (hk.target _ hlt).trans ht⟩
    · exact hx

/-- The goroutine is the connection's, before the end of its loop. -/
def Go.drains (x : Go udpPivot.P) : Bool :=
  match x.pc, x.stack with
  | .setConnected _, _ | .drain _, _ => true
  | _, [.connect _] | _, [.drain _] => true
  | _, _ => false

/-- The section of a goroutine keeps the single connection, as long as it gives nothing up, and the
connection's goroutine goes on until `pending` is gone. -/
structure SingleStep (S D : Addr) (s : Shared udpPivot) (x : Go udpPivot.P) (o : Out udpPivot) :
    Prop where
  shared : Single S D o.1
  keeps : Keeps S D s o.1
  own : SingleLocal S D o.1 o.2.1
  new : ∀ u ∈ o.2.2, SingleLocal S D o.1 u
  n : o.1.n = s.n ∨ (∃ src d, x.pc = .load src d) ∧ ∃ u ∈ o.2.2, u.drains = true
  drains : x.drains = true → o.2.1.drains = true ∨ (o.1.conn 0).pending = none

/-- A section of the core that starts no goroutine and stores nothing. -/
theorem SingleStep.core (hs : Single S D s) {x y : Go udpPivot.P} (hn : s'.n = s.n)
    (hh : s'.h = s.h) (hu : s'.udpConns = s.udpConns) (hlk : s'.lock = s.lock)
    (hst : (s'.conn 0).state = (s.conn 0).state)
    (hl : (s'.conn 0).localAddr = (s.conn 0).localAddr) (hy : SingleLocal S D s y)
    (hd : x.drains = true → y.drains = true ∨ (s'.conn 0).pending = none) :
    SingleStep S D s x (s', y, none) where
  shared := hs.of_eq hn hh hst hl (by rw [hu, hlk]; exact hs.registered)
  keeps := .of_eq hu hh
  own := hy.keep (.of_eq hu hh) (.inl hn)
  new := by simp
  n := .inl hn
  drains := hd

/-- A section of `udpPivot` that changes nothing there. -/
theorem SingleStep.same (hs : Single S D s) {x y : Go udpPivot.P} {new : Option (Go udpPivot.P)}
    (hy : SingleLocal S D s y) (hnew : ∀ u ∈ new, SingleLocal S D s u)
    (hd : x.drains = true → y.drains = true) : SingleStep S D s x (s, y, new) :=
  ⟨hs, .of_eq rfl rfl, hy, hnew, .inl rfl, fun h => .inl (hd h)⟩

/-- The first datagram of a run makes the connection. -/
theorem Sec.single_first {d : Dgram} (h : Sec s [.recvFn S] (.load S d) e o) (hr : Registry s)
    (hs : Single S D s) (h0 : s.n = 0) (hd : d.addr = D) : SingleStep S D s ⟨.load S d, [.recvFn S]⟩ o := by
  cases h with
  | found _ _ c hu =>
    have := hr.lt hu
    omega
  | new _ _ hu =>
    have hc0 : (s.newUDPConn S).conn 0 = { localAddr := S } := by
      simp only [Shared.newUDPConn, h0, Function.update_self]
    refine ⟨⟨?_, ?_, fun _ => ?_, hs.registered, hs.redirect, ?_, hs.written⟩, .of_eq rfl rfl, ?_,
      ?_, .inr ⟨⟨S, d, rfl⟩, _, rfl, rfl⟩, by simp [Go.drains]⟩
    · exact Nat.le_of_eq (congrArg (· + 1) h0)
    · rw [hc0]; simp
    · rw [hc0]
    · rw [hc0]; simp
    · rw [h0]; exact .store d
    · intro u hu
      obtain rfl := Option.some.inj hu
      rw [h0, hd]
      exact .dial false

theorem Sec.single_store {d : Dgram} (h : Sec s [.recvFn S] (.store 0 d) e o) (hlt : 0 < s.n)
    (hs : Single S D s) : SingleStep S D s ⟨.store 0 d, [.recvFn S]⟩ o := by
  cases h with
  | store _ _ =>
    have hu : (s.store 0).udpConns S = some 0 := by
      simp only [Shared.store, hs.localAddr hlt, Function.update_self]
    refine ⟨hs.of_eq rfl rfl ?_ ?_ fun _ => hu, ⟨fun _ => hu, id, Nat.le_refl _, fun _ _ => rfl⟩,
      .receiveTo d _ hu, by simp, .inl rfl, by simp [Go.drains]⟩
    · simp [Shared.store, Shared.setConn]
    · simp [Shared.store, Shared.setConn]

/-- The lookup of `ReceiveTo` finds the socket. -/
theorem Sec.single_lookup {d : Dgram} {err : Bool}
    (h : Sec s st (.handler (.lookup 0 S d) err) e o) (hs : Single S D s) (hst : Carries S s st)
    (hm : s.h.redirectMap (udpID S D) ≠ none)
    (h0 : s.lost (.handler (.lookup 0 S d) err) e = 0) :
    SingleStep S D s ⟨.handler (.lookup 0 S d) err, st⟩ o := by
  obtain ⟨e', h', nx, rfl, hstep, hnx⟩ := h.handler_inv
  cases Pivot.step_spec hstep with
  | missing _ _ _ _ hnone => simp [Shared.lost, hnone] at h0
  | found _ _ _ _ k hk =>
    cases hnx
    obtain ⟨hid, hlt, ht⟩ := hs.redirect hk
    refine .same hs (.write d k false st hst hm (List.append_cancel_left hid) hlt ht) (by simp) ?_
    cases hst with
    | recv => simp [Go.drains]
    | drain => exact fun _ => rfl
  | return_ _ _ _ hp => obtain hp | hp | hp := hp <;> cases hp

theorem Sec.single_write {d : Dgram} {k : Nat} {err : Bool}
    (h : Sec s st (.handler (.write 0 S d k) err) e o) (hs : Single S D s) (hst : Carries S s st)
    (hm : s.h.redirectMap (udpID S D) ≠ none) (hd : d.addr = D) (hlt : k < s.h.n)
    (ht : (s.h.sock k).target = D) (h0 : s.lost (.handler (.write 0 S d k) err) e = 0) :
    SingleStep S D s ⟨.handler (.write 0 S d k) err, st⟩ o := by
  obtain ⟨e', h', nx, rfl, hstep, hnx⟩ := h.handler_inv
  cases Pivot.step_spec hstep with
  | write _ _ _ _ _ hcl =>
    cases hnx
    have hk : Keeps S D s { s with h := { s.h with written := s.h.written ++ [(k, d)] } } :=
      ⟨id, id, Nat.le_refl _, fun _ _ => rfl⟩
    refine ⟨hs.pivot hk hs.redirect fun x hx => ?_, hk, .handled st (hst.keep hk) hm, by simp,
      .inl rfl, ?_⟩
    · rcases List.mem_append.1 hx with hx | hx
      · exact .inl hx
      · obtain rfl := List.mem_singleton.1 hx
        exact .inr ⟨hd, hlt, ht⟩
    · cases hst with
      | recv => simp [Go.drains]
      | drain => exact fun _ => .inl rfl
  | writeFail => simp [Shared.lost] at h0
  | return_ _ _ _ hp => obtain hp | hp | hp := hp <;> cases hp

theorem Sec.single_dial {t : Sys udpPivot} {err : Bool}
    (h : Sec s [.connect 0] (.handler (.dial 0 S D) err) e o) (hs : Single S D s)
    (hc : Calm S t (.sec g e)) : SingleStep S D s ⟨.handler (.dial 0 S D) err, [.connect 0]⟩ o := by
  obtain ⟨e', h', nx, rfl, hstep, hnx⟩ := h.handler_inv
  cases Pivot.step_spec hstep with
  | dial =>
    cases hnx
    have hk : Keeps S D s { s with h := s.h.dial S D } := by
      refine ⟨id, id, Nat.le_succ _, fun k hk => ?_⟩
      simp [Pivot.S.dial, Nat.ne_of_lt hk]
    refine ⟨hs.pivot hk (fun hr => ?_) fun x hx => .inl hx, hk, ?_, by simp, .inl rfl, fun _ => .inl rfl⟩
    · obtain ⟨hid, hlt, ht⟩ := hs.redirect hr
      exact ⟨hid, Nat.lt_succ_of_lt hlt, (hk.target _ hlt).trans ht⟩
    · exact .storing _ false rfl (Nat.lt_succ_self _) (by simp [Pivot.S.dial])
  | dialFail => cases hc
  | return_ _ _ _ hp => obtain hp | hp | hp := hp <;> cases hp

theorem Sec.single_storing {r : Pivot.Relay} {err : Bool}
    (h : Sec s [.connect 0] (.handler (.store r) err) e o) (hs : Single S D s)
    (hid : r.id = udpID S D) (hlt : r.sock < s.h.n) (ht : (s.h.sock r.sock).target = D) :
    SingleStep S D s ⟨.handler (.store r) err, [.connect 0]⟩ o := by
  obtain ⟨e', h', nx, rfl, hstep, hnx⟩ := h.handler_inv
  cases Pivot.step_spec hstep with
  | store =>
    cases hnx
    have hm : (s.h.store r.id r.sock).redirectMap (udpID S D) = some r.sock := by
      simp [Pivot.S.store, hid]
    have htar : ∀ k, ((s.h.store r.id r.sock).sock k).target = (s.h.sock k).target := by
      intro k
      simp only [Pivot.S.store, Pivot.S.setSock, Function.update_apply]
      split
      · rename_i hk; rw [hk]
      · rfl
    have hk : Keeps S D s { s with h := s.h.store r.id r.sock } :=
      ⟨id, fun _ => by rw [hm]; simp, Nat.le_refl _, fun k _ => htar k⟩
    refine ⟨hs.pivot hk (fun {id k} hr => ?_) fun x hx => .inl hx, hk, ?_, by simp, .inl rfl, fun _ => .inl rfl⟩
    · rw [htar]
      simp only [Pivot.S.store, Function.update_apply] at hr
      split at hr
      · rename_i hi
        cases hr
        exact ⟨hi.trans hid, hlt, ht⟩
      · exact hs.redirect hr
    · exact .go r false (by rw [hm]; simp)
  | return_ _ _ _ hp => obtain hp | hp | hp := hp <;> cases hp

theorem checkState_eq_false {x : Conn} (h : x.checkState = false) : x.state = .connected := by
  unfold Conn.checkState at h
  split at h
  · cases h
  · cases h
  · assumption

theorem Sec.single {t : Sys udpPivot} (h : Sec s st pc e o) (hl : Local s g ⟨pc, st⟩)
    (hr : Registry s) (hs : Single S D s) (hx : SingleLocal S D s ⟨pc, st⟩) (h0 : s.lost pc e = 0)
    (hc : Calm S t (.sec g e)) : SingleStep S D s ⟨pc, st⟩ o := by
  cases hx with
  | idle => cases h
  | first d hn hd => exact h.single_first hr hs hn hd
  | load d hu =>
    cases h with
    | found _ _ c huc =>
      obtain rfl : 0 = c := Option.some.inj (hu.symm.trans huc)
      exact .same hs (.receiveTo d _ hu) (by simp) (by simp [Go.drains])
    | new _ _ hnone => cases hu.symm.trans hnone
  | store d => exact h.single_store (hl.pc_lt rfl) hs
  | receiveTo d late hu =>
    cases h with
    | enqueue =>
      refine .core hs rfl rfl rfl rfl ?_ ?_ (.received hu) (by simp [Go.drains])
      · simp [Shared.emit, Shared.setConn]
      · simp [Shared.emit, Shared.setConn]
    | notEarly => exact .same hs (.receiveCheck d late hu) (by simp) (by simp [Go.drains])
  | receiveCheck d late hu =>
    cases h with
    | refuse _ _ _ hck => simp [Shared.lost, hck] at h0
    | handle _ _ _ hck =>
      have hm := hs.connected (checkState_eq_false hck)
      refine .core hs rfl rfl rfl rfl rfl rfl ?_ (by simp [Go.drains])
      simp only [Shared.receiveTo, hs.localAddr (hl.pc_lt rfl)]
      exact .lookup d false _ (.recv late hu) hm
  | received hu =>
    cases h with
    | end_ _ hst => cases hst
    | ret _ f st' hst =>
      cases hst
      exact ⟨hs.of_eq rfl rfl rfl rfl fun _ => hu, .of_eq rfl rfl, .idle, by simp [Shared.return_],
        .inl rfl, by simp [Go.drains]⟩
  | lookup d err st hst hm => exact h.single_lookup hs hst hm h0
  | write d k err st hst hm hd hlt ht => exact h.single_write hs hst hm hd hlt ht h0
  | handled st hst hm =>
    cases hst with
    | recv late hu =>
      cases h with
      | end_ _ hst => cases hst
      | ret _ f st' hst =>
        cases hst
        exact .core hs rfl rfl rfl rfl rfl rfl (.received hu) (by simp [Go.drains])
    | drain =>
      cases h with
      | end_ _ hst => cases hst
      | ret _ f st' hst =>
        cases hst
        exact .same hs (.drain hm) (by simp) fun _ => rfl
  | dial err => exact h.single_dial hs hc
  | storing r err hid hlt ht => exact h.single_storing hs hid hlt ht
  | go r err hm =>
    obtain ⟨e', h', nx, rfl, hstep, hnx⟩ := h.handler_inv
    cases e' <;> cases hstep
    cases hnx
    refine .same hs (.connected false hm) (fun u hu => ?_) fun _ => rfl
    obtain rfl := Option.some.inj hu
    exact .read r false
  | connected err hm =>
    obtain ⟨e', h', nx, rfl, hstep, hnx⟩ := h.handler_inv
    cases e' <;> cases hstep
    cases hnx
    exact .same hs (.connectRet hm) (by simp) fun _ => rfl
  | connectRet hm =>
    cases h with
    | end_ _ hst => cases hst
    | ret _ f st' hst =>
      cases hst
      exact .same hs (.setConnected hm) (by simp) fun _ => rfl
  | setConnected hm =>
    cases h with
    | setConnected =>
      refine ⟨⟨hs.n, ?_, fun hn => ?_, hs.registered, hs.redirect, fun _ => hm, hs.written⟩,
        .of_eq rfl rfl, .drain hm, by simp, .inl rfl, fun _ => .inl rfl⟩
      · simp [Shared.setConn]
      · simpa [Shared.setConn] using hs.localAddr hn
  | drain hm =>
    cases h with
    | drain _ d ds hp =>
      refine .core hs rfl rfl rfl rfl ?_ ?_ ?_ fun _ => .inl rfl
      · simp [Shared.setConn]
      · simp [Shared.setConn]
      · simp only [Shared.receiveTo, hs.localAddr (hl.pc_lt rfl)]
        exact .lookup d false _ .drain hm
    | drained =>
      refine .core hs rfl rfl rfl rfl ?_ ?_ .end_ fun _ => .inr ?_
      · simp [Shared.setConn]
      · simp [Shared.setConn]
      · simp [Shared.setConn]
  | end_ =>
    cases h with
    | end_ => exact .same hs .idle (by simp) (by simp [Go.drains])
    | ret _ f st' hst => cases hst
  | read r err => exact absurd rfl (hc.not_read h r err)

/-- Who took `pending` away, took it for good. -/
theorem Sec.pending_none (h : Sec s st pc e o) {c : Nat} (hlt : c < s.n)
    (hp : (s.conn c).pending = none) : (o.1.conn c).pending = none := by
  have upd : ∀ {d : Nat} {x : Conn}, (d = c → x.pending = none) →
      (Function.update s.conn d x c).pending = none := by
    intro d x hx
    rw [Function.update_apply]
    split
    · rename_i h; exact hx h.symm
    · exact hp
  cases h with
  | new => exact upd fun h => absurd h.symm (Nat.ne_of_lt hlt)
  | store => exact upd fun h => by rw [h]; exact hp
  | enqueue _ _ _ _ _ hq => exact upd fun h => by rw [h, hp] at hq; cases hq
  | setConnected => exact upd fun h => by rw [h]; exact hp
  | drain _ _ _ hq => exact upd fun h => by rw [h, hp] at hq; cases hq
  | drained => exact upd fun _ => rfl
  | close => exact upd fun h => by rw [h]; exact hp
  | ret _ f => cases f <;> exact hp
  | _ => exact hp

end

section
variable {S D : Addr} {s s' : Sys udpPivot} {a : Act udpPivot}

/-- The connection's goroutine runs until it has emptied `pending`. -/
def Drains (s : Sys udpPivot) : Prop :=
  0 < s.shared.n → (s.shared.conn 0).pending = none ∨ ∃ g < s.n, (s.thread g).drains = true

/-- A calm run that has given nothing up: it has not begun, or there is one connection, to the
destination of a datagram that came in. -/
def Going (S : Addr) (s : Sys udpPivot) : Prop :=
  s = init udpPivot ∨ ∃ D, Holds (Single S D) (fun x _ => SingleLocal S D x) s ∧ Drains s ∧
    ∃ y ∈ s.shared.received, y.2.addr = D

theorem going_recv (h : Going S s) {dst : Addr} {data : Bytes} {x : Shared udpPivot}
    {t : Go udpPivot.P} (hst : start s.shared s.n (.recv S dst data) = some (x, t)) :
    Going S (s.start x t) := by
  obtain ⟨src, dst', data', hb, hlock, rfl, rfl⟩ | ⟨c, -, hb, -⟩ := start_spec hst
  case inr => cases hb
  cases hb
  rcases h with rfl | ⟨D, h, hd, y, hy, hyD⟩
  · refine .inr ⟨dst, ⟨⟨Nat.zero_le _, by simp [init], by simp [init], by simp [init],
      by simp [init, udpPivot], by simp [init], by simp [init, udpPivot]⟩, ?_⟩,
      fun h => absurd h (Nat.lt_irrefl 0), _,
      List.mem_append_right _ List.mem_cons_self, rfl⟩
    intro g hg
    obtain rfl : g = 0 := by simpa [init] using hg
    exact .first _ rfl rfl
  · have hu := h.shared.registered hlock
    refine .inr ⟨D, h.start (h.shared.of_eq rfl rfl rfl rfl (by simp)) (.load _ hu) fun g _ hx =>
      SingleLocal.keep (s := s.shared) (.of_eq rfl rfl) hx (.inl rfl), fun hn => ?_,
      y, List.mem_append_left _ hy, hyD⟩
    rcases hd hn with hp | ⟨g, hg, hx⟩
    · exact .inl hp
    · refine .inr ⟨g, Nat.lt_succ_of_lt hg, ?_⟩
      rw [s.start_thread_lt _ _ hg]
      exact hx

theorem drains_sec (hd : Drains s) {g : Gid} {e : Env udpPivot.E} {x : Shared udpPivot}
    {t : Go udpPivot.P} {new : Option (Go udpPivot.P)} (hg : g < s.n)
    (hsp : Sec s.shared (s.thread g).stack (s.thread g).pc e (x, t, new))
    (hstep : SingleStep S D s.shared (s.thread g) (x, t, new)) : Drains (s.sec g x t new) := by
  intro hn
  rcases hstep.n with hn' | ⟨-, u, hu, hux⟩
  · have hn0 : 0 < s.shared.n := by rw [← hn']; exact hn
    rcases hd hn0 with hp | ⟨g', hg', hx⟩
    · exact .inl (hsp.pending_none hn0 hp)
    · by_cases hgg : g' = g
      · subst hgg
        refine (hstep.drains hx).symm.imp_right fun ht => ⟨g', ?_, ?_⟩
        · exact Nat.lt_of_lt_of_le hg' (s.le_sec_n g' x t new)
        · rw [s.sec_thread_self]
          exact ht
      · refine .inr ⟨g', Nat.lt_of_lt_of_le hg' (s.le_sec_n g x t new), ?_⟩
        rw [s.sec_thread_lt x t new hgg hg']
        exact hx
  · obtain rfl : new = some u := hu
    refine .inr ⟨s.n, Nat.lt_succ_self _, ?_⟩
    rw [s.sec_thread_new x t u hg]
    exact hux

theorem going_sec (hb : Base s) (h : Going S s) {g : Gid} {e : Env udpPivot.E}
    {x : Shared udpPivot} {t : Go udpPivot.P} {new : Option (Go udpPivot.P)} (hg : g < s.n)
    (hsec : sec s.shared g (s.thread g) e = some (x, t, new)) (hc : Calm S s (.sec g e))
    (h0 : Sys.lost s (.sec g e) = 0) : Going S (s.sec g x t new) := by
  rcases h with rfl | ⟨D, h, hd, y, hy, hyD⟩
  · exact absurd hg (Nat.not_lt_zero g)
  have hl := hb.thread g hg
  have hsp := sec_spec hsec
  have hstep := hsp.single hl hb.shared h.shared (h.thread g hg) h0 hc
  refine .inr ⟨D, h.sec hg hstep.shared hstep.own hstep.new fun g' hg' hne hx => ?_,
    drains_sec hd hg hsp hstep, y, (show x.received = _ from hsp.received_eq) ▸ hy, hyD⟩
  refine hx.keep hstep.keeps (hstep.n.imp_right fun hload src d hpc => ?_)
  -- two goroutines at `Load` would both be in `udpRecvFn`
  obtain ⟨⟨src', d', hpc'⟩, -⟩ := hload
  have hlock := hl.lock_of_looksUp (by rw [show (s.thread g).pc = _ from hpc']; rfl)
  have hlock' := (hb.thread g' hg').lock_of_looksUp (by rw [hpc]; rfl)
  exact hne (Option.some.inj (hlock'.symm.trans hlock))

theorem going_step (hb : Base s) (h : Going S s) (hc : Calm S s a) (h0 : Sys.lost s a = 0)
    (hs : step udpPivot s a = some s') : Going S s' := by
  obtain ⟨b, x, t, rfl, hst, rfl⟩ | ⟨g, e, x, t, new, rfl, hg, hsec, rfl⟩ := step_cases hs
  · cases b with
    | recv src dst data =>
      obtain rfl := hc.1
      exact going_recv h hst
    | close c => exact hc.elim
  · exact going_sec hb h hg hsec hc h0

theorem received_subset (hs : step udpPivot s a = some s') :
    s.shared.received ⊆ s'.shared.received := by
  obtain ⟨b, x, t, rfl, hst, rfl⟩ | ⟨g, e, x, t, new, rfl, -, hsec, rfl⟩ := step_cases hs
  · obtain ⟨src, dst, data, rfl, -, rfl, rfl⟩ | ⟨c, -, rfl, rfl, rfl⟩ := start_spec hst
    · exact List.subset_append_left _ _
    · exact List.Subset.refl _
  · have hrec : x.received = s.shared.received := (sec_spec (g := g) hsec).received_eq
    rw [State.sec_shared, hrec]
    exact List.Subset.refl _

/-- The tag of a datagram from the app is its number. -/
theorem tags_run {tr : List (Sys udpPivot × Act udpPivot)}
    (hr : Run (step udpPivot) (init udpPivot) tr s) :
    s.shared.received.map (·.2.tag) = List.range s.shared.received.length := by
  induction hr with
  | nil => rfl
  | snoc _ hs ih =>
    obtain ⟨b, x, t, rfl, hst, rfl⟩ | ⟨g, e, x, t, new, rfl, -, hsec, rfl⟩ := step_cases hs
    · obtain ⟨src, dst, data, rfl, -, rfl, rfl⟩ | ⟨c, -, rfl, rfl, rfl⟩ := start_spec hst
      · simp [List.range_succ, ih]
      · exact ih
    · rw [State.sec_shared, (sec_spec (g := g) hsec).received_eq]
      exact ih

theorem arrived_nodup {tr : List (Sys udpPivot × Act udpPivot)}
    (hr : Run (step udpPivot) (init udpPivot) tr s) : s.shared.arrived.Nodup := by
  have htags : ((s.shared.received.map Prod.snd).map Dgram.tag).Nodup := by
    rw [List.map_map]
    exact (tags_run hr) ▸ List.nodup_range
  exact List.Nodup.of_map _ htags

/-! ## What is forwarded -/

/-- All datagrams that came in have one destination. -/
def OneDest (s : Sys udpPivot) : Prop :=
  ∀ x ∈ s.shared.received, ∀ y ∈ s.shared.received, x.2.addr = y.2.addr

/-- The connection of a `ReceiveTo` whose datagram `enqueueEarlyPacket` did not take. -/
def Pc.checks : Pc udpPivot.P → Option Nat
  | .receiveCheck c _ _ => some c
  | _ => none

/-- `ReceiveTo`, after `enqueueEarlyPacket` found no room, does not find its connection still
connecting. -/
def NoOverflow (s : Sys udpPivot) : Act udpPivot → Prop
  | .start _ => True
  | .sec g _ => ∀ c ∈ (s.thread g).pc.checks, (s.shared.conn c).state ≠ .connecting

instance (s : Sys udpPivot) : (a : Act udpPivot) → Decidable (NoOverflow s a)
  | .start _ => inferInstanceAs (Decidable True)
  | .sec g _ => inferInstanceAs
      (Decidable (∀ c ∈ (s.thread g).pc.checks, (s.shared.conn c).state ≠ .connecting))

/-- Every datagram that came in was written exactly once, to a socket dialed to its destination. -/
def Forwarded (s : Sys udpPivot) : Prop :=
  ∀ x ∈ s.shared.received, (s.shared.h.written.map Prod.snd).count x.2 = 1 ∧
    ∀ k, (k, x.2) ∈ s.shared.h.written →
      k < s.shared.h.n ∧ (s.shared.h.sock k).target = x.2.addr

/-- A goroutine at rest carries nothing and is not the connection's. -/
theorem SingleLocal.rest {y : Shared udpPivot} {x : Go udpPivot.P} (hx : SingleLocal S D y x)
    (hr : x.rests = true) : x.held = 0 ∧ x.drains = false := by
  cases hx with
  | idle => exact ⟨rfl, rfl⟩
  | read => exact ⟨rfl, rfl⟩
  | _ => cases hr

/-- Where nothing was given up and nobody has anything to do, everything is written. -/
theorem Going.written_eq (h : Going S s) (hq : Quiet s)
    (hacc : s.shared.written + s.shared.queued + total Go.held s = s.shared.arrived) :
    s.shared.written = s.shared.arrived := by
  rcases h with rfl | ⟨D, h, hd, -⟩
  · rfl
  have rest : ∀ g < s.n, (s.thread g).held = 0 ∧ (s.thread g).drains = false :=
    fun g hg => (h.thread g hg).rest (hq g hg)
  have hheld : total Go.held s = 0 :=
    Finset.sum_eq_zero fun g hg => (rest g (Finset.mem_range.1 hg)).1
  have hqueued : s.shared.queued = 0 := by
    refine Finset.sum_eq_zero fun c hc => ?_
    have hlt := Finset.mem_range.1 hc
    obtain rfl : c = 0 := by
      have := h.shared.n
      omega
    rcases hd hlt with hp | ⟨g, hg, hx⟩
    · rw [Conn.queued, hp]; rfl
    · rw [(rest g hg).2] at hx; cases hx
  rw [hheld, hqueued, add_zero, add_zero] at hacc
  exact hacc

/-- What a goroutine carries came in. -/
theorem held_mem_arrived {tr : List (Sys udpPivot × Act udpPivot)}
    (hr : Run (step udpPivot) (init udpPivot) tr s) {g : Gid} (hg : g < s.n) {d : Dgram}
    (hd : d ∈ (s.thread g).held) : ∃ x ∈ s.shared.received, x.2 = d := by
  have hmem : d ∈ total Go.held s :=
    Multiset.mem_sum.2 ⟨g, Finset.mem_range.2 hg, hd⟩
  have harr : d ∈ s.shared.arrived := by
    rw [← account_run hr]
    simp [hmem]
  obtain ⟨x, hx, rfl⟩ := List.mem_map.1 (Multiset.mem_coe.1 harr)
  exact ⟨x, hx, rfl⟩

/-- As long as all datagrams have one destination and `pending` does not overflow, nothing is given
up. -/
theorem Going.lost_eq_zero {tr : List (Sys udpPivot × Act udpPivot)}
    (hr : Run (step udpPivot) (init udpPivot) tr s) (h : Going S s) (hone : OneDest s)
    (hov : NoOverflow s a) (hc : Calm S s a) (hs : step udpPivot s a = some s') :
    Sys.lost s a = 0 := by
  cases a with
  | start b => rfl
  | sec g e =>
    have hg : g < s.n := by
      by_contra hg
      simp [Udp.step, Pool.step, hg] at hs
    rcases h with rfl | ⟨D, h, -, y, hy, hyD⟩
    · exact absurd hg (Nat.not_lt_zero g)
    have hdest : ∀ d ∈ (s.thread g).held, d.addr = D := by
      intro d hd
      obtain ⟨x, hx, rfl⟩ := held_mem_arrived hr hg hd
      rw [hone x hx y hy, hyD]
    have hx := h.thread g hg
    simp only [NoOverflow] at hov
    simp only [Sys.lost]
    generalize s.thread g = x at hx hov hdest
    cases hx with
    | receiveCheck d late hu =>
      have hck : (s.shared.conn 0).checkState = false := by
        have hcl := h.shared.state
        have hcn := hov 0 rfl
        unfold Conn.checkState
        cases hst : (s.shared.conn 0).state with
        | connected => rfl
        | closed => exact absurd hst hcl
        | connecting => exact absurd hst hcn
      simp [Shared.lost, hck]
    | lookup d err st hst hm =>
      obtain rfl := hdest d (by simp [Go.held, Pc.held, Pivot.P.held])
      simp [Shared.lost, hm]
    | write d k err st =>
      cases e with
      | handler e =>
        cases e with
        | write ok => cases hc; rfl
        | _ => rfl
      | _ => rfl
    | _ => rfl

/-- No step of the trace gives a datagram up. -/
def NoneLost (tr : List (Sys udpPivot × Act udpPivot)) : Prop := Meets (fun s a => Sys.lost s a = 0) tr

theorem going_run {tr : List (Sys udpPivot × Act udpPivot)}
    (hr : Run (step udpPivot) (init udpPivot) tr s) (hc : Meets (Calm S) tr) (h0 : NoneLost tr) :
    Going S s := by
  induction hr with
  | nil => exact .inl rfl
  | snoc hr hs ih =>
    obtain ⟨hc, hca⟩ := meets_snoc.1 hc
    obtain ⟨h0, h0a⟩ := meets_snoc.1 h0
    exact going_step (base_run hr) (ih hc h0) hca h0a hs

theorem noneLost_run {tr : List (Sys udpPivot × Act udpPivot)}
    (hr : Run (step udpPivot) (init udpPivot) tr s) (hc : Meets (Calm S) tr) (hone : OneDest s)
    (hov : Meets NoOverflow tr) : NoneLost tr := by
  induction hr with
  | nil => exact meets_nil _
  | snoc hr hs ih =>
    obtain ⟨hc, hca⟩ := meets_snoc.1 hc
    obtain ⟨hov, hova⟩ := meets_snoc.1 hov
    have hsub := received_subset hs
    have hone' : OneDest _ := fun x hx y hy => hone x (hsub hx) y (hsub hy)
    have h0 := ih hc hone' hov
    exact meets_snoc.2 ⟨h0, (going_run hr hc h0).lost_eq_zero hr hone' hova hca hs⟩

theorem sum_lost_eq_zero {tr : List (Sys udpPivot × Act udpPivot)} :
    (tr.map fun x => Sys.lost x.1 x.2).sum = 0 ↔ NoneLost tr := by
  induction tr with
  | nil => simp [NoneLost]
  | cons x tr ih =>
    rw [List.map_cons, List.sum_cons, add_eq_zero, ih]
    simp only [NoneLost, Meets, List.forall_mem_cons]

/-- A `ReceiveTo` that finds no room and its connection still connecting gives its datagram up. -/
theorem noOverflow_of_lost (h : Sys.lost s a = 0) : NoOverflow s a := by
  cases a with
  | start b => trivial
  | sec g e =>
    intro c hcheck hst
    simp only [Sys.lost] at h
    cases hpc : (s.thread g).pc with
    | receiveCheck c' d late =>
      rw [hpc] at hcheck h
      obtain rfl := Option.some.inj hcheck
      simp [Shared.lost, Conn.checkState, hst] at h
    | _ => rw [hpc] at hcheck; cases hcheck

/-- Where every datagram was written once, none was given up. -/
theorem Forwarded.noneLost {tr : List (Sys udpPivot × Act udpPivot)}
    (hr : Run (step udpPivot) (init udpPivot) tr s) (h : Forwarded s) : NoneLost tr := by
  have hacc := account_run hr
  refine sum_lost_eq_zero.1 (Multiset.eq_zero_of_forall_notMem fun d hd => ?_)
  have hcount := congrArg (Multiset.count d) hacc
  have hlost := Multiset.count_pos.2 hd
  have hmem : d ∈ s.shared.arrived := by
    rw [← hacc]
    exact Multiset.mem_add.2 (.inr hd)
  have hone : s.shared.arrived.count d = 1 := Multiset.count_eq_one_of_mem (arrived_nodup hr) hmem
  obtain ⟨x, hx, rfl⟩ := List.mem_map.1 (Multiset.mem_coe.1 hmem)
  have hw : s.shared.written.count x.2 = 1 := (Multiset.coe_count _ _).trans (h x hx).1
  simp only [Multiset.count_add] at hcount
  omega

/-- In every calm run: it is finite for every number of datagrams, it goes on until nobody has
anything to do, and then every datagram was written exactly once, to a socket dialed to its own
destination, if and only if all have one destination and no datagram met a full `pending`. -/
theorem forwarded_iff {tr : List (Sys udpPivot × Act udpPivot)}
    (hr : Run (step udpPivot) (init udpPivot) tr s) (hc : Meets (Calm S) tr) :
    tr.length ≤ 26 * s.shared.received.length ∧
      (¬ Quiet s → ∃ g e s', Calm S s (.sec g e) ∧ step udpPivot s (.sec g e) = some s') ∧
      (Quiet s → (Forwarded s ↔ OneDest s ∧ Meets NoOverflow tr)) := by
  refine ⟨?_, calm_progress (calm_run hr hc).2, fun hq => ?_⟩
  · have := work_run hr hc
    omega
  -- once nothing is given up, what is written is what came in
  have written : NoneLost tr → Going S s ∧ s.shared.written = s.shared.arrived := by
    intro h0
    have hgo := going_run hr hc h0
    have hacc := account_run hr
    rw [sum_lost_eq_zero.2 h0, add_zero] at hacc
    exact ⟨hgo, hgo.written_eq hq hacc⟩
  constructor
  · intro hf
    have h0 := hf.noneLost hr
    refine ⟨?_, fun x hx => noOverflow_of_lost (h0 x hx)⟩
    obtain ⟨hgo, hw⟩ := written h0
    rcases hgo with rfl | ⟨D, h, -⟩
    · simp [init, OneDest]
    have hD : ∀ x ∈ s.shared.received, x.2.addr = D := by
      intro x hx
      have hmem : x.2 ∈ s.shared.written := by
        rw [hw]
        exact List.mem_map_of_mem hx
      obtain ⟨y, hy, hyx⟩ := List.mem_map.1 (Multiset.mem_coe.1 hmem)
      rw [← hyx]
      exact (h.shared.written y hy).1
    exact fun x hx y hy => (hD x hx).trans (hD y hy).symm
  · intro hcond
    obtain ⟨hgo, hw⟩ := written (noneLost_run hr hc hcond.1 hcond.2)
    intro x hx
    have hmem : x.2 ∈ s.shared.arrived := List.mem_map_of_mem hx
    have hcount : s.shared.arrived.count x.2 = 1 :=
      Multiset.count_eq_one_of_mem (arrived_nodup hr) hmem
    refine ⟨?_, fun k hk => ?_⟩
    · rw [← hw] at hcount
      exact (Multiset.coe_count _ _).symm.trans hcount
    · rcases hgo with rfl | ⟨D, h, -⟩
      · cases hx
      · obtain ⟨ha, hlt, ht⟩ := h.shared.written _ hk
        exact ⟨hlt, ht.trans ha.symm⟩

end

/-- The first datagram, from `[1]` to `[2]`, comes in and is written. -/
def forwardActs : List (Act udpPivot) :=
  firstActs ++ runs 0 [false, false, false] ++ [.sec 1 (.handler (.dial true))] ++
    runs 1 [true, true, true, false, false, false, true] ++ [.sec 1 (.handler (.write true))] ++
    runs 1 [false, false, false]

/-- A second datagram to the same destination. -/
theorem forwarded_iff_again :
    ∃ tr s, Run (step udpPivot) (init udpPivot) tr s ∧ Meets (Calm [1]) tr ∧ Quiet s ∧
      s.shared.received.length = 2 ∧ Forwarded s := by
  let acts : List (Act udpPivot) := forwardActs ++ .start (.recv [1] [2] [66]) ::
    runs 3 [false, false, false, true] ++ [.sec 3 (.handler (.write true))] ++ runs 3 [false, false]
  obtain ⟨s, hr, hs⟩ := exists_run (step udpPivot) (init udpPivot) acts
    (fun s => decide (Quiet s ∧ s.shared.received.length = 2 ∧
      (∀ x ∈ s.shared.received, ∀ y ∈ s.shared.received, x.2.addr = y.2.addr))) (by decide)
  obtain ⟨hq, hlen, hone⟩ := of_decide_eq_true hs
  have hc : Meets (Calm [1]) (execTrace (step udpPivot) (init udpPivot) acts) := by decide
  have hov : Meets NoOverflow (execTrace (step udpPivot) (init udpPivot) acts) := by decide
  exact ⟨_, s, hr, hc, hq, hlen, ((forwarded_iff hr hc).2.2 hq).2 ⟨hone, hov⟩⟩

/-- A second datagram to another destination: `udpPivot` has no socket for it, drops it and closes
the connection. -/
theorem other_dest_dropped :
    ¬ ∀ S tr s, Run (step udpPivot) (init udpPivot) tr s → Meets (Calm S) tr → Quiet s →
      Forwarded s := by
  intro h
  let acts : List (Act udpPivot) := forwardActs ++ .start (.recv [1] [3] [66]) ::
    runs 3 [false, false, false, true, false, false, false, true, false, false]
  obtain ⟨s, hr, hs⟩ := exists_run (step udpPivot) (init udpPivot) acts
    (fun s => decide (Quiet s ∧ ∃ x ∈ s.shared.received,
      (s.shared.h.written.map Prod.snd).count x.2 = 0)) (by decide)
  obtain ⟨hq, x, hx, hcount⟩ := of_decide_eq_true hs
  have hc : Meets (Calm [1]) (execTrace (step udpPivot) (init udpPivot) acts) := by decide
  have := (h [1] _ s hr hc hq x hx).1
  omega

end Udp
