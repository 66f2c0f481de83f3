import Tun2Simple.Stack.Proof.UdpPivot

/-!
# Closing a UDP connection

For any handler, exactly when `Close` does what it is for:

* `closed_stays_iff`: a closed connection stays closed, and calls that begin after the `Close` are
  refused, iff the connect goroutine never sets `udpConnected` on a closed connection.
* `no_dead_entry`: `udpConns` keeps no closed connection, if `udpRecvFn` stores none.
* `open_registered_iff`: an open connection stays in `udpConns`, iff no `Close` of another
  connection with its source takes it out.

Each is followed by a run with `udpPivot` in which the condition fails.
-/

namespace Udp

open Trans Pool

variable {H : Handler}

/-! ## A closed connection stays closed -/

/-- The event is not the effect of a call that began after a `Close`, or it is its error. -/
def Ev.Quiet : Ev → Prop
  | .handled _ _ late | .tun _ _ late => late = false
  | .ret _ err late => late = true → err = true

/-- The goroutine is in a call that began after a `Close` of the connection (of `WriteFrom`, with
some data). -/
def Pc.refusable {P : Type} : Pc P → Bool
  | .receiveTo _ _ true | .receiveCheck _ _ true => true
  | .writeFrom _ d true => !d.data.isEmpty
  | _ => false

/-- Run on its own, the call of goroutine `g` returns an error. -/
def Refused (s : Sys H) (g : Gid) : Prop :=
  ∃ k s', exec (step H) s (List.replicate k (.sec g .none)) = some s' ∧ (s'.thread g).pc = .ret true

structure ClosedStays (s : Sys H) : Prop where
  closed : ∀ {c}, (s.shared.conn c).wasClosed = true → (s.shared.conn c).state = .closed
  refused : ∀ g < s.n, (s.thread g).pc.refusable = true → Refused s g
  quiet : ∀ e ∈ s.shared.log, e.Quiet

/-- The connection that the next section sets to `udpConnected`. -/
def Pc.setsConnected {P : Type} : Pc P → Option Nat
  | .setConnected c => some c
  | _ => none

/-- The connect goroutine does not set `udpConnected` on a closed connection. -/
def NoLateConnect (s : Sys H) : Act H → Prop
  | .sec g _ => ∀ c ∈ (s.thread g).pc.setsConnected, (s.shared.conn c).state ≠ .closed
  | .start _ => True

instance (s : Sys H) : (a : Act H) → Decidable (NoLateConnect s a)
  | .sec g _ => inferInstanceAs (Decidable (∀ c ∈ (s.thread g).pc.setsConnected, _ ≠ _))
  | .start _ => .isTrue trivial

/-- No goroutine is past the `checkState` of a call that began after a `Close`. -/
structure Timely (x : Go H.P) : Prop where
  sendto : ∀ {c d late}, x.pc = .sendto c d late → late = false
  frame : ∀ {c late}, .receiveTo c late ∈ x.stack → late = false

structure Shut (s : Shared H) : Prop where
  closed : ∀ {c}, (s.conn c).wasClosed = true → (s.conn c).state = .closed
  quiet : ∀ e ∈ s.log, e.Quiet

section
variable {s : Shared H} {st : List (Frame H.P)} {pc : Pc H.P} {e : Env H.E} {o : Out H} {g : Gid}

theorem Shut.setConn (h : Shut s) {c : Nat} {x : Conn}
    (hx : x.wasClosed = true → x.state = .closed) : Shut (s.setConn c x) := by
  refine ⟨fun {c'} hw => ?_, h.quiet⟩
  simp only [Shared.setConn, Function.update_apply] at hw ⊢
  split at hw
  · rw [if_pos ‹_›]; exact hx hw
  · rw [if_neg ‹_›]; exact h.closed hw

theorem Shut.emit (h : Shut s) {e : Ev} (he : e.Quiet) : Shut (s.emit e) := by
  refine ⟨h.closed, fun e' he' => ?_⟩
  rcases List.mem_append.1 he' with he' | he'
  · exact h.quiet e' he'
  · rw [List.mem_singleton] at he'
    subst he'
    exact he

/-- A connection that passes a test of its state was not closed before the call. -/
theorem Shut.not_late (h : Shut s) (hl : Local s g ⟨pc, st⟩) {c : Nat} {late : Bool}
    (hlate : late = true → pc.afterClose = some c) (hst : (s.conn c).state ≠ .closed) : late = false := by
  rw [← Bool.not_eq_true]
  intro ht
  exact hst (h.closed (hl.closed (hlate ht)))

theorem Conn.state_ne_closed {x : Conn} (h : x.checkState = false) : x.state ≠ .closed := by
  intro hst
  simp [Conn.checkState, hst] at h

theorem Sec.shut (h : Sec s st pc e o) (hs : Shut s) (hl : Local s g ⟨pc, st⟩)
    (ht : Timely (⟨pc, st⟩ : Go H.P))
    (hc : ∀ c, pc = .setConnected c → (s.conn c).state ≠ .closed) : Shut o.1 ∧ Timely o.2.1 := by
  have keep : ∀ {pc' : Pc H.P}, (∀ c d late, pc' ≠ .sendto c d late) → Timely (⟨pc', st⟩ : Go H.P) :=
    fun hp => ⟨fun h => absurd h (hp _ _ _), ht.frame⟩
  have push : ∀ {pc' : Pc H.P} {f : Frame H.P}, (∀ c d late, pc' ≠ .sendto c d late) →
      (∀ c late, f = .receiveTo c late → late = false) → Timely (⟨pc', f :: st⟩ : Go H.P) := by
    intro pc' f hp hf
    refine ⟨fun h => absurd h (hp _ _ _), fun {c late} hm => ?_⟩
    rcases List.mem_cons.1 hm with h | h
    · exact hf c late h.symm
    · exact ht.frame h
  cases h with
  | found src d c => exact ⟨hs, keep (by simp)⟩
  | new src d =>
    refine ⟨⟨fun {c} hw => ?_, hs.quiet⟩, keep (by simp)⟩
    simp only [Shared.newUDPConn, Function.update_apply] at hw ⊢
    split at hw
    · cases hw
    · rw [if_neg ‹_›]; exact hs.closed hw
  | store c d =>
    have h' := hs.setConn (c := c) (x := { s.conn c with stored := true }) hs.closed
    exact ⟨⟨h'.closed, h'.quiet⟩, keep (by simp)⟩
  | enqueue c d late ds hst =>
    have hlate : late = false :=
      hs.not_late hl (c := c) (by rintro rfl; rfl) (by rw [hst]; simp)
    have hq : (Ev.ret c false late).Quiet := fun h => by rw [hlate] at h; cases h
    have h' : Shut (s.setConn c { s.conn c with pending := some (ds ++ [d]) }) :=
      hs.setConn (hs.closed (c := c))
    exact ⟨h'.emit hq, keep (by simp)⟩
  | notEarly c d late => exact ⟨hs, keep (by simp)⟩
  | refuse c d late => exact ⟨hs.emit fun _ => rfl, keep (by simp)⟩
  | handle c d late hck =>
    have hlate : late = false :=
      hs.not_late hl (c := c) (by rintro rfl; rfl) (Conn.state_ne_closed hck)
    exact ⟨hs.emit hlate, push (by simp [Shared.receiveTo]) fun c' late' hf => by cases hf; exact hlate⟩
  | goto p err e h q => exact ⟨⟨hs.closed, hs.quiet⟩, keep (by simp)⟩
  | call p err e h c m q =>
    refine ⟨⟨hs.closed, hs.quiet⟩, push ?_ (by simp)⟩
    cases m <;> simp [Method.pc]
  | spawn p err e h new q => exact ⟨⟨hs.closed, hs.quiet⟩, keep (by simp)⟩
  | return_ p err e h r => exact ⟨⟨hs.closed, hs.quiet⟩, keep (by simp)⟩
  | setConnected c =>
    refine ⟨hs.setConn fun hw => ?_, keep (by simp)⟩
    exact absurd (hs.closed hw) (hc c rfl)
  | drain c d ds => exact ⟨hs.setConn hs.closed, push (by simp [Shared.receiveTo]) (by simp)⟩
  | drained c => exact ⟨hs.setConn hs.closed, keep (by simp)⟩
  | writeNone c d late => exact ⟨hs, keep (by simp)⟩
  | writeRefuse c d late => exact ⟨hs.emit fun _ => rfl, keep (by simp)⟩
  | write c d late hck =>
    have hlate : late = false :=
      hs.not_late hl (c := c) (by rintro rfl; rfl) (Conn.state_ne_closed hck)
    exact ⟨hs, fun h => by cases h; exact hlate, ht.frame⟩
  | sendto c d late =>
    have hlate := ht.sendto rfl
    subst hlate
    have hq : (Ev.tun c d false).Quiet := rfl
    exact ⟨(hs.emit hq).emit (by simp [Ev.Quiet]), keep (by simp)⟩
  | badAddr c d late => exact ⟨hs.emit fun _ => rfl, keep (by simp)⟩
  | close c => exact ⟨hs.setConn fun _ => rfl, keep (by simp)⟩
  | delete c => exact ⟨⟨hs.closed, hs.quiet⟩, keep (by simp)⟩
  | end_ err => exact ⟨hs, by simp, by simp⟩
  | ret err f st' hst =>
    subst hst
    have rest : ∀ {pc' : Pc H.P}, (∀ c d late, pc' ≠ .sendto c d late) →
        Timely (⟨pc', st'⟩ : Go H.P) :=
      fun hp => ⟨fun h => absurd h (hp _ _ _), fun hf => ht.frame (.tail _ hf)⟩
    cases f with
    | recvFn src => exact ⟨⟨hs.closed, hs.quiet⟩, by simp [Shared.return_], by simp [Shared.return_]⟩
    | receiveTo c late =>
      have hlate := ht.frame (.head _)
      subst hlate
      exact ⟨hs.emit (by simp [Ev.Quiet]), rest (by simp)⟩
    | connect c => exact ⟨hs, rest (by cases err <;> simp)⟩
    | drain c => exact ⟨hs, rest (by cases err <;> simp)⟩
    | handler p => exact ⟨hs, rest (by simp)⟩

end

section
variable {s s' : Sys H} {a : Act H}

theorem step_of_sec {g : Gid} {e : Env H.E} {o : Out H} (hg : g < s.n)
    (h : sec s.shared g (s.thread g) e = some o) :
    step H s (.sec g e) = some (s.sec g o.1 o.2.1 o.2.2) := by
  have h' : (prog H).sec s.shared g (s.thread g) e = some o := h
  simp [step, Pool.step, hg, h']

/-- `checkState` refuses a call on a closed connection. -/
theorem refused_of_check {g : Gid} {c : Nat} {d : Dgram} (hg : g < s.n)
    (hpc : (s.thread g).pc = .receiveCheck c d true) (hst : (s.shared.conn c).state = .closed) :
    Refused s g := by
  have hck : (s.shared.conn c).checkState = true := by simp [Conn.checkState, hst]
  have h1 : sec s.shared g (s.thread g) .none = some (s.shared.emit (.ret c true true),
      ⟨.ret true, (s.thread g).stack⟩, none) := by
    simp [sec, hpc, hck]
  refine ⟨1, s.sec g (s.shared.emit (.ret c true true)) ⟨.ret true, (s.thread g).stack⟩ none, ?_, ?_⟩
  · simp [exec, step_of_sec hg h1]
  · rw [s.sec_thread_self]

theorem refused_of_shut (hs : Shut s.shared) {g : Gid} (hg : g < s.n)
    (hl : Local s.shared g (s.thread g)) (hr : (s.thread g).pc.refusable = true) :
    Refused s g := by
  have closed : ∀ {c}, (s.thread g).pc.afterClose = some c → (s.shared.conn c).state = .closed :=
    fun h => hs.closed (hl.closed h)
  cases hpc : (s.thread g).pc with
  | receiveCheck c d late =>
    cases late with
    | false => rw [hpc] at hr; cases hr
    | true => exact refused_of_check hg hpc (closed (by rw [hpc]; rfl))
  | receiveTo c d late =>
    cases late with
    | false => rw [hpc] at hr; cases hr
    | true =>
      have hst := closed (c := c) (by rw [hpc]; rfl)
      have he : (s.shared.conn c).enqueueEarlyPacket d = none := by
        simp [Conn.enqueueEarlyPacket, hst]
      have h1 : sec s.shared g (s.thread g) .none = some (s.shared,
          ⟨.receiveCheck c d true, (s.thread g).stack⟩, none) := by
        simp [sec, hpc, he]
      obtain ⟨k, s', hx, hret⟩ := refused_of_check (c := c) (d := d)
        (s := s.sec g s.shared ⟨.receiveCheck c d true, (s.thread g).stack⟩ none)
        (Nat.lt_of_lt_of_le hg (s.le_sec_n g _ _ _)) (by rw [s.sec_thread_self]) hst
      refine ⟨k + 1, s', ?_, hret⟩
      rw [List.replicate_succ, exec, step_of_sec hg h1]
      exact hx
  | writeFrom c d late =>
    cases late with
    | false => rw [hpc] at hr; cases hr
    | true =>
      have hst := closed (c := c) (by rw [hpc]; rfl)
      have hck : (s.shared.conn c).checkState = true := by simp [Conn.checkState, hst]
      have hd : d.data ≠ [] := by
        rw [hpc] at hr
        simpa [Pc.refusable] using hr
      have h1 : sec s.shared g (s.thread g) .none = some (s.shared.emit (.ret c true true),
          ⟨.ret true, (s.thread g).stack⟩, none) := by
        simp [sec, hpc, hck, hd]
      refine ⟨1, s.sec g (s.shared.emit (.ret c true true))
        ⟨.ret true, (s.thread g).stack⟩ none, ?_, ?_⟩
      · simp [exec, step_of_sec hg h1]
      · rw [s.sec_thread_self]
  | _ => rw [hpc] at hr; cases hr

theorem shut_step (hb : Base s) (h : Holds Shut (fun _ _ => Timely) s) (hc : NoLateConnect s a)
    (hs : step H s a = some s') : Holds Shut (fun _ _ => Timely) s' := by
  refine h.step hs ?_ ?_
  · intro b x t _ hst
    obtain ⟨src, dst, data, rfl, -, rfl, rfl⟩ | ⟨c, -, rfl, rfl, rfl⟩ := start_spec hst
    · refine ⟨⟨h.shared.closed, h.shared.quiet⟩, ⟨by simp, fun hm => ?_⟩, fun _ _ => id⟩
      cases List.mem_singleton.1 hm
    · exact ⟨h.shared, ⟨by simp, by simp⟩, fun _ _ => id⟩
  · intro g e x t new ha hg hsec
    subst ha
    have hsp := sec_spec (g := g) hsec
    obtain ⟨h1, h2⟩ := hsp.shut h.shared (hb.thread g hg) (h.thread g hg)
      fun c hpc => hc c (by rw [hpc]; rfl)
    refine ⟨h1, h2, fun u hu => ?_, fun _ _ _ => id⟩
    obtain ⟨_, _, -, -, rfl⟩ | ⟨_, _, _, _, _, _, -, -, -, rfl⟩ := hsp.new_cases hu
    · exact ⟨by simp, fun hm => by cases List.mem_singleton.1 hm⟩
    · exact ⟨by simp, by simp⟩

theorem closedStays_of_shut (hb : Base s) (h : Holds Shut (fun _ _ => Timely) s) :
    ClosedStays s where
  closed := h.shared.closed
  refused g hg := refused_of_shut h.shared hg (hb.thread g hg)
  quiet := h.shared.quiet

theorem Pc.setsConnected_eq_some {P : Type} {pc : Pc P} {c : Nat}
    (h : pc.setsConnected = some c) : pc = .setConnected c := by
  unfold Pc.setsConnected at h
  split at h <;> cases h
  rfl

/-- A connect goroutine that sets `udpConnected` on a closed connection re-opens it. -/
theorem reopened (hw : ∀ c, (s.shared.conn c).state = .closed → (s.shared.conn c).wasClosed = true)
    (hs : step H s a = some s') (hc : ¬ NoLateConnect s a) : ¬ ClosedStays s' := by
  obtain ⟨b, x, t, rfl, -, -⟩ | ⟨g, e, x, t, new, rfl, -, hsec, rfl⟩ := step_cases hs
  · exact absurd trivial hc
  · simp only [NoLateConnect, not_forall, ne_eq, not_not] at hc
    obtain ⟨c, hpc, hst⟩ := hc
    have hsp := sec_spec (g := g) hsec
    rw [Pc.setsConnected_eq_some hpc] at hsp
    cases hsp
    intro h
    have hclosed := h.closed (c := c)
    simp only [Pool.State.sec_shared, Shared.setConn, Function.update_self] at hclosed
    cases hclosed (hw c hst)

/-- A closed UDP connection stays closed and refuses the calls that begin after the `Close`, exactly
in the runs in which no connect goroutine sets `udpConnected` on a closed connection. -/
theorem closed_stays_iff {tr : List (Sys H × Act H)} (hr : Run (step H) (init H) tr s) :
    (∀ t ∈ visited tr s, ClosedStays t) ↔ Meets NoLateConnect tr := by
  refine hr.visited_iff (I := Holds Shut fun _ _ => Timely) ?_ ?_ ?_ ?_
  · exact ⟨⟨by simp [init], by simp [init]⟩, fun g hg => absurd hg (Nat.not_lt_zero g)⟩
  · exact fun _ _ _ _ hr h hc hs => shut_step (base_run hr) h hc hs
  · exact fun _ _ hr h => closedStays_of_shut (base_run hr) h
  · exact fun _ _ _ _ hr hc hs => reopened (wasClosed_run hr) hs hc

end

/-- The connection is closed after its `Connect`; a reply that comes then is refused. -/
theorem closed_stays_iff_reply :
    ∃ tr s, Run (step udpPivot) (init udpPivot) tr s ∧ (s.shared.conn 0).wasClosed = true ∧
      Ev.ret 0 true true ∈ s.shared.log ∧ ∀ t ∈ visited tr s, ClosedStays t := by
  let acts := firstActs ++ [.sec 1 (.handler (.dial true))] ++
    runs 1 [true, true, true, false, false] ++ [.start (.close 0)] ++ runs 3 [false, false] ++
    [.sec 2 (.handler (.read (some [66])))] ++ runs 2 [false]
  obtain ⟨s, hr, hs⟩ := exists_run (step udpPivot) (init udpPivot) acts
    (fun s => decide ((s.shared.conn 0).wasClosed = true ∧ .ret 0 true true ∈ s.shared.log))
    (by decide)
  obtain ⟨hw, hl⟩ := of_decide_eq_true hs
  have hc : Meets NoLateConnect (execTrace (step udpPivot) (init udpPivot) acts) := by decide
  exact ⟨_, s, hr, hw, hl, (closed_stays_iff hr).2 hc⟩

/-- `lwipStack.Close` closes the connection while `Connect` dials; the connect goroutine then sets
`udpConnected`. -/
theorem closed_reopened :
    ¬ ∀ tr s, Run (step udpPivot) (init udpPivot) tr s → ∀ t ∈ visited tr s, ClosedStays t := by
  intro h
  let acts := firstActs ++ [.start (.close 0)] ++ runs 2 [false, false, false] ++
    [.sec 1 (.handler (.dial true))] ++ runs 1 [true, true, true, false, false]
  obtain ⟨s, hr, hs⟩ := exists_run (step udpPivot) (init udpPivot) acts
    (fun s => decide ((s.shared.conn 0).wasClosed = true ∧ (s.shared.conn 0).state = .connected))
    (by decide)
  obtain ⟨hw, hst⟩ := of_decide_eq_true hs
  have hcl := (h _ s hr s (last_mem_visited _ s)).closed hw
  rw [hst] at hcl
  cases hcl

/-! ## No dead entry in `udpConns` -/

/-- The connection that the next section stores in `udpConns`. -/
def Pc.stores {P : Type} : Pc P → Option Nat
  | .store c _ => some c
  | _ => none

/-- The connection whose source the next section deletes from `udpConns`. -/
def Pc.deletes {P : Type} : Pc P → Option Nat
  | .delete c => some c
  | _ => none

/-- The connection of a `Close` that has still to do its `Delete`. -/
def Pc.closing {P : Type} : Pc P → Option Nat
  | .close c | .delete c => some c
  | _ => none

/-- A `Close` for source `src` has still to do its `Delete`. -/
def Deleting (s : Sys H) (src : Addr) : Prop :=
  ∃ g < s.n, ∃ c ∈ (s.thread g).pc.closing, (s.shared.conn c).localAddr = src

instance (s : Sys H) (src : Addr) : Decidable (Deleting s src) :=
  inferInstanceAs (Decidable (∃ g < s.n, ∃ c ∈ (s.thread g).pc.closing, _ = _))

/-- No `udpRecvFn` and no `Close` for source `src` is in progress. -/
def Undisturbed (s : Sys H) (src : Addr) : Prop :=
  ∀ g < s.n, .recvFn src ∉ (s.thread g).stack ∧
    ∀ c, (s.shared.conn c).localAddr = src →
      (s.thread g).pc ≠ .close c ∧ (s.thread g).pc ≠ .delete c

/-- `udpRecvFn` stores no connection that is closed already, unless a `Close` for its source has
still to delete. -/
def StoresLive (s : Sys H) : Act H → Prop
  | .sec g _ => ∀ c ∈ (s.thread g).pc.stores, (s.shared.conn c).state = .closed →
      Deleting s (s.shared.conn c).localAddr
  | .start _ => True

instance (s : Sys H) : (a : Act H) → Decidable (StoresLive s a)
  | .sec g _ => inferInstanceAs (Decidable (∀ c ∈ (s.thread g).pc.stores, _ → Deleting s _))
  | .start _ => .isTrue trivial

/-- Who is in `udpConns` and closed is going to be deleted. -/
def DeadDeleting (s : Sys H) : Prop :=
  ∀ src c, s.shared.udpConns src = some c → (s.shared.conn c).state = .closed → Deleting s src

section
variable {s s' : Sys H} {a : Act H}

theorem Pc.deletes_eq_some {P : Type} {pc : Pc P} {c : Nat} (h : pc.deletes = some c) :
    pc = .delete c := by
  unfold Pc.deletes at h
  split at h <;> cases h
  rfl

theorem Pc.closing_eq_some {P : Type} {pc : Pc P} {c : Nat} (h : pc.closing = some c) :
    pc = .close c ∨ pc = .delete c := by
  unfold Pc.closing at h
  split at h <;> cases h
  · exact .inl rfl
  · exact .inr rfl

/-- Where `Close` has still to delete, so it has after a section other than its delete. -/
theorem closing_step (hs : step H s a = some s') {g : Gid} {c : Nat} (hg : g < s.n)
    (hpc : (s.thread g).pc.closing = some c)
    (hne : ∀ e, a = .sec g e → (s.thread g).pc ≠ .delete c) : (s'.thread g).pc.closing = some c := by
  by_cases ha : ∃ e, a = .sec g e
  · obtain ⟨e, rfl⟩ := ha
    have hclose := (Pc.closing_eq_some hpc).resolve_right (hne e rfl)
    obtain ⟨b, x, t, h, -, -⟩ | ⟨g', e', x, t, new, h, -, hsec, rfl⟩ := step_cases hs
    · cases h
    · cases h
      have hsp := sec_spec (g := g) hsec
      rw [hclose] at hsp
      cases hsp
      rw [s.sec_thread_self]
      rfl
  · rw [step_thread hs hg fun e he => ha ⟨e, he⟩]
    exact hpc

/-- A `Close` that has still to delete is there after every step but its own delete. -/
theorem Deleting.step (hb : Base s) (hs : step H s a = some s') {src : Addr} {g : Gid} {c : Nat}
    (hg : g < s.n) (hpc : (s.thread g).pc.closing = some c)
    (hsrc : (s.shared.conn c).localAddr = src)
    (hne : ∀ e, a = .sec g e → (s.thread g).pc ≠ .delete c) : Deleting s' src := by
  have hlt : c < s.shared.n := by
    rcases Pc.closing_eq_some hpc with h | h <;> exact (hb.thread g hg).pc_lt (by rw [h]; rfl)
  refine ⟨g, Nat.lt_of_lt_of_le hg (step_n_le hs), c, closing_step hs hg hpc hne, ?_⟩
  · obtain ⟨g', e, -, heff⟩ | ⟨b, -, -, hc, -⟩ := step_effect hs
    · rw [heff.grows.localAddr c hlt, hsrc]
    · rw [hc, hsrc]

/-- A delete of its own source is the only thing that ends a `Close` before its end. -/
theorem deadDeleting_delete (hb : Base s) (h : DeadDeleting s) {g : Gid} {e : Env H.E} {c : Nat}
    (hpc : (s.thread g).pc = .delete c) (hs : step H s (.sec g e) = some s')
    (heff : s'.shared = s.shared.delete c) : DeadDeleting s' := by
  intro src d hreg hst
  rw [heff] at hreg hst
  simp only [Shared.delete, Function.update_apply] at hreg
  split at hreg
  case isTrue => cases hreg
  case isFalse hne =>
    obtain ⟨g', hg', c', hpc', hsrc⟩ := h _ _ hreg hst
    refine Deleting.step hb hs hg' hpc' hsrc ?_
    rintro e' ⟨⟩ -
    rw [hpc] at hpc'
    cases hpc'
    exact hne hsrc.symm

theorem deadDeleting_step (hb : Base s) (h : DeadDeleting s) (hc : StoresLive s a)
    (hs : step H s a = some s') : DeadDeleting s' := by
  obtain ⟨b, x, t, rfl, hst, rfl⟩ | ⟨g, e, x, t, new, rfl, hg, hsec, rfl⟩ := step_cases hs
  · have keep : x.conn = s.shared.conn ∧ x.udpConns = s.shared.udpConns := by
      obtain ⟨_, _, _, rfl, -, rfl, rfl⟩ | ⟨_, -, rfl, rfl, rfl⟩ := start_spec hst <;>
        exact ⟨rfl, rfl⟩
    intro src c hreg hcl
    rw [Pool.State.start_shared, keep.2] at hreg
    rw [Pool.State.start_shared, keep.1] at hcl
    obtain ⟨g, hg, c', hpc, hsrc⟩ := h _ _ hreg hcl
    exact Deleting.step hb hs hg hpc hsrc (by simp)
  · have hsp := sec_spec (g := g) hsec
    cases hdel : (s.thread g).pc.deletes with
    | some c =>
      have hpc := Pc.deletes_eq_some hdel
      refine deadDeleting_delete hb h hpc hs ?_
      rw [hpc] at hsp
      cases hsp
      rfl
    | none =>
      -- what was to be deleted still is
      have old : ∀ {src}, Deleting s src → Deleting (s.sec g x t new) src := by
        rintro src ⟨g', hg', c', hpc, hsrc⟩
        refine Deleting.step hb hs hg' hpc hsrc ?_
        rintro e' ⟨⟩ hpc
        rw [hpc] at hdel
        cases hdel
      have upd : ∀ {d : Nat} {y : Conn} {src : Addr} {c : Nat},
          (Function.update s.shared.conn d y c).state = .closed →
          s.shared.udpConns src = some c → y.state = (s.shared.conn d).state →
          Deleting (s.sec g x t new) src := by
        intro d y src c hst hreg hy
        refine old (h _ _ hreg ?_)
        rw [Function.update_apply] at hst
        split at hst
        · rename_i hcd; rw [hcd, ← hy]; exact hst
        · exact hst
      have heff : Effect s.shared (s.thread g).pc x := hsp.effect
      intro src c hreg hst
      cases heff with
      | quiet _ hconn hu =>
        rw [Pool.State.sec_shared, hu] at hreg
        rw [Pool.State.sec_shared, hconn] at hst
        exact old (h _ _ hreg hst)
      | new src' d _ _ _ hconn hu =>
        rw [Pool.State.sec_shared, hu] at hreg
        rw [Pool.State.sec_shared, hconn,
          Function.update_of_ne (Nat.ne_of_lt (hb.shared.lt hreg))] at hst
        exact old (h _ _ hreg hst)
      | store c' d hpc hx =>
        rw [Pool.State.sec_shared, hx] at hreg hst
        simp only [Shared.store, Function.update_apply] at hreg
        split at hreg
        · rename_i hsrc
          cases hreg
          rw [hsrc]
          refine old (hc c (by rw [hpc]; rfl) ?_)
          simpa [Shared.store, Shared.setConn] using hst
        · exact upd hst hreg rfl
      | pending c' ds _ hconn hu =>
        rw [Pool.State.sec_shared, hu] at hreg
        rw [Pool.State.sec_shared, hconn] at hst
        exact upd hst hreg rfl
      | setConnected c' _ hx =>
        rw [Pool.State.sec_shared, hx] at hreg hst
        simp only [Shared.setConn, Function.update_apply] at hst
        split at hst
        · cases hst
        · exact old (h _ _ hreg hst)
      | close c' hpc hx =>
        rw [Pool.State.sec_shared, hx] at hreg hst
        by_cases hcc : c = c'
        · -- this `Close` is now before its own delete
          subst hcc
          rw [hpc] at hsp
          cases hsp
          refine ⟨g, Nat.lt_of_lt_of_le hg (s.le_sec_n g _ _ _), c, ?_, ?_⟩
          · rw [s.sec_thread_self]; rfl
          · rw [Pool.State.sec_shared]
            simpa [Shared.close, Shared.setConn] using hb.shared.src hreg
        · simp only [Shared.close, Shared.setConn, Function.update_of_ne hcc] at hst
          exact old (h _ _ hreg hst)
      | delete c' hpc => rw [hpc] at hdel; cases hdel

/-- In every run in which `udpRecvFn` stores a closed connection only while a `Close` for its source
has still to delete, `udpConns` has no closed connection under a source for which nothing is in
progress. -/
theorem no_dead_entry {tr : List (Sys H × Act H)} (hr : Run (step H) (init H) tr s)
    (hc : Meets StoresLive tr) : ∀ t ∈ visited tr s, ∀ src, Undisturbed t src →
      ∀ c, t.shared.udpConns src = some c → (t.shared.conn c).state ≠ .closed := by
  have dead : ∀ tr s, Run (step H) (init H) tr s → Meets StoresLive tr → DeadDeleting s := by
    intro tr s hr hc
    induction hr with
    | nil => intro src c h; cases h
    | snoc hr hs ih =>
      rw [meets_snoc] at hc
      exact deadDeleting_step (base_run hr) (ih hc.1) hc.2 hs
  refine hr.forall_visited hc fun tr t hr hc src hq c hreg hst => ?_
  obtain ⟨g, hg, c', hpc, hsrc⟩ := dead tr t hr hc _ _ hreg hst
  rcases Pc.closing_eq_some hpc with hpc | hpc
  · exact ((hq g hg).2 c' hsrc).1 hpc
  · exact ((hq g hg).2 c' hsrc).2 hpc

end

/-- `Connect` fails: `udpPivot` closes the connection, then its connect goroutine does. -/
def failActs : List (Act udpPivot) :=
  [.sec 1 (.handler (.dial false))] ++
    runs 1 [false, false, false, true, false, false, false, false]

/-- The dial fails after the `Store`. -/
theorem no_dead_entry_failed :
    ∃ tr s, Run (step udpPivot) (init udpPivot) tr s ∧ Meets StoresLive tr ∧
      (s.shared.conn 0).state = .closed ∧ (s.shared.conn 0).stored = true ∧
      ∀ t ∈ visited tr s, ∀ src, Undisturbed t src →
        ∀ c, t.shared.udpConns src = some c → (t.shared.conn c).state ≠ .closed := by
  let acts := firstActs ++ runs 0 [false, false, false] ++ failActs
  obtain ⟨s, hr, hs⟩ := exists_run (step udpPivot) (init udpPivot) acts
    (fun s => decide ((s.shared.conn 0).state = .closed ∧ (s.shared.conn 0).stored = true))
    (by decide)
  obtain ⟨hcl, hst⟩ := of_decide_eq_true hs
  have hc : Meets StoresLive (execTrace (step udpPivot) (init udpPivot) acts) := by decide
  exact ⟨_, s, hr, hc, hcl, hst, no_dead_entry hr hc⟩

/-- The dial fails before the `Store`, which then registers the closed connection for good. -/
theorem dead_entry_stored :
    ¬ ∀ tr s, Run (step udpPivot) (init udpPivot) tr s → ∀ t ∈ visited tr s, ∀ src,
      Undisturbed t src → ∀ c, t.shared.udpConns src = some c →
        (t.shared.conn c).state ≠ .closed := by
  intro h
  let acts := firstActs ++ failActs ++ runs 0 [false, false, false, false]
  obtain ⟨s, hr, hs⟩ := exists_run (step udpPivot) (init udpPivot) acts
    (fun s => decide (s.n = 2 ∧ s.thread 0 = {} ∧ s.thread 1 = {} ∧
      s.shared.udpConns [1] = some 0 ∧ (s.shared.conn 0).state = .closed))
    (by decide)
  obtain ⟨hn, h0, h1, hreg, hst⟩ := of_decide_eq_true hs
  refine h _ s hr s (last_mem_visited _ s) [1] (fun g hg => ?_) 0 hreg hst
  have hg' : s.thread g = {} := by
    obtain rfl | rfl : g = 0 ∨ g = 1 := by omega
    · exact h0
    · exact h1
  rw [hg']
  exact ⟨by simp, fun _ _ => ⟨by simp, by simp⟩⟩

/-! ## A `Close` affects its own connection only -/

/-- What was stored and never closed is in `udpConns` under its source. -/
def OpenRegistered (s : Sys H) : Prop :=
  ∀ c < s.shared.n, (s.shared.conn c).stored = true → (s.shared.conn c).wasClosed = false →
    s.shared.udpConns (s.shared.conn c).localAddr = some c

/-- The delete of a `Close` finds no other open connection under the source of its own. -/
def DeletesOwn (s : Sys H) : Act H → Prop
  | .sec g _ => ∀ c ∈ (s.thread g).pc.deletes,
      ∀ d ∈ s.shared.udpConns (s.shared.conn c).localAddr,
        d = c ∨ (s.shared.conn d).wasClosed = true
  | .start _ => True

instance (s : Sys H) : (a : Act H) → Decidable (DeletesOwn s a)
  | .sec g _ => inferInstanceAs (Decidable (∀ c ∈ (s.thread g).pc.deletes,
      ∀ d ∈ s.shared.udpConns _, _ ∨ _))
  | .start _ => .isTrue trivial

section
variable {s s' : Sys H} {a : Act H}

theorem openRegistered_step (hb : Base s) (h : OpenRegistered s) (hc : DeletesOwn s a)
    (hs : step H s a = some s') : OpenRegistered s' := by
  obtain ⟨b, x, t, rfl, hst, rfl⟩ | ⟨g, e, x, t, new, rfl, hg, hsec, rfl⟩ := step_cases hs
  · obtain ⟨_, _, _, rfl, -, rfl, rfl⟩ | ⟨_, -, rfl, rfl, rfl⟩ := start_spec hst <;> exact h
  · have hl := hb.thread g hg
    have heff : Effect s.shared (s.thread g).pc x := (sec_spec (g := g) hsec).effect
    show OpenRegistered (s.sec g x t new)
    have upd : ∀ {d : Nat} {y : Conn}, x.n = s.shared.n →
        x.conn = Function.update s.shared.conn d y → x.udpConns = s.shared.udpConns →
        y.localAddr = (s.shared.conn d).localAddr → y.stored = (s.shared.conn d).stored →
        (y.wasClosed = false → (s.shared.conn d).wasClosed = false) →
        OpenRegistered (s.sec g x t new) := by
      intro d y hn hconn hu hla hsto hw c hlt hst hcl
      simp only [Pool.State.sec_shared, hn, hconn, hu] at hlt hst hcl ⊢
      by_cases hcd : c = d
      · subst hcd
        rw [Function.update_self] at hst hcl ⊢
        rw [hla]
        exact h c hlt (hsto ▸ hst) (hw hcl)
      · rw [Function.update_of_ne hcd] at hst hcl ⊢
        exact h c hlt hst hcl
    cases heff with
    | quiet hn hconn hu =>
      intro c hlt hst hcl
      simp only [Pool.State.sec_shared, hn, hconn, hu] at hlt hst hcl ⊢
      exact h c hlt hst hcl
    | new src d _ _ hn hconn hu =>
      intro c hlt hst hcl
      simp only [Pool.State.sec_shared, hn, hconn, hu] at hlt hst hcl ⊢
      by_cases hcn : c = s.shared.n
      · subst hcn
        rw [Function.update_self] at hst
        cases hst
      · rw [Function.update_of_ne hcn] at hst hcl ⊢
        exact h c (by omega) hst hcl
    | store c d hpc hx =>
      -- nothing is registered under the source, so no open connection loses its entry
      obtain ⟨-, -, hnone⟩ := hl.store hpc
      subst hx
      intro c' hlt hst hcl
      simp only [Pool.State.sec_shared, Shared.store, Shared.setConn] at hlt hst hcl ⊢
      by_cases hcc : c' = c
      · subst hcc
        rw [Function.update_self, Function.update_self]
      · rw [Function.update_of_ne hcc] at hst hcl ⊢
        have hreg := h c' hlt hst hcl
        rw [Function.update_of_ne ?_]
        · exact hreg
        · intro heq
          rw [heq, hnone] at hreg
          cases hreg
    | pending c ds hn hconn hu => exact upd hn hconn hu rfl rfl id
    | setConnected c _ hx => subst hx; exact upd rfl rfl rfl rfl rfl id
    | close c _ hx => subst hx; exact upd rfl rfl rfl rfl rfl (by simp)
    | delete c hpc hx =>
      subst hx
      intro c' hlt hst hcl
      simp only [Pool.State.sec_shared, Shared.delete] at hlt hst hcl ⊢
      have hreg := h c' hlt hst hcl
      rw [Function.update_of_ne ?_]
      · exact hreg
      · intro heq
        rw [heq] at hreg
        have hwas := hl.closed (c := c) (by rw [hpc]; rfl)
        rcases hc c (by rw [hpc]; rfl) c' hreg with rfl | hw
        · rw [hwas] at hcl; cases hcl
        · rw [hw] at hcl; cases hcl

/-- A delete that finds another open connection unregisters it. -/
theorem unregistered (hb : Base s) (hs : step H s a = some s') (hc : ¬ DeletesOwn s a) :
    ¬ OpenRegistered s' := by
  obtain ⟨b, x, t, rfl, -, -⟩ | ⟨g, e, x, t, new, rfl, hg, hsec, rfl⟩ := step_cases hs
  · exact absurd trivial hc
  · simp only [DeletesOwn, Option.mem_def, not_forall, not_or, Bool.not_eq_true] at hc
    obtain ⟨c, hpc, d, hreg, -, hcl⟩ := hc
    have hsp := sec_spec (g := g) hsec
    rw [Pc.deletes_eq_some hpc] at hsp
    cases hsp
    intro h
    have hnone := h d (hb.shared.lt hreg) (hb.shared.stored hreg) hcl
    simp only [Pool.State.sec_shared, Shared.delete, hb.shared.src hreg,
      Function.update_self] at hnone
    cases hnone

/-- An open connection stays in `udpConns` under its source, exactly in the runs in which the delete
of a `Close` never finds another open connection there. -/
theorem open_registered_iff {tr : List (Sys H × Act H)} (hr : Run (step H) (init H) tr s) :
    (∀ t ∈ visited tr s, OpenRegistered t) ↔ Meets DeletesOwn tr := by
  refine hr.visited_iff (I := OpenRegistered) ?_ ?_ ?_ ?_
  · exact fun c hc => absurd hc (Nat.not_lt_zero c)
  · exact fun _ _ _ _ hr h hc hs => openRegistered_step (base_run hr) h hc hs
  · exact fun _ _ _ h => h
  · exact fun _ _ _ _ hr hc hs => unregistered (base_run hr) hs hc

end

/-- The app sends from `[1]` to `[2]`, to `[3]`, for which there is no socket, so that `udpPivot`
closes the connection, and to `[4]`, for which there is a second connection then. -/
def secondActs : List (Act udpPivot) :=
  firstActs ++ runs 0 [false, false, false] ++ [.sec 1 (.handler (.dial true))] ++
    runs 1 [true, true, true, false, false] ++ [.start (.recv [1] [3] [66])] ++
    runs 3 [false, false, false, true, false, false, false, true, false, false] ++
    [.start (.recv [1] [4] [67])] ++ runs 4 [false, false]

theorem open_registered_iff_second :
    ∃ tr s, Run (step udpPivot) (init udpPivot) tr s ∧ (s.shared.conn 0).wasClosed = true ∧
      s.shared.udpConns [1] = some 1 ∧ ∀ t ∈ visited tr s, OpenRegistered t := by
  obtain ⟨s, hr, hs⟩ := exists_run (step udpPivot) (init udpPivot) secondActs
    (fun s => decide ((s.shared.conn 0).wasClosed = true ∧ s.shared.udpConns [1] = some 1))
    (by decide)
  obtain ⟨hw, hreg⟩ := of_decide_eq_true hs
  have hc : Meets DeletesOwn (execTrace (step udpPivot) (init udpPivot) secondActs) := by decide
  exact ⟨_, s, hr, hw, hreg, (open_registered_iff hr).2 hc⟩

/-- A reply on the first connection's socket: its reader fails to write it to the closed connection
and closes that again, which takes the second connection out of `udpConns`. -/
theorem close_unregisters_other :
    ¬ ∀ tr s, Run (step udpPivot) (init udpPivot) tr s → ∀ t ∈ visited tr s, OpenRegistered t := by
  intro h
  let acts := secondActs ++ [.sec 2 (.handler (.read (some [68])))] ++
    runs 2 [false, false, true, false, false]
  obtain ⟨s, hr, hs⟩ := exists_run (step udpPivot) (init udpPivot) acts
    (fun s => decide (1 < s.shared.n ∧ (s.shared.conn 1).stored = true ∧
      (s.shared.conn 1).wasClosed = false ∧ (s.shared.conn 1).localAddr = [1] ∧
      s.shared.udpConns [1] = none))
    (by decide)
  obtain ⟨hlt, hst, hw, hla, hnone⟩ := of_decide_eq_true hs
  have hreg := h _ s hr s (last_mem_visited _ s) 1 hlt hst hw
  rw [hla, hnone] at hreg
  cases hreg

end Udp
