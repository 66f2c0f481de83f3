import Tun2Simple.Core.LwipStack
import Tun2Simple.Core.Lwip
import Tun2Simple.Core.Proof.Abort
import Tun2Simple.Stack.Proof.UdpClose

/-!
# `lwipStack.Close`

`close_leaves_nothing`: after `Close`, and the calls of `Write` that passed the test of the context,
both maps are empty and every connection that was ever in one of them has ended, in every run that
meets `Sweeps`: no connection is registered that the sweep of its map does not see, and none is
revived after its `Abort` or `Close`. `accepted_after_sweep` is a run in which a `Write` that passed
the test of the context before `Close` accepts a connection after the sweep.

A sweep is right because what it has visited has ended and left the map (`SweepTcp`, `SweepUdp`),
which `AbortAt` and `CloseAt` follow through the calls that it makes.
-/

namespace Udp

open Trans Pool

variable {H : Handler}

/-- Connection `c` was closed and is not in `udpConns`. -/
structure Gone (s : Shared H) (c : Nat) : Prop where
  closed : (s.conn c).wasClosed = true
  reg : ∀ src, s.udpConns src ≠ some c

/-- What is known of the `Close` of connection `c` that goroutine `g` was started for. -/
inductive CloseAt (s : Sys H) (g : Gid) (c : Nat) : Prop
  | close : s.thread g = ⟨.close c, []⟩ → CloseAt s g c
  | delete : s.thread g = ⟨.delete c, []⟩ → CloseAt s g c
  | ret : s.thread g = ⟨.ret false, []⟩ → Gone s.shared c → CloseAt s g c
  | done : s.thread g = ⟨.idle, []⟩ → Gone s.shared c → CloseAt s g c

section
variable {s s' : Sys H} {a : Act H} {g : Gid} {c : Nat}

theorem Effect.gone {x x' : Shared H} {pc : Pc H.P} (h : Gone x c) (he : Effect x pc x')
    (hc : c < x.n) (hst : (x.conn c).stored = true)
    (hl : ∀ c' d, pc = .store c' d → (x.conn c').stored = false) : Gone x' c := by
  refine ⟨he.grows.wasClosed c hc h.closed, fun src hr => ?_⟩
  cases he with
  | quiet _ _ hu => exact h.reg src (hu ▸ hr)
  | new _ _ _ _ _ _ hu => exact h.reg src (hu ▸ hr)
  | store c' d hpc hs =>
    subst hs
    simp only [Shared.store, Function.update_apply] at hr
    split at hr
    · cases hr
      rw [hl _ _ hpc] at hst
      cases hst
    · exact h.reg src hr
  | pending _ _ _ _ hu => exact h.reg src (hu ▸ hr)
  | setConnected _ _ hs => subst hs; exact h.reg src hr
  | close _ _ hs => subst hs; exact h.reg src hr
  | delete c' _ hs =>
    subst hs
    simp only [Shared.delete, Function.update_apply] at hr
    split at hr
    · cases hr
    · exact h.reg src hr

/-- A connection that was stored, closed and taken out is never stored again. -/
theorem Gone.step (h : Gone s.shared c) (hb : Base s) (hc : c < s.shared.n)
    (hst : (s.shared.conn c).stored = true) (hs : Udp.step H s a = some s') : Gone s'.shared c := by
  obtain ⟨b, x, t, rfl, hstart, rfl⟩ | ⟨g, e, x, t, new, rfl, hg, hsec, rfl⟩ := step_cases hs
  · obtain ⟨_, _, _, rfl, -, rfl, rfl⟩ | ⟨_, -, rfl, rfl, rfl⟩ := start_spec hstart
    · exact ⟨h.closed, h.reg⟩
    · exact h
  · refine Effect.gone h (sec_spec (g := g) hsec).effect hc hst fun c' d hpc => ?_
    exact ((hb.thread g hg).store hpc).2.1

theorem CloseAt.step (h : CloseAt s g c) (hb : Base s) (hg : g < s.n) (hc : c < s.shared.n)
    (hst : (s.shared.conn c).stored = true) (hs : Udp.step H s a = some s') : CloseAt s' g c := by
  by_cases ha : ∃ e, a = .sec g e
  · obtain ⟨e, rfl⟩ := ha
    obtain ⟨b, _, _, hb', -⟩ | ⟨g', e', x, t, new, he, -, hsec, rfl⟩ := step_cases hs
    · cases hb'
    · cases he
      have hsp := sec_spec (g := g) hsec
      cases h with
      | close ht =>
        rw [ht] at hsp
        cases hsp
        exact .delete (s.sec_thread_self ..)
      | delete ht =>
        have hwas := (hb.thread g hg).closed (c := c) (by rw [ht]; rfl)
        rw [ht] at hsp
        cases hsp
        refine .ret (s.sec_thread_self ..) ⟨hwas, fun src hr => ?_⟩
        simp only [Pool.State.sec_shared, Shared.delete, Function.update_apply] at hr
        split at hr
        · cases hr
        · rename_i hne
          exact hne (hb.shared.src hr).symm
      | ret ht hgone =>
        rw [ht] at hsp
        generalize hz : (x, t, new) = o at hsp
        cases hsp with
        | end_ => cases hz; exact .done (s.sec_thread_self ..) hgone
        | ret _ _ _ hst => cases hst
      | done ht =>
        rw [ht] at hsp
        cases hsp
  · have hthread : s'.thread g = s.thread g := step_thread hs hg fun e he => ha ⟨e, he⟩
    cases h with
    | close ht => exact .close (hthread.trans ht)
    | delete ht => exact .delete (hthread.trans ht)
    | ret ht hgone => exact .ret (hthread.trans ht) (hgone.step hb hc hst hs)
    | done ht hgone => exact .done (hthread.trans ht) (hgone.step hb hc hst hs)

/-- A `Close` that has returned has closed its connection and taken it out of the map. -/
theorem CloseAt.gone (h : CloseAt s g c) (hg : (s.thread g).pc = .idle) : Gone s.shared c := by
  cases h with
  | close h => rw [h] at hg; cases hg
  | delete h => rw [h] at hg; cases hg
  | ret h => rw [h] at hg; cases hg
  | done _ h => exact h

theorem step_close (hs : Udp.step H s (.start (.close c)) = some s') :
    s'.shared = s.shared ∧ s'.n = s.n + 1 ∧ s'.thread s.n = ⟨.close c, []⟩ := by
  obtain ⟨b, x, t, hb, hstart, rfl⟩ | ⟨_, _, _, _, _, ha, -⟩ := step_cases hs
  · cases hb
    have hstart : start s.shared s.n (.close c) = some (x, t) := hstart
    obtain ⟨_, _, _, hb, -⟩ | ⟨_, -, hb, rfl, rfl⟩ := start_spec hstart
    · cases hb
    · cases hb
      exact ⟨rfl, rfl, s.start_thread_self ..⟩
  · cases ha

theorem openRegistered_run {tr : List (Sys H × Act H)} (hr : Run (Udp.step H) (init H) tr s)
    (hc : Meets DeletesOwn tr) : OpenRegistered s := by
  induction hr with
  | nil => exact fun c hc => absurd hc (Nat.not_lt_zero c)
  | snoc hr hs ih =>
    rw [meets_snoc] at hc
    exact openRegistered_step (base_run hr) (ih hc.1) hc.2 hs

theorem shut_run {tr : List (Sys H × Act H)} (hr : Run (Udp.step H) (init H) tr s)
    (hc : Meets NoLateConnect tr) : Holds Shut (fun _ _ => Timely) s := by
  induction hr with
  | nil => exact ⟨⟨by simp [init], by simp [init]⟩, fun g hg => absurd hg (Nat.not_lt_zero g)⟩
  | snoc hr hs ih =>
    rw [meets_snoc] at hc
    exact shut_step (base_run hr) (ih hc.1) hc.2 hs

/-- `udpConns` is empty and what was in it was closed. -/
structure Emptied (s : Shared H) : Prop where
  reg : ∀ src, s.udpConns src = none
  closed : ∀ c < s.n, (s.conn c).stored = true → (s.conn c).wasClosed = true

theorem Effect.emptied {x x' : Shared H} {pc : Pc H.P} (h : Emptied x) (he : Effect x pc x')
    (hst : pc.stores = none) : Emptied x' := by
  have upd : ∀ {d : Nat} {y : Conn}, x'.n = x.n → x'.conn = Function.update x.conn d y →
      x'.udpConns = x.udpConns → y.stored = (x.conn d).stored →
      ((x.conn d).wasClosed = true → y.wasClosed = true) → Emptied x' := by
    intro d y hn hc hu hs hw
    refine ⟨fun src => by rw [hu]; exact h.reg src, fun c hlt hsto => ?_⟩
    rw [hn] at hlt
    rw [hc] at hsto ⊢
    by_cases hcd : c = d
    · subst hcd
      rw [Function.update_self] at hsto ⊢
      exact hw (h.closed c hlt (hs ▸ hsto))
    · rw [Function.update_of_ne hcd] at hsto ⊢
      exact h.closed c hlt hsto
  cases he with
  | quiet hn hc hu => exact ⟨fun src => by rw [hu]; exact h.reg src, by rw [hn, hc]; exact h.closed⟩
  | new src d _ _ hn hc hu =>
    refine ⟨fun src => by rw [hu]; exact h.reg src, fun c hlt hsto => ?_⟩
    rw [hc] at hsto ⊢
    by_cases hcn : c = x.n
    · subst hcn
      rw [Function.update_self] at hsto
      cases hsto
    · rw [Function.update_of_ne hcn] at hsto ⊢
      exact h.closed c (by omega) hsto
  | store c d hpc _ => rw [hpc] at hst; cases hst
  | pending c ds hn hc hu => exact upd hn hc hu rfl id
  | setConnected c _ hs => subst hs; exact upd (d := c) rfl rfl rfl rfl id
  | close c _ hs => subst hs; exact upd (d := c) rfl rfl rfl rfl fun _ => rfl
  | delete c _ hs =>
    subst hs
    refine ⟨fun src => ?_, h.closed⟩
    simp only [Shared.delete, Function.update_apply]
    split
    · rfl
    · exact h.reg src

theorem step_grows (hs : Udp.step H s a = some s') : Grows s.shared s'.shared := by
  obtain ⟨g, e, -, he⟩ | ⟨b, -, hn, hc, -⟩ := step_effect hs
  · exact he.grows
  · exact .of_conn hn hc

end

end Udp

namespace LwipStack

open Trans
open Core (Lwip)
open Udp (Handler)

variable {H : Handler}

/-! ## The condition -/

/-- The TCP connections were swept. -/
def ClosePc.tcpSwept : ClosePc → Bool
  | .idle | .cancelled | .rangeTcp _ => false
  | .sweptTcp | .rangeUdp _ _ | .sweptUdp | .returned => true

/-- The UDP connections were swept. -/
def ClosePc.udpSwept : ClosePc → Bool
  | .sweptUdp | .returned => true
  | _ => false

/-- A `Range` has visited all that is in its map. -/
def ClosePc.seesAll (tcpConns udpConns : List Nat) : ClosePc → Bool
  | .rangeTcp r => tcpConns.all fun c => c ∈ r.visited
  | .rangeUdp r _ => udpConns.all fun c => c ∈ r.visited
  | _ => true

/-- The condition (module doc). -/
def Sweeps (s : LwipStack H) : Act H → Prop
  | .accept key => s.close.tcpSwept = false ∧ Core.FreshKey s.tcp (.accept key)
  | .tcp a => Core.NoEarlyAbort s.tcp a
  | .udp g e => Udp.NoLateConnect s.udp (.sec g e) ∧ Udp.DeletesOwn s.udp (.sec g e) ∧
      (s.close.udpSwept = true → (s.udp.thread g).pc.stores = none)
  | .endRange => s.close.seesAll s.tcpConns s.udpConns = true
  | _ => True

instance (s : LwipStack H) : (a : Act H) → Decidable (Sweeps s a)
  | .accept key => inferInstanceAs (Decidable (_ ∧ Core.FreshKey s.tcp (.accept key)))
  | .tcp a => inferInstanceAs (Decidable (Core.NoEarlyAbort s.tcp a))
  | .udp g e => inferInstanceAs (Decidable (Udp.NoLateConnect s.udp (.sec g e) ∧ _ ∧ (_ → _)))
  | .endRange => inferInstanceAs (Decidable (_ = true))
  | .write _ | .enter _ | .leave _ | .tick | .tock | .recv _ _ _ | .cancel | .range | .abort _
  | .close _ | .back | .unhook => .isTrue trivial

/-- `Close` and every call of `Write` that passed the test of the context have returned. -/
def Over (s : LwipStack H) : Prop :=
  s.close = .returned ∧ ∀ w < s.writes, s.write w = .returned

/-- Nothing is left behind. -/
structure Clean (s : LwipStack H) : Prop where
  tcpConns : ∀ key, s.tcp.tcpConns key = none
  udpConns : ∀ src, s.udp.shared.udpConns src = none
  tcp : ∀ c < s.tcp.n, (s.tcp.conn c).state = .closed ∨ (s.tcp.conn c).state = .errored
  udp : ∀ c < s.udp.shared.n, (s.udp.shared.conn c).stored = true →
    (s.udp.shared.conn c).state = .closed

section
variable {M : Lwip} {s s' : LwipStack H} {a : Act H} {tr : List (LwipStack H × Act H)}

theorem step_spec (h : step M H s a = some s') :
    s.may a = true ∧ a.tcpAct.elim (some s.tcp) (Core.step M s.tcp) = some s'.tcp ∧
      a.udpAct.elim (some s.udp) (Udp.step H s.udp) = some s'.udp ∧
      s'.close = (s.ctl a).close := by
  simp only [step, guard, Option.bind_eq_bind] at h
  split at h
  · rename_i hm
    simp only [Option.pure_def, Option.bind_some, Option.bind_eq_some_iff, Option.some.injEq] at h
    obtain ⟨t, ht, u, hu, rfl⟩ := h
    exact ⟨hm, ht, hu, rfl⟩
  · cases h

/-! ## The cores -/

theorem tcp_run (hr : Run (step M H) (init H) tr s) :
    Run (Core.step M) {} (project (·.tcp) Act.tcpAct tr) s.tcp :=
  hr.project fun _ _ _ h => (step_spec h).2.1

theorem udp_run (hr : Run (step M H) (init H) tr s) :
    Run (Udp.step H) (Udp.init H) (project (·.udp) Act.udpAct tr) s.udp :=
  hr.project fun _ _ _ h => (step_spec h).2.2.1

theorem tcp_freshKey (hr : Run (step M H) (init H) tr s) (hc : Meets Sweeps tr) :
    Meets Core.FreshKey (project (·.tcp) Act.tcpAct tr) := by
  refine hr.meets_project hc fun s a s' hs hc b hb => ?_
  cases a with
  | accept key => cases hb; exact hc.2
  | tcp a =>
    cases hb
    have hm := (step_spec hs).1
    cases b with
    | accept key => cases hm
    | _ => trivial
  | _ => cases hb <;> trivial

theorem tcp_noEarlyAbort (hr : Run (step M H) (init H) tr s) (hc : Meets Sweeps tr) :
    Meets Core.NoEarlyAbort (project (·.tcp) Act.tcpAct tr) := by
  refine hr.meets_project hc fun s a s' hs hc b hb => ?_
  cases a with
  | tcp a => cases hb; exact hc
  | _ => cases hb <;> trivial

theorem udp_noLateConnect (hr : Run (step M H) (init H) tr s) (hc : Meets Sweeps tr) :
    Meets Udp.NoLateConnect (project (·.udp) Act.udpAct tr) := by
  refine hr.meets_project hc fun s a s' hs hc b hb => ?_
  cases a with
  | udp g e => cases hb; exact hc.1
  | _ => cases hb <;> trivial

theorem udp_deletesOwn (hr : Run (step M H) (init H) tr s) (hc : Meets Sweeps tr) :
    Meets Udp.DeletesOwn (project (·.udp) Act.udpAct tr) := by
  refine hr.meets_project hc fun s a s' hs hc b hb => ?_
  cases a with
  | udp g e => cases hb; exact hc.2.1
  | _ => cases hb <;> trivial

/-! ## The sweep of the TCP connections -/

/-- What the sweep has visited has ended, but for the connection that it is aborting. -/
structure SweepTcp (s : LwipStack H) : Prop where
  visited : ∀ {r}, s.close = .rangeTcp r → ∀ c ∈ r.visited, c < s.tcp.n ∧
    (r.cur ≠ some c → (s.tcp.conn c).state.terminal = true)
  cur : ∀ {r c}, s.close = .rangeTcp r → r.cur = some c → c < s.tcp.n ∧ Core.AbortAt s.tcp 0 c
  swept : s.close.tcpSwept = true → ∀ c < s.tcp.n, (s.tcp.conn c).state.terminal = true

/-- What a step of the TCP core needs, beside its own label, to keep the sweep. -/
structure TcpOk (s : LwipStack H) : Prop where
  inv : Core.Inv s.tcp
  abortPc : s.tcp.AbortPc
  new : ∀ {c}, s.tcp.lock.frame = .accept c → (s.tcp.conn c).state = .newConn

/-- A step of the TCP core in which `Close` does not go on. -/
theorem SweepTcp.tcp (h : SweepTcp s) (hok : TcpOk s) {b : Core.Act}
    (hb : Core.step M s.tcp b = some s'.tcp) (hcl : s'.close = s.close)
    (hcall : ∀ c op, b ≠ .call 0 c op) (hsp : b ≠ .held (.spawn 0))
    (hacc : s.close.tcpSwept = true → ∀ key, b ≠ .accept key) : SweepTcp s' := by
  have hle := Core.step_n_le hb
  have ended : ∀ {c}, c < s.tcp.n → (s.tcp.conn c).state.terminal = true →
      (s'.tcp.conn c).state.terminal = true := by
    intro c hc ht
    rw [hok.inv.ended_step hb hc ht]
    exact ht
  refine ⟨fun {r} hr c hc => ?_, fun {r c} hr hc => ?_, fun hs c hc => ?_⟩
  · rw [hcl] at hr
    obtain ⟨hlt, ht⟩ := h.visited hr c hc
    exact ⟨Nat.lt_of_lt_of_le hlt hle, fun hne => ended hlt (ht hne)⟩
  · rw [hcl] at hr
    obtain ⟨hlt, hat⟩ := h.cur hr hc
    exact ⟨Nat.lt_of_lt_of_le hlt hle,
      hat.step hok.inv.toBase hok.abortPc hok.new hlt hcall hsp hb⟩
  · rw [hcl] at hs
    rw [Core.step_n_eq hb (hacc hs)] at hc
    exact ended hc (h.swept hs c hc)

/-- A step that changes neither the TCP core nor the sweep. -/
theorem SweepTcp.same (h : SweepTcp s) (ht : s'.tcp = s.tcp) (hcl : s'.close = s.close) :
    SweepTcp s' := by
  refine ⟨?_, ?_, ?_⟩ <;> rw [hcl, ht]
  · exact h.visited
  · exact h.cur
  · exact h.swept

/-- A step of `Close` after the sweep. -/
theorem SweepTcp.after (h : SweepTcp s) (ht : s'.tcp = s.tcp) (hs : s.close.tcpSwept = true)
    (hno : ∀ r, s'.close ≠ .rangeTcp r) : SweepTcp s' := by
  refine ⟨fun hr => absurd hr (hno _), fun hr => absurd hr (hno _), fun _ => ?_⟩
  rw [ht]
  exact h.swept hs

theorem mem_tcpConns {c : Nat} : c ∈ s.tcpConns ↔
    c < s.tcp.n ∧ s.tcp.tcpConns (s.tcp.conn c).connKey = some c := by
  simp [tcpConns]

/-- `Range` begins. -/
theorem SweepTcp.begin {cs : List Nat} (hcl : s'.close = .rangeTcp { start := cs }) : SweepTcp s' := by
  refine ⟨fun {r} hr c hc => ?_, fun {r c} hr hc => ?_, fun hsw => ?_⟩
  · rw [hcl] at hr
    cases hr
    cases hc
  · rw [hcl] at hr
    cases hr
    cases hc
  · rw [hcl] at hsw
    cases hsw

/-- `Range` calls `Abort` of `c`. -/
theorem SweepTcp.visit (h : SweepTcp s) (hinv : Core.Inv s.tcp) {r : Range} {c : Nat}
    (hpc : s.close = .rangeTcp r) (hcur : r.cur = none) (hlt : c < s.tcp.n)
    (hb : Core.step M s.tcp (.call 0 c .abort) = some s'.tcp)
    (hcl : s'.close = .rangeTcp { r with visited := c :: r.visited, cur := some c }) : SweepTcp s' := by
  have hle := Core.step_n_le hb
  refine ⟨fun {r'} hr d hd => ?_, fun {r' d} hr hd => ?_, fun hsw => ?_⟩
  · rw [hcl] at hr
    cases hr
    rcases List.mem_cons.1 hd with rfl | hd
    · exact ⟨Nat.lt_of_lt_of_le hlt hle, fun hne => absurd rfl hne⟩
    · obtain ⟨hdlt, hdt⟩ := h.visited hpc d hd
      refine ⟨Nat.lt_of_lt_of_le hdlt hle, fun _ => ?_⟩
      have hdt := hdt (by simp [hcur])
      rw [hinv.ended_step hb hdlt hdt]
      exact hdt
  · rw [hcl] at hr
    cases hr
    cases hd
    exact ⟨Nat.lt_of_lt_of_le hlt hle, .abort (Core.step_call hb)⟩
  · rw [hcl] at hsw
    cases hsw

/-- The call returns. -/
theorem SweepTcp.back (h : SweepTcp s) {r : Range} (hpc : s.close = .rangeTcp r)
    (hidle : (s.tcp.gos 0).pc = .idle) (ht : s'.tcp = s.tcp)
    (hcl : s'.close = .rangeTcp { r with cur := none }) : SweepTcp s' := by
  refine ⟨fun {r'} hr c hcm => ?_, fun {r' c} hr hcm => ?_, fun hsw => ?_⟩
  · rw [hcl] at hr
    cases hr
    obtain ⟨hlt, hvis⟩ := h.visited hpc c hcm
    rw [ht]
    refine ⟨hlt, fun _ => ?_⟩
    by_cases hcur : r.cur = some c
    · exact (h.cur hpc hcur).2.terminal hidle
    · exact hvis hcur
  · rw [hcl] at hr
    cases hr
    cases hcm
  · rw [hcl] at hsw
    cases hsw

/-- `Range` ends, and it has visited what is in the map. -/
theorem SweepTcp.ends (h : SweepTcp s) (hinv : Core.Inv s.tcp) {r : Range} (hpc : s.close = .rangeTcp r)
    (hcur : r.cur = none) (hsees : ∀ c ∈ s.tcpConns, c ∈ r.visited) (ht : s'.tcp = s.tcp)
    (hcl : s'.close = .sweptTcp) : SweepTcp s' := by
  refine ⟨by simp [hcl], by simp [hcl], fun _ c hlt => ?_⟩
  rw [ht] at hlt ⊢
  -- a connection that has not ended is in the map, so it was visited, so it has ended
  rw [← Bool.not_eq_false]
  intro hlive
  have hreg := hinv.ok.reg hlt hlive
  have hvis := (h.visited hpc c (hsees c (mem_tcpConns.2 ⟨hlt, hreg⟩))).2 (by simp [hcur])
  rw [hvis] at hlive
  cases hlive

theorem Range.finds_spec {K : Type} [DecidableEq K] {r : Range} {key : Nat → K} {now : List Nat} {c : Nat}
    (h : r.finds key now c = true) : r.cur = none ∧ c ∈ now := by
  simp only [Range.finds, Bool.and_eq_true, decide_eq_true_eq, Option.isNone_iff_eq_none] at h
  exact h.1

theorem Range.complete_spec {r : Range} {now : List Nat} (h : r.complete now = true) : r.cur = none := by
  simp only [Range.complete, Bool.and_eq_true, Option.isNone_iff_eq_none] at h
  exact h.1

theorem SweepTcp.step (h : SweepTcp s) (hok : TcpOk s) (hc : Sweeps s a)
    (hs : step M H s a = some s') : SweepTcp s' := by
  obtain ⟨hm, ht, -, hcl⟩ := step_spec hs
  cases a with
  | write pkt => exact h.same (Option.some.inj ht).symm hcl
  | enter w => exact h.tcp (M := M) hok (b := .lock) ht hcl (by simp) (by simp) (by simp)
  | leave w => exact h.tcp (M := M) hok (b := .unlock) ht hcl (by simp) (by simp) (by simp)
  | tick => exact h.tcp (M := M) hok (b := .lock) ht hcl (by simp) (by simp) (by simp)
  | tock => exact h.tcp (M := M) hok (b := .unlock) ht hcl (by simp) (by simp) (by simp)
  | accept key =>
    refine h.tcp (M := M) hok (b := .accept key) ht hcl (by simp) (by simp) fun hsw => ?_
    rw [hc.1] at hsw
    cases hsw
  | tcp b =>
    refine h.tcp (M := M) hok (b := b) ht hcl (fun c op hb => ?_) (fun hb => ?_) fun _ key hb => ?_
    · subst hb; simp [may, mayTcp] at hm
    · subst hb; simp [may, mayTcp] at hm
    · subst hb; simp [may, mayTcp] at hm
  | recv src dst data => exact h.same (Option.some.inj ht).symm hcl
  | udp g e => exact h.same (Option.some.inj ht).symm hcl
  | cancel => exact ⟨by simp [hcl, ctl], by simp [hcl, ctl], by simp [hcl, ctl, ClosePc.tcpSwept]⟩
  | range =>
    cases hpc : s.close <;> simp only [may, hpc, Bool.false_eq_true] at hm <;>
      simp only [ctl, hpc] at hcl
    case cancelled => exact .begin hcl
    case sweptTcp =>
      exact h.after (Option.some.inj ht).symm (by rw [hpc]; rfl) (by simp [hcl])
  | abort c =>
    cases hpc : s.close <;> simp only [may, hpc, Bool.false_eq_true] at hm
    case rangeTcp r =>
      simp only [ctl, hpc] at hcl
      obtain ⟨hcur, hcm⟩ := Range.finds_spec hm
      exact h.visit (M := M) hok.inv hpc hcur (mem_tcpConns.1 hcm).1 ht hcl
  | close c =>
    cases hpc : s.close <;> simp only [may, hpc, Bool.false_eq_true] at hm
    simp only [ctl, hpc] at hcl
    exact h.after (Option.some.inj ht).symm (by rw [hpc]; rfl) (by simp [hcl])
  | back =>
    cases hpc : s.close <;> simp only [may, hpc, Bool.false_eq_true] at hm <;>
      simp only [ctl, hpc] at hcl
    case rangeTcp r =>
      simp only [Bool.and_eq_true, beq_iff_eq] at hm
      exact h.back hpc hm.2 (Option.some.inj ht).symm hcl
    case rangeUdp r g => exact h.after (Option.some.inj ht).symm (by rw [hpc]; rfl) (by simp [hcl])
  | endRange =>
    cases hpc : s.close <;> simp only [may, hpc, Bool.false_eq_true] at hm <;>
      simp only [ctl, hpc] at hcl
    case rangeTcp r =>
      have hsees : s.close.seesAll s.tcpConns s.udpConns = true := hc
      rw [hpc] at hsees
      exact h.ends hok.inv hpc (Range.complete_spec hm) (by simpa [ClosePc.seesAll] using hsees)
        (Option.some.inj ht).symm hcl
    case rangeUdp r g => exact h.after (Option.some.inj ht).symm (by rw [hpc]; rfl) (by simp [hcl])
  | unhook =>
    have hpc : s.close = .sweptUdp := by simp [may] at hm; exact hm.1
    exact h.after (Option.some.inj ht).symm (by rw [hpc]; rfl) (by simp [hcl, ctl])

/-! ## The sweep of the UDP connections -/

/-- What the sweep has visited is closed and out of the map, but for the connection that it is
closing. -/
structure SweepUdp (s : LwipStack H) : Prop where
  visited : ∀ {r g}, s.close = .rangeUdp r g → ∀ c ∈ r.visited,
    c < s.udp.shared.n ∧ (s.udp.shared.conn c).stored = true ∧
      (r.cur ≠ some c → Udp.Gone s.udp.shared c)
  cur : ∀ {r g c}, s.close = .rangeUdp r g → r.cur = some c →
    g < s.udp.n ∧ c ∈ r.visited ∧ Udp.CloseAt s.udp g c
  swept : s.close.udpSwept = true → Udp.Emptied s.udp.shared

theorem mem_udpConns {c : Nat} : c ∈ s.udpConns ↔ c < s.udp.shared.n ∧
    s.udp.shared.udpConns (s.udp.shared.conn c).localAddr = some c := by
  simp [udpConns]

/-- A step of the UDP core in which `Close` does not go on. -/
theorem SweepUdp.udp (h : SweepUdp s) (hb : Udp.Base s.udp) {b : Udp.Act H}
    (hs : Udp.step H s.udp b = some s'.udp) (hcl : s'.close = s.close)
    (hst : s.close.udpSwept = true → ∀ g e, b = .sec g e → (s.udp.thread g).pc.stores = none) :
    SweepUdp s' := by
  have hg := Udp.step_grows hs
  refine ⟨fun {r g} hr c hc => ?_, fun {r g c} hr hc => ?_, fun hsw => ?_⟩
  · rw [hcl] at hr
    obtain ⟨hlt, hsto, hgone⟩ := h.visited hr c hc
    exact ⟨Nat.lt_of_lt_of_le hlt hg.n, hg.stored c hlt hsto,
      fun hne => (hgone hne).step hb hlt hsto hs⟩
  · rw [hcl] at hr
    obtain ⟨hlt, hv, hat⟩ := h.cur hr hc
    obtain ⟨hclt, hsto, -⟩ := h.visited hr c hv
    exact ⟨Nat.lt_of_lt_of_le hlt (Pool.step_n_le hs), hv, hat.step hb hlt hclt hsto hs⟩
  · rw [hcl] at hsw
    have hem := h.swept hsw
    obtain ⟨g, e, rfl, he⟩ | ⟨b, rfl, hn, hconn, hu⟩ := Udp.step_effect hs
    · exact he.emptied hem (hst hsw g e rfl)
    · exact ⟨by rw [hu]; exact hem.reg, by rw [hn, hconn]; exact hem.closed⟩

/-- A step that changes neither the UDP core nor the sweep. -/
theorem SweepUdp.same (h : SweepUdp s) (hu : s'.udp = s.udp) (hcl : s'.close = s.close) :
    SweepUdp s' := by
  refine ⟨?_, ?_, ?_⟩ <;> rw [hcl, hu]
  · exact h.visited
  · exact h.cur
  · exact h.swept

/-- A step of `Close` before the sweep. -/
theorem SweepUdp.before (hno : ∀ r g, s'.close ≠ .rangeUdp r g)
    (hs : s'.close.udpSwept = false) : SweepUdp s' := by
  refine ⟨fun hr => absurd hr (hno _ _), fun hr => absurd hr (hno _ _), fun hsw => ?_⟩
  rw [hs] at hsw
  cases hsw

/-- `Range` begins. -/
theorem SweepUdp.begin {cs : List Nat} {g : Udp.Gid} (hcl : s'.close = .rangeUdp { start := cs } g) :
    SweepUdp s' := by
  refine ⟨fun {r g} hr c hc => ?_, fun {r g c} hr hc => ?_, fun hsw => ?_⟩
  · rw [hcl] at hr
    cases hr
    cases hc
  · rw [hcl] at hr
    cases hr
    cases hc
  · rw [hcl] at hsw
    cases hsw

/-- `Range` calls `Close` of `c`. -/
theorem SweepUdp.visit (h : SweepUdp s) (hb : Udp.Base s.udp) {r : Range} {g : Udp.Gid} {c : Nat}
    (hpc : s.close = .rangeUdp r g) (hcur : r.cur = none) (hcm : c ∈ s.udpConns)
    (hu : Udp.step H s.udp (.start (.close c)) = some s'.udp)
    (hcl : s'.close = .rangeUdp { r with visited := c :: r.visited, cur := some c } s.udp.n) :
    SweepUdp s' := by
  obtain ⟨hlt, hreg⟩ := mem_udpConns.1 hcm
  obtain ⟨hshared, hn, hthread⟩ := Udp.step_close hu
  refine ⟨fun {r' g'} hr d hd => ?_, fun {r' g' d} hr hd => ?_, fun hsw => ?_⟩
  · rw [hcl] at hr
    cases hr
    rw [hshared]
    rcases List.mem_cons.1 hd with rfl | hd
    · exact ⟨hlt, hb.shared.stored hreg, fun hne => absurd rfl hne⟩
    · obtain ⟨hdlt, hsto, hgone⟩ := h.visited hpc d hd
      exact ⟨hdlt, hsto, fun _ => hgone (by simp [hcur])⟩
  · rw [hcl] at hr
    cases hr
    cases hd
    exact ⟨by rw [hn]; exact Nat.lt_succ_self _, List.mem_cons_self, .close hthread⟩
  · rw [hcl] at hsw
    cases hsw

/-- The call returns. -/
theorem SweepUdp.back (h : SweepUdp s) {r : Range} {g : Udp.Gid} (hpc : s.close = .rangeUdp r g)
    (hidle : (s.udp.thread g).pc = .idle) (hu : s'.udp = s.udp)
    (hcl : s'.close = .rangeUdp { r with cur := none } g) : SweepUdp s' := by
  refine ⟨fun {r' g'} hr c hcm => ?_, fun {r' g' c} hr hcm => ?_, fun hsw => ?_⟩
  · rw [hcl] at hr
    cases hr
    rw [hu]
    obtain ⟨hlt, hsto, hgone⟩ := h.visited hpc c hcm
    refine ⟨hlt, hsto, fun _ => ?_⟩
    by_cases hcur : r.cur = some c
    · exact (h.cur hpc hcur).2.2.gone hidle
    · exact hgone hcur
  · rw [hcl] at hr
    cases hr
    cases hcm
  · rw [hcl] at hsw
    cases hsw

/-- `Range` ends, and it has visited what is in the map. -/
theorem SweepUdp.ends (h : SweepUdp s) (hb : Udp.Base s.udp) (ho : Udp.OpenRegistered s.udp) {r : Range}
    {g : Udp.Gid} (hpc : s.close = .rangeUdp r g) (hcur : r.cur = none)
    (hsees : ∀ c ∈ s.udpConns, c ∈ r.visited) (hu : s'.udp = s.udp) (hcl : s'.close = .sweptUdp) :
    SweepUdp s' := by
  -- what is in the map was visited, so it is out of the map
  have hempty : ∀ src, s.udp.shared.udpConns src = none := by
    intro src
    cases hreg : s.udp.shared.udpConns src with
    | none => rfl
    | some c =>
      have hmem : c ∈ s.udpConns :=
        mem_udpConns.2 ⟨hb.shared.lt hreg, by rw [hb.shared.src hreg]; exact hreg⟩
      have hgone := (h.visited hpc c (hsees c hmem)).2.2 (by simp [hcur])
      exact absurd hreg (hgone.reg src)
  refine ⟨by simp [hcl], by simp [hcl], fun _ => ?_⟩
  rw [hu]
  refine ⟨hempty, fun c hlt hsto => ?_⟩
  rw [← Bool.not_eq_false]
  intro hopen
  have hreg := ho c hlt hsto hopen
  rw [hempty] at hreg
  cases hreg

theorem SweepUdp.step (h : SweepUdp s) (hb : Udp.Base s.udp) (ho : Udp.OpenRegistered s.udp)
    (hc : Sweeps s a) (hs : step M H s a = some s') : SweepUdp s' := by
  obtain ⟨hm, -, hu, hcl⟩ := step_spec hs
  cases a with
  | write pkt => exact h.same (Option.some.inj hu).symm hcl
  | enter w => exact h.same (Option.some.inj hu).symm hcl
  | leave w => exact h.same (Option.some.inj hu).symm hcl
  | tick => exact h.same (Option.some.inj hu).symm hcl
  | tock => exact h.same (Option.some.inj hu).symm hcl
  | accept key => exact h.same (Option.some.inj hu).symm hcl
  | tcp b => exact h.same (Option.some.inj hu).symm hcl
  | recv src dst data =>
    exact h.udp hb (b := .start (.recv src dst data)) hu hcl (by simp)
  | udp g e =>
    refine h.udp hb (b := .sec g e) hu hcl fun hsw g' e' he => ?_
    cases he
    exact hc.2.2 hsw
  | cancel => exact .before (by simp [hcl, ctl]) (by simp [hcl, ctl, ClosePc.udpSwept])
  | range =>
    cases hpc : s.close <;> simp only [may, hpc, Bool.false_eq_true] at hm <;>
      simp only [ctl, hpc] at hcl
    case cancelled => exact .before (by simp [hcl]) (by simp [hcl, ClosePc.udpSwept])
    case sweptTcp => exact .begin hcl
  | abort c =>
    cases hpc : s.close <;> simp only [may, hpc, Bool.false_eq_true] at hm
    simp only [ctl, hpc] at hcl
    exact .before (by simp [hcl]) (by simp [hcl, ClosePc.udpSwept])
  | close c =>
    cases hpc : s.close <;> simp only [may, hpc, Bool.false_eq_true] at hm
    case rangeUdp r g =>
      simp only [ctl, hpc] at hcl
      obtain ⟨hcur, hcm⟩ := Range.finds_spec hm
      exact h.visit hb hpc hcur hcm hu hcl
  | back =>
    cases hpc : s.close <;> simp only [may, hpc, Bool.false_eq_true] at hm <;>
      simp only [ctl, hpc] at hcl
    case rangeTcp r => exact .before (by simp [hcl]) (by simp [hcl, ClosePc.udpSwept])
    case rangeUdp r g =>
      have hidle : (s.udp.thread g).pc = .idle := by
        rw [Bool.and_eq_true] at hm
        obtain ⟨-, hm⟩ := hm
        split at hm
        · assumption
        · cases hm
      exact h.back hpc hidle (Option.some.inj hu).symm hcl
  | endRange =>
    cases hpc : s.close <;> simp only [may, hpc, Bool.false_eq_true] at hm <;>
      simp only [ctl, hpc] at hcl
    case rangeTcp r => exact .before (by simp [hcl]) (by simp [hcl, ClosePc.udpSwept])
    case rangeUdp r g =>
      have hsees : s.close.seesAll s.tcpConns s.udpConns = true := hc
      rw [hpc] at hsees
      exact h.ends hb ho hpc (Range.complete_spec hm) (by simpa [ClosePc.seesAll] using hsees)
        (Option.some.inj hu).symm hcl
  | unhook =>
    have hpc : s.close = .sweptUdp := by simp [may] at hm; exact hm.1
    refine ⟨by simp [hcl, ctl], by simp [hcl, ctl], fun _ => ?_⟩
    rw [(Option.some.inj hu).symm]
    exact h.swept (by rw [hpc]; rfl)

/-! ## Runs -/

theorem tcpOk_run (hr : Run (step M H) (init H) tr s) (hc : Meets Sweeps tr) : TcpOk s where
  inv := Core.inv_run (tcp_run hr) (tcp_freshKey hr hc)
  abortPc := Core.abortPc_run (tcp_run hr)
  new := Core.accept_newConn_run (tcp_run hr) (tcp_noEarlyAbort hr hc)

theorem sweepTcp_run (hr : Run (step M H) (init H) tr s) (hc : Meets Sweeps tr) : SweepTcp s := by
  induction hr with
  | nil => exact ⟨by simp [init], by simp [init], by simp [init]⟩
  | snoc hr hs ih =>
    rw [meets_snoc] at hc
    exact (ih hc.1).step (tcpOk_run hr hc.1) hc.2 hs

theorem sweepUdp_run (hr : Run (step M H) (init H) tr s) (hc : Meets Sweeps tr) : SweepUdp s := by
  induction hr with
  | nil => exact ⟨by simp [init], by simp [init], by simp [init, ClosePc.udpSwept]⟩
  | snoc hr hs ih =>
    rw [meets_snoc] at hc
    exact (ih hc.1).step (Udp.base_run (udp_run hr))
      (Udp.openRegistered_run (udp_run hr) (udp_deletesOwn hr hc.1)) hc.2 hs

theorem clean_of_returned (hr : Run (step M H) (init H) tr s) (hc : Meets Sweeps tr)
    (hcl : s.close = .returned) : Clean s := by
  have hinv := (tcpOk_run hr hc).inv
  have hend := (sweepTcp_run hr hc).swept (by rw [hcl]; rfl)
  have hem := (sweepUdp_run hr hc).swept (by rw [hcl]; rfl)
  refine ⟨fun key => ?_, hem.reg, fun c hlt => Core.TcpConnState.terminal_iff.1 (hend c hlt),
    fun c hlt hsto => ?_⟩
  · cases hreg : s.tcp.tcpConns key with
    | none => rfl
    | some c =>
      have hlive : (s.tcp.conn c).state.terminal = false := hinv.reg.live hreg
      rw [hend c (hinv.reg.lt hreg)] at hlive
      cases hlive
  · exact (Udp.shut_run (udp_run hr) (udp_noLateConnect hr hc)).shared.closed (hem.closed c hlt hsto)

/-- `Close` leaves nothing behind, in every run that meets the condition: when it and the calls of
`Write` have returned, both maps are empty and every connection that was in one of them
has ended. -/
theorem close_leaves_nothing (hr : Run (step M H) (init H) tr s) (hc : Meets Sweeps tr) :
    ∀ t ∈ visited tr s, Over t → Clean t :=
  hr.forall_visited hc fun _ _ hr hc hov => clean_of_returned hr hc hov.1

end

/-- An IPv4 packet that `input` takes. -/
def packet : Bytes := [69, 0, 0, 0, 0, 0, 0, 0, 0, 6]

/-- The sections of goroutine `g` of the UDP core: `true` for one of the handler's. -/
def udpActs (g : Nat) (bs : List Bool) : List (Act Udp.udpPivot) :=
  bs.map fun b => .udp g (if b then .handler .none else .none)

/-- A `Write` accepts a TCP connection and opens a UDP flow; `Close` aborts and closes them. -/
def closeActs : List (Act Udp.udpPivot) :=
  ([.write packet, .enter 0, .accept 7, .tcp (.held (.spawn 1)), .recv [1] [2] [65]] :
      List (Act Udp.udpPivot)) ++
    udpActs 0 [false, false, false, false] ++
    ([.leave 0, .udp 1 (.handler (.dial true))] : List (Act Udp.udpPivot)) ++
    udpActs 1 [true, true, true, false, false] ++
    ([.cancel, .range, .abort 0] : List (Act Udp.udpPivot)) ++
    ([.tcp (.go 0 .none), .tcp (.go 0 .none), .tcp (.held .none), .tcp (.held .none),
      .tcp (.held .none), .back, .endRange, .range, .close 0] : List (Act Udp.udpPivot)) ++
    udpActs 3 [false, false, false] ++ ([.back, .endRange, .unhook] : List (Act Udp.udpPivot))

theorem close_leaves_nothing_both :
    ∃ tr s, Run (step Core.tcpLwip Udp.udpPivot) (init Udp.udpPivot) tr s ∧ Meets Sweeps tr ∧
      Over s ∧ s.tcp.n = 1 ∧ (s.udp.shared.conn 0).stored = true ∧ Clean s := by
  obtain ⟨s, hr, hs⟩ := exists_run (step Core.tcpLwip Udp.udpPivot) (init Udp.udpPivot) closeActs
    (fun s => decide ((s.close = .returned ∧ ∀ w < s.writes, s.write w = .returned) ∧
      s.tcp.n = 1 ∧ (s.udp.shared.conn 0).stored = true)) (by decide)
  obtain ⟨hov, hn, hst⟩ := of_decide_eq_true hs
  have hc : Meets Sweeps (execTrace (step Core.tcpLwip Udp.udpPivot) (init Udp.udpPivot) closeActs) := by
    decide
  exact ⟨_, s, hr, hc, hov, hn, hst, close_leaves_nothing hr hc s (last_mem_visited _ s) hov⟩

/-- A `Write` that passed the test of the context before `Close` accepts a connection after the
sweep. -/
theorem accepted_after_sweep :
    ¬ ∀ tr s, Run (step Core.tcpLwip Udp.udpPivot) (init Udp.udpPivot) tr s →
      ∀ t ∈ visited tr s, Over t → Clean t := by
  intro h
  obtain ⟨s, hr, hs⟩ := exists_run (step Core.tcpLwip Udp.udpPivot) (init Udp.udpPivot)
    [.write packet, .cancel, .range, .endRange, .range, .endRange, .enter 0, .accept 7,
      .tcp (.held (.spawn 1)), .leave 0, .unhook]
    (fun s => decide ((s.close = .returned ∧ ∀ w < s.writes, s.write w = .returned) ∧
      s.tcp.tcpConns 7 = some 0)) (by decide)
  obtain ⟨hov, hreg⟩ := of_decide_eq_true hs
  have hnone := (h _ s hr s (last_mem_visited _ s) hov).tcpConns 7
  rw [hreg] at hnone
  cases hnone

end LwipStack
