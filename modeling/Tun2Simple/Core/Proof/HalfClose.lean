import Tun2Simple.Core.Proof.Registry

/-!
# Half-closes

The state of a connection encodes in one enumeration whether the handler closed its writing side
(`didCloseWrite`) and whether lwIP reported the app's FIN (`didLocalClose`): `Book`. It does so in
every state of every run until the connection aborts or ends (`half_run`), and `tcp_shutdown` is
issued for the handler's close once (`shut_run`).

The states themselves move forward only (`Forward`), with one exception. `newTCPConn` sets
`tcpConnecting` without a test of the state, after the connection was stored in `tcpConns`: an
`Abort` of `lwipStack.Close` that comes in between is undone (`abort_undone`). The connect goroutine
tests the state before it sets `tcpConnected`. `half_close_forward` is about the runs without such
an `Abort`.
-/

namespace Core

open Trans

/-! ## The bookkeeping -/

/-- The state of a connection that neither aborts nor ended, by its closed halves. -/
structure Book (st : TcpConnState) (w r : Bool) : Prop where
  writeClosed : st = .writeClosed ↔ w = true ∧ r = false
  receiveClosed : st = .receiveClosed ↔ r = true ∧ w = false
  closing : st = .closing ↔ w = true ∧ r = true
  neither : (st = .newConn ∨ st = .connecting ∨ st = .connected) ↔ w = false ∧ r = false

/-- The connection is neither aborting nor has it ended. -/
def TcpConnState.live (st : TcpConnState) : Prop := st ≠ .aborting ∧ st ≠ .closed ∧ st ≠ .errored

instance (st : TcpConnState) : Decidable st.live := inferInstanceAs (Decidable (_ ∧ _))

namespace Book

variable {st st' : TcpConnState} {w r : Bool}

theorem neither_of (h : Book st w r) (hst : st = .newConn ∨ st = .connecting ∨ st = .connected) :
    w = false ∧ r = false := h.neither.1 hst

theorem closeWrite (h : Book st w r) (hst : st.closeWrite = some st') :
    w = false ∧ Book st' true r := by
  rcases TcpConnState.closeWrite_eq_some hst with ⟨rfl, rfl⟩ | ⟨hold, rfl⟩
  · obtain ⟨rfl, rfl⟩ := h.receiveClosed.1 rfl
    exact ⟨rfl, by constructor <;> simp⟩
  · obtain ⟨rfl, rfl⟩ := h.neither_of hold
    exact ⟨rfl, by constructor <;> simp⟩

theorem setLocalClosed (h : Book st w r) (hst : st.setLocalClosed = some st') :
    r = false ∧ Book st' w true := by
  rcases TcpConnState.setLocalClosed_eq_some hst with ⟨rfl, rfl⟩ | ⟨hold, rfl⟩
  · obtain ⟨rfl, rfl⟩ := h.writeClosed.1 rfl
    exact ⟨rfl, by constructor <;> simp⟩
  · obtain ⟨rfl, rfl⟩ := h.neither_of hold
    exact ⟨rfl, by constructor <;> simp⟩

end Book

theorem TcpConnState.live_of_closeWrite {st : TcpConnState} (h : st.closeWrite ≠ none) : st.live := by
  cases st <;> simp_all [closeWrite, num, live]

theorem TcpConnState.live_of_setLocalClosed {st : TcpConnState} (h : st.setLocalClosed ≠ none) :
    st.live := by
  cases st <;> simp_all [setLocalClosed, num, live]

/-- The bookkeeping of all connections. -/
structure Half (s : Sys) : Prop where
  book : ∀ {c}, (s.conn c).state.live →
    Book (s.conn c).state (s.conn c).didCloseWrite (s.conn c).didLocalClose
  /-- Nothing was closed before the accept is done. -/
  unstarted : ∀ {c}, (s.conn c).started = false →
    (s.conn c).didCloseWrite = false ∧ (s.conn c).didLocalClose = false
  accept : ∀ {c}, s.lock.frame = .accept c → (s.conn c).started = false

theorem half_init : Half {} where
  book _ := by constructor <;> simp
  unstarted _ := ⟨rfl, rfl⟩
  accept h := by simp [Lock.frame] at h

section
variable {s s' : Sys} {a : Act} {M : Lwip}

theorem Base.callback_started (h : Base s) {p c : Nat} (hf : s.lock.frame = .callback p c) :
    (s.conn c).started = true := by
  rw [← Bool.not_eq_false]
  intro hst
  exact absurd (hf.symm.trans (h.accepting (h.callback hf).1 hst)) (by simp)

theorem Base.closeWrite_started (h : Base s) {g : Gid} {c : Nat} {ic : Bool}
    (hg : s.gos g = ⟨c, .closeWrite ic⟩) : (s.conn c).started = true := by
  have := h.go_started (g := g) (by rw [hg]; rfl)
  rwa [hg] at this

theorem Half.book_step (h : Half s) (hs : step M s a = some s') {c : Nat}
    (hlive : (s'.conn c).state.live) :
    Book (s'.conn c).state (s'.conn c).didCloseWrite (s'.conn c).didLocalClose := by
  have of_is : ∀ {st started w r}, (s'.registry.life c).Is st started w r →
      (st.live → Book st w r) →
      Book (s'.conn c).state (s'.conn c).didCloseWrite (s'.conn c).didLocalClose := by
    rintro _ _ _ _ ⟨rfl, -, rfl, rfl⟩ hbook
    exact hbook hlive
  cases (step_effect hs).conn c with
  | same hl => exact of_is hl fun hl => h.book hl
  | accept _ _ _ hl => exact of_is hl fun _ => by constructor <;> simp
  | start g _ hlock hl =>
    obtain ⟨hw, hr⟩ := h.unstarted (h.accept (c := c) (by rw [hlock]; rfl))
    rw [hw, hr] at hl
    exact of_is hl fun _ => by constructor <;> simp
  | connected g _ hst hl =>
    have hbook := h.book (c := c) (by rw [hst]; decide)
    rw [hst] at hbook
    obtain ⟨hw, hr⟩ := hbook.neither_of (by simp)
    rw [hw, hr] at hl
    exact of_is hl fun _ => by constructor <;> simp
  | closeWrite g ic st _ hst hl =>
    have hold : (s.conn c).state.live :=
      TcpConnState.live_of_closeWrite (by rw [hst]; simp)
    exact of_is hl fun _ => ((h.book hold).closeWrite hst).2
  | localClosed hd p st _ hst hl =>
    have hold : (s.conn c).state.live :=
      TcpConnState.live_of_setLocalClosed (by rw [hst]; simp)
    exact of_is hl fun _ => ((h.book hold).setLocalClosed hst).2
  | abort _ _ _ hl =>
    refine of_is hl fun hlv => ?_
    cases hst : (s.conn c).state <;>
      simp [hst, TcpConnState.abort, TcpConnState.num, TcpConnState.live] at hlv
  | close _ _ hl => exact of_is hl fun hlv => absurd rfl hlv.2.1
  | erroredFree _ _ _ _ _ hl => exact of_is hl fun hlv => absurd rfl hlv.2.1
  | err _ _ _ _ _ hl => exact of_is hl fun hlv => absurd rfl hlv.2.2

theorem Half.unstarted_step (h : Half s) (hb : Base s) (hs : step M s a = some s') {c : Nat}
    (hst : (s'.conn c).started = false) :
    (s'.conn c).didCloseWrite = false ∧ (s'.conn c).didLocalClose = false := by
  have of_is : ∀ {st started}, (s'.registry.life c).Is st started (s.conn c).didCloseWrite
      (s.conn c).didLocalClose → started = (s.conn c).started →
      (s'.conn c).didCloseWrite = false ∧ (s'.conn c).didLocalClose = false := by
    rintro _ _ ⟨-, hs1, hw, hr⟩ rfl
    have hw' : (s'.conn c).didCloseWrite = (s.conn c).didCloseWrite := hw
    have hr' : (s'.conn c).didLocalClose = (s.conn c).didLocalClose := hr
    rw [hw', hr']
    exact h.unstarted (hs1.symm.trans hst)
  cases (step_effect hs).conn c with
  | same hl => exact of_is hl rfl
  | accept _ _ _ hl => exact ⟨hl.2.2.1, hl.2.2.2⟩
  | start _ _ _ hl => exact absurd (hl.2.1.symm.trans hst) (by simp)
  | connected _ _ _ hl => exact of_is hl rfl
  | closeWrite g ic st hg _ hl =>
    exact absurd ((hl.2.1.symm.trans hst).symm.trans (hb.closeWrite_started hg)) (by simp)
  | localClosed hd p st hlock _ hl =>
    have hcb := hb.callback_started (p := p) (c := c) (by rw [hlock]; rfl)
    exact absurd ((hl.2.1.symm.trans hst).symm.trans hcb) (by simp)
  | abort _ _ _ hl => exact of_is hl rfl
  | close _ _ hl => exact of_is hl rfl
  | erroredFree _ _ _ _ _ hl => exact of_is hl rfl
  | err _ _ _ _ _ hl => exact of_is hl rfl

/-- Only the end of its accept starts a connection. -/
theorem started_of_step (hs : step M s a = some s') {c : Nat} (hst : (s'.conn c).started = true)
    (ha : ∀ g, a ≠ .held (.spawn g)) : (s.conn c).started = true := by
  cases (step_effect hs).conn c with
  | accept _ _ _ hl => exact absurd (hl.2.1.symm.trans hst) (by simp)
  | start g ha' => exact absurd ha' (ha g)
  | same hl => exact hl.2.1.symm.trans hst
  | connected _ _ _ hl => exact hl.2.1.symm.trans hst
  | closeWrite _ _ _ _ _ hl => exact hl.2.1.symm.trans hst
  | localClosed _ _ _ _ _ hl => exact hl.2.1.symm.trans hst
  | abort _ _ _ hl => exact hl.2.1.symm.trans hst
  | close _ _ hl => exact hl.2.1.symm.trans hst
  | erroredFree _ _ _ _ _ hl => exact hl.2.1.symm.trans hst
  | err _ _ _ _ _ hl => exact hl.2.1.symm.trans hst

theorem Half.accept_step (h : Half s) (hs : step M s a = some s') {c : Nat}
    (hf : s'.lock.frame = .accept c) : (s'.conn c).started = false := by
  cases step_lock hs with
  | none hn => rw [hn] at hf; cases hf
  | accept key hn _ hreg =>
    rw [hn] at hf
    cases hf
    have : (s'.registry.life s.n).started = false := by rw [hreg]; simp [Registry.accept]
    exact this
  | found p c hn => rw [hn] at hf; cases hf
  | abort g c hn => rw [hn] at hf; cases hf
  | kept hn _ ha =>
    rw [← Bool.not_eq_true]
    intro hst
    exact absurd ((started_of_step hs hst ha).symm.trans (h.accept (hn.symm.trans hf))) (by simp)

theorem half_run {tr : List (Sys × Act)} (hr : Run (step M) {} tr s) : Half s := by
  induction hr with
  | nil => exact half_init
  | snoc hr hs ih =>
    exact ⟨ih.book_step hs, ih.unstarted_step (base_run hr) hs, ih.accept_step hs⟩

/-! ## `tcp_shutdown` -/

/-- What was closed stays closed. -/
theorem closed_halves_step (hs : step M s a = some s') {c : Nat} (hc : c < s.n) :
    ((s.conn c).didCloseWrite = true → (s'.conn c).didCloseWrite = true) ∧
      ((s.conn c).didLocalClose = true → (s'.conn c).didLocalClose = true) := by
  have of_is : ∀ {st started w r}, (s'.registry.life c).Is st started w r →
      ((s.conn c).didCloseWrite = true → w = true) → ((s.conn c).didLocalClose = true → r = true) →
      ((s.conn c).didCloseWrite = true → (s'.conn c).didCloseWrite = true) ∧
        ((s.conn c).didLocalClose = true → (s'.conn c).didLocalClose = true) := by
    rintro _ _ _ _ ⟨-, -, rfl, rfl⟩ hw hr
    exact ⟨hw, hr⟩
  cases (step_effect hs).conn c with
  | accept _ _ hn _ => exact absurd hn (Nat.ne_of_lt hc)
  | same hl => exact of_is hl id id
  | start _ _ _ hl => exact of_is hl id id
  | connected _ _ _ hl => exact of_is hl id id
  | closeWrite _ _ _ _ _ hl => exact of_is hl (fun _ => rfl) id
  | localClosed _ _ _ _ _ hl => exact of_is hl id fun _ => rfl
  | abort _ _ _ hl => exact of_is hl id id
  | close _ _ hl => exact of_is hl id id
  | erroredFree _ _ _ _ _ hl => exact of_is hl id id
  | err _ _ _ _ _ hl => exact of_is hl id id

/-- `tcp_shutdown(pcb, 0, 1)` of connection `c`. -/
def Ev.isShutdown (c : Nat) : Ev → Bool
  | .pcb p .shutdownTx _ => p == c
  | _ => false

/-- How often `tcp_shutdown(pcb, 0, 1)` was issued for connection `c`. -/
def Sys.shutdowns (s : Sys) (c : Nat) : Nat := s.log.countP (Ev.isShutdown c)

/-- `CloseWrite` of connection `c` is at its `tcp_shutdown`. -/
def Sys.AtShutdown (s : Sys) (g : Gid) (c : Nat) : Prop := ∃ ic, s.gos g = ⟨c, .shutdown ic⟩

structure Shut (s : Sys) : Prop where
  pending : ∀ {g c}, s.AtShutdown g c → (s.conn c).didCloseWrite = true ∧ s.shutdowns c = 0
  unique : ∀ {g g' c}, s.AtShutdown g c → s.AtShutdown g' c → g = g'
  issued : ∀ {c}, 0 < s.shutdowns c → c < s.n ∧ (s.conn c).didCloseWrite = true
  once : ∀ c, s.shutdowns c ≤ 1

/-- The section of `CloseWrite` under `lwipMutex`. -/
theorem goStep_shutdown {g : Gid} {x : Env} {c : Nat} {ic : Bool} (hg : s.gos g = ⟨c, .shutdown ic⟩)
    (h : s.goStep g x = some s') :
    s'.log = s.log ++ [.pcb c .shutdownTx (s.pcb c).freed] ∧ (s'.gos g).pc = .idle ∧
      ∀ g', g' ≠ g → s'.gos g' = s.gos g' := by
  simp only [Sys.goStep, hg] at h
  cases x <;> simp only [reduceCtorEq] at h
  split at h <;> cases h
  refine ⟨by simp, ?_, fun g' hg' => ?_⟩
  · cases ic <;> simp [Sys.leaveClose]
  · cases ic <;> simp [Sys.leaveClose, Sys.goto_gos_ne _ _ hg']

/-- The section of `CloseWrite` under the connection's mutex. -/
theorem goStep_closeWrite {g : Gid} {x : Env} {c : Nat} {ic : Bool}
    (hg : s.gos g = ⟨c, .closeWrite ic⟩) (hst : (s.conn c).state.closeWrite ≠ none)
    (h : s.goStep g x = some s') : (s'.conn c).didCloseWrite = true := by
  simp only [Sys.goStep, hg] at h
  cases x <;> simp only [reduceCtorEq] at h
  split at h <;> cases h
  · rename_i hn
    exact absurd hn hst
  · simp [Sys.goto, Sys.setConn]

theorem Pc.eq_of_next_shutdown {pc : Pc} {ic : Bool} (h : pc.next (.shutdown ic) = true) :
    pc = .closeWrite ic := by
  cases pc <;> simp_all [Pc.next]

/-- A goroutine that comes to its `tcp_shutdown` is the first to do so. -/
theorem step_atShutdown (hb : Base s) (hh : Half s) (hs : step M s a = some s') {g : Gid} {c : Nat}
    (hg : s'.AtShutdown g c) :
    s.AtShutdown g c ∨ ((∃ x, a = .go g x) ∧ c < s.n ∧ (s.conn c).didCloseWrite = false ∧
      (s'.conn c).didCloseWrite = true) := by
  obtain ⟨ic, hg⟩ := hg
  have hgo := step_go hs g
  rw [hg] at hgo
  generalize hx : (⟨c, .shutdown ic⟩ : Go) = x at hgo
  cases hgo with
  | same => exact .inl ⟨ic, hx.symm⟩
  | woken => cases hx
  | call c op => cases op <;> cases hx
  | spawn => cases hx
  | aborted => cases hx
  | own x pc ha hn hst =>
    subst ha
    cases hx
    have hpc := Pc.eq_of_next_shutdown hn
    have hst := hst ic rfl
    have hlt := hb.go_lt (g := g) (by rw [hpc]; simp)
    obtain ⟨st, hcw⟩ := Option.ne_none_iff_exists'.1 hst
    refine .inr ⟨⟨x, rfl⟩, hlt, ?_, ?_⟩
    · exact ((hh.book (TcpConnState.live_of_closeWrite hst)).closeWrite hcw).1
    · exact goStep_closeWrite (by rw [← hpc]) hst (goStep_of_step hs)

/-- Only the section of `CloseWrite` under `lwipMutex` issues a `tcp_shutdown`. -/
theorem step_shutdowns (hb : Base s) (hs : step M s a = some s')
    (ha : ∀ g x ic, a = .go g x → (s.gos g).pc ≠ .shutdown ic) (c : Nat) :
    s'.shutdowns c = s.shutdowns c := by
  obtain ⟨es, hes, hlog⟩ := step_log hs
  have hno : ∀ e ∈ es, Ev.isShutdown c e = false := by
    intro e he
    cases hlog e he with
    | key => rfl
    | abortKey => rfl
    | go g x op hgo hu =>
      cases op with
      | shutdownTx =>
        cases hpc : (s.gos g).pc <;> simp [hpc, Pc.uses] at hu
        exact absurd hpc (ha g x _ hgo)
      | _ => rfl
    | recv _ _ _ _ _ _ hop => rcases hop with rfl | rfl <;> rfl
    | close _ _ _ _ hop => rcases hop with rfl | rfl <;> rfl
    | closeInternal => rfl
    | abort => rfl
    | errored _ _ _ _ _ hl hst => exact absurd hst (hb.not_errored hl)
    | drop => rfl
  have hz : es.countP (Ev.isShutdown c) = 0 := List.countP_eq_zero.2 (by simpa using hno)
  rw [Sys.shutdowns, hes, List.countP_append, hz]
  rfl

theorem Shut.step (h : Shut s) (hb : Base s) (hh : Half s) (hs : Core.step M s a = some s') :
    Shut s' := by
  have hle := step_n_le hs
  have lt : ∀ {g c}, s.AtShutdown g c → c < s.n := by
    rintro g c ⟨ic, hg⟩
    have := hb.go_lt (g := g) (by rw [hg]; simp)
    rwa [hg] at this
  by_cases hsh : ∃ g x c ic, a = .go g x ∧ s.gos g = ⟨c, .shutdown ic⟩
  · obtain ⟨g, x, c, ic, rfl, hg⟩ := hsh
    obtain ⟨hlog, hpc, hgos⟩ := goStep_shutdown hg (goStep_of_step hs)
    have hat : s.AtShutdown g c := ⟨ic, hg⟩
    have hself : s'.shutdowns c = 1 := by
      have h0 := (h.pending hat).2
      simp only [Sys.shutdowns] at h0 ⊢
      rw [hlog, List.countP_append, h0]
      simp [Ev.isShutdown]
    have hne : ∀ d, d ≠ c → s'.shutdowns d = s.shutdowns d := by
      intro d hd
      simp only [Sys.shutdowns, hlog, List.countP_append]
      simp [Ev.isShutdown, hd.symm]
    have old : ∀ {g' d}, s'.AtShutdown g' d → s.AtShutdown g' d ∧ d ≠ c := by
      rintro g' d ⟨ic', hg'⟩
      have hgg : g' ≠ g := by
        rintro rfl
        rw [hg'] at hpc
        cases hpc
      have hat' : s.AtShutdown g' d := ⟨ic', (hgos g' hgg) ▸ hg'⟩
      refine ⟨hat', ?_⟩
      rintro rfl
      exact hgg (h.unique hat' hat)
    refine ⟨fun {g' d} hat' => ?_, fun h1 h2 => h.unique (old h1).1 (old h2).1, fun {d} hd => ?_,
      fun d => ?_⟩
    · obtain ⟨ho, hd⟩ := old hat'
      rw [hne d hd]
      exact ⟨(closed_halves_step hs (lt ho)).1 (h.pending ho).1, (h.pending ho).2⟩
    · by_cases hdc : d = c
      · subst hdc
        exact ⟨Nat.lt_of_lt_of_le (lt hat) hle,
          (closed_halves_step hs (lt hat)).1 (h.pending hat).1⟩
      · rw [hne d hdc] at hd
        obtain ⟨hlt, hw⟩ := h.issued hd
        exact ⟨Nat.lt_of_lt_of_le hlt hle, (closed_halves_step hs hlt).1 hw⟩
    · by_cases hdc : d = c
      · subst hdc; exact Nat.le_of_eq hself
      · rw [hne d hdc]; exact h.once d
  · have hcount := step_shutdowns hb hs fun g x ic ha hpc =>
      hsh ⟨g, x, (s.gos g).conn, ic, ha, by rw [← hpc]⟩
    refine ⟨fun {g c} hat => ?_, fun {g g' c} h1 h2 => ?_, fun {c} hd => ?_, fun c => ?_⟩
    · rw [hcount]
      rcases step_atShutdown hb hh hs hat with ho | ⟨-, hlt, hw, hw'⟩
      · exact ⟨(closed_halves_step hs (lt ho)).1 (h.pending ho).1, (h.pending ho).2⟩
      · refine ⟨hw', Nat.eq_zero_of_not_pos fun hpos => ?_⟩
        exact absurd ((h.issued hpos).2.symm.trans hw) (by simp)
    · rcases step_atShutdown hb hh hs h1 with o1 | ⟨⟨x, rfl⟩, -, hw, -⟩ <;>
        rcases step_atShutdown hb hh hs h2 with o2 | ⟨⟨x', hx'⟩, -, hw', -⟩
      · exact h.unique o1 o2
      · exact absurd ((h.pending o1).1.symm.trans hw') (by simp)
      · exact absurd ((h.pending o2).1.symm.trans hw) (by simp)
      · cases hx'; rfl
    · rw [hcount] at hd
      obtain ⟨hlt, hw⟩ := h.issued hd
      exact ⟨Nat.lt_of_lt_of_le hlt hle, (closed_halves_step hs hlt).1 hw⟩
    · rw [hcount]; exact h.once c

theorem shut_init : Shut {} where
  pending := by rintro g c ⟨ic, h⟩; cases h
  unique := by rintro g g' c ⟨ic, h⟩; cases h
  issued h := absurd h (by simp [Sys.shutdowns])
  once c := by simp [Sys.shutdowns]

theorem shut_run {tr : List (Sys × Act)} (hr : Run (Core.step M) {} tr s) : Shut s := by
  induction hr with
  | nil => exact shut_init
  | snoc hr hs ih => exact ih.step (base_run hr) (half_run hr) hs

/-! ## The order of the states -/

/-- The place of a state in the life of a connection. -/
def TcpConnState.rank : TcpConnState → Nat
  | newConn => 0
  | connecting => 1
  | connected => 2
  | writeClosed | receiveClosed => 3
  | closing => 4
  | aborting => 5
  | closed | errored => 6

/-- A connection stays in its state or moves on; only a closing or aborting one is closed. -/
def Forward (st st' : TcpConnState) : Prop :=
  st' = st ∨ (st.rank < st'.rank ∧ (st' = .closed → st = .closing ∨ st = .aborting))

instance (st st' : TcpConnState) : Decidable (Forward st st') := inferInstanceAs (Decidable (_ ∨ _))

/-- No `Abort` sets `tcpAborting` before `newTCPConn` sets `tcpConnecting`. -/
def NoEarlyAbort (s : Sys) : Act → Prop
  | .go g _ => (s.gos g).pc = .abort → (s.conn (s.gos g).conn).state ≠ .newConn
  | _ => True

instance (s : Sys) : (a : Act) → Decidable (NoEarlyAbort s a)
  | .go g _ => inferInstanceAs (Decidable ((s.gos g).pc = .abort → _ ≠ _))
  | .lock | .unlock | .accept _ | .lwip _ _ _ | .held _ | .call _ _ _ => .isTrue trivial

/-- A connection that is being accepted is new. -/
theorem accept_newConn_step (hb : Base s) (hs : step M s a = some s') (ha : NoEarlyAbort s a)
    (h : ∀ {c}, s.lock.frame = .accept c → (s.conn c).state = .newConn) {c : Nat}
    (hf : s'.lock.frame = .accept c) : (s'.conn c).state = .newConn := by
  cases step_lock hs with
  | none hn => rw [hn] at hf; cases hf
  | accept key hn _ hreg =>
    rw [hn] at hf
    cases hf
    have : (s'.registry.life s.n).state = .newConn := by rw [hreg]; simp [Registry.accept]
    exact this
  | found p c hn => rw [hn] at hf; cases hf
  | abort g c hn => rw [hn] at hf; cases hf
  | kept hn he hsp =>
    have hold := h (hn.symm.trans hf)
    have no : ∀ {P : Prop} {st : TcpConnState}, (s.conn c).state = st → st ≠ .newConn → P :=
      fun h1 h2 => absurd (h1.symm.trans hold) h2
    have hlive : (s'.conn c).state.terminal = false := (he c).trans (hb.accept (hn.symm.trans hf)).2
    have ended : ∀ {P : Prop} {st : TcpConnState}, (s'.conn c).state = st → st.terminal = true → P :=
      fun h1 h2 => by rw [h1, h2] at hlive; cases hlive
    cases (step_effect hs).conn c with
    | same hl => exact hl.1.trans hold
    | accept _ _ _ hl => exact hl.1
    | start g ha' => exact absurd ha' (hsp g)
    | connected _ _ hst _ => exact no hst (by simp)
    | closeWrite g ic st hg _ _ => exact absurd hold (hb.started (hb.closeWrite_started hg))
    | localClosed hd p st hl _ _ =>
      exact absurd ((hn.symm.trans hf).symm.trans (by rw [hl]; rfl : s.lock.frame = .callback p c))
        (by simp)
    | abort g ha' hg _ =>
      subst ha'
      have := ha (by rw [hg])
      rw [hg] at this
      exact absurd hold this
    | close _ _ hl => exact ended hl.1 rfl
    | erroredFree _ _ _ _ hst _ => exact no hst (by simp)
    | err _ _ _ _ _ hl => exact ended hl.1 rfl

theorem accept_newConn_run {tr : List (Sys × Act)} (hr : Run (Core.step M) {} tr s)
    (hc : Meets NoEarlyAbort tr) {c : Nat} (hf : s.lock.frame = .accept c) :
    (s.conn c).state = .newConn := by
  induction hr generalizing c with
  | nil => cases hf
  | snoc hr hs ih =>
    rw [meets_snoc] at hc
    exact accept_newConn_step (base_run hr) hs hc.2 (ih hc.1) hf

theorem forward_step (hb : Base s) (hn : ∀ {c}, s.lock.frame = .accept c →
    (s.conn c).state = .newConn) (hs : Core.step M s a = some s') {c : Nat} (hc : c < s.n) :
    Forward (s.conn c).state (s'.conn c).state := by
  have of_is : ∀ {st started w r}, (s'.registry.life c).Is st started w r →
      Forward (s.conn c).state st → Forward (s.conn c).state (s'.conn c).state := by
    rintro _ _ _ _ ⟨rfl, -⟩ hf
    exact hf
  cases (step_effect hs).conn c with
  | same hl => exact of_is hl (.inl rfl)
  | accept _ _ hn' _ => exact absurd hn' (Nat.ne_of_lt hc)
  | start g _ hl h =>
    refine of_is h ?_
    rw [hn (c := c) (by rw [hl]; rfl)]
    decide
  | connected _ _ hst hl => refine of_is hl ?_; rw [hst]; decide
  | closeWrite _ _ st _ hst hl =>
    refine of_is hl ?_
    rcases TcpConnState.closeWrite_eq_some hst with ⟨h, rfl⟩ | ⟨h | h | h, rfl⟩ <;> rw [h] <;>
      decide
  | localClosed _ _ st _ hst hl =>
    refine of_is hl ?_
    rcases TcpConnState.setLocalClosed_eq_some hst with ⟨h, rfl⟩ | ⟨h | h | h, rfl⟩ <;> rw [h] <;>
      decide
  | abort _ _ _ hl => refine of_is hl ?_; cases (s.conn c).state <;> decide
  | close _ hend hl =>
    refine of_is hl ?_
    rcases (Sys.ending_eq_some hend).2 with h | h <;> rw [h] <;> decide
  | erroredFree _ _ _ hl hst _ => exact absurd hst (hb.not_errored hl)
  | err _ _ _ _ hk hl =>
    refine of_is hl ?_
    have hlive : (s.conn c).state.terminal = false := hb.reg.live hk
    cases hst : (s.conn c).state <;> simp [hst, TcpConnState.terminal] at hlive <;> decide

/-- `closeInternal` runs on a connection both of whose halves are closed. -/
theorem closeInternal_step (hb : Base s) (hh : Half s) (hs : Core.step M s a = some s') {c : Nat}
    (hm : Ev.closeInternal c ∈ s'.log) : Ev.closeInternal c ∈ s.log ∨
      ((s.conn c).didCloseWrite = true ∧ (s.conn c).didLocalClose = true) := by
  obtain ⟨es, hes, hlog⟩ := step_log hs
  rw [hes] at hm
  rcases List.mem_append.1 hm with hm | hm
  · exact .inl hm
  · cases hlog _ hm with
    | closeInternal _ _ hst =>
      have hbook := hh.book (c := c) (by rw [hst]; decide)
      exact .inr (hbook.closing.1 hst)
    | errored _ _ _ _ _ hl hst => exact absurd hst (hb.not_errored hl)

/-- The half-closes of every run in which no connection is aborted while it is accepted: the state
records them, what was closed stays closed and the states move forward with every next step,
`tcp_shutdown(pcb, 0, 1)` is issued at most once and `closeInternal` runs with both
halves closed. -/
theorem half_close_forward {tr : List (Sys × Act)} (hr : Run (Core.step M) {} tr s)
    (hc : Meets NoEarlyAbort tr) :
    (∀ c, (s.conn c).state.live →
      Book (s.conn c).state (s.conn c).didCloseWrite (s.conn c).didLocalClose) ∧
    (∀ a s', Core.step M s a = some s' → ∀ c < s.n,
      Forward (s.conn c).state (s'.conn c).state ∧
      ((s.conn c).didCloseWrite = true → (s'.conn c).didCloseWrite = true) ∧
      ((s.conn c).didLocalClose = true → (s'.conn c).didLocalClose = true) ∧
      (Ev.closeInternal c ∈ s'.log → Ev.closeInternal c ∈ s.log ∨
        ((s.conn c).didCloseWrite = true ∧ (s.conn c).didLocalClose = true))) ∧
    ∀ c, s.shutdowns c ≤ 1 := by
  have hb := base_run hr
  have hh := half_run hr
  refine ⟨fun c hl => hh.book hl, fun a s' hs c hlt => ?_, (shut_run hr).once⟩
  exact ⟨forward_step hb (accept_newConn_run hr hc) hs hlt, (closed_halves_step hs hlt).1,
    (closed_halves_step hs hlt).2, closeInternal_step hb hh hs⟩

end

/-- The app closes its half, then the handler the other. -/
theorem half_close_forward_closing :
    ∃ tr s, Run (step anyLwip) {} tr s ∧ Meets NoEarlyAbort tr ∧ (s.conn 0).state = .closing ∧
      (s.conn 0).didCloseWrite = true ∧ (s.conn 0).didLocalClose = true ∧ s.shutdowns 0 ≤ 1 := by
  let acts : List Act :=
    [.lock, .accept 7, .held (.spawn 0), .lwip 0 .fin {}, .held .none, .held .none, .held .none,
      .held .none, .held .none, .unlock, .call 1 0 .closeWrite, .go 1 .none, .go 1 (.sendFin false)]
  obtain ⟨s, hr, hs⟩ := exists_run (step anyLwip) {} acts
    (fun s => decide ((s.conn 0).state = .closing)) (by decide)
  have hst := of_decide_eq_true hs
  have hc : Meets NoEarlyAbort (execTrace (step anyLwip) {} acts) := by decide
  have key := half_close_forward hr hc
  have hbook := key.1 0 (by rw [hst]; decide)
  exact ⟨_, s, hr, hc, hst, (hbook.closing.1 hst).1, (hbook.closing.1 hst).2, key.2.2 0⟩

/-- `lwipStack.Close` aborts a connection between `tcpConns.Store` and `tcpConnecting`. -/
theorem abort_undone :
    ¬ ∀ tr s, Run (step anyLwip) {} tr s → ∀ a s', step anyLwip s a = some s' → ∀ c < s.n,
      Forward (s.conn c).state (s'.conn c).state := by
  intro h
  obtain ⟨s, hr, hs⟩ := exists_run (step anyLwip) {}
    [.lock, .accept 7, .call 1 0 .abort, .go 1 .none]
    (fun s => decide (0 < s.n ∧ (s.conn 0).state = .aborting) &&
      (step anyLwip s (.held (.spawn 0))).any fun s' : Sys => decide ((s'.conn 0).state = .connecting))
    (by decide)
  simp only [Bool.and_eq_true, decide_eq_true_eq] at hs
  obtain ⟨⟨hn, hst⟩, hnext⟩ := hs
  cases hs' : step anyLwip s (.held (.spawn 0)) with
  | none => rw [hs'] at hnext; cases hnext
  | some s' =>
    rw [hs'] at hnext
    have hst' : (s'.conn 0).state = .connecting := by simpa using hnext
    have := h _ s hr _ s' hs' 0 hn
    rw [hst, hst'] at this
    exact absurd this (by decide)

end Core
