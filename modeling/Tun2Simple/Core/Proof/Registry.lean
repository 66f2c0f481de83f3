import Tun2Simple.Core.Control
import Tun2Simple.Lib.Run

/-!
# The registry of connections

`Registry.Sound`: what is in `tcpConns` is a connection under its own key that has not ended. `Base`
adds what the sections between two locks rely on: the connection of a callback, of an accept or of a
goroutine exists, the one of a callback has not ended, and the handler sees a connection only after
its accept. Both hold in every state of every run, for any behaviour of lwIP (`base_run`).

`Registry.Ok` and `Inv` are for the runs in which `rand.Uint32` returns no key in use (`FreshKey`):
there every connection that has not ended is in `tcpConns`, the key cell is freed once it has, and
a callback's connection is the one of its pcb. `registered_iff_not_ended` is the main theorem.
-/

namespace Core

open Trans

/-! ## The invariants of the registry -/

structure Registry.Sound (R : Registry) : Prop where
  lt : ∀ {k c}, R.reg k = some c → c < R.n
  key : ∀ {k c}, R.reg k = some c → (R.life c).key = k
  live : ∀ {k c}, R.reg k = some c → (R.life c).ended = false

structure Registry.Ok (R : Registry) : Prop extends R.Sound where
  reg : ∀ {c}, c < R.n → (R.life c).ended = false → R.reg (R.life c).key = some c
  frees : ∀ {c}, c < R.n → (R.life c).frees = if (R.life c).ended then 1 else 0
  unhooked : ∀ {c}, c < R.n → (R.life c).ended = true → (R.life c).hooked = false

namespace Registry

variable {R : Registry}

theorem set_key {c : Nat} {l : Life} (hk : l.key = (R.life c).key) (d : Nat) :
    ((R.set c l).life d).key = (R.life d).key := by
  by_cases hd : d = c
  · subst hd; simpa using hk
  · rw [R.set_life_ne l hd]

/-- A change of a connection that neither ends nor revives it. -/
theorem Sound.set (h : R.Sound) {c : Nat} {l : Life} (hk : l.key = (R.life c).key)
    (he : l.ended = (R.life c).ended) : (R.set c l).Sound where
  lt := h.lt
  key hr := by rw [set_key hk]; exact h.key hr
  live hr := by rw [set_ended he]; exact h.live hr

theorem Ok.set (h : R.Ok) {c : Nat} {l : Life} (hk : l.key = (R.life c).key)
    (he : l.ended = (R.life c).ended) (hf : l.frees = (R.life c).frees)
    (hh : l.hooked = true → (R.life c).hooked = true) : (R.set c l).Ok := by
  have hend := set_ended he
  refine ⟨h.toSound.set hk he, fun hc hl => ?_, fun {d} hd => ?_, fun {d} hd hl => ?_⟩
  · rw [set_key hk]; rw [hend] at hl; exact h.reg hc hl
  · rw [hend]
    by_cases hdc : d = c
    · subst hdc; simp only [set_life_self, hf]; exact h.frees hd
    · rw [R.set_life_ne l hdc]; exact h.frees hd
  · rw [hend] at hl
    by_cases hdc : d = c
    · subst hdc
      rw [set_life_self, ← Bool.not_eq_true]
      exact fun hl' => by simpa [h.unhooked hd hl] using hh hl'
    · rw [R.set_life_ne l hdc]; exact h.unhooked hd hl

theorem finish_life {c d : Nat} {l : Life} (hd : d ≠ c) :
    ((R.release c).set c l).life d = R.life d := by
  rw [set_life_ne _ l hd, release_life_ne hd]

/-- What is in the map after `release` was in it before, and is not the released connection. -/
theorem Sound.finish_reg (h : R.Sound) {c : Nat} {l : Life} {k : UInt32} {d : Nat}
    (hr : ((R.release c).set c l).reg k = some d) : R.reg k = some d ∧ d ≠ c := by
  have hk : k ≠ (R.life c).key := by
    rintro rfl
    simp only [set_reg, release] at hr
    split at hr
    · simp at hr
    · rename_i hn
      rw [hr] at hn
      exact hn rfl
  have hr' : R.reg k = some d := by
    simp only [set_reg, release] at hr
    split at hr
    · rwa [Function.update_of_ne hk] at hr
    · exact hr
  refine ⟨hr', ?_⟩
  rintro rfl
  exact hk (h.key hr').symm

/-- A connection ends and leaves the map. -/
theorem Sound.finish (h : R.Sound) {c : Nat} {l : Life} : ((R.release c).set c l).Sound where
  lt hr := h.lt (h.finish_reg hr).1
  key hr := by rw [finish_life (h.finish_reg hr).2]; exact h.key (h.finish_reg hr).1
  live hr := by rw [finish_life (h.finish_reg hr).2]; exact h.live (h.finish_reg hr).1

/-- It takes its key cell and its pcb's callbacks with it. -/
theorem Ok.finish (h : R.Ok) {c : Nat} {l : Life} (hc : c < R.n) (hl : (R.life c).ended = false)
    (he : l.ended = true) (hf : l.frees = (R.life c).frees + 1) (hh : l.hooked = false) :
    ((R.release c).set c l).Ok := by
  refine ⟨h.toSound.finish, fun {d} hd hld => ?_, fun {d} hd => ?_, fun {d} hd hld => ?_⟩
  · by_cases hdc : d = c
    · subst hdc; simp [he] at hld
    · rw [finish_life hdc] at hld ⊢
      have hrd := h.reg hd hld
      have hreg : (R.release c).reg = Function.update R.reg (R.life c).key none := by
        simp [release, h.reg hc hl]
      rw [set_reg, hreg, Function.update_of_ne, hrd]
      intro hkk
      rw [hkk, h.reg hc hl] at hrd
      exact hdc (Option.some.inj hrd).symm
  · by_cases hdc : d = c
    · subst hdc; simp [he, hf, h.frees hc, hl]
    · rw [finish_life hdc]; exact h.frees hd
  · by_cases hdc : d = c
    · subst hdc; simpa using hh
    · rw [finish_life hdc] at hld ⊢; exact h.unhooked hd hld

theorem accept_life_new (key : UInt32) : (R.accept key).life R.n =
    ⟨.newConn, key, false, false, false, 0, true, false, false⟩ := by
  simp [Registry.accept]

theorem accept_life_old (key : UInt32) {d : Nat} (hd : d < R.n) :
    (R.accept key).life d = R.life d := by
  simp [Registry.accept, Nat.ne_of_lt hd]

theorem Sound.accept (h : R.Sound) (key : UInt32) : (R.accept key).Sound := by
  have hsome : ∀ {k d}, (R.accept key).reg k = some d → (k = key ∧ d = R.n) ∨ R.reg k = some d := by
    intro k d hr
    by_cases hkk : k = key
    · subst hkk
      simp only [Registry.accept, Function.update_self, Option.some.injEq] at hr
      exact .inl ⟨rfl, hr.symm⟩
    · simp only [Registry.accept, Function.update_of_ne hkk] at hr
      exact .inr hr
  refine ⟨fun hr => ?_, fun hr => ?_, fun hr => ?_⟩
  · rcases hsome hr with ⟨-, rfl⟩ | hr
    · exact Nat.lt_succ_self _
    · exact Nat.lt_succ_of_lt (h.lt hr)
  · rcases hsome hr with ⟨rfl, rfl⟩ | hr
    · rw [accept_life_new]
    · rw [accept_life_old _ (h.lt hr)]; exact h.key hr
  · rcases hsome hr with ⟨rfl, rfl⟩ | hr
    · rw [accept_life_new]; rfl
    · rw [accept_life_old _ (h.lt hr)]; exact h.live hr

theorem lt_accept {key : UInt32} {d : Nat} (hd : d < (R.accept key).n) : d = R.n ∨ d < R.n := by
  have : d < R.n + 1 := hd
  omega

theorem Ok.accept (h : R.Ok) {key : UInt32} (hk : R.reg key = none) : (R.accept key).Ok := by
  refine ⟨h.toSound.accept key, fun hd hl => ?_, fun hd => ?_, fun hd hl => ?_⟩
  · rcases lt_accept hd with rfl | hd
    · rw [accept_life_new]; simp [Registry.accept]
    · rw [accept_life_old _ hd] at hl ⊢
      have hr := h.reg hd hl
      have : (R.life _).key ≠ key := fun hkk => by rw [hkk, hk] at hr; cases hr
      simp only [Registry.accept, Function.update_of_ne this]
      exact hr
  · rcases lt_accept hd with rfl | hd
    · rw [accept_life_new]; rfl
    · rw [accept_life_old _ hd]; exact h.frees hd
  · rcases lt_accept hd with rfl | hd
    · rw [accept_life_new] at hl; cases hl
    · rw [accept_life_old _ hd] at hl ⊢; exact h.unhooked hd hl

theorem err_free_eq (R : Registry) (c : Nat) :
    (R.err c).free c = (R.release c).set c
      { (R.release c).life c with state := .errored, hooked := false, freed := true } := by
  simp only [err, setState, free, set_set, set_life_self]

theorem Sound.free (h : R.Sound) (p : Nat) : (R.free p).Sound := h.set rfl rfl

theorem Ok.close (h : R.Ok) {c : Nat} (hc : c < R.n) (hl : (R.life c).ended = false) :
    (R.close c).Ok := by
  rw [close_eq]
  refine h.finish hc hl ?_ ?_ rfl <;> simp [release, h.reg hc hl, Life.ended]

theorem Ok.err_free (h : R.Ok) {c : Nat} (hc : c < R.n) (hl : (R.life c).ended = false) :
    ((R.err c).free c).Ok := by
  rw [err_free_eq]
  refine h.finish hc hl ?_ ?_ rfl <;> simp [release, h.reg hc hl, Life.ended]

theorem Ok.release_free (h : R.Ok) {c : Nat} (hc : c < R.n) (hl : (R.life c).ended = false) :
    ((R.release c).free c).Ok := by
  refine h.finish hc hl ?_ ?_ rfl <;> simp [release, h.reg hc hl, Life.ended]

theorem Ok.free (h : R.Ok) (p : Nat) : (R.free p).Ok :=
  h.set rfl rfl rfl (by simp)

end Registry

/-! ## The invariants of the system -/

/-- `rand.Uint32` returns no key of a registered connection. -/
def FreshKey (s : Sys) : Act → Prop
  | .accept key => s.tcpConns key = none
  | _ => True

instance (s : Sys) : (a : Act) → Decidable (FreshKey s a)
  | .accept key => inferInstanceAs (Decidable (s.tcpConns key = none))
  | .lock | .unlock | .lwip _ _ _ | .held _ | .call _ _ _ | .go _ _ => .isTrue trivial

/-- The section belongs to a method that only the handler calls. -/
def Pc.ofHandler : Pc → Bool
  | .idle | .abort | .abortLock | .aborting => false
  | _ => true

structure Base (s : Sys) : Prop where
  reg : s.registry.Sound
  go_lt : ∀ {g}, (s.gos g).pc ≠ .idle → (s.gos g).conn < s.n
  go_started : ∀ {g}, (s.gos g).pc.ofHandler = true → (s.conn (s.gos g).conn).started = true
  started : ∀ {c}, (s.conn c).started = true → (s.conn c).state ≠ .newConn
  /-- A connection that is not started is being accepted. -/
  accepting : ∀ {c}, c < s.n → (s.conn c).started = false → s.lock.frame = .accept c
  accept : ∀ {c}, s.lock.frame = .accept c → c < s.n ∧ (s.registry.life c).ended = false
  callback : ∀ {p c}, s.lock.frame = .callback p c → c < s.n ∧ (s.registry.life c).ended = false
  abort : ∀ {g c}, s.lock.frame = .abort g c → c < s.n

structure Inv (s : Sys) : Prop extends Base s where
  ok : s.registry.Ok
  callback_eq : ∀ {p c}, s.lock.frame = .callback p c → p = c

theorem base_init : Base {} where
  reg := ⟨by simp [Sys.registry], by simp [Sys.registry], by simp [Sys.registry]⟩
  go_lt h := absurd rfl h
  go_started h := by simp [Pc.ofHandler] at h
  started h := by simp at h
  accepting h := by simp at h
  accept h := by simp [Lock.frame] at h
  callback h := by simp [Lock.frame] at h
  abort h := by simp [Lock.frame] at h

theorem inv_init : Inv {} where
  toBase := base_init
  ok := ⟨base_init.reg, by simp [Sys.registry], by simp [Sys.registry], by simp [Sys.registry]⟩
  callback_eq h := by simp [Lock.frame] at h

section
variable {s s' : Sys} {a : Act} {M : Lwip}

theorem Lock.frame_of_conn {l : Lock} {c : Nat} (h : l.conn = some c) :
    l.frame = .accept c ∨ (∃ p, l.frame = .callback p c) ∨ ∃ g, l.frame = .abort g c := by
  cases l <;> simp_all [Lock.conn, Lock.frame]

theorem Base.conn_lt (h : Base s) {c : Nat} (hc : s.lock.conn = some c) : c < s.n := by
  rcases Lock.frame_of_conn hc with hf | ⟨p, hf⟩ | ⟨g, hf⟩
  · exact (h.accept hf).1
  · exact (h.callback hf).1
  · exact h.abort hf

/-- The connection of the `Receive` in progress has not ended. -/
theorem Base.not_errored (h : Base s) {hd : Holder} {p c : Nat} {d : Bytes}
    (hl : s.lock = .receive hd p c d) : (s.conn c).state ≠ .errored := by
  have hlive : (s.conn c).state.terminal = false := (h.callback (p := p) (by rw [hl]; rfl)).2
  intro hst
  rw [hst] at hlive
  cases hlive

/-- The pcb of a callback is the one its connection was made for. -/
theorem Inv.hooked_conn (h : Inv s) {p c : Nat} (hp : p < s.n) (hh : (s.pcb p).hooked = true)
    (hr : s.tcpConns (s.conn p).connKey = some c) : p = c := by
  by_cases hl : (s.registry.life p).ended = false
  · exact Option.some.inj ((h.ok.reg hp hl).symm.trans hr)
  · have := h.ok.unhooked hp (by simpa using hl)
    exact absurd (this.symm.trans hh) (by simp)

/-! ### The registry after a step -/

theorem Base.ended_of_effect (h : Base s) {c : Nat} (hl : s.lock = .accept c) :
    (s.registry.life c).ended = false := (h.accept (by rw [hl]; rfl)).2

theorem Base.sound_of_effect (h : Base s) {R : Registry} (he : Effect s a R) : R.Sound := by
  cases he with
  | quiet => exact h.reg
  | accept key => exact h.reg.accept key
  | start g c _ hl => exact h.reg.set rfl (h.ended_of_effect hl).symm
  | connected g c _ _ hst => exact h.reg.set rfl (by simp [Life.ended, Sys.registry, hst]; rfl)
  | closeWrite g c ic st _ _ hst => exact h.reg.set rfl (TcpConnState.closeWrite_terminal hst)
  | localClosed _ p c st _ _ hst => exact h.reg.set rfl (TcpConnState.setLocalClosed_terminal hst)
  | abort g c => exact h.reg.set rfl (TcpConnState.terminal_abort _)
  | close c => rw [Registry.close_eq]; exact h.reg.finish
  | abortFree c => exact h.reg.finish
  | erroredFree _ p c d _ hl => exact h.reg.finish
  | err p c => exact h.reg.finish.free p
  | drop p => exact h.reg.free p
  | unhooked p => exact h.reg.free p
  | free p => exact h.reg.free p

theorem Inv.ok_of_effect (h : Inv s) (hk : FreshKey s a) {R : Registry} (he : Effect s a R) :
    R.Ok := by
  have ending : ∀ {c}, s.ending = some c → c < s.n ∧ (s.registry.life c).ended = false := by
    intro c hc
    obtain ⟨hl, hst⟩ := Sys.ending_eq_some hc
    refine ⟨h.conn_lt hl, ?_⟩
    show (s.conn c).state.terminal = false
    rcases hst with hst | hst <;> rw [hst] <;> rfl
  cases he with
  | quiet => exact h.ok
  | accept key ha => subst ha; exact h.ok.accept hk
  | start g c _ hl => exact h.ok.set rfl (h.ended_of_effect hl).symm rfl id
  | connected g c _ _ hst =>
    exact h.ok.set rfl (by simp [Life.ended, Sys.registry, hst]; rfl) rfl id
  | closeWrite g c ic st _ _ hst =>
    exact h.ok.set rfl (TcpConnState.closeWrite_terminal hst) rfl id
  | localClosed _ p c st _ _ hst =>
    exact h.ok.set rfl (TcpConnState.setLocalClosed_terminal hst) rfl id
  | abort g c => exact h.ok.set rfl (TcpConnState.terminal_abort _) rfl id
  | close c _ hc => exact h.ok.close (ending hc).1 (ending hc).2
  | abortFree c _ hc => exact h.ok.release_free (ending hc).1 (ending hc).2
  | erroredFree _ p c d _ hl hst => exact absurd hst (h.not_errored hl)
  | err p c t _ hp hh hr =>
    obtain rfl := h.hooked_conn hp hh hr
    exact h.ok.err_free hp (h.ok.live hr)
  | drop p => exact h.ok.free p
  | unhooked p => exact h.ok.free p
  | free p => exact h.ok.free p

/-! ### Goroutines and frames after a step -/

theorem Effect.n_le {R : Registry} (h : Effect s a R) : s.n ≤ R.n := by
  cases h with
  | accept => exact Nat.le_succ _
  | _ => exact Nat.le_refl _

theorem step_n_le (h : step M s a = some s') : s.n ≤ s'.n := (step_effect h).n_le

/-- A started connection stays started. -/
theorem step_started (h : step M s a = some s') {c : Nat} (hc : c < s.n)
    (hs : (s.conn c).started = true) : (s'.conn c).started = true := by
  have he := (step_effect h).conn c
  cases he with
  | accept key _ hn => exact absurd hn (Nat.ne_of_lt hc)
  | start g _ _ hl => exact hl.2.1
  | same hl => exact hl.2.1.trans hs
  | connected _ _ _ hl => exact hl.2.1.trans hs
  | closeWrite _ _ _ _ _ hl => exact hl.2.1.trans hs
  | localClosed _ _ _ _ _ hl => exact hl.2.1.trans hs
  | abort _ _ _ hl => exact hl.2.1.trans hs
  | close _ _ hl => exact hl.2.1.trans hs
  | erroredFree _ _ _ _ _ hl => exact hl.2.1.trans hs
  | err _ _ _ _ _ hl => exact hl.2.1.trans hs

/-- A step that lets the connect goroutine go starts its connection. -/
theorem step_spawn {g : Gid} (h : step M s (.held (.spawn g)) = some s') {c : Nat}
    (hl : s.lock = .accept c) : (s'.conn c).started = true := by
  unfold step at h
  split at h
  · cases h
  · simp only [Sys.heldStep, hl] at h
    split at h <;> cases h
    simp [Sys.return_, Sys.setLock, Sys.setConn]

theorem Pc.ofHandler_of_next {pc pc' : Pc} (h : pc.next pc' = true)
    (h' : pc'.ofHandler = true) : pc.ofHandler = true := by
  unfold Pc.next at h
  split at h <;> simp_all [Pc.ofHandler]

theorem Base.go_lt_step (h : Base s) (hs : step M s a = some s') {g : Gid}
    (hg : (s'.gos g).pc ≠ .idle) : (s'.gos g).conn < s'.n := by
  refine Nat.lt_of_lt_of_le ?_ (step_n_le hs)
  have he := step_go hs g
  generalize s'.gos g = x at he hg
  cases he with
  | same => exact h.go_lt hg
  | woken c d t hp =>
    have := h.go_lt (g := g) (by rw [hp]; simp)
    rwa [hp] at this
  | call c op _ _ hc => exact hc
  | spawn c _ hl => exact (h.accept (by rw [hl]; rfl)).1
  | own x pc _ hn =>
    refine h.go_lt fun hi => ?_
    rw [hi] at hn
    cases hn
  | aborted => exact absurd rfl hg

theorem Base.go_started_step (h : Base s) (hs : step M s a = some s') {g : Gid}
    (hg : (s'.gos g).pc.ofHandler = true) : (s'.conn (s'.gos g).conn).started = true := by
  have keep : (s.gos g).pc.ofHandler = true → (s'.conn (s.gos g).conn).started = true := fun hp =>
    step_started hs (h.go_lt fun hi => by rw [hi] at hp; cases hp) (h.go_started hp)
  have he := step_go hs g
  generalize s'.gos g = x at he hg
  cases he with
  | same => exact keep hg
  | woken c d t hp =>
    have := keep (by rw [hp]; rfl)
    rwa [hp] at this
  | call c op _ _ hc hop =>
    rcases hop with hop | rfl
    · exact step_started hs hc hop
    · cases hg
  | spawn c ha hl => subst ha; exact step_spawn hs hl
  | own x pc _ hn => exact keep (Pc.ofHandler_of_next hn hg)
  | aborted => cases hg

theorem Base.started_step (h : Base s) (hs : step M s a = some s') {c : Nat}
    (hst : (s'.conn c).started = true) : (s'.conn c).state ≠ .newConn := by
  have of_state : ∀ st, (s'.conn c).state = st → st ≠ .newConn → (s'.conn c).state ≠ .newConn :=
    fun st h h' => h ▸ h'
  cases (step_effect hs).conn c with
  | same hl => exact of_state _ hl.1 (h.started (hl.2.1.symm.trans hst))
  | accept key _ _ hl => exact absurd (hl.2.1.symm.trans hst) (by simp)
  | start _ _ _ hl => exact of_state _ hl.1 (by simp)
  | connected _ _ _ hl => exact of_state _ hl.1 (by simp)
  | closeWrite _ _ st _ hc hl =>
    refine of_state _ hl.1 ?_
    rcases TcpConnState.closeWrite_eq_some hc with ⟨-, rfl⟩ | ⟨-, rfl⟩ <;> simp
  | localClosed _ _ st _ hc hl =>
    refine of_state _ hl.1 ?_
    rcases TcpConnState.setLocalClosed_eq_some hc with ⟨-, rfl⟩ | ⟨-, rfl⟩ <;> simp
  | abort _ _ _ hl =>
    refine of_state _ hl.1 ?_
    cases (s.conn c).state <;> simp [TcpConnState.abort, TcpConnState.num]
  | close _ _ hl => exact of_state _ hl.1 (by simp)
  | erroredFree _ _ _ _ _ hl => exact of_state _ hl.1 (by simp)
  | err _ _ _ _ _ hl => exact of_state _ hl.1 (by simp)

/-- Only an accept makes a connection. -/
theorem step_new (hs : step M s a = some s') {c : Nat} (hc : c < s'.n) :
    c < s.n ∨ (c = s.n ∧ s'.lock.frame = .accept s.n) := by
  have he := step_effect hs
  generalize hR : s'.registry = R at he
  have hn : s'.n = R.n := by rw [← hR]; rfl
  rw [hn] at hc
  cases he with
  | accept key ha =>
    subst ha
    have hlt : c < s.n + 1 := hc
    rcases Nat.lt_succ_iff_lt_or_eq.1 hlt with hlt | rfl
    · exact .inl hlt
    · refine .inr ⟨rfl, ?_⟩
      unfold step at hs
      split at hs
      · cases hs
      · simp only at hs
        split at hs <;> cases hs
        rfl
  | _ => exact .inl hc

theorem Base.accepting_step (h : Base s) (hs : step M s a = some s') {c : Nat} (hc : c < s'.n)
    (hst : (s'.conn c).started = false) : s'.lock.frame = .accept c := by
  rcases step_new hs hc with hlt | ⟨rfl, hf⟩
  · have hf : s.lock.frame = .accept c := by
      refine h.accepting hlt ?_
      rw [← Bool.not_eq_true]
      intro h1
      exact absurd ((step_started hs hlt h1).symm.trans hst) (by simp)
    cases step_lock hs with
    | none _ hsp =>
      obtain ⟨g, rfl⟩ := hsp c hf
      have hl : s.lock = .accept c := by
        cases hl : s.lock <;> simp [hl, Lock.frame] at hf
        rw [hf]
      exact absurd ((step_spawn hs hl).symm.trans hst) (by simp)
    | accept key _ hn => rw [hn] at hf; cases hf
    | found p c _ hn => rw [hn] at hf; cases hf
    | abort g c _ hn => rw [hn] at hf; cases hf
    | kept hn => exact hn.trans hf
  · exact hf

/-- Every step keeps the invariant. -/
theorem Base.step (h : Base s) (hs : step M s a = some s') : Base s' := by
  have hle := step_n_le hs
  refine ⟨h.sound_of_effect (step_effect hs), h.go_lt_step hs, h.go_started_step hs,
    h.started_step hs, h.accepting_step hs, fun {c} hf => ?_, fun {p c} hf => ?_,
    fun {g c} hf => ?_⟩
  · cases step_lock hs with
    | none hn => rw [hn] at hf; cases hf
    | accept key hn _ hreg =>
      rw [hn] at hf
      cases hf
      have hlt : s'.n = s.n + 1 := congrArg Registry.n hreg
      rw [hreg, hlt]
      simp [Registry.accept, Life.ended, TcpConnState.terminal]
    | found p c hn => rw [hn] at hf; cases hf
    | abort g c hn => rw [hn] at hf; cases hf
    | kept hn he =>
      obtain ⟨hc, hl⟩ := h.accept (hn.symm.trans hf)
      exact ⟨Nat.lt_of_lt_of_le hc hle, (he c).trans hl⟩
  · cases step_lock hs with
    | none hn => rw [hn] at hf; cases hf
    | accept key hn => rw [hn] at hf; cases hf
    | found q d hn _ hq hh hr hreg =>
      rw [hn] at hf
      cases hf
      rw [hreg]
      exact ⟨Nat.lt_of_lt_of_le (h.reg.lt hr) hle, h.reg.live hr⟩
    | abort g c hn => rw [hn] at hf; cases hf
    | kept hn he =>
      obtain ⟨hc, hl⟩ := h.callback (hn.symm.trans hf)
      exact ⟨Nat.lt_of_lt_of_le hc hle, (he c).trans hl⟩
  · cases step_lock hs with
    | none hn => rw [hn] at hf; cases hf
    | accept key hn => rw [hn] at hf; cases hf
    | found p c hn => rw [hn] at hf; cases hf
    | abort g' c' hn _ hg =>
      rw [hn] at hf
      cases hf
      have := h.go_lt (g := g) (by rw [hg]; simp)
      rw [hg] at this
      exact Nat.lt_of_lt_of_le this hle
    | kept hn he => exact Nat.lt_of_lt_of_le (h.abort (hn.symm.trans hf)) hle

/-- Every step that draws no key in use keeps the invariant. -/
theorem Inv.step (h : Inv s) (hk : FreshKey s a) (hs : Core.step M s a = some s') : Inv s' := by
  refine ⟨h.toBase.step hs, h.ok_of_effect hk (step_effect hs), fun {p c} hf => ?_⟩
  cases step_lock hs with
  | none hn => rw [hn] at hf; cases hf
  | accept key hn => rw [hn] at hf; cases hf
  | found q d hn _ hq hh hr =>
    rw [hn] at hf
    cases hf
    exact h.hooked_conn hq hh hr
  | abort g c hn => rw [hn] at hf; cases hf
  | kept hn => exact h.callback_eq (hn.symm.trans hf)

theorem base_run {tr : List (Sys × Act)} (h : Run (Core.step M) {} tr s) : Base s :=
  h.inv' base_init fun _ _ _ hi hs => hi.step hs

theorem inv_run {tr : List (Sys × Act)} (h : Run (Core.step M) {} tr s) (hk : Meets FreshKey tr) :
    Inv s :=
  h.inv hk inv_init fun _ _ _ hi hc hs => hi.step hc hs

/-! ## Consequences -/

/-- The connection is in `tcpConns`. -/
def Sys.Registered (s : Sys) (c : Nat) : Prop := ∃ k, s.tcpConns k = some c

theorem Inv.registered_iff (h : Inv s) {c : Nat} (hc : c < s.n) :
    s.Registered c ↔ (s.conn c).state.terminal = false :=
  ⟨fun ⟨_, hk⟩ => h.ok.live hk, fun hl => ⟨_, h.ok.reg hc hl⟩⟩

theorem Inv.cellFrees (h : Inv s) {c : Nat} (hc : c < s.n) :
    (s.conn c).cellFrees = if (s.conn c).state.terminal then 1 else 0 :=
  h.ok.frees hc

/-- `tcpClosed` and `tcpErrored` are never left. -/
theorem Base.ended_step (h : Base s) (hs : Core.step M s a = some s') {c : Nat} (hc : c < s.n)
    (ht : (s.conn c).state.terminal = true) : (s'.conn c).state = (s.conn c).state := by
  have no : ∀ {P : Prop} {st : TcpConnState}, (s.conn c).state = st → st.terminal = false → P :=
    fun h h' => by rw [h, h'] at ht; cases ht
  cases (step_effect hs).conn c with
  | same hl => exact hl.1
  | accept key _ hn => exact absurd hn (Nat.ne_of_lt hc)
  | start g _ hl _ => exact no rfl (h.accept (by rw [hl]; rfl)).2
  | connected _ _ hst _ => exact no hst rfl
  | closeWrite _ _ st _ hst _ =>
    rcases TcpConnState.closeWrite_eq_some hst with ⟨h, -⟩ | ⟨h | h | h, -⟩ <;> exact no h rfl
  | localClosed _ _ st _ hst _ =>
    rcases TcpConnState.setLocalClosed_eq_some hst with ⟨h, -⟩ | ⟨h | h | h, -⟩ <;> exact no h rfl
  | abort _ _ _ hl => rw [TcpConnState.abort_eq, if_pos ht] at hl; exact hl.1
  | close _ hc _ => rcases (Sys.ending_eq_some hc).2 with h | h <;> exact no h rfl
  | erroredFree _ _ _ hl hst _ => exact absurd hst (h.not_errored hl)
  | err _ _ _ _ hk _ => exact no rfl (h.reg.live hk)

/-- Neither a callback nor `writeCheck` panics. -/
theorem Base.panicked_step (h : Base s) (hs : Core.step M s a = some s') : s'.panicked = false := by
  rw [← Bool.not_eq_true]
  intro hp
  rcases step_panicked hs hp with ⟨_, p, c, k, hl, hst⟩ | ⟨g, c, d, t, hg, hst⟩
  · have hlive : (s.conn c).state.terminal = false := (h.callback (p := p) (by rw [hl]; rfl)).2
    rw [hst] at hlive
    cases hlive
  · have hst' := h.go_started (g := g) (by rw [hg]; rfl)
    rw [hg] at hst'
    exact h.started hst' hst

/-- The `tcpErrored` case of `receiveCheck` is not reached. -/
theorem Base.erroredAbort_step (h : Base s) (hs : Core.step M s a = some s')
    (hn : ∀ c, Ev.erroredAbort c ∉ s.log) (c : Nat) : Ev.erroredAbort c ∉ s'.log := by
  obtain ⟨es, hes, hlog⟩ := step_log hs
  rw [hes]
  intro hm
  rcases List.mem_append.1 hm with hm | hm
  · exact hn c hm
  · cases hlog _ hm with
    | errored _ p c' d _ hl hst => exact h.not_errored hl hst

theorem no_panic_run {tr : List (Sys × Act)} (h : Run (Core.step M) {} tr s) :
    s.panicked = false ∧ ∀ c, Ev.erroredAbort c ∉ s.log := by
  induction h with
  | nil => exact ⟨rfl, fun c => by simp⟩
  | snoc hr hs ih =>
    exact ⟨(base_run hr).panicked_step hs, (base_run hr).erroredAbort_step hs ih.2⟩

/-- The registry, for every run and every behaviour of lwIP: a connection is in `tcpConns` iff it is
neither closed nor errored; a step frees its key cell iff it takes it out of the map, which happens
at most once; closed and errored are never left; no callback panics. -/
theorem registered_iff_not_ended {tr : List (Sys × Act)} (hr : Run (Core.step M) {} tr s)
    (hk : Meets FreshKey tr) :
    (∀ c < s.n, (s.Registered c ↔ (s.conn c).state ≠ .closed ∧ (s.conn c).state ≠ .errored) ∧
      (s.conn c).cellFrees ≤ 1) ∧
    (∀ a s', Core.step M s a = some s' → FreshKey s a → ∀ c < s.n,
      ((s'.conn c).cellFrees = (s.conn c).cellFrees + 1 ↔ s.Registered c ∧ ¬ s'.Registered c) ∧
      ((s.conn c).state = .closed ∨ (s.conn c).state = .errored →
        (s'.conn c).state = (s.conn c).state)) ∧
    s.panicked = false ∧ ∀ c, Ev.erroredAbort c ∉ s.log := by
  have hi := inv_run hr hk
  refine ⟨fun c hc => ⟨?_, ?_⟩, fun a s' hs hf c hc => ⟨?_, ?_⟩, no_panic_run hr⟩
  · rw [hi.registered_iff hc, TcpConnState.terminal_eq_false]
  · rw [hi.cellFrees hc]; split <;> decide
  · have hi' := hi.step hf hs
    have hc' : c < s'.n := Nat.lt_of_lt_of_le hc (step_n_le hs)
    have hend := hi.ended_step hs hc
    rw [hi.registered_iff hc, hi'.registered_iff hc', hi.cellFrees hc, hi'.cellFrees hc']
    cases ht : (s.conn c).state.terminal with
    | false => cases (s'.conn c).state.terminal <;> simp
    | true => simp [hend ht, ht]
  · intro hst
    exact hi.ended_step hs hc (TcpConnState.terminal_iff.2 hst)

end

/-- Two connections under one key, the first reset by the app before the second is accepted. -/
theorem registered_iff_not_ended_reset :
    ∃ tr s, Run (step anyLwip) {} tr s ∧ Meets FreshKey tr ∧ s.n = 2 ∧
      (s.conn 0).state = .errored ∧ (s.conn 0).cellFrees = 1 ∧ s.Registered 1 ∧
      s.panicked = false := by
  let acts : List Act := [.lock, .accept 7, .held (.spawn 0), .lwip 0 .err {}, .accept 7,
    .held (.spawn 1), .unlock]
  obtain ⟨s, hr, hs⟩ := exists_run (step anyLwip) {} acts
    (fun s => decide (s.n = 2 ∧ (s.conn 0).state = .errored ∧ (s.conn 0).cellFrees = 1 ∧
      (s.conn 1).state = .connecting)) (by decide)
  obtain ⟨hn, h0, hf, h1⟩ := of_decide_eq_true hs
  have hk : Meets FreshKey (execTrace (step anyLwip) {} acts) := by decide
  have key := registered_iff_not_ended hr hk
  refine ⟨_, s, hr, hk, hn, h0, hf, ?_, key.2.2.1⟩
  exact (key.1 1 (by omega)).1.2 (by rw [h1]; decide)

end Core
