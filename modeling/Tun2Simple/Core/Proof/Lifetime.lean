import Tun2Simple.Core.Proof.Registry

/-!
# The lifetime of a pcb

While a connection has not ended its pcb is there, with its callbacks (`Registry.Kept`), provided
lwIP frees no pcb of such a connection behind the back of `tcpConn`. `anyLwip` does not: it frees a
pcb without its err callback only after `tcp_close` (`kept_run`).

The code that runs with `lwipMutex` held knows that its connection has not ended. The sections of
`Write`, `CloseWrite` and the connect goroutine do not: they test the state under the connection's
own mutex and use the pcb in a later section under `lwipMutex`, without testing again as `Abort`
does. `access_not_freed` is about the runs in which that makes no difference (`Guarded`);
`write_after_reset` is one in which it does.
-/

namespace Core

open Trans

/-! ## The pcb of a connection that has not ended -/

/-- The pcb is there, with its callbacks. -/
def Life.HasPcb (l : Life) : Prop := l.hooked = true ∧ l.closed = false ∧ l.freed = false

def Registry.Kept (R : Registry) : Prop :=
  ∀ c < R.n, (R.life c).ended = false → (R.life c).HasPcb

namespace Registry

variable {R : Registry}

theorem Kept.set (h : R.Kept) {c : Nat} {l : Life} (he : l.ended = (R.life c).ended)
    (hp : (l.hooked, l.closed, l.freed) =
      ((R.life c).hooked, (R.life c).closed, (R.life c).freed)) : (R.set c l).Kept := by
  simp only [Prod.mk.injEq] at hp
  intro d hd hl
  rw [set_ended he] at hl
  by_cases hdc : d = c
  · subst hdc
    rw [set_life_self, Life.HasPcb, hp.1, hp.2.1, hp.2.2]
    exact h d hd hl
  · rw [R.set_life_ne l hdc]; exact h d hd hl

/-- Nothing is required of the pcb of a connection that ends. -/
theorem Kept.finish (h : R.Kept) {c : Nat} {l : Life} (he : l.ended = true) :
    ((R.release c).set c l).Kept := by
  intro d hd hl
  by_cases hdc : d = c
  · subst hdc; simp [he] at hl
  · rw [set_life_ne _ l hdc, release_life_ne hdc] at hl ⊢
    exact h d hd hl

theorem Kept.free (h : R.Kept) {p : Nat} (he : p < R.n → (R.life p).ended = true) :
    (R.free p).Kept := by
  intro d hd hl
  by_cases hdp : d = p
  · subst hdp
    rw [Registry.free, set_life_self] at hl
    have hl' : (R.life d).ended = false := hl
    rw [he hd] at hl'
    cases hl'
  · rw [Registry.free, set_life_ne _ _ hdp] at hl ⊢
    exact h d hd hl

theorem Kept.accept (h : R.Kept) (key : UInt32) : (R.accept key).Kept := by
  intro d hd hl
  by_cases hdn : d = R.n
  · subst hdn
    simp only [Registry.accept, Function.update_self]
    exact ⟨rfl, rfl, rfl⟩
  · simp only [Registry.accept, Function.update_of_ne hdn] at hl ⊢
    have hlt : d < R.n + 1 := hd
    exact h d (by omega) hl

end Registry

/-- lwIP frees no pcb of a connection that has not ended without its err callback. -/
def NoSilentFree (s : Sys) : Act → Prop
  | .lwip p .free _ => (s.conn p).state.terminal = true
  | _ => True

section
variable {s s' : Sys} {a : Act} {M : Lwip}

theorem Inv.kept_of_effect (h : Inv s) (hp : s.registry.Kept) (hf : NoSilentFree s a)
    {R : Registry} (he : Effect s a R) : R.Kept := by
  cases he with
  | quiet => exact hp
  | accept key => exact hp.accept key
  | start g c _ hl =>
    exact hp.set (h.ended_of_effect hl).symm rfl
  | connected g c _ _ hst =>
    refine hp.set ?_ rfl
    show TcpConnState.terminal _ = (s.conn c).state.terminal
    rw [hst]; rfl
  | closeWrite g c ic st _ _ hst => exact hp.set (TcpConnState.closeWrite_terminal hst) rfl
  | localClosed _ p c st _ _ hst => exact hp.set (TcpConnState.setLocalClosed_terminal hst) rfl
  | abort g c => exact hp.set (TcpConnState.terminal_abort _) rfl
  | close c =>
    rw [Registry.close_eq]
    exact hp.finish (by simp [Registry.release, Life.ended])
  | abortFree c => exact hp.finish (by simp [Registry.release, Life.ended])
  | erroredFree => exact hp.finish (by simp [Registry.release, Life.ended])
  | err p c t _ hlt hh hr =>
    obtain rfl := h.hooked_conn hlt hh hr
    rw [Registry.err_free_eq]
    exact hp.finish rfl
  | drop p e t _ hlt hh hr =>
    refine hp.free fun _ => ?_
    rw [← Bool.not_eq_false]
    intro hl
    exact absurd ((h.ok.reg hlt hl).symm.trans hr) (by simp)
  | unhooked p t _ hh =>
    refine hp.free fun hlt => ?_
    rw [← Bool.not_eq_false]
    intro hl
    exact absurd ((hp p hlt hl).1.symm.trans hh) (by simp)
  | free p t ha => subst ha; exact hp.free fun _ => hf

theorem kept_step (h : Inv s) (hp : s.registry.Kept) (hf : NoSilentFree s a)
    (hs : step M s a = some s') : s'.registry.Kept :=
  h.kept_of_effect hp hf (step_effect hs)

/-- After `tcp_close` the connection has ended, so `anyLwip` frees silently only then. -/
theorem anyLwip_noSilentFree (hp : s.registry.Kept) (hs : step anyLwip s a = some s') :
    NoSilentFree s a := by
  unfold NoSilentFree
  split
  · rename_i p t
    unfold step at hs
    split at hs
    · cases hs
    · simp only [Sys.lwipStep] at hs
      split at hs
      · split at hs
        · rename_i hg
          have hcl : (s.pcb p).closed = true := hg.2.2.2
          rw [← Bool.not_eq_false]
          intro hl
          exact absurd ((hp p hg.1 hl).2.1.symm.trans hcl) (by simp)
        · cases hs
      · cases hs
  · trivial

theorem kept_run {tr : List (Sys × Act)} (h : Run (step anyLwip) {} tr s) (hk : Meets FreshKey tr) :
    s.registry.Kept := by
  induction h with
  | nil => exact fun c hc => absurd hc (Nat.not_lt_zero c)
  | snoc hr hs ih =>
    rw [meets_snoc] at hk
    have hp := ih hk.1
    exact kept_step (inv_run hr hk.1) hp (anyLwip_noSilentFree hp hs) hs

/-! ## Accesses -/

/-- A goroutine's section that uses the pcb starts with a connection that is neither closed nor
errored. -/
def Guarded (s : Sys) : Act → Prop
  | .go g _ => (s.gos g).pc.usesPcb = true → (s.conn (s.gos g).conn).state.terminal = false
  | _ => True

instance (s : Sys) : (a : Act) → Decidable (Guarded s a)
  | .go g _ => inferInstanceAs (Decidable ((s.gos g).pc.usesPcb = true → _ = false))
  | .lock | .unlock | .accept _ | .lwip _ _ _ | .held _ | .call _ _ _ => .isTrue trivial

/-- What a guarded step logs is an access to a pcb that lwIP has not freed. -/
theorem Inv.access_step (h : Inv s) (hp : s.registry.Kept) (hg : Guarded s a)
    {p : Nat} {op : PcbOp} {f : Bool} (hl : Logged s a (.pcb p op f)) : f = false := by
  have live : ∀ c, c < s.n → (s.conn c).state.terminal = false → (s.pcb c).freed = false :=
    fun c hc hst => (hp c hc hst).2.2
  cases hl with
  | go g x _ ha hu =>
    subst ha
    refine live _ (h.go_lt fun hi => ?_) (hg (Pc.usesPcb_of_uses hu))
    rw [hi] at hu
    cases hu
  | recv q c _ _ hf hq =>
    obtain rfl := h.callback_eq hf
    obtain ⟨hc, hst⟩ := h.callback hf
    rcases hq with rfl | rfl <;> exact live _ hc hst
  | close c _ hc hst => exact live p (h.conn_lt hc) (by rw [hst]; rfl)
  | abort c hc hst => exact live p (h.conn_lt hc) (by rw [hst]; rfl)
  | errored _ q c d _ hl hst => exact absurd hst (h.not_errored hl)
  | drop _ hlt hh hr =>
    rw [← Bool.not_eq_true]
    intro hf
    have hl : (s.registry.life p).ended = true := by
      rw [← Bool.not_eq_false]
      intro hl
      exact absurd ((h.ok.reg hlt hl).symm.trans hr) (by simp)
    exact absurd ((h.ok.unhooked hlt hl).symm.trans hh) (by simp)

/-- In a run in which `Write`, `CloseWrite` and the connect goroutine enter their sections under
`lwipMutex` only with a connection that has not ended, every access to a pcb happens before lwIP
frees it. -/
theorem access_not_freed {tr : List (Sys × Act)} (hr : Run (step anyLwip) {} tr s)
    (hk : Meets FreshKey tr) (hg : Meets Guarded tr) :
    ∀ p op f, Ev.pcb p op f ∈ s.log → f = false := by
  induction hr with
  | nil => simp
  | snoc hr hs ih =>
    rw [meets_snoc] at hk hg
    intro p op f hm
    obtain ⟨es, hes, hlog⟩ := step_log hs
    rw [hes] at hm
    rcases List.mem_append.1 hm with hm | hm
    · exact ih hk.1 hg.1 p op f hm
    · exact (inv_run hr hk.1).access_step (kept_run hr hk.1) hg.2 (hlog _ hm)

end

/-- A `Write` of one byte on a connected connection. -/
def writeActs : List Act :=
  [.lock, .accept 7, .held (.spawn 0), .unlock, .go 0 (.handle true), .go 0 .none,
    .call 1 0 (.write [65]), .go 1 .none, .go 1 .none]

theorem access_not_freed_write :
    ∃ tr s, Run (step anyLwip) {} tr s ∧ Meets FreshKey tr ∧ Meets Guarded tr ∧
      Ev.pcb 0 .tcpWrite false ∈ s.log ∧ ∀ p op f, Ev.pcb p op f ∈ s.log → f = false := by
  let acts := writeActs ++ [.go 1 (.write 100 .ok)]
  obtain ⟨s, hr, hs⟩ := exists_run (step anyLwip) {} acts
    (fun s => decide (.pcb 0 .tcpWrite false ∈ s.log)) (by decide)
  have hk : Meets FreshKey (execTrace (step anyLwip) {} acts) := by decide
  have hg : Meets Guarded (execTrace (step anyLwip) {} acts) := by decide
  exact ⟨_, s, hr, hk, hg, of_decide_eq_true hs, access_not_freed hr hk hg⟩

/-- The app resets the connection between `Write`'s `writeCheck` and its section under `lwipMutex`,
which then reads `snd_buf` of the freed pcb. -/
theorem write_after_reset :
    ¬ ∀ tr s, Run (step anyLwip) {} tr s → Meets FreshKey tr →
      ∀ p op f, Ev.pcb p op f ∈ s.log → f = false := by
  intro h
  let acts := writeActs ++ [.lock, .lwip 0 .err {}, .unlock, .go 1 (.write 100 .ok)]
  obtain ⟨s, hr, hs⟩ := exists_run (step anyLwip) {} acts
    (fun s => decide (.pcb 0 .sndBuf true ∈ s.log)) (by decide)
  have hk : Meets FreshKey (execTrace (step anyLwip) {} acts) := by decide
  have := h _ s hr hk 0 .sndBuf true (of_decide_eq_true hs)
  cases this

end Core
