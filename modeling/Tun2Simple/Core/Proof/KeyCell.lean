import Tun2Simple.Core.Proof.Registry

/-!
# The key cell behind a callback's argument

lwIP calls every callback of a pcb with the cell that `newTCPConn` allocated for the connection's
key; `release` frees it. `closeInternal` takes the callbacks off the pcb before its `release`, and
`Err` runs as the last callback of its pcb. `abortInternal` does neither: its `release` frees the
cell and `tcp_abort` then calls the err callback with it (except in `TIME_WAIT`).

`key_not_freed_iff`: the cell is read after its free exactly in the runs in which a `checkAborting`
section does that.
-/

namespace Core

open Trans

/-- No `checkAborting` section finds its connection aborting while the pcb still has its callbacks
and is outside `TIME_WAIT`. -/
def NoLiveAbort (s : Sys) : Act → Prop
  | .held _ => ∀ c ∈ s.lock.checkAborting, (s.conn c).state = .aborting →
      (s.pcb c).hooked = true → (s.pcb c).tcp.st = .timeWait
  | _ => True

instance (s : Sys) : (a : Act) → Decidable (NoLiveAbort s a)
  | .held _ => inferInstanceAs (Decidable (∀ c ∈ s.lock.checkAborting, _ → _ → _))
  | .lock | .unlock | .accept _ | .lwip _ _ _ | .call _ _ _ | .go _ _ => .isTrue trivial

section
variable {s s' : Sys} {a : Act} {M : Lwip}

/-- A pcb with callbacks belongs to a connection that has not ended, so its cell is there. -/
theorem Inv.cellFrees_of_hooked (h : Inv s) {p : Nat} (hp : p < s.n)
    (hh : (s.pcb p).hooked = true) : (s.conn p).cellFrees = 0 := by
  rw [h.cellFrees hp]
  split
  · rename_i ht
    exact absurd ((h.ok.unhooked hp ht).symm.trans hh) (by simp)
  · rfl

theorem Lock.checkAborting_eq_some {l : Lock} {c : Nat} (h : l.checkAborting = some c) :
    (∃ hd p, l = .check hd p c .checkAborting) ∨ ∃ g, l = .abort g c .checkAborting := by
  unfold Lock.checkAborting at h
  split at h
  · cases h; exact .inl ⟨_, _, rfl⟩
  · cases h; exact .inr ⟨_, rfl⟩
  · cases h

/-- A step logs a read of a freed cell only in `abortInternal`. -/
theorem Inv.key_step (h : Inv s) (hc : NoLiveAbort s a) {p : Nat} {f : Bool}
    (hl : Logged s a (.key p f)) : f = false := by
  cases hl with
  | key _ e t _ hp hh => rw [h.cellFrees_of_hooked hp hh]; rfl
  | abortKey _ _ ha hl hst hh ht => subst ha; exact absurd (hc p hl hst hh) ht
  | errored _ q c d _ hl hst => exact absurd hst (h.not_errored hl)

/-- `abortInternal` of a registered connection frees its cell, then reads it. -/
theorem Sys.key_mem_abortInternal {c : Nat} (hr : s.tcpConns (s.conn c).connKey = some c)
    (hh : (s.pcb c).hooked = true) (ht : (s.pcb c).tcp.st ≠ .timeWait) :
    Ev.key c true ∈ (s.abortInternal c).log := by
  have hp : ((s.release c).pcb c).hooked ∧ ((s.release c).pcb c).tcp.st ≠ .timeWait := ⟨hh, ht⟩
  have hf : ((s.release c).conn c).cellFrees = (s.conn c).cellFrees + 1 := by
    simp [Sys.release, hr]
  rw [(s.abortInternal_control c).2.2, Sys.abortLog, if_pos hp, hf]
  simp

theorem Inv.key_mem_of_live (h : Inv s) (hs : Core.step M s a = some s') (hc : ¬ NoLiveAbort s a) :
    ∃ c, Ev.key c true ∈ s'.log := by
  obtain ⟨x, rfl⟩ : ∃ x, a = .held x := by
    cases a <;> first | exact ⟨_, rfl⟩ | exact absurd trivial hc
  simp only [NoLiveAbort, Option.mem_def, not_forall] at hc
  obtain ⟨c, hl, hst, hh, ht⟩ := hc
  have hlock : s.lock.conn = some c := by
    rcases Lock.checkAborting_eq_some hl with ⟨hd, p, hl⟩ | ⟨g, hl⟩ <;> rw [hl] <;> rfl
  have hlive : (s.conn c).state.terminal = false := by rw [hst]; rfl
  have hmem := s.key_mem_abortInternal (h.ok.reg (h.conn_lt hlock) hlive) hh ht
  have hs' := heldStep_of_step hs
  refine ⟨c, ?_⟩
  rcases Lock.checkAborting_eq_some hl with ⟨hd, p, hl⟩ | ⟨g, hl⟩ <;>
    cases x <;> simp only [Sys.heldStep, hl, Sys.checkState, hst, if_true] at hs' <;>
    cases hs' <;>
    exact hmem

/-- Every callback reads the key cell of its connection before `freeConnKeyArg`, and finds the
connection of its pcb, exactly in the runs in which no `abortInternal` frees the cell of a pcb whose
err callback `tcp_abort` is then to call. -/
theorem key_not_freed_iff {tr : List (Sys × Act)} (hr : Run (step M) {} tr s)
    (hk : Meets FreshKey tr) :
    ((∀ p f, Ev.key p f ∈ s.log → f = false) ↔ Meets NoLiveAbort tr) ∧
      ∀ p c, s.lock.frame = .callback p c → p = c := by
  refine ⟨?_, fun p c hf => (inv_run hr hk).callback_eq hf⟩
  induction hr with
  | nil => simp
  | snoc hr hs ih =>
    rw [meets_snoc] at hk
    have hi := inv_run hr hk.1
    obtain ⟨es, hes, hlog⟩ := step_log hs
    rw [meets_snoc, ← ih hk.1]
    constructor
    · intro h
      refine ⟨fun p f hm => h p f (hes ▸ List.mem_append_left _ hm), ?_⟩
      apply Classical.byContradiction
      intro hc
      obtain ⟨c, hm⟩ := hi.key_mem_of_live hs hc
      cases h c true hm
    · intro ⟨h, hc⟩ p f hm
      rw [hes] at hm
      rcases List.mem_append.1 hm with hm | hm
      · exact h p f hm
      · exact hi.key_step hc (hlog _ hm)

end

/-- A connected connection and a goroutine of its handler at `Abort`. -/
def abortActs : List Act :=
  [.lock, .accept 7, .held (.spawn 0), .unlock, .go 0 (.handle true), .go 0 .none,
    .call 1 0 .abort, .go 1 .none]

/-- The app's RST comes before `Abort` gets `lwipMutex`: the err callback reads the cell, `Abort`
finds the connection errored. -/
theorem key_not_freed_iff_reset :
    ∃ tr s, Run (step anyLwip) {} tr s ∧ Meets FreshKey tr ∧ Ev.key 0 false ∈ s.log ∧
      ∀ p f, Ev.key p f ∈ s.log → f = false := by
  let acts := abortActs ++ [Act.lock, .lwip 0 .err {}, .unlock, .go 1 .none, .held .none, .held .none,
    .held .none, .held .none]
  obtain ⟨s, hr, hs⟩ := exists_run (step anyLwip) {} acts
    (fun s => decide (.key 0 false ∈ s.log)) (by decide)
  have hk : Meets FreshKey (execTrace (step anyLwip) {} acts) := by decide
  have hc : Meets NoLiveAbort (execTrace (step anyLwip) {} acts) := by decide
  exact ⟨_, s, hr, hk, of_decide_eq_true hs, (key_not_freed_iff hr hk).1.2 hc⟩

/-- `Abort` of a connected connection: `tcp_abort` calls `tcpErrFn` with the freed cell. -/
theorem abort_reads_freed_key :
    ¬ ∀ tr s, Run (step anyLwip) {} tr s → Meets FreshKey tr →
      ∀ p f, Ev.key p f ∈ s.log → f = false := by
  intro h
  let acts := abortActs ++ [Act.go 1 .none, .held .none, .held .none, .held .none]
  obtain ⟨s, hr, hs⟩ := exists_run (step anyLwip) {} acts
    (fun s => decide (.key 0 true ∈ s.log)) (by decide)
  have hk : Meets FreshKey (execTrace (step anyLwip) {} acts) := by decide
  have := h _ s hr hk 0 true (of_decide_eq_true hs)
  cases this

end Core
