import Mathlib.Tactic.ByContra
import Mathlib.Tactic.Push
import Tun2Simple.Core.Control
import Tun2Simple.Lib.Run

/-!
# Writers waiting for a wake-up

A `Write` that found no room in `snd_buf` parks in `canWrite.Wait` until a `Broadcast`. Once the
connection has ended lwIP calls none of its callbacks, so a writer still parked then is `Stranded`.

`Err` ends a connection and broadcasts. `closeInternal` and `abortInternal` end it without a
`Broadcast` (`checkState` returns before its own), and `Write` parks without testing the state
again. `stranded_iff` says that these are the only ways: no state of a run has a stranded writer iff
every step is `Wakeful`.
-/

namespace Core

open Trans

/-- A `Write` is parked on a closed or errored connection. -/
def Sys.Stranded (s : Sys) : Prop :=
  ∃ g c d t, s.gos g = ⟨c, .parked d t⟩ ∧ (s.conn c).state.terminal = true

/-- `Write` does not park on a connection that has ended, and `checkState` does not end one on which
a `Write` is parked. -/
def Wakeful (s : Sys) : Act → Prop
  | .go g _ => ∀ d t, (s.gos g).pc = .writeWait d t →
      (s.conn (s.gos g).conn).state.terminal = false
  | .held .none => ∀ c, s.ending = some c → ∀ g d t, s.gos g ≠ ⟨c, .parked d t⟩
  | _ => True

section
variable {s s' : Sys} {a : Act} {M : Lwip}

/-! ## Wakeful steps -/

theorem Sys.broadcast_not_parked (s : Sys) (c : Nat) (g : Gid) (d : Bytes) (t : Nat) :
    (s.broadcast c).gos g ≠ ⟨c, .parked d t⟩ := by
  simp only [Sys.broadcast]
  split
  · split
    · simp
    · rename_i hne
      exact fun h => hne (congrArg Go.conn h)
  · rename_i hne
    exact fun h => hne _ _ _ h

/-- `Err` of connection `c` wakes its writers and ends no other connection. -/
theorem Sys.err_not_parked (s : Sys) {c d : Nat} (h0 : (s.conn d).state.terminal = false)
    (h1 : ((s.err c).conn d).state.terminal = true) (g : Gid) (b : Bytes) (t : Nat) :
    (s.err c).gos g ≠ ⟨d, .parked b t⟩ := by
  by_cases hd : d = c
  · subst hd; exact Sys.broadcast_not_parked _ d g b t
  · have : (s.err c).conn d = s.conn d := by
      simp [Sys.err, Sys.broadcast, Sys.setConn, Sys.release, hd]
    rw [this, h0] at h1
    cases h1

/-- What lwIP ends by itself it ends through `Err`. -/
theorem lwipStep_not_parked {p : Nat} {e : LwEv} {t : Tcp} (h : s.lwipStep M p e t = some s')
    {c : Nat} (h0 : (s.conn c).state.terminal = false) (h1 : (s'.conn c).state.terminal = true)
    (g : Gid) (d : Bytes) (n : Nat) : s'.gos g ≠ ⟨c, .parked d n⟩ := by
  have no : ∀ {P : Prop}, (s'.registry.life c).state = (s.registry.life c).state → P := fun hst => by
    have hst' : (s'.conn c).state = (s.conn c).state := hst
    rw [hst', h0] at h1
    cases h1
  have free : ∀ (R : Registry) (q : Nat), ((R.free q).life c).state = (R.life c).state := by
    intro R q
    by_cases hq : c = q
    · subst hq; rw [Registry.free, Registry.set_life_self]
    · rw [Registry.free, R.set_life_ne _ hq]
  unfold Sys.lwipStep at h
  split at h
  case h_2 => cases h
  case h_1 hd hl =>
    split at h
    case isFalse => cases h
    case isTrue =>
      cases e with
      | tau => cases h; exact no rfl
      | free => cases h; exact no rfl
      | err =>
        simp only [Option.some.injEq] at h
        split at h
        · subst h
          unfold Sys.tcpErrFn at h1 ⊢
          simp only at h1 ⊢
          split at h1
          · rename_i c' hc'
            exact Sys.err_not_parked _ h0 h1 g d n
          · exact absurd (h0.symm.trans h1) (by simp)
        · subst h; exact no rfl
      | _ =>
        simp only at h
        split at h <;> cases h
        refine no ?_
        cases hc : s.tcpConns (s.conn p).connKey with
        | some c' => rw [(s.setTcp p t).registry_lookup_of_some hd _ hc]; simp
        | none => rw [(s.setTcp p t).registry_lookup_of_none hd _ hc, free]; simp

theorem Pc.eq_of_next_parked {pc : Pc} {d : Bytes} {t : Nat} (h : pc.next (.parked d t) = true) :
    pc = .writeWait d t := by
  cases pc <;> simp_all [Pc.next]

/-- A connection ends in `closeInternal`, in `abortInternal` or in `Err`. -/
theorem step_ends (h : step M s a = some s') {c : Nat} (h0 : (s.conn c).state.terminal = false)
    (h1 : (s'.conn c).state.terminal = true) :
    (a = .held .none ∧ s.ending = some c) ∨ ∃ p t, a = .lwip p .err t := by
  have no : ∀ {P : Prop} {st : TcpConnState}, (s'.conn c).state = st → st.terminal = false → P :=
    fun h h' => by rw [h, h'] at h1; cases h1
  cases (step_effect h).conn c with
  | same hl => exact no hl.1 h0
  | accept _ _ _ hl => exact no hl.1 rfl
  | start _ _ _ hl => exact no hl.1 rfl
  | connected _ _ _ hl => exact no hl.1 rfl
  | closeWrite _ _ st _ hst hl =>
    exact no hl.1 ((TcpConnState.closeWrite_terminal hst).trans h0)
  | localClosed _ _ st _ hst hl =>
    exact no hl.1 ((TcpConnState.setLocalClosed_terminal hst).trans h0)
  | abort _ _ _ hl => exact no hl.1 ((TcpConnState.terminal_abort _).trans h0)
  | close ha hc _ => exact .inl ⟨ha, hc⟩
  | erroredFree _ _ _ _ hst _ => rw [hst] at h0; cases h0
  | err p t _ ha _ _ => exact .inr ⟨p, t, ha⟩

/-- A wakeful step strands no writer. -/
theorem stranded_step (h : step M s a = some s') (hs : ¬ s.Stranded) (hw : Wakeful s a) :
    ¬ s'.Stranded := by
  rintro ⟨g, c, d, t, hg, h1⟩
  have hgo := step_go h g
  rw [hg] at hgo
  generalize hx : (⟨c, .parked d t⟩ : Go) = x at hgo
  cases hgo with
  | same =>
    have h0 : (s.conn c).state.terminal = false := by
      rw [← Bool.not_eq_true]
      exact fun h0 => hs ⟨g, c, d, t, hx.symm, h0⟩
    rcases step_ends h h0 h1 with ⟨rfl, hc⟩ | ⟨p, t', rfl⟩
    · exact hw c hc g d t hx.symm
    · exact lwipStep_not_parked (lwipStep_of_step h) h0 h1 g d t hg
  | own x pc ha hn _ =>
    subst ha
    cases hx
    have h0 := hw d t (Pc.eq_of_next_parked hn)
    rcases step_ends h h0 h1 with ⟨ha, -⟩ | ⟨_, _, ha⟩ <;> cases ha
  | woken => cases hx
  | call c op => cases op <;> cases hx
  | spawn => cases hx
  | aborted => cases hx

/-! ## Steps that strand a writer -/

/-- `Abort` is in its `checkState` while it holds `lwipMutex`. -/
def Sys.AbortPc (s : Sys) : Prop := ∀ g c, s.lock.frame = .abort g c → (s.gos g).pc = .aborting

/-- `checkState` of `Abort` goes on, or `Abort` returns. -/
theorem heldStep_abort {g : Gid} {c : Nat} {k : CheckPc} (hl : s.lock = .abort g c k)
    (h : s.heldStep .none = some s') : s'.lock = .free ∨ s'.gos = s.gos := by
  simp only [Sys.heldStep, hl] at h
  split at h
  · rename_i hk
    cases h
    obtain rfl := checkState_inl hk
    exact .inr rfl
  · cases h; exact .inl rfl

theorem abortPc_step (h : step M s a = some s') (hs : s.AbortPc) : s'.AbortPc := by
  intro g c hf
  cases step_lock h with
  | none hn => rw [hn] at hf; cases hf
  | accept key hn => rw [hn] at hf; cases hf
  | found p c hn => rw [hn] at hf; cases hf
  | abort g' c' hn _ _ hp =>
    rw [hn] at hf
    cases hf
    exact hp
  | kept hn =>
    have hpc := hs g c (hn.symm.trans hf)
    have hgo := step_go h g
    generalize hx : s'.gos g = x at hgo
    cases hgo with
    | same => exact hpc
    | woken _ _ _ hp => rw [hp] at hpc; cases hpc
    | call _ _ _ hi => rw [hpc] at hi; cases hi
    | spawn _ _ _ hi => rw [hpc] at hi; cases hi
    | own _ pc _ hn => rw [hpc] at hn; cases hn
    | aborted c' k ha hl =>
      subst ha
      rcases heldStep_abort hl (heldStep_of_step h) with hfree | hgos
      · rw [hfree] at hf; cases hf
      · rw [← hx, hgos]; exact hpc

theorem abortPc_run {tr : List (Sys × Act)} (hr : Run (step M) {} tr s) : s.AbortPc :=
  hr.inv' (fun _ _ h => by cases h) fun _ _ _ hp h => abortPc_step h hp

/-- `closeInternal` and `abortInternal` wake nobody. -/
theorem checkState_ending {c : Nat} {k : CheckPc}
    (hk : (k = .checkClosing ∧ (s.conn c).state = .closing) ∨
      (k = .checkAborting ∧ (s.conn c).state = .aborting)) :
    ∃ s₁ e, s.checkState c k = (s₁, .inr (some e)) ∧ (e = .ok ∨ e = .abrt) ∧ s₁.gos = s.gos ∧
      (s₁.conn c).state = .closed := by
  rcases hk with ⟨rfl, hst⟩ | ⟨rfl, hst⟩
  · refine ⟨s.closeInternal c, .ok, by simp [Sys.checkState, hst], .inl rfl, rfl, ?_⟩
    have h : ((s.closeInternal c).registry.life c).state = .closed := by
      rw [Sys.registry_closeInternal, Registry.close_eq]
      simp [Registry.release]
    exact h
  · refine ⟨s.abortInternal c, .abrt, by simp [Sys.checkState, hst], .inr rfl,
      (s.abortInternal_control c).1, ?_⟩
    have h : ((s.abortInternal c).registry.life c).state = .closed := by
      rw [Sys.registry_abortInternal]
      simp [Registry.release, Registry.free]
    exact h

/-- A section that ends a connection leaves every parked goroutine where it is. -/
theorem heldStep_ending (ha : s.AbortPc) {c : Nat} (hc : s.ending = some c)
    (h : s.heldStep .none = some s') :
    (s'.conn c).state = .closed ∧ ∀ g d t, s.gos g = ⟨c, .parked d t⟩ → s'.gos g = s.gos g := by
  unfold Sys.ending at hc
  split at hc
  · rename_i hd p c' k hl
    split at hc <;> cases hc
    obtain ⟨s₁, e, hk, he, hg, hst⟩ := checkState_ending ‹_›
    simp only [Sys.heldStep, hl, hk, Option.some.injEq] at h
    subst h
    have hret : s₁.checkReturn hd (some e) = s₁.return_ hd := by rcases he with rfl | rfl <;> rfl
    rw [hret]
    exact ⟨hst, fun g _ _ _ => congrFun hg g⟩
  · rename_i g' c' k hl
    split at hc <;> cases hc
    obtain ⟨s₁, e, hk, -, hg, hst⟩ := checkState_ending ‹_›
    simp only [Sys.heldStep, hl, hk, Option.some.injEq] at h
    subst h
    refine ⟨hst, fun g d t hp => ?_⟩
    have hne : g ≠ g' := by
      rintro rfl
      have hpc := ha g c (by rw [hl]; rfl)
      rw [hp] at hpc
      cases hpc
    rw [Sys.goto_gos_ne _ _ hne]
    exact congrFun hg g
  · cases hc

/-- A step that is not wakeful leaves a writer stranded. -/
theorem stranded_of_not_wakeful (h : step M s a = some s') (ha : s.AbortPc)
    (hw : ¬ Wakeful s a) : s'.Stranded := by
  unfold Wakeful at hw
  split at hw
  · rename_i g x
    push Not at hw
    obtain ⟨d, t, hpc, hst⟩ := hw
    have h := goStep_of_step h
    simp only [Sys.goStep, hpc] at h
    cases x <;> simp only [reduceCtorEq, Option.some.injEq] at h
    subst h
    refine ⟨g, (s.gos g).conn, d, t, by simp, ?_⟩
    simpa [Sys.goto, Sys.setConn] using hst
  · push Not at hw
    obtain ⟨c, hc, g, d, t, hg⟩ := hw
    obtain ⟨hst, hgos⟩ := heldStep_ending ha hc (heldStep_of_step h)
    exact ⟨g, c, d, t, (hgos g d t hg).trans hg, by rw [hst]; rfl⟩
  · exact absurd trivial hw

/-- A run strands no writer iff all its steps are wakeful. -/
theorem stranded_iff {tr : List (Sys × Act)} (hr : Run (step M) {} tr s) :
    (∀ t ∈ visited tr s, ¬ t.Stranded) ↔ Meets Wakeful tr := by
  refine hr.visited_iff (I := fun t => ¬ t.Stranded) ?_ ?_ ?_ ?_
  · rintro ⟨g, c, d, n, hg, -⟩
    cases hg
  · exact fun _ _ _ _ _ hn hw hs => stranded_step hs hn hw
  · exact fun _ _ _ hn => hn
  · exact fun _ _ _ _ hr hw hs hn => hn (stranded_of_not_wakeful hs (abortPc_run hr) hw)

end

/-- A `Write` parks for want of room in `snd_buf`, then the handler aborts the connection. -/
theorem abort_strands : ∃ tr s, Run (step anyLwip) {} tr s ∧ s.Stranded := by
  let acts : List Act :=
    [.lock, .accept 7, .held (.spawn 0), .unlock, .go 0 (.handle true), .go 0 .none,
      .call 1 0 (.write [65]), .go 1 .none, .go 1 .none, .go 1 (.write 0 .ok), .go 1 .none,
      .call 2 0 .abort, .go 2 .none, .go 2 .none, .held .none, .held .none, .held .none]
  obtain ⟨s, hr, hs⟩ := exists_run (step anyLwip) {} acts
    (fun s => decide (s.gos 1 = ⟨0, .parked [65] 0⟩ ∧ (s.conn 0).state.terminal = true))
    (by decide)
  obtain ⟨hg, hst⟩ := of_decide_eq_true hs
  exact ⟨_, s, hr, 1, 0, [65], 0, hg, hst⟩

theorem stranded_iff_abort :
    ∃ tr s, Run (step anyLwip) {} tr s ∧ s.Stranded ∧ ¬ Meets Wakeful tr := by
  obtain ⟨tr, s, hr, hs⟩ := abort_strands
  exact ⟨tr, s, hr, hs, fun hw => (stranded_iff hr).2 hw s (last_mem_visited tr s) hs⟩

/-- Some run strands a writer. -/
theorem writer_stranded :
    ¬ ∀ tr s, Run (step anyLwip) {} tr s → ∀ t ∈ visited tr s, ¬ t.Stranded := by
  intro h
  obtain ⟨tr, s, hr, hs⟩ := abort_strands
  exact h tr s hr s (last_mem_visited tr s) hs

end Core
