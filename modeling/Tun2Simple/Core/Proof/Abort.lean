import Tun2Simple.Core.Proof.HalfClose
import Tun2Simple.Core.Proof.Wakeup

/-!
# `Abort` ends its connection

`AbortAt s g c`: what is known in `s` of the `Abort` of connection `c` that goroutine `g` called. It
is kept by every step (`AbortAt.step`) until `Abort` has returned; then `c` is closed or errored.
-/

namespace Core

open Trans

inductive AbortAt (s : Sys) (g : Gid) (c : Nat) : Prop
  | abort : s.gos g = ⟨c, .abort⟩ → AbortAt s g c
  | lock : s.gos g = ⟨c, .abortLock⟩ → 5 ≤ (s.conn c).state.rank → AbortAt s g c
  | check (k : CheckPc) : s.gos g = ⟨c, .aborting⟩ → s.lock = .abort g c k →
      5 ≤ (s.conn c).state.rank → (k = .broadcast → (s.conn c).state.terminal = true) → AbortAt s g c
  | done : (s.gos g).pc = .idle → (s.conn c).state.terminal = true → AbortAt s g c

theorem Forward.rank_le {st st' : TcpConnState} (h : Forward st st') : st.rank ≤ st'.rank := by
  rcases h with rfl | ⟨h, -⟩
  · exact Nat.le_refl _
  · exact Nat.le_of_lt h

theorem TcpConnState.rank_abort (st : TcpConnState) : 5 ≤ st.abort.rank := by
  cases st <;> decide

section
variable {s s' : Sys} {M : Lwip} {a : Act} {g : Gid} {c : Nat}

/-- The next test of `checkState` on an aborted connection. -/
theorem checkState_aborted_inl {k k' : CheckPc} {s₁ : Sys} (h5 : 5 ≤ (s.conn c).state.rank)
    (h : s.checkState c k = (s₁, .inl k')) :
    k' = .broadcast → (s.conn c).state.terminal = true := by
  intro hk
  subst hk
  cases k <;> simp only [Sys.checkState] at h
  case isClosed => split at h <;> cases h
  case checkClosing => split at h <;> cases h
  case checkAborting =>
    split at h <;> cases h
    rename_i hst
    cases hs : (s.conn c).state <;> simp [hs, TcpConnState.rank, TcpConnState.terminal] at *
  case broadcast => cases h

/-- `checkState` of an aborted connection returns when it has ended. -/
theorem checkState_aborted_inr {k : CheckPc} {s₁ : Sys} {e : Option LwipErr}
    (h5 : 5 ≤ (s.conn c).state.rank) (hk : k = .broadcast → (s.conn c).state.terminal = true)
    (h : s.checkState c k = (s₁, .inr e)) : (s₁.conn c).state.terminal = true := by
  cases k <;> simp only [Sys.checkState] at h
  case isClosed =>
    split at h <;> cases h
    rename_i hst
    rw [hst]
    rfl
  case checkClosing =>
    split at h <;> cases h
    rename_i hst
    rw [hst] at h5
    exact absurd h5 (by decide)
  case checkAborting =>
    split at h <;> cases h
    show ((s.abortInternal c).registry.life c).state.terminal = true
    rw [Sys.registry_abortInternal]
    simp [Registry.free, Registry.release]
  case broadcast =>
    cases h
    exact hk rfl

/-- A goroutine that neither runs nor is woken nor is given a call stays where it is. -/
theorem step_gos_same (hs : step M s a = some s') (hp : ∀ d t, (s.gos g).pc ≠ .parked d t)
    (hcall : ∀ c op, a ≠ .call g c op) (hsp : a ≠ .held (.spawn g)) (hgo : ∀ x, a ≠ .go g x)
    (hl : a = .held .none → ∀ c k, s.lock ≠ .abort g c k) : s'.gos g = s.gos g := by
  have he := step_go hs g
  generalize s'.gos g = x at he
  cases he with
  | same => rfl
  | woken c d t h => exact absurd (by rw [h]) (hp d t)
  | call c op h => exact absurd h (hcall c op)
  | spawn c h => exact absurd h hsp
  | own x _ h => exact absurd h (hgo x)
  | aborted c k ha h => exact absurd h (hl ha c k)

/-- Only its own `checkState` takes an `Abort` on that has `lwipMutex`. -/
theorem step_lock_abort (hs : step M s a = some s') {k : CheckPc} (hl : s.lock = .abort g c k)
    (ha : a ≠ .held .none) : s'.lock = .abort g c k := by
  unfold step at hs
  split at hs
  · cases hs
  · cases a with
    | lock => simp [hl] at hs
    | unlock => simp [hl] at hs
    | accept key => simp [hl] at hs
    | lwip p e t => simp [Sys.lwipStep, hl] at hs
    | held x => cases x <;> simp [Sys.heldStep, hl] at hs ha
    | call g' c' op =>
      simp only [Sys.callStep] at hs
      split at hs <;> cases hs
      exact hl
    | go g' x =>
      have hh := goStep_hold hs
      generalize s'.lock = l at hh
      cases hh with
      | same => exact hl
      | refused h => rw [hl] at h; cases h
      | settled h => rw [hl] at h; cases h
      | abort _ h => rw [hl] at h; cases h
      | read _ _ _ _ _ _ _ _ _ h => rw [hl] at h; cases h

/-- Every step keeps what is known of an `Abort`, where the goroutine is called for nothing else. -/
theorem AbortAt.step (h : AbortAt s g c) (hb : Base s) (hp : s.AbortPc)
    (hn : ∀ {c}, s.lock.frame = .accept c → (s.conn c).state = .newConn) (hc : c < s.n)
    (hcall : ∀ c op, a ≠ .call g c op) (hsp : a ≠ .held (.spawn g))
    (hs : Core.step M s a = some s') : AbortAt s' g c := by
  have hrank := (forward_step hb hn hs hc).rank_le
  have hterm : (s.conn c).state.terminal = true → (s'.conn c).state.terminal = true := by
    intro ht
    rw [hb.ended_step hs hc ht]
    exact ht
  have unlocked : ∀ {pc : Pc}, (s.gos g).pc = pc → pc ≠ .aborting → ∀ c k, s.lock ≠ .abort g c k :=
    fun hpc hne c k hl => hne (hpc.symm.trans (hp g c (by rw [hl]; rfl)))
  cases h with
  | abort hg =>
    by_cases hgo : ∃ x, a = .go g x
    · obtain ⟨x, rfl⟩ := hgo
      have hs' := goStep_of_step hs
      cases x <;> simp only [Sys.goStep, hg, Option.some.injEq, reduceCtorEq] at hs'
      subst hs'
      refine .lock (by simp [hg]) ?_
      simpa [Sys.setConn, Sys.goto] using (s.conn c).state.rank_abort
    · have hgos : s'.gos g = s.gos g :=
        step_gos_same hs (by simp [hg]) hcall hsp (fun x hx => hgo ⟨x, hx⟩)
          fun _ => unlocked (congrArg Go.pc hg) (by simp)
      exact .abort (hgos.trans hg)
  | lock hg h5 =>
    by_cases hgo : ∃ x, a = .go g x
    · obtain ⟨x, rfl⟩ := hgo
      have hs' := goStep_of_step hs
      cases x <;> simp only [Sys.goStep, hg, reduceCtorEq] at hs'
      split at hs' <;> cases hs'
      exact .check .isClosed (by simp [hg]) rfl h5 (by simp)
    · have hgos : s'.gos g = s.gos g :=
        step_gos_same hs (by simp [hg]) hcall hsp (fun x hx => hgo ⟨x, hx⟩)
          fun _ => unlocked (congrArg Go.pc hg) (by simp)
      exact .lock (hgos.trans hg) (Nat.le_trans h5 hrank)
  | check k hg hl h5 hk =>
    by_cases ha : a = .held .none
    · subst ha
      have hs' := heldStep_of_step hs
      simp only [Sys.heldStep, hl] at hs'
      split at hs'
      · rename_i s₁ k' hk'
        cases hs'
        obtain rfl := checkState_inl hk'
        have hnext := checkState_aborted_inl h5 hk'
        exact .check k' hg rfl h5 hnext
      · rename_i s₁ e hk'
        cases hs'
        have hend := checkState_aborted_inr h5 hk hk'
        exact .done (by simp) hend
    · have hgos : s'.gos g = s.gos g := by
        refine step_gos_same hs (by simp [hg]) hcall hsp (fun x hx => ?_) fun h => absurd h ha
        subst hx
        have hs' := goStep_of_step hs
        cases x <;> simp [Sys.goStep, hg] at hs'
      exact .check k (hgos.trans hg) (step_lock_abort hs hl ha) (Nat.le_trans h5 hrank)
        fun h => hterm (hk h)
  | done hi ht =>
    have hgos : s'.gos g = s.gos g := by
      refine step_gos_same hs (by simp [hi]) hcall hsp (fun x hx => ?_) fun _ => unlocked hi (by simp)
      subst hx
      have hs' := goStep_of_step hs
      cases x <;> simp [Sys.goStep, hi] at hs'
    exact .done (by rw [hgos]; exact hi) (hterm ht)

/-- An `Abort` that has returned has ended its connection. -/
theorem AbortAt.terminal (h : AbortAt s g c) (hg : (s.gos g).pc = .idle) :
    (s.conn c).state.terminal = true := by
  cases h with
  | abort h => rw [h] at hg; cases hg
  | lock h => rw [h] at hg; cases hg
  | check k h => rw [h] at hg; cases hg
  | done _ h => exact h

theorem step_call {op : Op} (hs : step M s (.call g c op) = some s') : s'.gos g = ⟨c, op.pc⟩ := by
  unfold step at hs
  split at hs
  · cases hs
  · simp only [Sys.callStep] at hs
    split at hs <;> cases hs
    simp

/-- Only an accept makes a connection. -/
theorem step_n_eq (hs : step M s a = some s') (ha : ∀ key, a ≠ .accept key) : s'.n = s.n := by
  have he := step_effect hs
  show s'.registry.n = s.n
  generalize s'.registry = R at he
  cases he with
  | accept key h => exact absurd h (ha key)
  | _ => rfl

end

end Core
