import Mathlib.Logic.Function.Basic

/-!
# Runs of a partial step function

A system is given by `step : S → A → Option S`: the label `a` names an atomic step and `none` says
that it is not enabled. `Run step s tr s'` is a run from `s` to `s'`; its trace `tr` lists the state
before each step with the step's label, so that a condition on the steps of a run is a statement
about the members of `tr`. `Run.inv` proves a property of every state of a run whose steps meet a
condition; `exec` computes a run from its labels, `run_of_exec` turns the result into a `Run`.
-/

namespace Trans

variable {S A : Type}

/-- A run of `step` and its trace (module doc). -/
inductive Run (step : S → A → Option S) (s₀ : S) : List (S × A) → S → Prop
  | nil : Run step s₀ [] s₀
  | snoc {tr : List (S × A)} {s s' : S} {a : A} :
      Run step s₀ tr s → step s a = some s' → Run step s₀ (tr ++ [(s, a)]) s'

/-- Every step of the trace meets `C`. -/
def Meets (C : S → A → Prop) (tr : List (S × A)) : Prop := ∀ x ∈ tr, C x.1 x.2

instance {C : S → A → Prop} [∀ s a, Decidable (C s a)] (tr : List (S × A)) :
    Decidable (Meets C tr) :=
  inferInstanceAs (Decidable (∀ x ∈ tr, C x.1 x.2))

/-- The states of a run: those before its steps and the last one. -/
def visited (tr : List (S × A)) (s : S) : List S := tr.map Prod.fst ++ [s]

@[simp] theorem meets_nil (C : S → A → Prop) : Meets C [] := by simp [Meets]

@[simp] theorem meets_snoc {C : S → A → Prop} {tr : List (S × A)} {s : S} {a : A} :
    Meets C (tr ++ [(s, a)]) ↔ Meets C tr ∧ C s a := by
  simp [Meets, or_imp, forall_and]

@[simp] theorem mem_visited_snoc {tr : List (S × A)} {s s' t : S} {a : A} :
    t ∈ visited (tr ++ [(s, a)]) s' ↔ t ∈ visited tr s ∨ t = s' := by
  simp [visited, or_assoc]

theorem last_mem_visited (tr : List (S × A)) (s : S) : s ∈ visited tr s := by simp [visited]

/-- The steps of a trace that act on the component `f`, with its states. -/
def project {S₁ A₁ : Type} (f : S → S₁) (act : A → Option A₁) (tr : List (S × A)) :
    List (S₁ × A₁) :=
  tr.filterMap fun x => (act x.2).map fun b => (f x.1, b)

theorem project_snoc {S₁ A₁ : Type} (f : S → S₁) (act : A → Option A₁) (tr : List (S × A)) (s : S)
    (a : A) : project f act (tr ++ [(s, a)]) =
      project f act tr ++ ((act a).map fun b => (f s, b)).toList := by
  cases ha : act a <;> simp [project, ha]

namespace Run

variable {step : S → A → Option S} {s₀ s : S} {tr : List (S × A)}

/-- The invariant rule: what holds initially and is kept by every step that meets `C` holds at the
end of every run whose steps meet `C`. -/
theorem inv {C : S → A → Prop} {P : S → Prop} (h : Run step s₀ tr s) (hc : Meets C tr)
    (h0 : P s₀) (hs : ∀ s a s', P s → C s a → step s a = some s' → P s') : P s := by
  induction h with
  | nil => exact h0
  | snoc _ hst ih =>
    rw [meets_snoc] at hc
    exact hs _ _ _ (ih hc.1) hc.2 hst

/-- The invariant rule without a condition on the steps. -/
theorem inv' {P : S → Prop} (h : Run step s₀ tr s) (h0 : P s₀)
    (hs : ∀ s a s', P s → step s a = some s' → P s') : P s :=
  h.inv (C := fun _ _ => True) (fun _ _ => trivial) h0 fun s a s' hp _ => hs s a s' hp

/-- A state before a step of a run is the end of a shorter run. -/
theorem before (h : Run step s₀ tr s) {x : S × A} (hx : x ∈ tr) :
    ∃ tr', (∀ y ∈ tr', y ∈ tr) ∧ Run step s₀ tr' x.1 := by
  induction h with
  | nil => simp at hx
  | snoc hr _ ih =>
    rcases List.mem_append.1 hx with hx | hx
    · obtain ⟨tr', hsub, hr'⟩ := ih hx
      exact ⟨tr', fun y hy => List.mem_append_left _ (hsub y hy), hr'⟩
    · rw [List.mem_singleton] at hx
      subst hx
      exact ⟨_, fun y hy => List.mem_append_left _ hy, hr⟩

/-- A property of every run's last state holds of every state of a run. -/
theorem forall_visited {C : S → A → Prop} {P : S → Prop} (h : Run step s₀ tr s) (hc : Meets C tr)
    (hp : ∀ tr s, Run step s₀ tr s → Meets C tr → P s) : ∀ t ∈ visited tr s, P t := by
  intro t ht
  rcases List.mem_append.1 ht with ht | ht
  · obtain ⟨x, hx, rfl⟩ := List.mem_map.1 ht
    obtain ⟨tr', hsub, hr⟩ := h.before hx
    exact hp tr' _ hr fun y hy => hc y (hsub y hy)
  · rw [List.mem_singleton] at ht
    subst ht
    exact hp tr _ h hc

/-- `P` holds in every state of a run exactly if all its steps meet `C`: an invariant that gives `P`
is kept by the steps that meet `C`, and a step that does not breaks `P`. -/
theorem visited_iff {C : S → A → Prop} {I P : S → Prop} (h : Run step s₀ tr s) (h0 : I s₀)
    (hs : ∀ tr s a s', Run step s₀ tr s → I s → C s a → step s a = some s' → I s')
    (hp : ∀ tr s, Run step s₀ tr s → I s → P s)
    (hn : ∀ tr s a s', Run step s₀ tr s → ¬ C s a → step s a = some s' → ¬ P s') :
    (∀ t ∈ visited tr s, P t) ↔ Meets C tr := by
  have inv : ∀ {tr s}, Run step s₀ tr s → Meets C tr → I s := by
    intro tr s hr
    induction hr with
    | nil => exact fun _ => h0
    | snoc hr hst ih =>
      intro hc
      rw [meets_snoc] at hc
      exact hs _ _ _ _ hr (ih hc.1) hc.2 hst
  induction h with
  | nil =>
    refine ⟨fun _ => meets_nil C, fun _ t ht => ?_⟩
    rw [visited, List.map_nil, List.nil_append, List.mem_singleton] at ht
    subst ht
    exact hp _ _ .nil h0
  | snoc hr hst ih =>
    have hr' := Run.snoc hr hst
    constructor
    · intro hv
      refine meets_snoc.2 ⟨ih.1 fun t ht => hv t (mem_visited_snoc.2 (.inl ht)), ?_⟩
      apply Classical.byContradiction
      intro hc
      exact hn _ _ _ _ hr hc hst (hv _ (last_mem_visited _ _))
    · intro hc t ht
      rcases mem_visited_snoc.1 ht with ht | rfl
      · exact ih.2 (meets_snoc.1 hc).1 t ht
      · exact hp _ _ hr' (inv hr' hc)

/-- A component of the states, on which a step acts by the step of a system of its own or not at
all, runs as that system. -/
theorem project {S₁ A₁ : Type} {step₁ : S₁ → A₁ → Option S₁} {f : S → S₁} {act : A → Option A₁}
    (h : Run step s₀ tr s)
    (hs : ∀ s a s', step s a = some s' → (act a).elim (some (f s)) (step₁ (f s)) = some (f s')) :
    Run step₁ (f s₀) (Trans.project f act tr) (f s) := by
  induction h with
  | nil => exact .nil
  | snoc _ hst ih =>
    rename_i tr s s' a _
    have hs' := hs _ _ _ hst
    rw [project_snoc]
    cases ha : act a with
    | none =>
      rw [ha, Option.elim_none, Option.some.injEq] at hs'
      rw [← hs', Option.map_none, Option.toList_none, List.append_nil]
      exact ih
    | some b =>
      rw [ha, Option.elim_some] at hs'
      exact .snoc ih hs'

/-- What the steps of a run that meet `C` say about the steps of the component. -/
theorem meets_project {S₁ A₁ : Type} {f : S → S₁} {act : A → Option A₁} {C : S → A → Prop}
    {C₁ : S₁ → A₁ → Prop} (h : Run step s₀ tr s) (hm : Meets C tr)
    (hc : ∀ s a s', step s a = some s' → C s a → ∀ b ∈ act a, C₁ (f s) b) :
    Meets C₁ (Trans.project f act tr) := by
  induction h with
  | nil => exact meets_nil C₁
  | snoc _ hst ih =>
    rename_i tr s s' a _
    rw [meets_snoc] at hm
    rw [project_snoc]
    intro y hy
    rcases List.mem_append.1 hy with hy | hy
    · exact ih hm.1 y hy
    · obtain ⟨b, hb, rfl⟩ := Option.map_eq_some_iff.1 (Option.mem_toList.1 hy)
      exact hc _ _ _ hst hm.2 b hb

end Run

/-- The state after the steps `as`. -/
def exec (step : S → A → Option S) (s : S) : List A → Option S
  | [] => some s
  | a :: as => (step s a).bind fun s' => exec step s' as

/-- The trace of `exec`. -/
def execTrace (step : S → A → Option S) (s : S) : List A → List (S × A)
  | [] => []
  | a :: as => (s, a) :: ((step s a).map fun s' => execTrace step s' as).getD []

theorem run_append {step : S → A → Option S} {s₀ s s' : S} {tr tr' : List (S × A)}
    (h : Run step s₀ tr s) (h' : Run step s tr' s') : Run step s₀ (tr ++ tr') s' := by
  induction h' with
  | nil => simpa using h
  | snoc _ hst ih => rw [← List.append_assoc]; exact .snoc ih hst

/-- A computed run is a run. -/
theorem run_of_exec {step : S → A → Option S} {s s' : S} {as : List A}
    (h : exec step s as = some s') : Run step s (execTrace step s as) s' := by
  induction as generalizing s with
  | nil => simp only [exec, Option.some.injEq] at h; subst h; exact .nil
  | cons a as ih =>
    simp only [exec, Option.bind_eq_some_iff] at h
    obtain ⟨t, ht, h⟩ := h
    have h1 : Run step s [(s, a)] t := by simpa using Run.snoc (.nil : Run step s [] s) ht
    have h2 := run_append h1 (ih h)
    simpa [execTrace, ht] using h2

/-- A computed run whose last state passes a test. -/
theorem exists_run (step : S → A → Option S) (s : S) (as : List A) (P : S → Bool)
    (h : (exec step s as).any P = true) :
    ∃ s', Run step s (execTrace step s as) s' ∧ P s' = true := by
  cases he : exec step s as with
  | none => rw [he] at h; cases h
  | some s' => rw [he] at h; exact ⟨s', run_of_exec he, h⟩

end Trans
