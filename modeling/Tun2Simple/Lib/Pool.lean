import Mathlib.Algebra.BigOperators.Group.Finset.Basic
import Mathlib.Tactic.Abel
import Tun2Simple.Lib.Run

/-!
# Pools of threads over a shared state

A program (`Prog`) says how a thread is started from outside and what the next section of a thread
does: it changes the shared state and the thread and may start one more thread. `step` runs one
section of one thread, so a `Trans.Run` of it is an interleaving of the threads' sections.

`Holds I L`: `I` of the shared state and `L` of every thread. `Holds.step` is the invariant rule
(each section keeps `I`, re-establishes `L` for its own thread and keeps the `L` of the others);
`step_cases` is the inversion it rests on. `Alone` is what one thread can do without the others,
`total` sums a quantity over the threads.
-/

namespace Pool

open Trans

variable {σ τ A E : Type}

structure Prog (σ τ A E : Type) where
  /-- A thread with the given number is started from outside. -/
  start : σ → Nat → A → Option (σ × τ)
  /-- The next section of a thread; the last part is a thread that it starts. -/
  sec : σ → Nat → τ → E → Option (σ × τ × Option τ)

structure State (σ τ : Type) where
  shared : σ
  n : Nat
  thread : Nat → τ

inductive Act (A E : Type)
  | start (a : A)
  /-- The next section of thread `g`. -/
  | sec (g : Nat) (e : E)

namespace State

variable (s : State σ τ)

/-- One more thread. -/
def start (x : σ) (t : τ) : State σ τ := ⟨x, s.n + 1, Function.update s.thread s.n t⟩

/-- Thread `g` ran a section. -/
def sec (g : Nat) (x : σ) (t : τ) (new : Option τ) : State σ τ where
  shared := x
  n := s.n + if new.isSome then 1 else 0
  thread := Function.update (new.elim s.thread (Function.update s.thread s.n)) g t

@[simp] theorem start_shared (x : σ) (t : τ) : (s.start x t).shared = x := rfl
@[simp] theorem start_n (x : σ) (t : τ) : (s.start x t).n = s.n + 1 := rfl
@[simp] theorem sec_shared (g : Nat) (x : σ) (t : τ) (new : Option τ) :
    (s.sec g x t new).shared = x := rfl

@[simp] theorem start_thread_self (x : σ) (t : τ) : (s.start x t).thread s.n = t := by
  simp [start]

theorem start_thread_lt (x : σ) (t : τ) {g : Nat} (h : g < s.n) :
    (s.start x t).thread g = s.thread g := by
  simp [start, Nat.ne_of_lt h]

@[simp] theorem sec_thread_self (g : Nat) (x : σ) (t : τ) (new : Option τ) :
    (s.sec g x t new).thread g = t := by
  simp [sec]

theorem sec_thread_lt {g g' : Nat} (x : σ) (t : τ) (new : Option τ) (hg : g' ≠ g)
    (h : g' < s.n) : (s.sec g x t new).thread g' = s.thread g' := by
  cases new <;> simp [sec, hg, Nat.ne_of_lt h]

theorem sec_thread_new {g : Nat} (x : σ) (t u : τ) (hg : g < s.n) :
    (s.sec g x t (some u)).thread s.n = u := by
  simp [sec, Nat.ne_of_gt hg]

theorem le_sec_n (g : Nat) (x : σ) (t : τ) (new : Option τ) : s.n ≤ (s.sec g x t new).n :=
  Nat.le_add_right _ _

theorem sec_n_lt {g g' : Nat} {x : σ} {t : τ} {new : Option τ} (h : g' < (s.sec g x t new).n) :
    g' < s.n ∨ g' = s.n ∧ new.isSome = true := by
  cases hn : new.isSome
  · left; simpa [sec, hn] using h
  · have h' : g' < s.n + 1 := by simpa [sec, hn] using h
    rcases Nat.lt_succ_iff_lt_or_eq.1 h' with h' | h'
    · exact .inl h'
    · exact .inr ⟨h', rfl⟩

end State

def step (P : Prog σ τ A E) (s : State σ τ) : Act A E → Option (State σ τ)
  | .start a => (P.start s.shared s.n a).map fun r => s.start r.1 r.2
  | .sec g e =>
    if g < s.n then (P.sec s.shared g (s.thread g) e).map fun r => s.sec g r.1 r.2.1 r.2.2
    else none

section
variable {P : Prog σ τ A E} {s s' : State σ τ} {a : Act A E}

/-- What a step can do. -/
theorem step_cases (h : step P s a = some s') :
    (∃ b x t, a = .start b ∧ P.start s.shared s.n b = some (x, t) ∧ s' = s.start x t) ∨
      ∃ g e x t new, a = .sec g e ∧ g < s.n ∧ P.sec s.shared g (s.thread g) e = some (x, t, new) ∧
        s' = s.sec g x t new := by
  cases a with
  | start b =>
    simp only [step, Option.map_eq_some_iff] at h
    obtain ⟨⟨x, t⟩, hr, rfl⟩ := h
    exact .inl ⟨b, x, t, rfl, hr, rfl⟩
  | sec g e =>
    simp only [step] at h
    split at h
    · rename_i hg
      simp only [Option.map_eq_some_iff] at h
      obtain ⟨⟨x, t, new⟩, hr, rfl⟩ := h
      exact .inr ⟨g, e, x, t, new, rfl, hg, hr, rfl⟩
    · cases h

/-- Threads are never taken out of the pool. -/
theorem step_n_le (h : step P s a = some s') : s.n ≤ s'.n := by
  obtain ⟨b, x, t, rfl, -, rfl⟩ | ⟨g, e, x, t, new, rfl, -, -, rfl⟩ := step_cases h
  · exact Nat.le_succ _
  · exact s.le_sec_n g x t new

/-- A thread after a step: the one that ran, one that was started, or as before. -/
theorem step_thread (h : step P s a = some s') {g : Nat} (hg : g < s.n)
    (hne : ∀ e, a ≠ .sec g e) : s'.thread g = s.thread g := by
  obtain ⟨b, x, t, rfl, -, rfl⟩ | ⟨g', e, x, t, new, rfl, -, -, rfl⟩ := step_cases h
  · exact s.start_thread_lt x t hg
  · refine s.sec_thread_lt x t new ?_ hg
    rintro rfl
    exact hne e rfl

/-! ## Invariants -/

/-- `I` of the shared state and `L` of every thread. -/
structure Holds (I : σ → Prop) (L : σ → Nat → τ → Prop) (s : State σ τ) : Prop where
  shared : I s.shared
  thread : ∀ g < s.n, L s.shared g (s.thread g)

variable {I : σ → Prop} {L : σ → Nat → τ → Prop}

theorem Holds.start (h : Holds I L s) {x : σ} {t : τ} (hI : I x) (ht : L x s.n t)
    (ho : ∀ g < s.n, L s.shared g (s.thread g) → L x g (s.thread g)) : Holds I L (s.start x t) := by
  refine ⟨hI, fun g hg => ?_⟩
  rcases Nat.lt_succ_iff_lt_or_eq.1 hg with hg | rfl
  · rw [s.start_thread_lt x t hg]
    exact ho g hg (h.thread g hg)
  · rw [s.start_thread_self]
    exact ht

theorem Holds.sec (h : Holds I L s) {g : Nat} {x : σ} {t : τ} {new : Option τ} (hg : g < s.n)
    (hI : I x) (ht : L x g t) (hn : ∀ u ∈ new, L x s.n u)
    (ho : ∀ g' < s.n, g' ≠ g → L s.shared g' (s.thread g') → L x g' (s.thread g')) :
    Holds I L (s.sec g x t new) := by
  refine ⟨hI, fun g' hg' => ?_⟩
  by_cases hgg : g' = g
  · subst hgg
    rw [s.sec_thread_self]
    exact ht
  · rcases s.sec_n_lt hg' with hlt | ⟨rfl, hnew⟩
    · rw [s.sec_thread_lt x t new hgg hlt]
      exact ho g' hlt hgg (h.thread g' hlt)
    · obtain ⟨u, rfl⟩ := Option.isSome_iff_exists.1 hnew
      rw [s.sec_thread_new x t u hg]
      exact hn u rfl

/-- The invariant rule for one step (module doc). -/
theorem Holds.step (h : Holds I L s) (hs : step P s a = some s')
    (hstart : ∀ b x t, a = .start b → P.start s.shared s.n b = some (x, t) →
      I x ∧ L x s.n t ∧ ∀ g < s.n, L s.shared g (s.thread g) → L x g (s.thread g))
    (hsec : ∀ g e x t new, a = .sec g e → g < s.n →
      P.sec s.shared g (s.thread g) e = some (x, t, new) →
      I x ∧ L x g t ∧ (∀ u ∈ new, L x s.n u) ∧
        ∀ g' < s.n, g' ≠ g → L s.shared g' (s.thread g') → L x g' (s.thread g')) :
    Holds I L s' := by
  obtain ⟨b, x, t, rfl, hr, rfl⟩ | ⟨g, e, x, t, new, rfl, hg, hr, rfl⟩ := step_cases hs
  · obtain ⟨hI, ht, ho⟩ := hstart b x t rfl hr
    exact h.start hI ht ho
  · obtain ⟨hI, ht, hn, ho⟩ := hsec g e x t new rfl hg hr
    exact h.sec hg hI ht hn ho

/-- No token is owned by two threads. -/
def Unique {κ : Type} (own : τ → κ → Prop) (s : State σ τ) : Prop :=
  ∀ g < s.n, ∀ g' < s.n, ∀ k, own (s.thread g) k → own (s.thread g') k → g = g'

theorem Unique.start {κ : Type} {own : τ → κ → Prop} (h : Unique own s) {x : σ} {t : τ}
    (ht : ∀ k, ¬ own t k) : Unique own (s.start x t) := by
  have old : ∀ g < s.n + 1, ∀ k, own ((s.start x t).thread g) k →
      g < s.n ∧ own (s.thread g) k := by
    intro g hg k hk
    rcases Nat.lt_succ_iff_lt_or_eq.1 hg with hg | rfl
    · rw [s.start_thread_lt x t hg] at hk
      exact ⟨hg, hk⟩
    · rw [s.start_thread_self] at hk
      exact absurd hk (ht k)
  intro g hg g' hg' k hk hk'
  obtain ⟨hlt, hk⟩ := old g hg k hk
  obtain ⟨hlt', hk'⟩ := old g' hg' k hk'
  exact h g hlt g' hlt' k hk hk'

/-- A section hands a token of its thread, or a fresh one, on to its thread or to the one that it
starts. -/
theorem Unique.sec {κ : Type} {own : τ → κ → Prop} (h : Unique own s) {g : Nat} (hg : g < s.n)
    {x : σ} {t : τ} {new : Option τ}
    (ht : ∀ k, own t k → own (s.thread g) k ∨ ∀ g' < s.n, ¬ own (s.thread g') k)
    (hn : ∀ u ∈ new, ∀ k, own u k → own (s.thread g) k ∧ ¬ own t k) :
    Unique own (s.sec g x t new) := by
  -- who owns a token afterwards: a thread that did not run and had it, or `g`, or the new thread
  have cases : ∀ g' < (s.sec g x t new).n, ∀ k, own ((s.sec g x t new).thread g') k →
      (g' < s.n ∧ g' ≠ g ∧ own (s.thread g') k) ∨ (g' = g ∧ own t k) ∨
        (g' = s.n ∧ own (s.thread g) k ∧ ¬ own t k) := by
    intro g' hg' k hk
    by_cases hgg : g' = g
    · subst hgg
      rw [s.sec_thread_self] at hk
      exact .inr (.inl ⟨rfl, hk⟩)
    · rcases s.sec_n_lt hg' with hlt | ⟨rfl, hnew⟩
      · rw [s.sec_thread_lt x t new hgg hlt] at hk
        exact .inl ⟨hlt, hgg, hk⟩
      · obtain ⟨u, rfl⟩ := Option.isSome_iff_exists.1 hnew
        rw [s.sec_thread_new x t u hg] at hk
        exact .inr (.inr ⟨rfl, hn u rfl k hk⟩)
  -- what a thread that did not run owns, `g` neither had nor has
  have other : ∀ g' < s.n, g' ≠ g → ∀ k, own (s.thread g') k → ¬ own (s.thread g) k ∧ ¬ own t k := by
    intro g' hlt hne k hk
    have hno : ¬ own (s.thread g) k := fun hg' => hne (h g' hlt g hg k hk hg')
    refine ⟨hno, fun htk => ?_⟩
    rcases ht k htk with hgk | hfresh
    · exact hno hgk
    · exact hfresh g' hlt hk
  intro g₁ h₁ g₂ h₂ k hk₁ hk₂
  rcases cases g₁ h₁ k hk₁ with ⟨hl₁, hn₁, ho₁⟩ | ⟨rfl, ho₁⟩ | ⟨rfl, ho₁, hno₁⟩ <;>
    rcases cases g₂ h₂ k hk₂ with ⟨hl₂, hn₂, ho₂⟩ | ⟨he₂, ho₂⟩ | ⟨he₂, ho₂, hno₂⟩
  · exact h g₁ hl₁ g₂ hl₂ k ho₁ ho₂
  · exact absurd ho₂ (other g₁ hl₁ hn₁ k ho₁).2
  · exact absurd ho₂ (other g₁ hl₁ hn₁ k ho₁).1
  · exact absurd ho₁ (other g₂ hl₂ hn₂ k ho₂).2
  · exact he₂.symm
  · exact absurd ho₁ hno₂
  · exact absurd ho₁ (other g₂ hl₂ hn₂ k ho₂).1
  · exact absurd ho₂ hno₁
  · exact he₂.symm

/-! ## A thread on its own -/

/-- Sections of thread `g` alone, each with `e` from outside, lead to a state with `Q`. -/
def Alone (P : Prog σ τ A E) (e : E) (g : Nat) (Q : State σ τ → Prop) (s : State σ τ) : Prop :=
  ∃ k s', exec (step P) s (List.replicate k (.sec g e)) = some s' ∧ Q s'

theorem Alone.here {e : E} {g : Nat} {Q : State σ τ → Prop} (h : Q s) : Alone P e g Q s :=
  ⟨0, s, rfl, h⟩

theorem Alone.sec {e : E} {g : Nat} {Q : State σ τ → Prop} {t t' : τ} {x : σ} {new : Option τ}
    (hg : g < s.n) (ht : s.thread g = t) (hs : P.sec s.shared g t e = some (x, t', new))
    (h : g < (s.sec g x t' new).n → Alone P e g Q (s.sec g x t' new)) : Alone P e g Q s := by
  obtain ⟨k, s', he, hq⟩ := h (Nat.lt_of_lt_of_le hg (s.le_sec_n g x t' new))
  refine ⟨k + 1, s', ?_, hq⟩
  have hstep : step P s (.sec g e) = some (s.sec g x t' new) := by
    simp [step, hg, ht, hs]
  rw [List.replicate_succ, exec, hstep]
  exact he

/-! ## Sums over the threads -/

/-- What the threads have of a quantity, together. -/
def total {M : Type} [AddCommMonoid M] (f : τ → M) (s : State σ τ) : M :=
  ∑ g ∈ Finset.range s.n, f (s.thread g)

section
variable {M : Type} [AddCommMonoid M] {f : τ → M}

theorem total_start (x : σ) (t : τ) : total f (s.start x t) = total f s + f t := by
  simp only [total, State.start_n, Finset.sum_range_succ, State.start_thread_self]
  congr 1
  refine Finset.sum_congr rfl fun g hg => ?_
  rw [s.start_thread_lt x t (Finset.mem_range.1 hg)]

/-- The thread that ran a section and the one it starts in place of the thread before. -/
theorem total_sec {g : Nat} (hg : g < s.n) (x : σ) (t : τ) (new : Option τ) :
    total f (s.sec g x t new) + f (s.thread g) = total f s + f t + new.elim 0 f := by
  have hmem : g ∈ Finset.range s.n := Finset.mem_range.2 hg
  have hsum : ∑ g' ∈ Finset.range s.n, f ((s.sec g x t new).thread g') =
      f t + ∑ g' ∈ (Finset.range s.n).erase g, f (s.thread g') := by
    rw [← Finset.add_sum_erase _ _ hmem, s.sec_thread_self]
    congr 1
    refine Finset.sum_congr rfl fun g' hg' => ?_
    obtain ⟨hne, hlt⟩ := Finset.mem_erase.1 hg'
    rw [s.sec_thread_lt x t new hne (Finset.mem_range.1 hlt)]
  have hold : total f s = f (s.thread g) + ∑ g' ∈ (Finset.range s.n).erase g, f (s.thread g') :=
    (Finset.add_sum_erase _ _ hmem).symm
  have hnew : total f (s.sec g x t new) =
      ∑ g' ∈ Finset.range s.n, f ((s.sec g x t new).thread g') + new.elim 0 f := by
    cases new with
    | none => simp [total, State.sec]
    | some u =>
      have hn : (s.sec g x t (some u)).n = s.n + 1 := rfl
      rw [total, hn, Finset.sum_range_succ, s.sec_thread_new x t u hg, Option.elim_some]
  rw [hnew, hsum, hold]
  abel

end

end

end Pool
