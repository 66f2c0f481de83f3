import Tun2Simple.Stack.Proof.Dns

/-!
# The pivot of `dnsHandler`

`Safe`: what a restart of the pivot must not do to the handler. `restart_safe`: every run is safe in
which no read of a `dnsWaitResponse` fails and `setupPivot` touches only a pivot that failed
(`Calm`). The first is needed because every `dnsWaitResponse` that ends runs `close`, which stops
the ticker and closes whatever is the pivot by then (`exit_unsafe`); `old_reader_closes_new_pivot`
is the usual course of a restart. The second because two `ReceiveTo` calls that failed on one pivot
both replace it.
-/

namespace Dns

open Trans Pool

/-- The goroutine reads from socket `k`, which is the pivot, or will read from the pivot next, or is
about to start one that does. -/
def P.serves (k : Nat) : P → Bool
  | .wait | .reply _ | .lookup _ _ | .touch _ _ _ | .writeFrom _ _ _ | .restart => true
  | .read j => j == k
  | _ => false

/-- A restart is safe: a `dnsWaitResponse` that ends closes no socket but the one it read from, does
not stop the ticker and drops no entry that was added after its pivot was replaced; and a socket that
`setupPivot` installed is the pivot, is open and is read from until a write or a read on it fails. -/
structure Safe (s : State S P) : Prop where
  closes : ∀ k j, Ev.closePivot (.reader k) j ∈ s.shared.log → j = k
  ticker : ∀ k, Ev.stopTicker (.reader k) ∉ s.shared.log
  drops : ∀ k e, Ev.drop (.reader k) e ∈ s.shared.log → (s.shared.entry e).pivot = k
  pivot : ∀ k, (s.shared.sock k).installed = true → (s.shared.sock k).failed = false →
    k = s.shared.pivot ∧ (s.shared.sock k).closed = false ∧ ∃ g < s.n, (s.thread g).serves k = true

/-- The context is not cancelled. -/
def CtxLives (s : State S P) : Act (Nat × Bytes) E → Prop
  | .start _ => True
  | .sec g e => ¬ (s.thread g = .runtime ∧ e = .cancel)

/-- No read fails, and `setupPivot` closes and replaces only a pivot on which a write or a read has
failed. -/
def S.calm (s : S) : P → E → Bool
  | .read _, .read none => false
  | .setupClose k, _ => (s.sock k).failed
  | .install _, _ => (s.sock s.pivot).failed
  | _, _ => true

/-- The step is calm. -/
def Calm (s : State S P) : Act (Nat × Bytes) E → Prop
  | .start _ => True
  | .sec g e => s.shared.calm (s.thread g) e = true

instance (s : State S P) : (a : Act (Nat × Bytes) E) → Decidable (CtxLives s a)
  | .start _ => .isTrue trivial
  | .sec _ _ => inferInstanceAs (Decidable (¬ (_ ∧ _)))

instance (s : State S P) : (a : Act (Nat × Bytes) E) → Decidable (Calm s a)
  | .start _ => .isTrue trivial
  | .sec g e => inferInstanceAs (Decidable (s.shared.calm (s.thread g) e = true))

/-! ## The invariant -/

/-- The goroutine runs `close`. -/
def P.closing : P → Bool
  | .close _ | .closePivot _ | .closeSock _ _ | .stop _ => true
  | _ => false

structure PivotOk (s : S) : Prop where
  log : s.log = []
  ctx : s.ctxDone = false
  closed : ∀ k, (s.sock k).closed = true → (s.sock k).failed = true
  only : ∀ k, (s.sock k).installed = true → (s.sock k).failed = false → k = s.pivot

section
variable {unpack : Bytes → Option Msg} {s s' : S} {p p' : P} {e : E} {new : Option P}

theorem PivotOk.of_eq (h : PivotOk s) (hlog : s'.log = s.log) (hctx : s'.ctxDone = s.ctxDone)
    (hsock : s'.sock = s.sock) (hp : s'.pivot = s.pivot) : PivotOk s' := by
  refine ⟨hlog.trans h.log, hctx.trans h.ctx, ?_, ?_⟩
  · rw [hsock]; exact h.closed
  · rw [hsock, hp]; exact h.only

theorem PivotOk.fail (h : PivotOk s) (k : Nat) : PivotOk (s.fail k) := by
  refine ⟨h.log, h.ctx, fun j hj => ?_, fun j hi hf => ?_⟩
  · by_cases hjk : j = k
    · subst hjk
      simp [S.fail, S.setSock]
    · simp only [S.fail, S.setSock, Function.update_of_ne hjk] at hj ⊢
      exact h.closed j hj
  · by_cases hjk : j = k
    · subst hjk
      simp [S.fail, S.setSock] at hf
    · simp only [S.fail, S.setSock, Function.update_of_ne hjk] at hi hf
      exact h.only j hi hf

/-- `setupPivot` closes a pivot that failed. -/
theorem PivotOk.closeSock (h : PivotOk s) {k : Nat} (hk : (s.sock k).failed = true) :
    PivotOk (s.closeSock k) := by
  refine ⟨h.log, h.ctx, fun j hj => ?_, fun j hi hf => ?_⟩
  · by_cases hjk : j = k
    · subst hjk
      simpa [S.closeSock, S.setSock] using hk
    · simp only [S.closeSock, S.setSock, Function.update_of_ne hjk] at hj ⊢
      exact h.closed j hj
  · by_cases hjk : j = k
    · subst hjk
      simp [S.closeSock, S.setSock, hk] at hf
    · simp only [S.closeSock, S.setSock, Function.update_of_ne hjk] at hi hf
      exact h.only j hi hf

theorem PivotOk.listen (h : PivotOk s) : PivotOk s.listen := by
  refine ⟨h.log, h.ctx, fun j hj => ?_, fun j hi hf => ?_⟩
  · by_cases hjk : j = s.socks
    · subst hjk
      simp [S.listen] at hj
    · simp only [S.listen, Function.update_of_ne hjk] at hj ⊢
      exact h.closed j hj
  · by_cases hjk : j = s.socks
    · subst hjk
      simp [S.listen] at hi
    · simp only [S.listen, Function.update_of_ne hjk] at hi hf
      exact h.only j hi hf

/-- The pivot that is replaced failed, so the new one is the only one that is in use. -/
theorem PivotOk.install (h : PivotOk s) (k : Nat) (hp : (s.sock s.pivot).failed = true) :
    PivotOk (s.install k) := by
  refine ⟨h.log, h.ctx, fun j hj => ?_, fun j hi hf => ?_⟩
  · by_cases hjk : j = k
    · subst hjk
      simp only [S.install, S.setSock, Function.update_self] at hj ⊢
      exact h.closed j hj
    · simp only [S.install, S.setSock, Function.update_of_ne hjk] at hj ⊢
      exact h.closed j hj
  · by_cases hjk : j = k
    · exact hjk
    · simp only [S.install, S.setSock, Function.update_of_ne hjk] at hi hf
      rw [h.only j hi hf, hp] at hf
      cases hf

/-- What a section keeps. -/
theorem PivotOk.sec (h : PivotOk s) (hp : p.closing = false) (hc : s.calm p e = true)
    (hx : ¬ (p = .runtime ∧ e = .cancel)) (hs : Sec unpack s p e s' p' new) :
    PivotOk s' ∧ p'.closing = false := by
  cases hs with
  | writeFail c d k => exact ⟨h.fail k, rfl⟩
  | setupClose k => exact ⟨h.closeSock hc, rfl⟩
  | listen => exact ⟨h.listen, rfl⟩
  | install k => exact ⟨h.install k hc, rfl⟩
  | readFail k => cases hc
  | close w => cases hp
  | closePivot w => cases hp
  | closeSock w k => cases hp
  | stop w => cases hp
  | ctxDone hd => rw [h.ctx] at hd; cases hd
  | cancel => exact absurd ⟨rfl, rfl⟩ hx
  | scanned tim toDelete =>
    refine ⟨h.of_eq rfl rfl rfl rfl, ?_⟩
    split <;> rfl
  | _ => exact ⟨h.of_eq rfl rfl rfl rfl, rfl⟩

/-- Only `setupPivot` changes the pivot, and a new `dnsWaitResponse` is started next. -/
theorem Sec.pivot (hs : Sec unpack s p e s' p' new) : s'.pivot = s.pivot ∨ p' = .restart := by
  cases hs with
  | install k => exact .inr rfl
  | _ => exact .inl rfl

/-- A `dnsWaitResponse` stays with the pivot. -/
theorem Sec.serves (hs : Sec unpack s p e s' p' new) (hp : p.serves s.pivot = true)
    (hc : s.calm p e = true) : p'.serves s'.pivot = true ∨ new = some .wait := by
  cases hs with
  | wait => exact .inl (by simp [P.serves])
  | readFail k => cases hc
  | restart => exact .inr rfl
  | read | unparsed | parsed | missing | noAnswers | found | touch | writeFrom | writeFromFail =>
    exact .inl rfl
  | _ => cases hp

end

/-! ## Runs -/

section
variable {unpack : Bytes → Option Msg} {s s' : State S P} {a : Act (Nat × Bytes) E}
  {tr : List (State S P × Act (Nat × Bytes) E)}

/-- Some goroutine serves the pivot. -/
def Served (s : State S P) : Prop := ∃ g < s.n, (s.thread g).serves s.shared.pivot = true

theorem served_step (h : Served s) (hc : Calm s a)
    (hs : Pool.step (dnsHandler unpack) s a = some s') : Served s' := by
  obtain ⟨g, hg, hserves⟩ := h
  obtain ⟨b, x, t, rfl, hst, rfl⟩ | ⟨g', e, x, t, new, rfl, hg', hsec, rfl⟩ := step_cases hs
  · cases hst
    refine ⟨g, Nat.lt_succ_of_lt hg, ?_⟩
    rw [s.start_thread_lt _ _ hg]
    exact hserves
  · have hspec := sec_spec hsec
    rcases hspec.pivot with hpiv | rfl
    · by_cases hgg : g = g'
      · subst hgg
        rcases hspec.serves hserves hc with ht | rfl
        · refine ⟨g, Nat.lt_of_lt_of_le hg (s.le_sec_n _ _ _ _), ?_⟩
          rw [s.sec_thread_self]
          exact ht
        · -- the goroutine that it starts takes over
          refine ⟨s.n, Nat.lt_succ_self _, ?_⟩
          rw [s.sec_thread_new _ _ _ hg]
          rfl
      · refine ⟨g, Nat.lt_of_lt_of_le hg (s.le_sec_n _ _ _ _), ?_⟩
        rw [s.sec_thread_lt _ _ _ hgg hg, State.sec_shared, hpiv]
        exact hserves
    · refine ⟨g', Nat.lt_of_lt_of_le hg' (s.le_sec_n _ _ _ _), ?_⟩
      rw [s.sec_thread_self]
      rfl

theorem pivotOk_step (h : Holds PivotOk (fun _ _ p => p.closing = false) s) (hx : CtxLives s a)
    (hc : Calm s a) (hs : Pool.step (dnsHandler unpack) s a = some s') :
    Holds PivotOk (fun _ _ p => p.closing = false) s' := by
  refine h.step hs (fun b x t _ hst => ?_) (fun g e x t new ha hg hsec => ?_)
  · cases hst
    exact ⟨h.shared, rfl, fun _ _ => id⟩
  · subst ha
    have hspec := sec_spec hsec
    obtain ⟨hok, hp⟩ := h.shared.sec (h.thread g hg) hc hx hspec
    refine ⟨hok, hp, fun u hu => ?_, fun _ _ _ => id⟩
    rw [hspec.new_eq_wait u hu]
    rfl

theorem pivotOk_init : Holds PivotOk (fun _ _ p => p.closing = false) init where
  shared := ⟨rfl, rfl, by simp [init], by simp [init]⟩
  thread g hg := by
    have hg' : g < 3 := hg
    obtain rfl | rfl | rfl : g = 0 ∨ g = 1 ∨ g = 2 := by omega
    · rfl
    · rfl
    · rfl

theorem safe_of_pivotOk (h : Holds PivotOk (fun _ _ p => p.closing = false) s) (hv : Served s) :
    Safe s where
  closes k j hm := by rw [h.shared.log] at hm; cases hm
  ticker k hm := by rw [h.shared.log] at hm; cases hm
  drops k e hm := by rw [h.shared.log] at hm; cases hm
  pivot k hi hf := by
    obtain rfl := h.shared.only k hi hf
    refine ⟨rfl, ?_, hv⟩
    rw [← Bool.not_eq_true]
    intro hc
    rw [h.shared.closed _ hc] at hf
    cases hf

/-- The restart of the pivot is safe in every calm run, whatever writes fail. -/
theorem restart_safe (hr : Run (Pool.step (dnsHandler unpack)) init tr s)
    (hx : Meets CtxLives tr) (hc : Meets Calm tr) : Safe s := by
  have key : Holds PivotOk (fun _ _ p => p.closing = false) s ∧ Served s := by
    refine hr.inv (C := fun s a => CtxLives s a ∧ Calm s a)
      (P := fun s => Holds PivotOk (fun _ _ p => p.closing = false) s ∧ Served s)
      (fun x hm => ⟨hx x hm, hc x hm⟩) ⟨pivotOk_init, 0, by decide, rfl⟩ fun t a t' h hc hs => ?_
    exact ⟨pivotOk_step h.1 hc.1 hc.2 hs, served_step h.2 hc.2 hs⟩
  exact safe_of_pivotOk key.1 key.2

/-- A `dnsWaitResponse` whose read failed, left to itself, stops the ticker. -/
theorem exit_unsafe {g k : Nat} (hg : g < s.n) (hp : s.thread g = .close (.reader k))
    (hl : s.shared.rLocked = false) :
    Alone (dnsHandler unpack) .none g (fun s' => ¬ Safe s') s := by
  have hs : sec unpack s.shared (.close (.reader k)) .none =
      some (s.shared.drop (.reader k), .closePivot (.reader k), none) := by
    simp [sec, closeSec, hl]
  refine .sec hg hp hs fun hg₁ => ?_
  refine .sec hg₁ (s.sec_thread_self _ _ _ _) rfl fun hg₂ => ?_
  refine .sec hg₂ (State.sec_thread_self _ _ _ _ _) rfl fun hg₃ => ?_
  refine .sec hg₃ (State.sec_thread_self _ _ _ _ _) rfl fun _ => .here fun hsafe => ?_
  exact hsafe.ticker k (List.mem_append_right _ (List.mem_singleton_self _))

end

/-- A `ReceiveTo` of connection `c` as goroutine `g` whose write fails and that restarts
the pivot. -/
def failAndRestart (g c : Nat) (data : Bytes) : List (Act (Nat × Bytes) E) :=
  [.start (c, data), .sec g .none, .sec g (.write false), .sec g .none, .sec g .none, .sec g .none,
    .sec g (.listen true), .sec g .none, .sec g .none]

/-- A write fails while the `dnsWaitResponse` deals with a reply: it goes on with the new pivot, from
which the next query is sent and answered, and nobody reads from the closed socket. -/
theorem restart_safe_answered :
    ∃ tr s, Run (Pool.step (dnsHandler unpackHeader)) init tr s ∧ Meets CtxLives tr ∧
      Meets Calm tr ∧ s.shared.pivot = 1 ∧ (s.shared.sock 0).closed = true ∧
      (∀ g < s.n, s.thread g ≠ .read 0) ∧
      s.shared.handled = [⟨⟨replyOf 1 2, some 0⟩, .written 10, 0⟩,
        ⟨⟨replyOf 5 6, some 1⟩, .written 12, 0⟩] ∧ Safe s := by
  let acts := ask 3 10 (queryOf 1 2) ++ [.sec 0 .none, .sec 0 (.read (some ⟨replyOf 1 2, some 0⟩))] ++
    failAndRestart 4 11 (queryOf 3 4) ++ [.sec 0 .none, .sec 0 .none, .sec 0 .none, .sec 0 .none] ++
    ask 6 12 (queryOf 5 6) ++ answer ⟨replyOf 5 6, some 1⟩ ++ [.sec 5 .none]
  obtain ⟨s, hr, hs⟩ := exists_run (Pool.step (dnsHandler unpackHeader)) init acts
    (fun s => decide (s.shared.pivot = 1 ∧ (s.shared.sock 0).closed = true ∧
      (∀ g < s.n, s.thread g ≠ .read 0) ∧
      s.shared.handled = [⟨⟨replyOf 1 2, some 0⟩, .written 10, 0⟩,
        ⟨⟨replyOf 5 6, some 1⟩, .written 12, 0⟩])) (by decide +kernel)
  obtain ⟨h1, h2, h3, h4⟩ := of_decide_eq_true hs
  have hx : Meets CtxLives (execTrace (Pool.step (dnsHandler unpackHeader)) init acts) := by
    decide +kernel
  have hc : Meets Calm (execTrace (Pool.step (dnsHandler unpackHeader)) init acts) := by
    decide +kernel
  exact ⟨_, s, hr, hx, hc, h1, h2, h3, h4, restart_safe hr hx hc⟩

/-- The read of the old `dnsWaitResponse` fails because `setupPivot` closed its socket: the deferred
`close` closes the new pivot and stops the ticker. -/
theorem old_reader_closes_new_pivot :
    ¬ ∀ tr s, Run (Pool.step (dnsHandler unpackHeader)) init tr s → Meets CtxLives tr → Safe s := by
  intro h
  let acts := .sec 0 .none :: failAndRestart 3 10 (queryOf 1 2) ++
    [.sec 0 (.read none), .sec 0 .none, .sec 0 .none, .sec 0 .none, .sec 0 .none]
  obtain ⟨s, hr, hs⟩ := exists_run (Pool.step (dnsHandler unpackHeader)) init acts
    (fun s => decide (Ev.closePivot (.reader 0) 1 ∈ s.shared.log)) (by decide +kernel)
  have hx : Meets CtxLives (execTrace (Pool.step (dnsHandler unpackHeader)) init acts) := by
    decide +kernel
  have hsafe := h _ s hr hx
  exact absurd (hsafe.closes 0 1 (of_decide_eq_true hs)) (by decide)

end Dns
