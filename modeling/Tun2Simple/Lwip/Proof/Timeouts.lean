import Tun2Simple.Lib.Run
import Tun2Simple.Lib.Serial
import Tun2Simple.Lwip.Timeouts

/-!
# The timers run on time

The list holds the times modulo 2^32. As long as no timeout is overdue by `lateMax` milliseconds
(`Prompt`), it is the list of the real times (`Timed`): it stays in order and keeps every timer
(`timeouts_kept`), and a check calls the timers that are due, all of them and in order
(`check_timely`). A sleep of any length does no harm if the timeouts are restarted then. A cyclic timer
whose calls are less than a second late does not drift (`cyclic_no_drift`).
-/

namespace Lwip

open Serial Trans

theorem Cyclic.intervalMs_eq (c : Cyclic) : c.intervalMs = 1000 := by cases c <;> rfl

namespace Timeouts

/-! ## Times -/

/-- How long a timeout may be overdue. -/
def lateMax : Nat := 2 ^ 29

theorem timeLessThan_at {x y : Nat} (h1 : x < y + 2 ^ 31) (h2 : y < x + 2 ^ 31) :
    timeLessThan (at_ 0 x) (at_ 0 y) = decide (x < y) := by
  have hd := @toInt_at_sub_at 32 0 x y (by omega) (by omega)
  rw [BitVec.toInt_eq_toNat_cond] at hd
  have hlt := (at_ 0 x - at_ 0 y : BitVec 32).isLt
  rw [timeLessThan, decide_eq_decide]
  split at hd <;> omega

theorem sysNow_eq (s : Timeouts) : s.sysNow = at_ 0 s.clock := (BitVec.zero_add _).symm

/-- The timeout of the handler at this time. -/
def timeo (d : Nat × Handler) : SysTimeo := ⟨at_ 0 d.1, d.2⟩

/-- In order of time. -/
def Sorted (ds : List (Nat × Handler)) : Prop := ds.Pairwise fun a b => a.1 ≤ b.1

theorem insertTimeout_spec {d : Nat × Handler} {ds : List (Nat × Handler)} (hs : Sorted ds)
    (hnear : ∀ x ∈ ds, d.1 < x.1 + 2 ^ 31 ∧ x.1 < d.1 + 2 ^ 31) :
    ∃ ds', insertTimeout (timeo d) (ds.map timeo) = ds'.map timeo ∧ Sorted ds' ∧ ds'.Perm (d :: ds) := by
  induction ds with
  | nil => exact ⟨[d], rfl, List.pairwise_singleton .., List.Perm.refl _⟩
  | cons t ts ih =>
    obtain ⟨ht, hts⟩ := List.pairwise_cons.1 hs
    obtain ⟨h1, h2⟩ := hnear t (List.mem_cons_self ..)
    have hcmp : timeLessThan (timeo d).time (timeo t).time = decide (d.1 < t.1) := timeLessThan_at h1 h2
    rw [List.map_cons, insertTimeout, hcmp]
    by_cases hlt : d.1 < t.1
    · refine ⟨d :: t :: ts, by simp [hlt], List.pairwise_cons.2 ⟨fun x hx => ?_, hs⟩, List.Perm.refl _⟩
      rcases List.mem_cons.1 hx with rfl | hx
      · exact Nat.le_of_lt hlt
      · exact Nat.le_trans (Nat.le_of_lt hlt) (ht x hx)
    · obtain ⟨ds', hins, hsorted, hperm⟩ := ih hts fun x hx => hnear x (List.mem_cons_of_mem _ hx)
      refine ⟨t :: ds', by simp [hlt, hins], List.pairwise_cons.2 ⟨fun x hx => ?_, hsorted⟩, ?_⟩
      · rcases List.mem_cons.1 (hperm.mem_iff.1 hx) with rfl | hx
        · exact Nat.le_of_not_lt hlt
        · exact ht x hx
      · exact (hperm.cons t).trans (List.Perm.swap ..)

/-- The list is that of the times and handlers `ds`, and none of them is far from now. -/
structure Timed (s : Timeouts) (ds : List (Nat × Handler)) : Prop where
  list : s.nextTimeout = ds.map timeo
  sorted : Sorted ds
  spread : ∀ d ∈ ds, ∀ d' ∈ ds, d'.1 ≤ d.1 + lateMax + 1000
  recent : ∀ d ∈ ds, s.clock < d.1 + lateMax
  soon : ∀ d ∈ ds, d.1 ≤ s.clock + lateMax + 1000

/-- A timeout in the next second. -/
theorem Timed.insert {s : Timeouts} {ds : List (Nat × Handler)} (h : Timed s ds) (d : Nat × Handler)
    (hge : s.clock ≤ d.1) (hle : d.1 ≤ s.clock + 1000) :
    ∃ ds', Timed (s.sysTimeoutAbs (at_ 0 d.1) d.2) ds' ∧ ds'.Perm (d :: ds) := by
  have hmax : lateMax = 2 ^ 29 := rfl
  obtain ⟨ds', hins, hsorted, hperm⟩ := insertTimeout_spec (d := d) h.sorted fun x hx => by
    have := h.recent x hx
    have := h.soon x hx
    omega
  have hmem : ∀ x ∈ ds', x = d ∨ x ∈ ds := fun x hx => List.mem_cons.1 (hperm.mem_iff.1 hx)
  refine ⟨ds', ⟨?_, hsorted, fun x hx y hy => ?_, fun x hx => ?_, fun x hx => ?_⟩, hperm⟩
  · rw [← hins, ← h.list]
    rfl
  · rcases hmem x hx with rfl | hx <;> rcases hmem y hy with rfl | hy
    · omega
    · have := h.soon y hy
      omega
    · have := h.recent x hx
      omega
    · exact h.spread x hx y hy
  · show s.clock < x.1 + lateMax
    rcases hmem x hx with rfl | hx
    · omega
    · exact h.recent x hx
  · show x.1 ≤ s.clock + lateMax + 1000
    rcases hmem x hx with rfl | hx
    · omega
    · exact h.soon x hx

theorem Timed.sysTimeout {s : Timeouts} {ds : List (Nat × Handler)} (h : Timed s ds) {msecs : Nat}
    (hms : msecs ≤ 1000) (hd : Handler) :
    ∃ ds', Timed (s.sysTimeout msecs hd) ds' ∧ ds'.Perm ((s.clock + msecs, hd) :: ds) := by
  rw [Timeouts.sysTimeout, sysNow_eq, at_add]
  exact h.insert (s.clock + msecs, hd) (Nat.le_add_right _ _) (Nat.add_le_add_left hms _)

/-- Time passes. -/
theorem Timed.later {s t : Timeouts} {ds : List (Nat × Handler)} (h : Timed s ds)
    (hl : t.nextTimeout = s.nextTimeout) (hc : s.clock ≤ t.clock) (hlate : ∀ d ∈ ds, t.clock < d.1 + lateMax) :
    Timed t ds where
  list := hl.trans h.list
  sorted := h.sorted
  spread := h.spread
  recent := hlate
  soon d hd := by
    have := h.soon d hd
    omega

theorem Timed.tail {s t : Timeouts} {d : Nat × Handler} {ds : List (Nat × Handler)} (h : Timed s (d :: ds))
    (hl : t.nextTimeout = ds.map timeo) (hc : t.clock = s.clock) : Timed t ds where
  list := hl
  sorted := (List.pairwise_cons.1 h.sorted).2
  spread x hx y hy := h.spread x (List.mem_cons_of_mem _ hx) y (List.mem_cons_of_mem _ hy)
  recent x hx := hc ▸ h.recent x (List.mem_cons_of_mem _ hx)
  soon x hx := hc ▸ h.soon x (List.mem_cons_of_mem _ hx)

/-- The times are moved to now, with their distances kept. -/
theorem Timed.restart {s : Timeouts} {ds : List (Nat × Handler)} (h : Timed s ds) (ms : Nat) :
    ∃ ds', Timed ({ s with clock := s.clock + ms } : Timeouts).sysRestartTimeouts ds' ∧
      ds'.map Prod.snd = ds.map Prod.snd := by
  cases ds with
  | nil =>
    refine ⟨[], ⟨?_, List.Pairwise.nil, ?_, ?_, ?_⟩, rfl⟩
    · rw [sysRestartTimeouts]
      simp [h.list]
    all_goals exact fun _ hd => by cases hd
  | cons e ds =>
    have hmin : ∀ d ∈ e :: ds, e.1 ≤ d.1 := by
      intro d hd
      rcases List.mem_cons.1 hd with rfl | hd
      · exact Nat.le_refl _
      · exact (List.pairwise_cons.1 h.sorted).1 d hd
    have hclock : ({ s with clock := s.clock + ms } : Timeouts).sysRestartTimeouts.clock = s.clock + ms := by
      rw [sysRestartTimeouts]
      split <;> rfl
    refine ⟨(e :: ds).map fun d => (d.1 - e.1 + (s.clock + ms), d.2), ⟨?_, ?_, ?_, ?_, ?_⟩, ?_⟩
    · have hnew : ({ s with clock := s.clock + ms } : Timeouts).sysRestartTimeouts.nextTimeout =
          ((e :: ds).map timeo).map fun x =>
            { x with time := x.time - at_ 0 e.1 + BitVec.ofNat 32 (s.clock + ms) } := by
        rw [sysRestartTimeouts]
        simp only [h.list]
        rfl
      rw [hnew, List.map_map, List.map_map]
      refine List.map_congr_left fun d hd => ?_
      show (⟨at_ 0 d.1 - at_ 0 e.1 + BitVec.ofNat 32 (s.clock + ms), d.2⟩ : SysTimeo) =
        ⟨at_ 0 (d.1 - e.1 + (s.clock + ms)), d.2⟩
      rw [at_sub_at 0 (hmin d hd), ← BitVec.ofNat_add]
      exact congrArg (fun t => (⟨t, d.2⟩ : SysTimeo)) (BitVec.zero_add _).symm
    · refine List.pairwise_map.2 (h.sorted.imp fun hab => ?_)
      dsimp only
      omega
    · intro x hx y hy
      obtain ⟨d, hd, rfl⟩ := List.mem_map.1 hx
      obtain ⟨d', hd', rfl⟩ := List.mem_map.1 hy
      have := h.spread d hd d' hd'
      have := hmin d hd
      have := hmin d' hd'
      dsimp only
      omega
    · intro x hx
      obtain ⟨d, hd, rfl⟩ := List.mem_map.1 hx
      rw [hclock]
      have hmax : lateMax = 2 ^ 29 := rfl
      dsimp only
      omega
    · intro x hx
      obtain ⟨d, hd, rfl⟩ := List.mem_map.1 hx
      rw [hclock]
      have := h.spread e (List.mem_cons_self ..) d hd
      dsimp only
      omega
    · rw [List.map_map]
      rfl

/-! ## The loop of a check -/

/-- The timers that run. -/
def timers (s : Timeouts) : List Handler :=
  (if s.tcpTimerActive then [.tcpipTcpTimer] else []) ++ cyclicTimers.map .cyclicTimer

/-- Every timer is in the list, once, and TCP's runs if there are pcbs. -/
structure Kept (s : Timeouts) (ds : List (Nat × Handler)) : Prop where
  timed : Timed s ds
  perm : (ds.map Prod.snd).Perm s.timers
  tcp : s.pcbs = true → s.tcpTimerActive = true

/-- A cyclic timer is restarted, with the correction or without. -/
theorem lwipCyclicTimer_spec {s : Timeouts} {ds : List (Nat × Handler)} {e : Nat} (h : Timed s ds)
    (hdue : s.currentTimeoutDueTime = at_ 0 e) (he : e ≤ s.clock) (hlate : s.clock < e + lateMax)
    (c : Cyclic) :
    ∃ ds' next, Timed (s.lwipCyclicTimer c) ds' ∧ ds'.Perm ((next, .cyclicTimer c) :: ds) ∧
      s.clock ≤ next ∧ e + 1000 ≤ next ∧ (s.clock ≤ e + 1000 → next = e + 1000) := by
  have hmax : lateMax = 2 ^ 29 := rfl
  have hnext : s.currentTimeoutDueTime + BitVec.ofNat 32 c.intervalMs = at_ 0 (e + 1000) := by
    rw [hdue, at_add, Cyclic.intervalMs_eq]
  rw [lwipCyclicTimer, hnext, sysNow_eq, timeLessThan_at (by omega) (by omega), at_add, Cyclic.intervalMs_eq]
  by_cases hlt : e + 1000 < s.clock
  · obtain ⟨ds', ht, hp⟩ := h.insert (s.clock + 1000, .cyclicTimer c) (by dsimp only; omega) (Nat.le_refl _)
    refine ⟨ds', s.clock + 1000, ?_, hp, by omega, by omega, fun hle => absurd hlt (Nat.not_lt.2 hle)⟩
    rw [if_pos (decide_eq_true hlt)]
    exact ht
  · obtain ⟨ds', ht, hp⟩ := h.insert (e + 1000, .cyclicTimer c) (by dsimp only; omega) (by dsimp only; omega)
    refine ⟨ds', e + 1000, ?_, hp, by omega, by omega, fun _ => rfl⟩
    rw [if_neg (by simpa using Nat.le_of_not_lt hlt)]
    exact ht

/-- The state in which the timer `e` is called. -/
def fire (s : Timeouts) (e : Nat × Handler) (ds : List (Nat × Handler)) : Timeouts :=
  { s with nextTimeout := ds.map timeo, currentTimeoutDueTime := at_ 0 e.1 }

/-- What a turn of the loop that ends at `m` makes of the list: the timer `e` is restarted behind now, or
it was TCP's and ends. -/
inductive Turned (m : Nat) (e : Nat × Handler) (ds : List (Nat × Handler)) : List (Nat × Handler) → Prop where
  | ended (htcp : e.2 = .tcpipTcpTimer) : Turned m e ds ds
  | again {next : Nat} {ds' : List (Nat × Handler)} (hperm : ds'.Perm ((next, e.2) :: ds)) (hge : m ≤ next)
      (hinc : e.1 < next)
      (honTime : ∀ c, e.2 = .cyclicTimer c → m ≤ e.1 + 1000 → next = e.1 + 1000) : Turned m e ds ds'

theorem call_spec {s : Timeouts} {e : Nat × Handler} {ds : List (Nat × Handler)} (h : Kept s (e :: ds))
    (he : e.1 ≤ s.clock) {r : Ran} (hlate : ∀ d ∈ e :: ds, s.clock + r.ms < d.1 + lateMax) :
    ∃ ds', Kept ((s.fire e ds).call e.2 r) ds' ∧ ((s.fire e ds).call e.2 r).clock = s.clock + r.ms ∧
      Turned (s.clock + r.ms) e ds ds' := by
  have hrest : ∀ d ∈ ds, s.clock + r.ms < d.1 + lateMax := fun d hd => hlate d (List.mem_cons_of_mem _ hd)
  have hfire : Timed (s.fire e ds) ds := h.timed.tail rfl rfl
  have hthen : ∀ t : Timeouts, t.nextTimeout = (s.fire e ds).nextTimeout → t.clock = s.clock + r.ms →
      Timed t ds := fun t hl hc =>
    hfire.later hl (by rw [hc]; exact Nat.le_add_right _ _) (by rw [hc]; exact hrest)
  obtain ⟨due, hd⟩ := e
  cases hd with
  | tcpipTcpTimer =>
    -- TCP's timer is active: it is in the list
    have hact : s.tcpTimerActive = true := by
      cases ha : s.tcpTimerActive with
      | true => rfl
      | false =>
        have hmem := h.perm.mem_iff.1 (List.mem_cons_self ..)
        rw [timers, ha] at hmem
        simp [cyclicTimers] at hmem
    have hperm : (ds.map Prod.snd).Perm (cyclicTimers.map .cyclicTimer) := by
      have hp := h.perm
      rw [timers, hact] at hp
      exact hp.cons_inv
    show ∃ ds', Kept (tcpipTcpTimer _ r.pcbs) ds' ∧ (tcpipTcpTimer _ r.pcbs).clock = _ ∧ _
    rw [tcpipTcpTimer]
    cases hpcbs : r.pcbs with
    | false =>
      exact ⟨ds, ⟨hthen _ rfl rfl, hperm, fun hp => by cases hp⟩, rfl, .ended rfl⟩
    | true =>
      obtain ⟨ds', ht, hp⟩ := (hthen { s.fire (due, .tcpipTcpTimer) ds with
        clock := s.clock + r.ms, pcbs := true } rfl rfl).sysTimeout (show tcpTmrInterval ≤ 1000 by decide)
        .tcpipTcpTimer
      refine ⟨ds', ⟨?_, ?_, fun _ => hact⟩, rfl, .again hp (Nat.le_add_right _ _) ?_
        fun _ hc => (by cases hc)⟩
      · rw [if_pos rfl]
        exact ht
      · have hnew : ((s.clock + r.ms + tcpTmrInterval, Handler.tcpipTcpTimer) :: ds).map Prod.snd =
            .tcpipTcpTimer :: ds.map Prod.snd := rfl
        refine (hp.map Prod.snd).trans ?_
        rw [hnew]
        show List.Perm _ (timers { s.fire (due, .tcpipTcpTimer) ds with pcbs := true })
        rw [timers]
        show List.Perm _ ((if s.tcpTimerActive then _ else _) ++ _)
        rw [hact]
        exact hperm.cons _
      · have hpos : 0 < tcpTmrInterval := by decide
        dsimp only at he ⊢
        omega
  | cyclicTimer c =>
    obtain ⟨ds', next, ht, hp, hge, hinc, honTime⟩ := lwipCyclicTimer_spec
      (hthen { s.fire (due, .cyclicTimer c) ds with clock := s.clock + r.ms } rfl rfl) (e := due) rfl
      (Nat.le_trans he (Nat.le_add_right _ _)) (hlate _ (List.mem_cons_self ..)) c
    have hclock : ({ s.fire (due, .cyclicTimer c) ds with clock := s.clock + r.ms } :
        Timeouts).lwipCyclicTimer c = (s.fire (due, .cyclicTimer c) ds).call (.cyclicTimer c) r := rfl
    have hfields : ∀ t : Timeouts, (t.lwipCyclicTimer c).clock = t.clock ∧
        (t.lwipCyclicTimer c).tcpTimerActive = t.tcpTimerActive ∧ (t.lwipCyclicTimer c).pcbs = t.pcbs := by
      intro t
      rw [lwipCyclicTimer]
      split <;> exact ⟨rfl, rfl, rfl⟩
    rw [hclock] at ht
    obtain ⟨h1, h2, h3⟩ := hfields { s.fire (due, .cyclicTimer c) ds with clock := s.clock + r.ms }
    refine ⟨ds', ⟨ht, ?_, fun hpcbs => ?_⟩, h1, .again hp hge ?_ fun _ _ hle => honTime hle⟩
    · refine (hp.map Prod.snd).trans ?_
      rw [timers, ← hclock, h2]
      exact h.perm
    · rw [← hclock] at hpcbs ⊢
      rw [h3] at hpcbs
      rw [h2]
      exact h.tcp hpcbs
    · dsimp only at hinc ⊢
      omega

/-- How many turns of the loop the timeouts can take: a timer that is due just now may be called again. -/
def weight (n : Nat) (ds : List (Nat × Handler)) : Nat :=
  (ds.map fun d => if d.1 < n then 2 else if d.1 = n then 1 else 0).sum

theorem weight_cons (n : Nat) (d : Nat × Handler) (ds : List (Nat × Handler)) :
    weight n (d :: ds) = (if d.1 < n then 2 else if d.1 = n then 1 else 0) + weight n ds := rfl

theorem weight_perm {n : Nat} {ds ds' : List (Nat × Handler)} (h : ds.Perm ds') : weight n ds = weight n ds' :=
  (h.map fun d : Nat × Handler => if d.1 < n then 2 else if d.1 = n then 1 else 0).sum_nat

theorem weight_le (n : Nat) (ds : List (Nat × Handler)) : weight n ds ≤ 2 * ds.length := by
  induction ds with
  | nil => exact Nat.zero_le _
  | cons d ds ih =>
    rw [weight_cons, List.length_cons]
    split
    · omega
    · split <;> omega

/-- The times for which a handler is called. -/
def timesOf (h : Handler) (fs : List (Nat × Handler)) : List Nat := (fs.filter fun f => f.2 = h).map Prod.fst

/-- `k` times from `p` on, a second apart. -/
def seconds (p k : Nat) : List Nat := (List.range k).map fun i => p + 1000 * i

theorem seconds_succ (p k : Nat) : seconds p (k + 1) = p :: seconds (p + 1000) k := by
  rw [seconds, seconds, List.range_succ_eq_map, List.map_cons, List.map_map]
  congr 1
  refine List.map_congr_left fun i _ => ?_
  show p + 1000 * (i + 1) = p + 1000 + 1000 * i
  omega

/-- What a check has done: `fs` were called, which are all that were due at `n`, in order. A cyclic timer
keeps to its seconds if no timer is a second late at the end, at `m`. -/
structure Checked (n m : Nat) (ds fs ds' : List (Nat × Handler)) : Prop where
  later : ∀ d ∈ ds', n < d.1
  due : ∀ f ∈ fs, f.1 ≤ n
  all : ∀ d ∈ ds, d.1 ≤ n → d ∈ fs
  sorted : Sorted fs
  from_ : ∀ lo, lo ≤ n → (∀ d ∈ ds, lo ≤ d.1) → ∀ f ∈ fs, lo ≤ f.1
  few : fs.length ≤ weight n ds
  seconds_ : (∀ d ∈ ds, m ≤ d.1 + 1000) → ∀ c p, (p, .cyclicTimer c) ∈ ds →
    ∃ k, timesOf (.cyclicTimer c) fs = seconds p k ∧ (p + 1000 * k, .cyclicTimer c) ∈ ds'

/-- The time that the called functions take. -/
def ran (rs : List Ran) : Nat := (rs.map Ran.ms).sum

theorem ran_eq (rs : List Ran) : ran rs = (rs.headD {}).ms + ran rs.tail := by
  cases rs <;> rfl

theorem timers_nodup (s : Timeouts) : s.timers.Nodup := by
  rw [timers]
  cases s.tcpTimerActive <;> decide

/-- There is one time for each handler. -/
theorem Kept.head_ne {s : Timeouts} {e : Nat × Handler} {ds : List (Nat × Handler)} (h : Kept s (e :: ds))
    {p : Nat} {hd : Handler} (hp : (p, hd) ∈ ds) : e.2 ≠ hd := by
  have hnodup := h.perm.nodup_iff.2 s.timers_nodup
  rw [List.map_cons, List.nodup_cons] at hnodup
  exact fun he => hnodup.1 (he ▸ List.mem_map_of_mem hp)

/-- What is in the list after a turn is from before, or restarted behind now. -/
theorem Turned.mem {m : Nat} {e d : Nat × Handler} {ds ds' : List (Nat × Handler)} (h : Turned m e ds ds')
    (hd : d ∈ ds') : d ∈ ds ∨ (m ≤ d.1 ∧ e.1 < d.1) := by
  cases h with
  | ended htcp => exact .inl hd
  | again hperm hge hinc honTime =>
    rcases List.mem_cons.1 (hperm.mem_iff.1 hd) with rfl | hd
    · exact .inr ⟨hge, hinc⟩
    · exact .inl hd

theorem Turned.sub {m : Nat} {e d : Nat × Handler} {ds ds' : List (Nat × Handler)} (h : Turned m e ds ds')
    (hd : d ∈ ds) : d ∈ ds' := by
  cases h with
  | ended htcp => exact hd
  | again hperm hge hinc honTime => exact hperm.mem_iff.2 (List.mem_cons_of_mem _ hd)

/-- A timer that is due is called again at most once, if it was due just now. -/
theorem Turned.weight_lt {n m : Nat} {e : Nat × Handler} {ds ds' : List (Nat × Handler)} (h : Turned m e ds ds')
    (hle : e.1 ≤ n) (hm : n ≤ m) : weight n ds' < weight n (e :: ds) := by
  rw [weight_cons]
  cases h with
  | ended htcp =>
    split
    · omega
    · rw [if_pos (by omega)]
      omega
  | @again next _ hperm hge hinc honTime =>
    have hnot : ¬ next < n := by omega
    rw [weight_perm hperm, weight_cons]
    dsimp only
    rw [if_neg hnot]
    rcases Nat.lt_or_eq_of_le hle with hbefore | hat
    · rw [if_pos hbefore]
      split <;> omega
    · have hgt : ¬ next = n := by omega
      rw [if_neg hgt, if_neg (Nat.not_lt.2 (Nat.le_of_eq hat.symm)), if_pos hat]
      omega

/-- Nothing is due. -/
theorem Checked.nil {n m : Nat} {ds : List (Nat × Handler)} (hlater : ∀ d ∈ ds, n < d.1) :
    Checked n m ds [] ds where
  later := hlater
  due _ hf := by cases hf
  all d hd hle := absurd (hlater d hd) (Nat.not_lt.2 hle)
  sorted := List.Pairwise.nil
  from_ _ _ _ _ hf := by cases hf
  few := Nat.zero_le _
  seconds_ _ _ p hp := ⟨0, rfl, hp⟩

/-- One turn of the loop, and then the others. -/
theorem Checked.cons {n m1 m : Nat} {e : Nat × Handler} {ds ds1 fs ds' : List (Nat × Handler)}
    (hchk : Checked n m ds1 fs ds') (ht : Turned m1 e ds ds1) (hn : n ≤ m1) (hm : m1 ≤ m) (hle : e.1 ≤ n)
    (hs : Sorted (e :: ds)) (hne : ∀ {p hd}, (p, hd) ∈ ds → e.2 ≠ hd) :
    Checked n m (e :: ds) (e :: fs) ds' := by
  have hhead := List.mem_cons_self (a := e) (l := ds)
  refine ⟨hchk.later, fun f hf => ?_, fun d hd hdue => ?_, List.pairwise_cons.2 ⟨fun f hf => ?_, hchk.sorted⟩,
    fun lo hlo hall f hf => ?_, ?_, fun honTime c p hp => ?_⟩
  · rcases List.mem_cons.1 hf with rfl | hf
    · exact hle
    · exact hchk.due f hf
  · rcases List.mem_cons.1 hd with rfl | hd
    · exact List.mem_cons_self ..
    · exact List.mem_cons_of_mem _ (hchk.all d (ht.sub hd) hdue)
  · refine hchk.from_ e.1 hle (fun d hd => ?_) f hf
    rcases ht.mem hd with hd | ⟨-, hinc⟩
    · exact (List.pairwise_cons.1 hs).1 d hd
    · exact Nat.le_of_lt hinc
  · rcases List.mem_cons.1 hf with rfl | hf
    · exact hall f hhead
    · refine hchk.from_ lo hlo (fun d hd => ?_) f hf
      rcases ht.mem hd with hd | ⟨hge, -⟩
      · exact hall d (List.mem_cons_of_mem _ hd)
      · omega
  · have := hchk.few
    have := ht.weight_lt hle hn
    rw [List.length_cons]
    omega
  · have hend := honTime e hhead
    have honTime1 : ∀ d ∈ ds1, m ≤ d.1 + 1000 := by
      intro d hd
      rcases ht.mem hd with hd | ⟨-, hinc⟩
      · exact honTime d (List.mem_cons_of_mem _ hd)
      · omega
    rcases List.mem_cons.1 hp with rfl | hp
    · -- its own turn
      cases ht with
      | ended htcp => cases htcp
      | @again next _ hperm hge hinc hnext =>
        have heq : next = p + 1000 := hnext c rfl (Nat.le_trans hm hend)
        obtain ⟨k, htimes, hin⟩ := hchk.seconds_ honTime1 c (p + 1000)
          (hperm.mem_iff.2 (heq ▸ List.mem_cons_self ..))
        refine ⟨k + 1, ?_, ?_⟩
        · rw [seconds_succ, ← htimes, timesOf, List.filter_cons_of_pos (by simp), List.map_cons]
          rfl
        · rw [show p + 1000 * (k + 1) = p + 1000 + 1000 * k by omega]
          exact hin
    · obtain ⟨k, htimes, hin⟩ := hchk.seconds_ honTime1 c p (ht.sub hp)
      refine ⟨k, ?_, hin⟩
      rw [← htimes, timesOf, List.filter_cons_of_neg (by simpa using hne hp)]
      rfl

theorem checkLoop_spec {n : Nat} (turns : Nat) {rs : List Ran} {s : Timeouts} {ds : List (Nat × Handler)}
    (h : Kept s ds) (hn : n ≤ s.clock) (hms : s.clock + ran rs < n + lateMax)
    (hlate : ∀ d ∈ ds, s.clock + ran rs < d.1 + lateMax) (hturns : weight n ds < turns) :
    ∃ s' fs ds', checkLoop (at_ 0 n) turns rs s = some (s', fs.map timeo) ∧ Kept s' ds' ∧
      s'.clock ≤ s.clock + ran rs ∧ Checked n (s.clock + ran rs) ds fs ds' := by
  have hmax : lateMax = 2 ^ 29 := rfl
  induction turns generalizing rs s ds with
  | zero => exact absurd hturns (Nat.not_lt_zero _)
  | succ turns ih =>
    cases ds with
    | nil =>
      have hnil : s.nextTimeout = [] := h.timed.list
      refine ⟨s, [], [], ?_, h, Nat.le_add_right _ _, .nil fun _ hd => by cases hd⟩
      rw [checkLoop, hnil]
      rfl
    | cons e ds =>
      have hhead := List.mem_cons_self (a := e) (l := ds)
      have hsoon := h.timed.soon e hhead
      have hrecent := hlate e hhead
      have hcmp : timeLessThan (at_ 0 n) (timeo e).time = decide (n < e.1) :=
        timeLessThan_at (by omega) (by omega)
      rw [checkLoop, h.timed.list, List.map_cons]
      dsimp only
      rw [hcmp]
      by_cases hlt : n < e.1
      · -- nothing is due any more
        rw [if_pos (decide_eq_true hlt)]
        refine ⟨s, [], e :: ds, rfl, h, Nat.le_add_right _ _, .nil fun d hd => ?_⟩
        rcases List.mem_cons.1 hd with rfl | hd
        · exact hlt
        · exact Nat.lt_of_lt_of_le hlt ((List.pairwise_cons.1 h.timed.sorted).1 d hd)
      · have hle : e.1 ≤ n := Nat.le_of_not_lt hlt
        rw [ran_eq] at hms hlate ⊢
        rw [← Nat.add_assoc] at hms hlate ⊢
        obtain ⟨ds1, hk1, hc1, hturn⟩ := call_spec h (Nat.le_trans hle hn) (r := rs.headD {})
          fun d hd => Nat.lt_of_le_of_lt (Nat.le_add_right _ _) (hlate d hd)
        have hn1 : n ≤ s.clock + (rs.headD {}).ms := Nat.le_trans hn (Nat.le_add_right _ _)
        obtain ⟨s', fs, ds', hloop, hk', hc', hchk⟩ := @ih rs.tail _ _ hk1 (hc1 ▸ hn1) (hc1 ▸ hms)
          (fun d hd => by
            rw [hc1]
            rcases hturn.mem hd with hd | ⟨hge, -⟩
            · exact hlate d (List.mem_cons_of_mem _ hd)
            · omega)
          (Nat.lt_of_lt_of_le (hturn.weight_lt hle hn1) (Nat.le_of_lt_succ hturns))
        rw [hc1] at hc' hchk
        rw [if_neg (by simpa using hle)]
        show ∃ s' fs ds', Option.map _ (checkLoop _ turns rs.tail ((s.fire e ds).call e.2 _)) = _ ∧ _
        rw [hloop]
        exact ⟨s', e :: fs, ds', rfl, hk', hc', hchk.cons hturn hn1 (Nat.le_add_right _ _) hle h.timed.sorted
          h.head_ne⟩

/-! ## Runs -/

/-- The time that a step takes in which the timers may get late. -/
def Act.ms : Act → Nat
  | .pass ms => ms
  | .check rs => ran rs
  | _ => 0

/-- No timeout gets overdue by `lateMax`. -/
def Prompt (s : Timeouts) (a : Act) : Prop :=
  a.ms < lateMax ∧ ∀ t ∈ s.nextTimeout, (s.sysNow - t.time).toInt + a.ms < lateMax

instance (s : Timeouts) (a : Act) : Decidable (s.Prompt a) := inferInstanceAs (Decidable (_ ∧ _))

/-- The state after `lwip_init`. -/
def start (clock : Nat) : Timeouts := ({ clock } : Timeouts).sysTimeoutsInit

theorem Timed.late_eq {s : Timeouts} {ds : List (Nat × Handler)} (h : Timed s ds) {d : Nat × Handler}
    (hd : d ∈ ds) : (s.sysNow - (timeo d).time).toInt = (s.clock : Int) - d.1 := by
  have hmax : lateMax = 2 ^ 29 := rfl
  have hsoon := h.soon d hd
  have hrecent := h.recent d hd
  rw [sysNow_eq, show (timeo d).time = at_ 0 d.1 from rfl, toInt_at_sub_at 0 (by omega) (by omega)]

theorem Prompt.late {s : Timeouts} {a : Act} {ds : List (Nat × Handler)} (hp : s.Prompt a) (h : Timed s ds) :
    ∀ d ∈ ds, s.clock + a.ms < d.1 + lateMax := by
  intro d hd
  have hlate := hp.2 (timeo d) (h.list ▸ List.mem_map_of_mem hd)
  rw [h.late_eq hd] at hlate
  omega

theorem kept_init {l : List Cyclic} {s : Timeouts} {ds : List (Nat × Handler)} (h : Timed s ds) :
    ∃ ds', Timed (l.foldl (fun s c => s.sysTimeout c.intervalMs (.cyclicTimer c)) s) ds' ∧
      (ds'.map Prod.snd).Perm (ds.map Prod.snd ++ l.map .cyclicTimer) ∧ (∀ d ∈ ds, d ∈ ds') ∧
      ∀ c ∈ l, (s.clock + 1000, .cyclicTimer c) ∈ ds' := by
  induction l generalizing s ds with
  | nil =>
    refine ⟨ds, h, ?_, fun _ hd => hd, fun _ hc => by cases hc⟩
    rw [List.map_nil, List.append_nil]
  | cons c l ih =>
    obtain ⟨ds1, h1, hp1⟩ := h.sysTimeout (Nat.le_of_eq c.intervalMs_eq) (.cyclicTimer c)
    obtain ⟨ds', h', hp', hsub, hnew⟩ := ih h1
    refine ⟨ds', h', hp'.trans ?_, fun d hd => hsub d (hp1.mem_iff.2 (List.mem_cons_of_mem _ hd)),
      fun x hx => ?_⟩
    · rw [List.map_cons]
      exact ((hp1.map Prod.snd).append_right _).trans List.perm_middle.symm
    · rcases List.mem_cons.1 hx with rfl | hx
      · refine hsub _ (hp1.mem_iff.2 ?_)
        rw [Cyclic.intervalMs_eq]
        exact List.mem_cons_self ..
      · exact hnew x hx

theorem kept_start (clock : Nat) :
    ∃ ds, Kept (start clock) ds ∧ ∀ c, (clock + 1000, .cyclicTimer c) ∈ ds := by
  have h0 : Timed { clock } [] :=
    ⟨rfl, List.Pairwise.nil, fun _ hd => (by cases hd), fun _ hd => (by cases hd), fun _ hd => (by cases hd)⟩
  obtain ⟨ds, h, hp, -, hnew⟩ := kept_init (l := cyclicTimers) h0
  exact ⟨ds, ⟨h, hp, fun hpcbs => by cases hpcbs⟩, fun c => hnew c (by cases c <;> decide)⟩

theorem check_spec {s : Timeouts} {ds : List (Nat × Handler)} {rs : List Ran} (h : Kept s ds)
    (hp : s.Prompt (.check rs)) :
    ∃ s' fs ds', s.sysCheckTimeouts s.turns rs = some (s', fs.map timeo) ∧ Kept s' ds' ∧
      s'.clock ≤ s.clock + ran rs ∧ Checked s.clock (s.clock + ran rs) ds fs ds' := by
  have hlen : s.nextTimeout.length = ds.length := by rw [h.timed.list, List.length_map]
  have hw := weight_le s.clock ds
  rw [sysCheckTimeouts, sysNow_eq]
  refine checkLoop_spec s.turns h (Nat.le_refl _) (Nat.add_lt_add_left hp.1 _) (hp.late h.timed) ?_
  rw [turns, hlen]
  omega

theorem kept_step {s s' : Timeouts} {ds : List (Nat × Handler)} {a : Act} (h : Kept s ds) (hp : s.Prompt a)
    (hst : s.step a = some s') :
    ∃ ds', Kept s' ds' ∧ ((∀ rs, a ≠ .check rs) → (∀ ms, a ≠ .sleep ms) → ∀ d ∈ ds, d ∈ ds') := by
  cases a with
  | pass ms =>
    cases hst
    exact ⟨ds, ⟨h.timed.later rfl (Nat.le_add_right _ _) (hp.late h.timed), h.perm, h.tcp⟩,
      fun _ _ _ hd => hd⟩
  | register =>
    have hreg : Timed { s with pcbs := true } ds := h.timed.later rfl (Nat.le_refl _) h.timed.recent
    rw [step, tcpTimerNeeded] at hst
    by_cases hact : s.tcpTimerActive = true
    · rw [if_neg (by simp [hact])] at hst
      cases hst
      exact ⟨ds, ⟨hreg, h.perm, fun _ => hact⟩, fun _ _ _ hd => hd⟩
    · have hoff : s.tcpTimerActive = false := by simpa using hact
      rw [if_pos ⟨hoff, rfl⟩] at hst
      cases hst
      have hon : Timed { s with pcbs := true, tcpTimerActive := true } ds :=
        h.timed.later rfl (Nat.le_refl _) h.timed.recent
      obtain ⟨ds', ht, hp⟩ := hon.sysTimeout (show tcpTmrInterval ≤ 1000 by decide) .tcpipTcpTimer
      refine ⟨ds', ⟨ht, (hp.map Prod.snd).trans ?_, fun _ => rfl⟩,
        fun _ _ _ hd => hp.mem_iff.2 (List.mem_cons_of_mem _ hd)⟩
      have hperm := h.perm
      rw [timers, hoff] at hperm
      exact hperm.cons _
  | unregister =>
    cases hst
    exact ⟨ds, ⟨h.timed.later rfl (Nat.le_refl _) h.timed.recent, h.perm, fun hpcbs => by cases hpcbs⟩,
      fun _ _ _ hd => hd⟩
  | check rs =>
    obtain ⟨t, fs, ds', hc, hk, -, -⟩ := check_spec h hp
    rw [step, hc] at hst
    cases hst
    exact ⟨ds', hk, fun hno => absurd rfl (hno rs)⟩
  | sleep ms =>
    cases hst
    obtain ⟨ds', ht, hsnd⟩ := h.timed.restart ms
    have hfields : ∀ t : Timeouts, t.sysRestartTimeouts.tcpTimerActive = t.tcpTimerActive ∧
        t.sysRestartTimeouts.pcbs = t.pcbs := by
      intro t
      rw [sysRestartTimeouts]
      split <;> exact ⟨rfl, rfl⟩
    obtain ⟨hact, hpcbs⟩ := hfields { s with clock := s.clock + ms }
    refine ⟨ds', ⟨ht, ?_, fun hon => ?_⟩, fun _ hno => absurd rfl (hno ms)⟩
    · rw [hsnd, timers, hact]
      exact h.perm
    · rw [hact]
      exact h.tcp (hpcbs ▸ hon)

theorem kept_run {clock : Nat} {tr : List (Timeouts × Act)} {s : Timeouts}
    (h : Run step (start clock) tr s) (hp : Meets Prompt tr) : ∃ ds, Kept s ds := by
  obtain ⟨ds0, h0, -⟩ := kept_start clock
  refine h.inv (P := fun s => ∃ ds, Kept s ds) hp ⟨ds0, h0⟩ fun s a s' hk hp hst => ?_
  obtain ⟨ds, hk⟩ := hk
  obtain ⟨ds', hk', -⟩ := kept_step hk hp hst
  exact ⟨ds', hk'⟩

theorem in_order {ds : List (Nat × Handler)} (hs : Sorted ds)
    (hnear : ∀ d ∈ ds, ∀ d' ∈ ds, d'.1 < d.1 + 2 ^ 31) :
    (ds.map timeo).Pairwise fun a b => timeLessThan b.time a.time = false := by
  refine List.pairwise_map.2 (List.Pairwise.imp_of_mem (fun ha hb hab => ?_) hs)
  exact (timeLessThan_at (hnear _ ha _ hb) (hnear _ hb _ ha)).trans (decide_eq_false (Nat.not_lt.2 hab))

/-- In every run in which no timeout gets overdue by `lateMax`, with sleeps of any length: each cyclic
timer is in the list once, TCP's is if it is active and there are never pcbs without it, no other timer
is, and the list is in order, also where the clock wraps around. -/
theorem timeouts_kept {clock : Nat} {tr : List (Timeouts × Act)} {s : Timeouts}
    (h : Run step (start clock) tr s) (hp : Meets Prompt tr) :
    (s.nextTimeout.map SysTimeo.h).Perm s.timers ∧
      (s.pcbs = true → .tcpipTcpTimer ∈ s.nextTimeout.map SysTimeo.h) ∧
      s.nextTimeout.Pairwise fun a b => timeLessThan b.time a.time = false := by
  obtain ⟨ds, hk⟩ := kept_run h hp
  have hmax : lateMax = 2 ^ 29 := rfl
  have hperm : (s.nextTimeout.map SysTimeo.h).Perm s.timers := by
    rw [hk.timed.list, List.map_map]
    exact hk.perm
  refine ⟨hperm, fun hpcbs => ?_, ?_⟩
  · rw [hperm.mem_iff, timers, hk.tcp hpcbs]
    exact List.mem_cons_self ..
  · rw [hk.timed.list]
    refine in_order hk.timed.sorted fun d hd d' hd' => ?_
    have := hk.timed.spread d hd d' hd'
    omega

/-- Around the point where `sys_now` starts again at 0. -/
def wrapping : List Act :=
  [.register, .pass 250, .check [{ ms := 3, pcbs := true }], .sleep 5000000000, .pass 700]

theorem timeouts_kept_wrapping : ∃ tr s, Run step (start 4294966696) tr s ∧ s.pcbs = true ∧
    (s.nextTimeout.map SysTimeo.h).Perm s.timers ∧ .tcpipTcpTimer ∈ s.nextTimeout.map SysTimeo.h := by
  obtain ⟨s, hrun, hpcbs⟩ := exists_run step (start 4294966696) wrapping (fun s => s.pcbs) (by decide +kernel)
  have hprompt : Meets Prompt (execTrace step (start 4294966696) wrapping) := by decide +kernel
  obtain ⟨hperm, htcp, -⟩ := timeouts_kept hrun hprompt
  exact ⟨_, s, hrun, hpcbs, hperm, htcp hpcbs⟩

/-- In every such run a check ends, and it calls exactly what is due when it starts: all timers in the
list that are due, none that is not, in the order of their times, in at most two calls for each timer in
the list; afterwards no timer in the list was due then. -/
theorem check_timely {clock : Nat} {tr : List (Timeouts × Act)} {s : Timeouts} {rs : List Ran}
    (h : Run step (start clock) tr s) (hp : Meets Prompt tr) (hnow : s.Prompt (.check rs)) :
    ∃ s' fired, s.sysCheckTimeouts s.turns rs = some (s', fired) ∧
      (∀ t ∈ s.nextTimeout, timeLessThan s.sysNow t.time = false → t ∈ fired) ∧
      (∀ t ∈ fired, timeLessThan s.sysNow t.time = false) ∧
      (fired.Pairwise fun a b => timeLessThan b.time a.time = false) ∧
      fired.length ≤ 2 * s.nextTimeout.length ∧
      ∀ t ∈ s'.nextTimeout, timeLessThan s.sysNow t.time = true := by
  obtain ⟨ds, hk⟩ := kept_run h hp
  have hmax : lateMax = 2 ^ 29 := rfl
  have hms : ran rs < lateMax := hnow.1
  obtain ⟨s', fs, ds', hc, hk', hclock, hchk⟩ := check_spec hk hnow
  have hmin : ∀ f ∈ fs, s.clock < f.1 + lateMax := by
    intro f hf
    have hlo := hchk.from_ (s.clock + 1 - lateMax) (by omega) (fun d hd => by
      have := hk.timed.recent d hd
      omega) f hf
    omega
  have hcmp : ∀ d : Nat × Handler, s.clock < d.1 + 2 ^ 31 → d.1 < s.clock + 2 ^ 31 →
      timeLessThan s.sysNow (timeo d).time = decide (s.clock < d.1) := by
    intro d h1 h2
    rw [sysNow_eq]
    exact timeLessThan_at h1 h2
  refine ⟨s', _, hc, fun t ht hdue => ?_, fun t ht => ?_, ?_, ?_, fun t ht => ?_⟩
  · rw [hk.timed.list] at ht
    obtain ⟨d, hd, rfl⟩ := List.mem_map.1 ht
    have := hk.timed.recent d hd
    have := hk.timed.soon d hd
    rw [hcmp d (by omega) (by omega)] at hdue
    exact List.mem_map_of_mem (hchk.all d hd (Nat.le_of_not_lt (of_decide_eq_false hdue)))
  · obtain ⟨f, hf, rfl⟩ := List.mem_map.1 ht
    have := hmin f hf
    have hdue := hchk.due f hf
    rw [hcmp f (by omega) (by omega)]
    exact decide_eq_false (Nat.not_lt.2 hdue)
  · refine in_order hchk.sorted fun f hf f' hf' => ?_
    have := hmin f hf
    have := hchk.due f' hf'
    omega
  · rw [hk.timed.list, List.length_map, List.length_map]
    exact Nat.le_trans hchk.few (weight_le ..)
  · rw [hk'.timed.list] at ht
    obtain ⟨d, hd, rfl⟩ := List.mem_map.1 ht
    have := hk'.timed.soon d hd
    have hlater := hchk.later d hd
    rw [hcmp d (by omega) (by omega)]
    exact decide_eq_true hlater

theorem check_timely_wrapping : ∃ tr s s' fired, Run step (start 4294966696) tr s ∧
    s.sysCheckTimeouts s.turns [{ ms := 3, pcbs := true }] = some (s', fired) ∧
    ∀ t ∈ s'.nextTimeout, timeLessThan s.sysNow t.time = true := by
  obtain ⟨s, hrun, hs⟩ := exists_run step (start 4294966696) wrapping
    (fun s => decide (s.Prompt (.check [{ ms := 3, pcbs := true }]))) (by decide +kernel)
  have hprompt : Meets Prompt (execTrace step (start 4294966696) wrapping) := by decide +kernel
  obtain ⟨s', fired, hc, -, -, -, -, hlater⟩ := check_timely hrun hprompt (of_decide_eq_true hs)
  exact ⟨_, s, s', fired, hrun, hc, hlater⟩

/-! ## The seconds of the cyclic timers -/

/-- The timeouts that a step calls. -/
def fired (s : Timeouts) : Act → List SysTimeo
  | .check rs => ((s.sysCheckTimeouts s.turns rs).map Prod.snd).getD []
  | _ => []

/-- The times for which the handler is called in a run. -/
def calls (h : Handler) (tr : List (Timeouts × Act)) : List (BitVec 32) :=
  tr.flatMap fun x => ((x.1.fired x.2).filter fun t => t.h = h).map SysTimeo.time

/-- A check ends before a timer is a second late, and the program does not sleep. -/
def OnTime (s : Timeouts) (a : Act) : Prop :=
  s.Prompt a ∧
    match a with
    | .check rs => ∀ t ∈ s.nextTimeout, (s.sysNow - t.time).toInt + ran rs ≤ 1000
    | .sleep _ => False
    | _ => True

instance : (s : Timeouts) → (a : Act) → Decidable (s.OnTime a)
  | s, .check rs => inferInstanceAs (Decidable (s.Prompt (.check rs) ∧
      ∀ t ∈ s.nextTimeout, (s.sysNow - t.time).toInt + ran rs ≤ 1000))
  | s, .pass ms => inferInstanceAs (Decidable (s.Prompt (.pass ms) ∧ True))
  | s, .register => inferInstanceAs (Decidable (s.Prompt .register ∧ True))
  | s, .unregister => inferInstanceAs (Decidable (s.Prompt .unregister ∧ True))
  | s, .sleep ms => inferInstanceAs (Decidable (s.Prompt (.sleep ms) ∧ False))

theorem calls_snoc (h : Handler) (tr : List (Timeouts × Act)) (s : Timeouts) (a : Act) :
    calls h (tr ++ [(s, a)]) = calls h tr ++ ((s.fired a).filter fun t => t.h = h).map SysTimeo.time := by
  rw [calls, List.flatMap_append, List.flatMap_singleton]
  rfl

theorem filter_timeo (h : Handler) (fs : List (Nat × Handler)) :
    ((fs.map timeo).filter fun t => t.h = h).map SysTimeo.time = (timesOf h fs).map (at_ 0) := by
  rw [timesOf, List.filter_map, List.map_map, List.map_map]
  rfl

/-- In every run whose checks are on time, a cyclic timer does not drift and skips nothing: its calls are
those for one second, two seconds and so on after the start, with the same distance however late each of
them was, and the next one is in the list. -/
theorem cyclic_no_drift {clock : Nat} {tr : List (Timeouts × Act)} {s : Timeouts}
    (h : Run step (start clock) tr s) (hp : Meets OnTime tr) (c : Cyclic) :
    ∃ k, calls (.cyclicTimer c) tr =
        (List.range k).map (fun i => BitVec.ofNat 32 (clock + 1000 * (i + 1))) ∧
      ⟨BitVec.ofNat 32 (clock + 1000 * (k + 1)), .cyclicTimer c⟩ ∈ s.nextTimeout := by
  have key : ∃ ds k, Kept s ds ∧ calls (.cyclicTimer c) tr = (seconds (clock + 1000) k).map (at_ 0) ∧
      (clock + 1000 + 1000 * k, .cyclicTimer c) ∈ ds := by
    induction h with
    | nil =>
      obtain ⟨ds, hk, hin⟩ := kept_start clock
      exact ⟨ds, 0, hk, rfl, hin c⟩
    | @snoc tr s s' a hrun hst ih =>
      rw [meets_snoc] at hp
      obtain ⟨hp, hprompt, honTime⟩ := hp
      obtain ⟨ds, k, hk, hcalls, hin⟩ := ih hp
      rw [calls_snoc, hcalls]
      have hother : (∀ rs, a ≠ .check rs) → (∀ ms, a ≠ .sleep ms) → s.fired a = [] →
          ∃ ds k', Kept s' ds ∧ (seconds (clock + 1000) k).map (at_ 0) ++
            ((s.fired a).filter fun t => t.h = .cyclicTimer c).map SysTimeo.time =
              (seconds (clock + 1000) k').map (at_ (0 : BitVec 32)) ∧
            (clock + 1000 + 1000 * k', .cyclicTimer c) ∈ ds := by
        intro hc hsleep hnone
        obtain ⟨ds', hk', hsub⟩ := kept_step hk hprompt hst
        refine ⟨ds', k, hk', ?_, hsub hc hsleep _ hin⟩
        rw [hnone]
        exact List.append_nil _
      cases a with
      | pass ms => exact hother (fun _ h => by cases h) (fun _ h => by cases h) rfl
      | register => exact hother (fun _ h => by cases h) (fun _ h => by cases h) rfl
      | unregister => exact hother (fun _ h => by cases h) (fun _ h => by cases h) rfl
      | sleep ms => exact honTime.elim
      | check rs =>
        obtain ⟨t, fs, ds', hc, hk', -, hchk⟩ := check_spec hk hprompt
        rw [step, hc] at hst
        cases hst
        have hlate : ∀ d ∈ ds, s.clock + ran rs ≤ d.1 + 1000 := by
          intro d hd
          have hle := honTime (timeo d) (hk.timed.list ▸ List.mem_map_of_mem hd)
          rw [hk.timed.late_eq hd] at hle
          omega
        obtain ⟨n, htimes, hin'⟩ := hchk.seconds_ hlate c _ hin
        refine ⟨ds', k + n, hk', ?_, ?_⟩
        · rw [fired, hc]
          show _ ++ ((fs.map timeo).filter _).map _ = _
          rw [filter_timeo, htimes, ← List.map_append]
          congr 1
          rw [seconds, seconds, seconds, List.range_add, List.map_append, List.map_map]
          congr 1
          refine List.map_congr_left fun i _ => ?_
          show clock + 1000 + 1000 * k + 1000 * i = clock + 1000 + 1000 * (k + i)
          omega
        · rw [show clock + 1000 + 1000 * (k + n) = clock + 1000 + 1000 * k + 1000 * n by omega]
          exact hin'
  obtain ⟨ds, k, hk, hcalls, hin⟩ := key
  refine ⟨k, ?_, ?_⟩
  · rw [hcalls, seconds, List.map_map]
    refine List.map_congr_left fun i _ => ?_
    show at_ 0 (clock + 1000 + 1000 * i) = BitVec.ofNat 32 (clock + 1000 * (i + 1))
    rw [show clock + 1000 * (i + 1) = clock + 1000 + 1000 * i by omega]
    exact BitVec.zero_add _
  · have hmem : timeo (clock + 1000 + 1000 * k, .cyclicTimer c) ∈ s.nextTimeout :=
      hk.timed.list ▸ List.mem_map_of_mem hin
    rw [show clock + 1000 * (k + 1) = clock + 1000 + 1000 * k by omega]
    have htimeo : timeo (clock + 1000 + 1000 * k, .cyclicTimer c) =
        ⟨BitVec.ofNat 32 (clock + 1000 + 1000 * k), .cyclicTimer c⟩ :=
      congrArg (fun t => (⟨t, .cyclicTimer c⟩ : SysTimeo)) (BitVec.zero_add _)
    exact htimeo ▸ hmem

/-- Two checks, one of them after the clock has wrapped around. -/
def twoChecks : List Act := [.pass 1001, .check [{ ms := 5 }], .pass 999, .check []]

theorem cyclic_no_drift_wrapping : ∃ tr s k, Run step (start 4294966096) tr s ∧
    (calls (.cyclicTimer .ipReassTmr) tr).length = 2 ∧
    calls (.cyclicTimer .ipReassTmr) tr =
      (List.range k).map (fun i => BitVec.ofNat 32 (4294966096 + 1000 * (i + 1))) := by
  obtain ⟨s, hrun, -⟩ := exists_run step (start 4294966096) twoChecks (fun _ => true) (by decide +kernel)
  have honTime : Meets OnTime (execTrace step (start 4294966096) twoChecks) := by decide +kernel
  obtain ⟨k, hcalls, -⟩ := cyclic_no_drift hrun honTime .ipReassTmr
  exact ⟨_, s, k, hrun, by decide +kernel, hcalls⟩

end Timeouts

end Lwip
