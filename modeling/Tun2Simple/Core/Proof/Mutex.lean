import Tun2Simple.Core.Mutex

/-!
# One party at a time inside lwIP

All parties but `WriteFrom` of a UDP connection call lwIP in sections under `lwipMutex` only
(`guarded_code`), so the party inside lwIP holds it (`discipline_run`). Two parties are inside lwIP
exactly where one of them is a `WriteFrom` (`one_inside_iff`).
-/

namespace Core.Entry

open Trans Pool

/-- The code takes `lwipMutex` before its calls and releases it; `held` is whether it has it. -/
def guarded (held : Bool) : Code → Bool
  | [] => !held
  | .lock :: c => !held && guarded true c
  | .unlock :: c => held && guarded false c
  | .call _ :: c => held && guarded true c

theorem guarded_calls (fs : List LwipFn) (c : Code) :
    guarded true (fs.map .call ++ .unlock :: c) = guarded false c := by
  induction fs with
  | nil => rfl
  | cons f fs ih => exact ih

@[simp] theorem guarded_locked_append (fs : List LwipFn) (c : Code) :
    guarded false (locked fs ++ c) = guarded false c := by
  simp only [locked, List.cons_append, List.append_assoc, List.nil_append]
  exact guarded_calls fs c

@[simp] theorem guarded_locked (fs : List LwipFn) : guarded false (locked fs) = true := by
  have h := guarded_locked_append fs []
  rw [List.append_nil] at h
  exact h

theorem guarded_abortCode_append (k : Checked) (c : Code) :
    guarded false (abortCode k ++ c) = guarded false c :=
  guarded_locked_append _ c

theorem guarded_writeCode (data : Bytes) (rounds : List Round) :
    guarded false (writeCode data rounds) = true := by
  induction rounds generalizing data with
  | nil => rfl
  | cons r rs ih =>
    unfold writeCode
    split
    · rfl
    · split
      · rw [guarded_locked_append]
        split
        · rfl
        · exact ih _
      · rfl

theorem guarded_timeoutsCode (ticks : Nat) : guarded false (timeoutsCode ticks) = true := by
  induction ticks with
  | zero => rfl
  | succ n ih =>
    unfold timeoutsCode at ih ⊢
    rw [List.replicate_succ, List.flatten_cons, guarded_locked_append]
    exact ih

theorem guarded_stackCloseCode (conns : List Checked) :
    guarded false (stackCloseCode conns) = true := by
  unfold stackCloseCode
  induction conns with
  | nil => rfl
  | cons k ks ih =>
    rw [List.flatMap_cons, List.append_assoc, guarded_abortCode_append]
    exact ih

theorem guarded_inputCode (pkt : Bytes) (handled : Bool) :
    guarded false (inputCode pkt handled) = true := by
  unfold inputCode
  split
  · exact guarded_locked _
  · rfl

/-- Every party but `WriteFrom` is guarded. -/
theorem guarded_code {p : Party} (h : p.isWriteFrom = false) : guarded false p.code = true := by
  cases p with
  | stackWrite done pkt handled =>
    cases done
    · exact guarded_inputCode pkt handled
    · rfl
  | timeouts ticks => exact guarded_timeoutsCode ticks
  | write data rounds => exact guarded_writeCode data rounds
  | closeWrite st => cases st <;> rfl
  | abort k => exact guarded_locked _
  | connect failed k st refusedData =>
    simp only [Party.code, connectCode]
    split
    · exact guarded_locked _
    · split
      · rfl
      · exact guarded_locked _
  | writeFrom => cases h
  | restartTimeouts => rfl
  | stackClose conns => exact guarded_stackCloseCode conns

def Instr.isCall : Instr → Bool
  | .call _ => true
  | _ => false

/-- `WriteFrom` only calls. -/
theorem calls_code {p : Party} (h : p.isWriteFrom = true) : p.code.all Instr.isCall = true := by
  cases p with
  | writeFrom conn data aton =>
    simp only [Party.code, writeFromCode]
    split
    · rfl
    · split
      · rfl
      · cases aton <;> rfl
  | _ => cases h

/-- What a party has to do with `lwipMutex`, by whether it is a `WriteFrom`. -/
inductive Discipline (m : Mutex) (g : Nat) (x : Thread) : Prop
  | guarded : x.party.isWriteFrom = false → guarded (m = some g) x.code = true →
      (x.inside ≠ [] → m = some g) → Discipline m g x
  | bare : x.party.isWriteFrom = true → x.code.all Instr.isCall = true → m ≠ some g →
      Discipline m g x

/-- The holder of `lwipMutex` is one of the parties, and each does as it should. -/
structure Disciplined (s : Sys) : Prop extends Holds (fun _ => True) Discipline s where
  holder : ∀ {g}, s.shared = some g → g < s.n

section
variable {m m' : Mutex} {g : Nat} {x y : Thread} {new : Option Thread} {a : Act}

/-- What a step of a party can do. -/
inductive Sec (m : Mutex) (g : Nat) (x : Thread) : Act → Mutex × Thread × Option Thread → Prop
  | lock (code : Code) : x.inside = [] → x.code = .lock :: code → m = none →
      Sec m g x .next (some g, { x with code }, none)
  | unlock (code : Code) : x.inside = [] → x.code = .unlock :: code →
      Sec m g x .next (none, { x with code }, none)
  | enter (f : LwipFn) (code : Code) : x.inside = [] → x.code = .call f :: code →
      Sec m g x .next (m, { x with code, inside := [f] }, none)
  | leave (f : LwipFn) (fs : List LwipFn) : x.inside = f :: fs →
      Sec m g x .leave (m, { x with inside := fs }, none)
  | nested (f f' : LwipFn) (fs : List LwipFn) : x.inside = f' :: fs →
      Sec m g x (.nested f) (m, { x with inside := f :: f' :: fs }, none)

theorem sec_spec {o : Mutex × Thread × Option Thread} (h : sec m g x a = some o) :
    Sec m g x a o := by
  cases a with
  | next =>
    simp only [sec] at h
    split at h
    · split at h <;> cases h
      exact .lock _ ‹_› ‹_› ‹_›
    · cases h; exact .unlock _ ‹_› ‹_›
    · cases h; exact .enter _ _ ‹_› ‹_›
    · cases h
  | leave =>
    simp only [sec] at h
    split at h <;> cases h
    exact .leave _ _ ‹_›
  | nested f =>
    simp only [sec] at h
    split at h
    · split at h <;> cases h
      exact .nested f _ _ ‹_›
    · cases h

/-- A guarded party that releases `lwipMutex` or calls has it. -/
theorem holds_of_guarded {held : Bool} {i : Instr} {c : Code} (h : guarded held (i :: c) = true)
    (hi : i ≠ .lock) : held = true := by
  cases i with
  | lock => exact absurd rfl hi
  | _ => exact (Bool.and_eq_true_iff.1 h).1

theorem Sec.own {o : Mutex × Thread × Option Thread} (h : Sec m g x a o)
    (hx : Discipline m g x) : Discipline o.1 g o.2.1 := by
  cases hx with
  | guarded hp hc hin =>
    cases h with
    | lock code hi hcode hm =>
      rw [hcode] at hc
      refine .guarded hp ?_ fun _ => rfl
      rw [decide_eq_true rfl]
      exact (Bool.and_eq_true_iff.1 hc).2
    | unlock code hi hcode =>
      rw [hcode] at hc
      exact .guarded hp (Bool.and_eq_true_iff.1 hc).2 fun h => absurd hi h
    | enter f code hi hcode =>
      rw [hcode] at hc
      have hm : m = some g := of_decide_eq_true (holds_of_guarded hc (by simp))
      refine .guarded hp ?_ fun _ => hm
      rw [decide_eq_true hm]
      exact (Bool.and_eq_true_iff.1 hc).2
    | leave f fs hi => exact .guarded hp hc fun _ => hin (by rw [hi]; simp)
    | nested f f' fs hi => exact .guarded hp hc fun _ => hin (by rw [hi]; simp)
  | bare hp hc hm =>
    cases h with
    | lock code hi hcode => rw [hcode] at hc; cases hc
    | unlock code hi hcode => rw [hcode] at hc; cases hc
    | enter f code hi hcode => rw [hcode] at hc; exact .bare hp hc hm
    | leave => exact .bare hp hc hm
    | nested => exact .bare hp hc hm

/-- Who does not hold `lwipMutex` before and after a step of another party does as before. -/
theorem Discipline.other (hx : Discipline m g x) (hm : m ≠ some g) (hm' : m' ≠ some g) :
    Discipline m' g x := by
  cases hx with
  | guarded hp hc hin =>
    refine .guarded hp ?_ fun h => absurd (hin h) hm
    rw [decide_eq_false hm']
    rw [decide_eq_false hm] at hc
    exact hc
  | bare hp hc _ => exact .bare hp hc hm'

/-- A step of a party changes `lwipMutex` only between itself and nobody. -/
theorem Sec.mutex {o : Mutex × Thread × Option Thread} (h : Sec m g x a o)
    (hx : Discipline m g x) :
    o.2.2 = none ∧ (o.1 = m ∨ (m = none ∨ m = some g) ∧ (o.1 = none ∨ o.1 = some g)) := by
  cases h with
  | lock _ _ _ hm => exact ⟨rfl, .inr ⟨.inl hm, .inr rfl⟩⟩
  | unlock code hi hcode =>
    refine ⟨rfl, .inr ⟨.inr ?_, .inl rfl⟩⟩
    cases hx with
    | guarded _ hc => rw [hcode] at hc; exact of_decide_eq_true (holds_of_guarded hc (by simp))
    | bare _ hc => rw [hcode] at hc; cases hc
  | _ => exact ⟨rfl, .inl rfl⟩

end

section
variable {s s' : Sys} {a : Pool.Act Party Act}

theorem disciplined_init : Disciplined init where
  shared := trivial
  thread g hg := absurd hg (Nat.not_lt_zero g)
  holder h := by cases h

theorem disciplined_step (h : Disciplined s) (hs : Pool.step prog s a = some s') :
    Disciplined s' := by
  obtain ⟨p, x, t, rfl, hst, rfl⟩ | ⟨g, e, x, t, new, rfl, hg, hsec, rfl⟩ := step_cases hs
  · cases hst
    have hfree : s.shared ≠ some s.n := fun hm => absurd (h.holder hm) (Nat.lt_irrefl _)
    refine ⟨h.toHolds.start trivial ?_ fun g _ hg => hg, fun hm => Nat.lt_succ_of_lt (h.holder hm)⟩
    by_cases hp : p.isWriteFrom = true
    · exact .bare hp (calls_code hp) hfree
    · have hp := Bool.eq_false_iff.2 hp
      refine .guarded hp ?_ fun h => absurd rfl h
      rw [decide_eq_false hfree]
      exact guarded_code hp
  · have hsp := sec_spec hsec
    have hx := h.thread g hg
    have hown : Discipline x g t := hsp.own hx
    obtain ⟨hnew, hm⟩ := hsp.mutex hx
    obtain rfl : new = none := hnew
    refine ⟨h.toHolds.sec hg trivial hown (fun u hu => by cases hu) fun g' hg' hne hy => ?_,
      fun {g'} hm' => ?_⟩
    · rcases hm with hm | ⟨hm, hm'⟩
      · obtain rfl : x = s.shared := hm
        exact hy
      · have hne' : some g ≠ some g' := fun h => hne (Option.some.inj h).symm
        refine hy.other ?_ ?_
        · rcases hm with hm | hm <;> rw [hm]
          · simp
          · exact hne'
        · rcases (show x = none ∨ x = some g from hm') with hm | hm <;> rw [hm]
          · simp
          · exact hne'
    · show g' < s.n
      obtain rfl : x = some g' := hm'
      rcases hm with hm | ⟨-, hm | hm⟩
      · exact h.holder hm.symm
      · cases hm
      · cases hm; exact hg

theorem disciplined_run {tr : List (Sys × Pool.Act Party Act)}
    (hr : Run (Pool.step prog) init tr s) : Disciplined s :=
  hr.inv' disciplined_init fun _ _ _ h hs => disciplined_step h hs

/-- Who is inside lwIP and is not a `WriteFrom` holds `lwipMutex`. -/
theorem Disciplined.holds (h : Disciplined s) {g : Nat} (hg : g < s.n)
    (hp : (s.thread g).party.isWriteFrom = false) (hin : (s.thread g).inside ≠ []) :
    s.shared = some g := by
  cases h.thread g hg with
  | guarded _ _ hm => exact hm hin
  | bare hp' => rw [hp] at hp'; cases hp'

/-- At most one party is inside lwIP. -/
def OneInside (s : Sys) : Prop :=
  ∀ g < s.n, ∀ g' < s.n, (s.thread g).inside ≠ [] → (s.thread g').inside ≠ [] → g = g'

/-- The next instruction of the party is a call. -/
def Thread.enters (x : Thread) : Bool :=
  match x.code with
  | .call _ :: _ => true
  | _ => false

/-- No `WriteFrom` enters lwIP while another party is inside, and nobody enters it while a
`WriteFrom` is. -/
def NoOverlap (s : Sys) : Pool.Act Party Act → Prop
  | .sec g .next => (s.thread g).enters = true → ∀ g' < s.n, g' ≠ g → (s.thread g').inside ≠ [] →
      (s.thread g).party.isWriteFrom = false ∧ (s.thread g').party.isWriteFrom = false
  | _ => True

instance (s : Sys) : (a : Pool.Act Party Act) → Decidable (NoOverlap s a)
  | .sec g .next => inferInstanceAs (Decidable ((s.thread g).enters = true →
      ∀ g' < s.n, g' ≠ g → (s.thread g').inside ≠ [] → _ ∧ _))
  | .sec _ .leave => .isTrue trivial
  | .sec _ (.nested _) => .isTrue trivial
  | .start _ => .isTrue trivial

theorem enters_of_code {x : Thread} {f : LwipFn} {code : Code} (h : x.code = .call f :: code) :
    x.enters = true := by
  simp only [Thread.enters, h]

theorem oneInside_step (hd : Disciplined s) (h : OneInside s) (hc : NoOverlap s a)
    (hs : Pool.step prog s a = some s') : OneInside s' := by
  -- as no two threads of the pool with the one token "inside lwIP"
  let own : Thread → Unit → Prop := fun x _ => x.inside ≠ []
  have hu : Unique own s := fun g hg g' hg' _ => h g hg g' hg'
  suffices hu' : Unique own s' from fun g hg g' hg' => hu' g hg g' hg' ()
  obtain ⟨p, x, t, rfl, hst, rfl⟩ | ⟨g, e, x, t, new, rfl, hg, hsec, rfl⟩ := step_cases hs
  · cases hst
    exact hu.start fun _ h => h rfl
  · have hsp := sec_spec hsec
    obtain ⟨hnew, -⟩ := hsp.mutex (hd.thread g hg)
    obtain rfl : new = none := hnew
    refine hu.sec hg (fun _ ht => ?_) fun u hu => by cases hu
    cases hsp with
    | lock code hi => exact absurd hi ht
    | unlock code hi => exact absurd hi ht
    | enter f code hi hcode =>
      refine .inr fun g' hg' hin => ?_
      by_cases hgg : g' = g
      · rw [hgg] at hin
        exact hin hi
      · obtain ⟨hp, hp'⟩ := hc (enters_of_code hcode) g' hg' hgg hin
        have hm' := hd.holds hg' hp' hin
        -- the party that enters holds `lwipMutex` too
        cases hd.thread g hg with
        | guarded _ hcg =>
          rw [hcode] at hcg
          have hm : s.shared = some g := of_decide_eq_true (holds_of_guarded hcg (by simp))
          exact hgg (Option.some.inj (hm'.symm.trans hm))
        | bare hp'' => rw [hp] at hp''; cases hp''
    | leave f fs hi => exact .inl fun h => by rw [hi] at h; cases h
    | nested f f' fs hi => exact .inl fun h => by rw [hi] at h; cases h

/-- An overlap with a `WriteFrom` puts two parties inside. -/
theorem two_inside (hs : Pool.step prog s a = some s') (hc : ¬ NoOverlap s a) : ¬ OneInside s' := by
  intro hone
  obtain ⟨p, x, t, rfl, hst, rfl⟩ | ⟨g, e, x, t, new, rfl, hg, hsec, rfl⟩ := step_cases hs
  · exact hc trivial
  · cases e with
    | next =>
      refine hc fun hen g' hg' hne hin => absurd ?_ hne
      have hlt : ∀ {j}, j < s.n → j < (s.sec g x t new).n :=
        fun h => Nat.lt_of_lt_of_le h (s.le_sec_n g x t new)
      refine hone g' (hlt hg') g (hlt hg) ?_ ?_
      · rw [s.sec_thread_lt x t new hne hg']
        exact hin
      · rw [s.sec_thread_self]
        have hsp : Sec s.shared g (s.thread g) .next (x, t, new) := sec_spec hsec
        cases hsp with
        | lock code _ hcode => simp [Thread.enters, hcode] at hen
        | unlock code _ hcode => simp [Thread.enters, hcode] at hen
        | enter => simp
    | leave => exact hc trivial
    | nested f => exact hc trivial

/-- At most one party is inside lwIP in every state of a run, exactly if no call of a `WriteFrom`
into lwIP overlaps with one of another party. -/
theorem one_inside_iff {tr : List (Sys × Pool.Act Party Act)}
    (hr : Run (Pool.step prog) init tr s) :
    (∀ t ∈ visited tr s, OneInside t) ↔ Meets NoOverlap tr := by
  refine hr.visited_iff (I := OneInside) ?_ ?_ ?_ ?_
  · exact fun g hg => absurd hg (Nat.not_lt_zero g)
  · exact fun _ _ _ _ hr h hc hs => oneInside_step (disciplined_run hr) h hc hs
  · exact fun _ _ _ h => h
  · exact fun _ _ _ _ _ hc hs => two_inside hs hc

end

/-- An IPv4 UDP packet that is not a fragment. -/
def udpPacket : Bytes := [0x45, 0, 0, 28, 0, 0, 0, 0, 64, 17] ++ List.replicate 18 0

/-- A packet comes in, its datagram's connection is connected and a reply is written. -/
def packetActs : List (Pool.Act Party Act) :=
  [.start (.stackWrite false udpPacket true), .start (.writeFrom { state := .connected } [65] true),
    .sec 0 .next, .sec 0 .next, .sec 0 .leave, .sec 0 .next]

/-- The reply is written after the packet's input. -/
theorem one_inside_iff_after :
    ∃ tr s, Run (Pool.step prog) init tr s ∧ (s.thread 1).inside = [.ipaddrAton] ∧
      ∀ t ∈ visited tr s, OneInside t := by
  let acts := packetActs ++ [.sec 0 .leave, .sec 0 .next, .sec 1 .next]
  obtain ⟨s, hr, hs⟩ := exists_run (Pool.step prog) init acts
    (fun s => decide ((s.thread 1).inside = [.ipaddrAton])) (by decide)
  have hc : Meets NoOverlap (execTrace (Pool.step prog) init acts) := by decide
  exact ⟨_, s, hr, of_decide_eq_true hs, (one_inside_iff hr).2 hc⟩

/-- The reply is written while lwIP works on the packet. -/
theorem write_from_overlaps :
    ¬ ∀ tr s, Run (Pool.step prog) init tr s → ∀ t ∈ visited tr s, OneInside t := by
  intro h
  obtain ⟨s, hr, hs⟩ := exists_run (Pool.step prog) init (packetActs ++ [.sec 1 .next])
    (fun s => decide (s.n = 2 ∧ (s.thread 0).inside = [.input] ∧
      (s.thread 1).inside = [.ipaddrAton])) (by decide)
  obtain ⟨hn, h0, h1⟩ := of_decide_eq_true hs
  have := h _ s hr s (last_mem_visited _ s) 0 (by omega) 1 (by omega) (by rw [h0]; simp)
    (by rw [h1]; simp)
  cases this

end Core.Entry
