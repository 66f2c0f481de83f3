import Tun2Simple.Lib.Run
import Tun2Simple.Stack.Echo

/-!
# The deadlock of an echo

lwIP waits for the relay that reads from the app, which waits for the target, which waits for the
relay that writes to the app, which waits for `lwipMutex`: the circle is closed when each of them
has a byte in its hands and both sockets are full. `stuck_iff` says that nothing else blocks the
composition. So the relays, the target and the sockets have three bytes more than the sockets hold
while a part of a segment is still in the pipe, and `echo_progress` is about the runs in which lwIP
accepts a segment only if there are fewer ahead of its last part (`Fits`). `echo_deadlock` is a run
that ends in the circle.
-/

namespace Echo

open Trans

/-- The bytes of a segment of `n` bytes that are read from the pipe before its last part. -/
def Caps.before (k : Caps) (n : Nat) : Nat := k.buf * ((n - 1) / k.buf)

/-- lwIP accepts a segment only if ahead of its last part there are at most two bytes more than the
sockets' capacities. -/
def Fits (k : Caps) (s : Loop) : Act → Prop
  | .receive d => s.ahead.length + k.before d.length ≤ k.toTar + k.fromTar + 2
  | _ => True

instance (k : Caps) (s : Loop) : (a : Act) → Decidable (Fits k s a)
  | .receive d => inferInstanceAs (Decidable (s.ahead.length + k.before d.length ≤ _))
  | .received | .upRead | .upWrite _ | .tarRead _ | .tarWrite _ | .downRead _ | .downWrite _
  | .ack _ => .isTrue trivial

/-- Where more than one part is left, a read takes a whole buffer. -/
theorem Caps.before_sub {k : Caps} {n : Nat} (h : k.buf < n) :
    k.before n = k.buf + k.before (n - k.buf) := by
  have hdiv := Nat.div_eq_sub_div (b := k.buf) (a := n - 1) k.buf_pos (by omega)
  rw [Caps.before, Caps.before, hdiv, Nat.mul_succ, Nat.add_comm]
  congr 3
  omega

section
variable {k : Caps} {s s' : Loop} {a : Act}

/-! ## The bytes on their way -/

theorem take_drop_append (n : Nat) (l r : Bytes) : l.take n ++ (l.drop n ++ r) = l ++ r := by
  rw [← List.append_assoc, List.take_append_drop]

/-- What a step does to the bytes: it takes a segment in, reads a part of it from the pipe, passes
bytes to lwIP or to the app, or moves them on between the relays. -/
inductive Moves (k : Caps) (s : Loop) (a : Act) (s' : Loop) : Prop
  | receive (d : Bytes) : a = .receive d → s.pipe = none → s'.pipe = some d → s'.ahead = s.ahead →
      s'.snd = s.snd → s'.returned = s.returned → s'.accepted = s.accepted ++ d → Moves k s a s'
  | read (rest : Bytes) : s.pipe = some rest → rest ≠ [] → s'.pipe = some (rest.drop k.buf) →
      s'.ahead = s.ahead ++ rest.take k.buf → s'.snd = s.snd → s'.returned = s.returned →
      s'.accepted = s.accepted → Moves k s a s'
  | write : s.pipe = none → s'.pipe = none → s'.snd ++ s'.ahead = s.snd ++ s.ahead →
      s'.returned = s.returned → s'.accepted = s.accepted → Moves k s a s'
  | ack : s.pipe = none → s'.pipe = none → s'.ahead = s.ahead →
      s'.returned ++ s'.snd = s.returned ++ s.snd → s'.accepted = s.accepted → Moves k s a s'
  | inside : (s'.pipe = s.pipe ∨ s.pipe = some [] ∧ s'.pipe = none) → s'.ahead = s.ahead →
      s'.snd = s.snd → s'.returned = s.returned → s'.accepted = s.accepted → Moves k s a s'

theorem step_moves (hs : step k s a = some s') : Moves k s a s' := by
  cases a with
  | receive d =>
    simp only [step] at hs
    split at hs <;> cases hs
    rename_i hd
    exact .receive d rfl hd.1 rfl rfl rfl rfl rfl
  | received =>
    simp only [step] at hs
    split at hs <;> cases hs
    rename_i hp
    exact .inside (.inr ⟨hp, rfl⟩) rfl rfl rfl rfl
  | upRead =>
    simp only [step] at hs
    split at hs
    · rename_i rest hp
      split at hs <;> cases hs
      rename_i hr
      obtain ⟨hup, hne, -⟩ := of_decide_eq_true hr
      exact .read rest hp hne rfl (by simp [Loop.ahead, hup]) rfl rfl rfl
    · cases hs
  | upWrite n =>
    simp only [step] at hs
    split at hs <;> cases hs
    exact .inside (.inl rfl) (by simp [Loop.ahead]) rfl rfl rfl
  | tarRead n =>
    simp only [step] at hs
    split at hs <;> cases hs
    rename_i hr
    obtain ⟨ht, -, -⟩ := of_decide_eq_true hr
    exact .inside (.inl rfl) (by simp [Loop.ahead, ht, take_drop_append]) rfl rfl rfl
  | tarWrite n =>
    simp only [step] at hs
    split at hs <;> cases hs
    exact .inside (.inl rfl) (by simp [Loop.ahead, take_drop_append]) rfl rfl rfl
  | downRead n =>
    simp only [step] at hs
    split at hs <;> cases hs
    rename_i hr
    obtain ⟨hd, -, -⟩ := of_decide_eq_true hr.2
    exact .inside (.inl rfl) (by simp [Loop.ahead, hd, take_drop_append]) rfl rfl rfl
  | downWrite n =>
    simp only [step] at hs
    split at hs <;> cases hs
    rename_i hp
    exact .write hp.1 hp.1 (by simp [Loop.ahead, take_drop_append]) rfl rfl
  | ack n =>
    simp only [step] at hs
    split at hs <;> cases hs
    rename_i hp
    exact .ack hp.1 hp.1 rfl (by simp) rfl

structure Inv (k : Caps) (s : Loop) : Prop where
  /-- No byte is lost, doubled or overtaken. -/
  flow : s.returned ++ s.flight = s.accepted
  /-- While a part of a segment is in the pipe, no more bytes than fit are ahead of its last part. -/
  bound : ∀ rest, s.pipe = some rest → rest ≠ [] →
    s.ahead.length + k.before rest.length ≤ k.toTar + k.fromTar + 2

theorem Inv.step (h : Inv k s) (hs : Echo.step k s a = some s') (hf : Fits k s a) : Inv k s' := by
  have hflow := h.flow
  unfold Loop.flight Loop.held at hflow
  cases step_moves hs with
  | receive d ha hp hp' hahead hsnd hret hacc =>
    subst ha
    rw [hp, Option.getD_none, List.append_nil] at hflow
    refine ⟨?_, fun rest hr _ => ?_⟩
    · rw [Loop.flight, Loop.held, hahead, hp', hsnd, hret, hacc, ← hflow]
      simp only [Option.getD_some, List.append_assoc]
    · cases hp'.symm.trans hr
      rw [hahead]
      exact hf
  | read rest hp hne hp' hahead hsnd hret hacc =>
    refine ⟨?_, fun rest' hr hne' => ?_⟩
    · rw [hp, Option.getD_some] at hflow
      rw [Loop.flight, Loop.held, hahead, hp', hsnd, hret, hacc, ← hflow, Option.getD_some,
        List.append_assoc s.ahead, List.take_append_drop]
    · cases hp'.symm.trans hr
      have hlt : k.buf < rest.length := by
        rw [← Nat.not_le]
        exact fun hle => hne' (List.drop_eq_nil_of_le hle)
      have hb := h.bound rest hp hne
      rw [Caps.before_sub hlt] at hb
      rw [hahead, List.length_append, List.length_take, List.length_drop, Nat.min_eq_left (Nat.le_of_lt hlt)]
      omega
  | write hp hp' hmove hret hacc =>
    refine ⟨?_, fun rest hr => by rw [hp'] at hr; cases hr⟩
    rw [hp, Option.getD_none, List.append_nil] at hflow
    rw [Loop.flight, Loop.held, hp', Option.getD_none, List.append_nil, hmove, hret, hacc, hflow]
  | ack hp hp' hahead hmove hacc =>
    refine ⟨?_, fun rest hr => by rw [hp'] at hr; cases hr⟩
    rw [hp] at hflow
    rw [Loop.flight, Loop.held, hahead, hp', hacc, ← List.append_assoc, hmove, List.append_assoc,
      hflow]
  | inside hp hahead hsnd hret hacc =>
    rcases hp with hp | ⟨hp, hp'⟩
    · refine ⟨by rw [Loop.flight, Loop.held, hahead, hp, hsnd, hret, hacc, hflow], fun rest hr => ?_⟩
      rw [hahead]
      exact h.bound rest (hp.symm.trans hr)
    · refine ⟨?_, fun rest hr => by rw [hp'] at hr; cases hr⟩
      rw [hp] at hflow
      rw [Loop.flight, Loop.held, hahead, hp', hsnd, hret, hacc]
      exact hflow

theorem inv_run {tr : List (Loop × Act)} (hr : Run (Echo.step k) {} tr s) (hf : Meets (Fits k) tr) :
    Inv k s :=
  hr.inv hf ⟨rfl, fun _ h => by cases h⟩ fun _ _ _ hi hf hs => hi.step hs hf

/-! ## What blocks -/

/-- Some party other than the sender of a new segment has a step. -/
def Progress (k : Caps) (s : Loop) : Prop :=
  ∃ a s', (∀ d, a ≠ .receive d) ∧ Echo.step k s a = some s'

/-- A loop that has read something writes it, or its buffer is full. -/
theorem fits_one {c buf : Bytes} {cap : Nat} (hc : c ≠ []) (hb : buf.length < cap) :
    fits c buf cap 1 = true := by
  have := List.length_pos_iff.2 hc
  simp only [fits, decide_eq_true_eq]
  omega

theorem reads_pos {c buf : Bytes} {n : Nat} (hc : c = []) (hb : buf ≠ []) (hn : 0 < n) :
    reads c buf n = true := by
  simp [reads, hc, hb, hn]

/-- Each party of the circle has a byte in its hands, and the sockets are full. -/
structure Circle (k : Caps) (s : Loop) : Prop where
  pipe : ∃ rest, s.pipe = some rest ∧ rest ≠ []
  up : s.up ≠ []
  toTar : k.toTar ≤ s.toTar.length
  target : s.target ≠ []
  fromTar : k.fromTar ≤ s.fromTar.length
  down : s.down ≠ []

/-- With lwIP waiting, only the circle blocks. -/
theorem progress_or_circle {rest : Bytes} (hp : s.pipe = some rest) :
    Progress k s ∨ Circle k s := by
  by_cases hrest : rest = []
  · exact .inl ⟨.received, _, by simp, if_pos (hp.trans (by rw [hrest]))⟩
  by_cases hup : s.up = []
  · refine .inl ⟨.upRead, { s with up := rest.take k.buf, pipe := some (rest.drop k.buf) }, by simp, ?_⟩
    simp only [Echo.step, hp, reads_pos hup hrest k.buf_pos, if_true]
  by_cases ha : s.toTar.length < k.toTar
  · exact .inl ⟨.upWrite 1, _, by simp, if_pos (fits_one hup ha)⟩
  by_cases ht : s.target = []
  · have hne : s.toTar ≠ [] := fun h => ha (by rw [h]; exact k.toTar_pos)
    exact .inl ⟨.tarRead 1, _, by simp, if_pos (reads_pos ht hne Nat.one_pos)⟩
  by_cases hb : s.fromTar.length < k.fromTar
  · exact .inl ⟨.tarWrite 1, _, by simp, if_pos (fits_one ht hb)⟩
  by_cases hd : s.down = []
  · have hne : s.fromTar ≠ [] := fun h => hb (by rw [h]; exact k.fromTar_pos)
    exact .inl ⟨.downRead 1, _, by simp, if_pos ⟨k.buf_pos, reads_pos hd hne Nat.one_pos⟩⟩
  exact .inr ⟨⟨rest, hp, hrest⟩, hup, Nat.le_of_not_lt ha, ht, Nat.le_of_not_lt hb, hd⟩

/-- With `lwipMutex` free nothing blocks. -/
theorem progress_of_free (hp : s.pipe = none) (hf : s.flight ≠ []) : Progress k s := by
  refine Classical.byContradiction fun hn => hf ?_
  have hs : s.snd = [] := Classical.byContradiction fun h =>
    hn ⟨.ack 1, _, by simp, if_pos ⟨hp, Nat.one_pos, h⟩⟩
  have hd : s.down = [] := Classical.byContradiction fun h =>
    hn ⟨.downWrite 1, _, by simp, if_pos ⟨hp, fits_one h (by rw [hs]; exact k.sndBuf_pos)⟩⟩
  have hb : s.fromTar = [] := Classical.byContradiction fun h =>
    hn ⟨.downRead 1, _, by simp, if_pos ⟨k.buf_pos, reads_pos hd h Nat.one_pos⟩⟩
  have ht : s.target = [] := Classical.byContradiction fun h =>
    hn ⟨.tarWrite 1, _, by simp, if_pos (fits_one h (by rw [hb]; exact k.fromTar_pos))⟩
  have ha : s.toTar = [] := Classical.byContradiction fun h =>
    hn ⟨.tarRead 1, _, by simp, if_pos (reads_pos ht h Nat.one_pos)⟩
  have hup : s.up = [] := Classical.byContradiction fun h =>
    hn ⟨.upWrite 1, _, by simp, if_pos (fits_one h (by rw [ha]; exact k.toTar_pos))⟩
  simp [Loop.flight, Loop.held, Loop.ahead, hs, hd, hb, ht, ha, hup, hp]

/-- In the circle nobody has a step. -/
theorem Circle.stuck (h : Circle k s) (a : Act) : Echo.step k s a = none := by
  obtain ⟨rest, hp, hrest⟩ := h.pipe
  have full : ∀ {c buf : Bytes} {cap n : Nat}, cap ≤ buf.length → fits c buf cap n = false := by
    intro c buf cap n hb
    simp only [fits, decide_eq_false_iff_not]
    omega
  cases a with
  | upRead => simp [Echo.step, hp, reads, h.up]
  | upWrite n => simp [Echo.step, full h.toTar]
  | tarRead n => simp [Echo.step, reads, h.target]
  | tarWrite n => simp [Echo.step, full h.fromTar]
  | downRead n => simp [Echo.step, reads, h.down]
  | _ => simp [Echo.step, hp, hrest]

/-- The circle is what a deadlock looks like. -/
theorem stuck_iff : (∀ a, Echo.step k s a = none) ↔ Circle k s := by
  refine ⟨fun hs => ?_, Circle.stuck⟩
  cases hp : s.pipe with
  | none => exact absurd (hs (.receive [0])) (by simp [Echo.step, hp])
  | some rest =>
    refine (progress_or_circle hp).resolve_left ?_
    rintro ⟨a, s', -, h⟩
    rw [hs a] at h
    cases h

/-- It takes three bytes more than the sockets hold. -/
theorem Circle.length (h : Circle k s) : k.toTar + k.fromTar + 3 ≤ s.ahead.length := by
  have h2 := List.length_pos_iff.2 h.up
  have h3 := List.length_pos_iff.2 h.target
  have h4 := List.length_pos_iff.2 h.down
  have h5 := h.toTar
  have h6 := h.fromTar
  simp only [Loop.ahead, List.length_append]
  omega

/-- In every run in which lwIP accepts a segment only if it fits: as long as a byte of the app was
not returned, somebody has a step. -/
theorem echo_progress {tr : List (Loop × Act)} (hr : Run (Echo.step k) {} tr s)
    (hf : Meets (Fits k) tr) (hp : s.returned ≠ s.accepted) : Progress k s := by
  have hi := inv_run hr hf
  cases hpipe : s.pipe with
  | none =>
    refine progress_of_free hpipe fun hfl => hp ?_
    have := hi.flow
    rwa [hfl, List.append_nil] at this
  | some rest =>
    refine (progress_or_circle hpipe).resolve_right fun hc => ?_
    obtain ⟨rest, hrest, hne⟩ := hc.pipe
    have := hi.bound rest hrest hne
    have := hc.length
    omega

end

/-- Sockets of one byte, and relays with `utils.BufSize`. -/
def small : Caps := ⟨1, 1, 1, 4096, Nat.one_pos, Nat.one_pos, Nat.one_pos, by decide⟩

/-- A segment of one byte, read by the relay. -/
def segment : List Act := [.receive [65], .upRead, .received]

theorem echo_progress_small :
    ∃ tr s, Run (step small) {} tr s ∧ Meets (Fits small) tr ∧ s.returned ≠ s.accepted ∧
      Progress small s := by
  obtain ⟨s, hr, hs⟩ := exists_run (step small) {}
    (segment ++ [Act.upWrite 1, .receive [66]])
    (fun s => decide (s.returned ≠ s.accepted)) (by decide)
  have hf : Meets (Fits small) (execTrace (step small) {} (segment ++ [Act.upWrite 1, .receive [66]])) := by
    decide
  have hp := of_decide_eq_true hs
  exact ⟨_, s, hr, hf, hp, echo_progress hr hf hp⟩

/-- Six segments of one byte: five fill the hands of the relays and of the target and the sockets,
and lwIP waits for the relay with the sixth. -/
theorem echo_deadlock :
    ¬ ∀ k tr s, Run (step k) {} tr s → s.returned ≠ s.accepted → ∃ a s', step k s a = some s' := by
  intro h
  let acts : List Act :=
    segment ++ [Act.upWrite 1, .tarRead 1, .tarWrite 1, .downRead 1] ++
    segment ++ [Act.upWrite 1, .tarRead 1, .tarWrite 1] ++
    segment ++ [Act.upWrite 1, .tarRead 1] ++ segment ++ [Act.upWrite 1] ++ segment ++
    [Act.receive [65]]
  obtain ⟨s, hr, hs⟩ := exists_run (step small) {} acts
    (fun s => decide (s.returned ≠ s.accepted ∧ s.pipe = some [65] ∧ s.up ≠ [] ∧
      1 ≤ s.toTar.length ∧ s.target ≠ [] ∧ 1 ≤ s.fromTar.length ∧ s.down ≠ [])) (by decide)
  obtain ⟨hp, hpipe, h1, h2, h3, h4, h5⟩ := of_decide_eq_true hs
  have hc : Circle small s := ⟨⟨[65], hpipe, by simp⟩, h1, h2, h3, h4, h5⟩
  obtain ⟨a, s', ha⟩ := h small _ s hr hp
  rw [hc.stuck a] at ha
  cases ha

end Echo
