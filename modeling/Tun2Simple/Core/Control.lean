import Tun2Simple.Core.Registry

/-!
# What a step does to the goroutines, the lock and the log

The counterpart of `Core/Registry.lean` for the rest of the state, each said once for all steps:
`step_go` where a goroutine can be after a step (`GoEffect`), `step_lock` what the holder of
`lwipMutex` can be doing after it (`LockEffect`), `step_log` which events a step can log and under
which guards (`Logged`), `step_panicked` where the code panics.
-/

namespace Core

namespace Sys

variable (s : Sys)

/-! ## Fields -/

@[simp] theorem setConn_gos (c : Nat) (x : Conn) : (s.setConn c x).gos = s.gos := rfl
@[simp] theorem setPcb_gos (p : Nat) (x : Pcb) : (s.setPcb p x).gos = s.gos := rfl
@[simp] theorem setTcp_gos (p : Nat) (t : Tcp) : (s.setTcp p t).gos = s.gos := rfl
@[simp] theorem setLock_gos (l : Lock) : (s.setLock l).gos = s.gos := rfl
@[simp] theorem access_gos (p : Nat) (op : PcbOp) : (s.access p op).gos = s.gos := rfl
@[simp] theorem return_gos (h : Holder) : (s.return_ h).gos = s.gos := rfl

@[simp] theorem goto_gos_self (g : Gid) (pc : Pc) : (s.goto g pc).gos g = ⟨(s.gos g).conn, pc⟩ := by
  simp [goto]

theorem goto_gos_ne {g g' : Gid} (pc : Pc) (h : g' ≠ g) : (s.goto g pc).gos g' = s.gos g' := by
  simp [goto, h]

@[simp] theorem setConn_lock (c : Nat) (x : Conn) : (s.setConn c x).lock = s.lock := rfl
@[simp] theorem setPcb_lock (p : Nat) (x : Pcb) : (s.setPcb p x).lock = s.lock := rfl
@[simp] theorem setTcp_lock (p : Nat) (t : Tcp) : (s.setTcp p t).lock = s.lock := rfl
@[simp] theorem setLock_lock (l : Lock) : (s.setLock l).lock = l := rfl
@[simp] theorem return_lock (h : Holder) : (s.return_ h).lock = .lwip h := rfl
@[simp] theorem goto_lock (g : Gid) (pc : Pc) : (s.goto g pc).lock = s.lock := rfl
@[simp] theorem emit_lock (e : Ev) : (s.emit e).lock = s.lock := rfl
@[simp] theorem access_lock (p : Nat) (op : PcbOp) : (s.access p op).lock = s.lock := rfl
@[simp] theorem free_lock (p : Nat) : (s.free p).lock = s.lock := rfl
@[simp] theorem broadcast_lock (c : Nat) : (s.broadcast c).lock = s.lock := rfl
@[simp] theorem err_lock (c : Nat) : (s.err c).lock = s.lock := rfl
@[simp] theorem recvClsd_lock (h : Holder) (p : Nat) : (s.recvClsd h p).lock = .lwip h := rfl

@[simp] theorem leaveWrite_lock (g : Gid) (c : Nat) : (s.leaveWrite g c).lock = s.lock := rfl

@[simp] theorem leaveClose_lock (g : Gid) (c : Nat) (b : Bool) :
    (s.leaveClose g c b).lock = s.lock := by
  cases b <;> rfl

@[simp] theorem tcpErrFn_lock (p : Nat) : (s.tcpErrFn p).lock = s.lock := by
  simp only [tcpErrFn]; split <;> rfl

@[simp] theorem setConn_log (c : Nat) (x : Conn) : (s.setConn c x).log = s.log := rfl
@[simp] theorem setTcp_log (p : Nat) (t : Tcp) : (s.setTcp p t).log = s.log := rfl
@[simp] theorem goto_log (g : Gid) (pc : Pc) : (s.goto g pc).log = s.log := rfl
@[simp] theorem emit_log (e : Ev) : (s.emit e).log = s.log ++ [e] := rfl
@[simp] theorem free_log (p : Nat) : (s.free p).log = s.log := rfl

@[simp] theorem access_log (p : Nat) (op : PcbOp) :
    (s.access p op).log = s.log ++ [.pcb p op (s.pcb p).freed] := rfl

@[simp] theorem leaveClose_log (g : Gid) (c : Nat) (b : Bool) :
    (s.leaveClose g c b).log = s.log := by
  cases b <;> rfl

@[simp] theorem access_pcb (p : Nat) (op : PcbOp) : (s.access p op).pcb = s.pcb := rfl

@[simp] theorem tcpErrFn_log (p : Nat) :
    (s.tcpErrFn p).log = s.log ++ [.key p (0 < (s.conn p).cellFrees)] := by
  simp only [tcpErrFn]; split <;> rfl

/-- What `tcp_abort` logs for pcb `p` when its connection is not in `tcpConns`. -/
def abortLog (p : Nat) : List Ev :=
  .pcb p .abort (s.pcb p).freed ::
    if (s.pcb p).hooked ∧ (s.pcb p).tcp.st ≠ .timeWait then [.key p (0 < (s.conn p).cellFrees)]
    else []

theorem tcpAbort_of_none {p : Nat} (h : s.tcpConns (s.conn p).connKey = none) :
    (s.tcpAbort p).gos = s.gos ∧ (s.tcpAbort p).lock = s.lock ∧
      (s.tcpAbort p).log = s.log ++ s.abortLog p := by
  have h' : ((s.access p .abort).free p).tcpConns
      (((s.access p .abort).free p).conn p).connKey = none := h
  unfold tcpAbort abortLog
  split
  · rw [tcpErrFn_of_none _ h']
    refine ⟨rfl, rfl, ?_⟩
    simp only [Sys.emit_log, Sys.free_log, Sys.access_log, List.append_assoc]
    rfl
  · exact ⟨rfl, rfl, rfl⟩

theorem abortInternal_control (c : Nat) :
    (s.abortInternal c).gos = s.gos ∧ (s.abortInternal c).lock = s.lock ∧
      (s.abortInternal c).log = s.log ++ (s.release c).abortLog c :=
  tcpAbort_of_none _ (s.release_lookup c)

end Sys

/-! ## Goroutines -/

/-- The control flow of the methods: the sections that can follow one another. -/
def Pc.next : Pc → Pc → Bool
  | .handling, .abort | .handling, .idle | .handling, .refused => true
  | .refused, .inRefused | .refused, .idle | .inRefused, .idle => true
  | .write d, .writeLoop d' _ | .woken d _, .writeLoop d' _ => d == d'
  | .writeLoop _ _, .idle | .writeLwip _ _, .idle => true
  | .writeLoop d t, .writeLwip d' t' => d == d' && t == t'
  | .writeLwip _ _, .writeWait _ _ => true
  | .writeWait d t, .parked d' t' => d == d' && t == t'
  | .closeWrite _, .idle | .shutdown _, .idle => true
  | .closeWrite ic, .shutdown ic' => ic == ic'
  | .closeRead true, .closeWrite true | .closeRead false, .idle => true
  | .close, .closeRead true | .close, .idle => true
  | .abort, .abortLock | .abortLock, .aborting => true
  | .read n, .readPipe n' | .readPipe n, .readWait n' => n == n'
  | .read _, .idle | .readPipe _, .idle | .readWait _, .idle => true
  | _, _ => false

/-- Where goroutine `g` can be after step `a`. -/
inductive GoEffect (s : Sys) (a : Act) (g : Gid) : Go → Prop
  | same : GoEffect s a g (s.gos g)
  /-- A `Broadcast`. -/
  | woken (c : Nat) (d : Bytes) (t : Nat) : s.gos g = ⟨c, .parked d t⟩ →
      GoEffect s a g ⟨c, .woken d t⟩
  | call (c : Nat) (op : Op) : a = .call g c op → (s.gos g).pc = .idle → c < s.n →
      (s.conn c).started = true ∨ op = .abort → GoEffect s a g ⟨c, op.pc⟩
  | spawn (c : Nat) : a = .held (.spawn g) → s.lock = .accept c → (s.gos g).pc = .idle →
      GoEffect s a g ⟨c, .handling⟩
  /-- Its own next section; `CloseWrite` goes on to `tcp_shutdown` where it changed the state. -/
  | own (x : Env) (pc : Pc) : a = .go g x → (s.gos g).pc.next pc = true →
      (∀ ic, pc = .shutdown ic → (s.conn (s.gos g).conn).state.closeWrite ≠ none) →
      GoEffect s a g ⟨(s.gos g).conn, pc⟩
  /-- `Abort` returns. -/
  | aborted (c : Nat) (k : CheckPc) : a = .held .none → s.lock = .abort g c k →
      GoEffect s a g ⟨(s.gos g).conn, .idle⟩

/-- Goroutine `g` is where it was, or a `Broadcast` woke it. -/
def Sys.Wakes (s s' : Sys) : Prop :=
  ∀ g, s'.gos g = s.gos g ∨ ∃ c d t, s.gos g = ⟨c, .parked d t⟩ ∧ s'.gos g = ⟨c, .woken d t⟩

theorem Sys.Wakes.of_eq {s s' : Sys} (h : s'.gos = s.gos) : s.Wakes s' := fun g => .inl (by rw [h])

theorem Sys.Wakes.effect {s s' : Sys} {a : Act} {g : Gid} (h : s.Wakes s') :
    GoEffect s a g (s'.gos g) := by
  rcases h g with h | ⟨c, d, t, h, h'⟩
  · rw [h]; exact .same
  · rw [h']; exact .woken c d t h

theorem Sys.wakes_broadcast (s : Sys) (c : Nat) : s.Wakes (s.broadcast c) := by
  intro g
  simp only [Sys.broadcast]
  split
  · rename_i c' d t h
    split
    · exact .inr ⟨c', d, t, h, rfl⟩
    · exact .inl h.symm
  · exact .inl rfl

theorem Sys.wakes_err (s : Sys) (c : Nat) : s.Wakes (s.err c) :=
  Sys.wakes_broadcast ((s.release c).setConn c { (s.release c).conn c with state := .errored }) c

theorem Sys.wakes_tcpErrFn (s : Sys) (p : Nat) : s.Wakes (s.tcpErrFn p) := by
  simp only [Sys.tcpErrFn]
  split
  · exact Sys.wakes_err (s.emit _) _
  · exact .of_eq rfl

theorem Sys.wakes_lookup (s : Sys) (h : Holder) (p : Nat) (k : Nat → Lock) :
    s.Wakes (s.lookup h p k) := by
  simp only [Sys.lookup]
  split
  · exact .of_eq rfl
  · rename_i hc
    exact .of_eq ((Sys.tcpAbort_of_none _ hc).1)

theorem Sys.wakes_checkState (s : Sys) (c : Nat) (k : CheckPc) : s.Wakes (s.checkState c k).1 := by
  cases k <;> simp only [Sys.checkState]
  case isClosed => exact .of_eq rfl
  case checkClosing => split <;> exact .of_eq rfl
  case checkAborting =>
    split
    · exact .of_eq (s.abortInternal_control c).1
    · exact .of_eq rfl
  case broadcast => exact s.wakes_broadcast c

theorem Sys.wakes_setLocalClosed (s : Sys) (c : Nat) : s.Wakes (s.setLocalClosed c) := by
  simp only [Sys.setLocalClosed]
  split
  · exact .of_eq rfl
  · exact Sys.wakes_broadcast (s.setConn c _) c

section
variable {s s' : Sys} {M : Lwip}

theorem lwipStep_wakes {p : Nat} {e : LwEv} {t : Tcp} (h : s.lwipStep M p e t = some s') :
    s.Wakes s' := by
  unfold Sys.lwipStep at h
  split at h
  case h_2 => cases h
  case h_1 hd hl =>
    split at h
    case isFalse => cases h
    case isTrue =>
      cases e with
      | tau => cases h; exact .of_eq rfl
      | free => cases h; exact .of_eq rfl
      | err =>
        cases h
        split
        · exact Sys.wakes_tcpErrFn (s.setTcp p t) p
        · exact .of_eq rfl
      | _ =>
        simp only at h
        split at h <;> cases h
        exact Sys.wakes_lookup (s.setTcp p t) hd p _

theorem heldStep_go {x : Env} (h : s.heldStep x = some s') (g : Gid) :
    GoEffect s (.held x) g (s'.gos g) := by
  unfold Sys.heldStep at h
  split at h
  case h_1 c g' hl =>
    split at h
    · cases h
      by_cases hg : g = g'
      · subst hg
        simp only [Sys.return_gos, Function.update_self]
        exact .spawn c rfl hl ‹_›
      · simp only [Sys.return_gos, Sys.setConn_gos, Function.update_of_ne hg]
        exact .same
    · cases h
  case h_2 hd p c d hl =>
    cases h
    refine Sys.Wakes.effect ?_
    unfold Sys.receiveCheck
    split
    · exact .of_eq rfl
    · exact .of_eq rfl
    · exact .of_eq rfl
    · exact .of_eq ((Sys.abortInternal_control _ c).1)
    · exact .of_eq rfl
  case h_3 => split at h <;> cases h <;> exact (Sys.Wakes.of_eq rfl).effect
  case h_4 => split at h <;> cases h; exact (Sys.Wakes.of_eq rfl).effect
  case h_5 => split at h <;> cases h; exact (Sys.Wakes.of_eq rfl).effect
  case h_6 hd p c hl => cases h; exact (s.wakes_setLocalClosed c).effect
  case h_7 hd p c k hl =>
    have hw := s.wakes_checkState c k
    split at h
    · rename_i hk
      cases h
      rw [hk] at hw
      exact hw.effect
    · rename_i s1 e hk
      cases h
      rw [hk] at hw
      have : (s1.checkReturn hd e).gos = s1.gos := by unfold Sys.checkReturn; split <;> rfl
      rw [this]
      exact hw.effect
  case h_8 g' c k hl =>
    have hw := s.wakes_checkState c k
    split at h
    · rename_i hk
      cases h
      rw [hk] at hw
      exact hw.effect
    · rename_i s1 e hk
      cases h
      rw [hk] at hw
      by_cases hg : g = g'
      · subst hg
        rw [Sys.goto_gos_self, Sys.setLock_gos]
        have : (s1.gos g).conn = (s.gos g).conn := by
          rcases hw g with h | ⟨c, d, t, h, h'⟩
          · rw [h]
          · rw [h, h']
        rw [this]
        exact .aborted c k rfl hl
      · rw [Sys.goto_gos_ne _ _ hg]
        exact hw.effect
  case h_9 => cases h

theorem callStep_go {g : Gid} {c : Nat} {op : Op} (h : s.callStep g c op = some s') (g' : Gid) :
    GoEffect s (.call g c op) g' (s'.gos g') := by
  unfold Sys.callStep at h
  split at h <;> cases h
  rename_i hc
  by_cases hg : g' = g
  · subst hg
    simp only [Function.update_self]
    exact .call c op rfl hc.1 hc.2.1 (hc.2.2.imp_right (·.1))
  · simp only [Function.update_of_ne hg]
    exact .same

theorem GoEffect.goto {s₁ : Sys} {g : Gid} {x : Env} {pc : Pc} (hs : s₁.gos = s.gos)
    (hn : (s.gos g).pc.next pc = true)
    (hc : ∀ ic, pc = .shutdown ic → (s.conn (s.gos g).conn).state.closeWrite ≠ none) (g' : Gid) :
    GoEffect s (.go g x) g' ((s₁.goto g pc).gos g') := by
  by_cases hg : g' = g
  · subst hg
    rw [Sys.goto_gos_self, hs]
    exact .own x pc rfl hn hc
  · rw [Sys.goto_gos_ne _ _ hg, hs]
    exact .same

theorem GoEffect.leaveWrite {s₁ : Sys} {g : Gid} {x : Env} {c : Nat} (hs : s₁.gos = s.gos)
    (hn : (s.gos g).pc.next .idle = true) (g' : Gid) :
    GoEffect s (.go g x) g' ((s₁.leaveWrite g c).gos g') :=
  .goto hs hn (by simp) g'

theorem GoEffect.leaveClose {s₁ : Sys} {g : Gid} {x : Env} {c : Nat} {b : Bool}
    (hs : s₁.gos = s.gos) (hn : (s.gos g).pc.next .idle = true) (g' : Gid) :
    GoEffect s (.go g x) g' ((s₁.leaveClose g c b).gos g') := by
  cases b
  · exact .goto hs hn (by simp) g'
  · refine .goto ?_ hn (by simp) g'
    exact hs

theorem goStep_go {g : Gid} {x : Env} (h : s.goStep g x = some s') (g' : Gid) :
    GoEffect s (.go g x) g' (s'.gos g') := by
  unfold Sys.goStep at h
  simp only at h
  split at h
  case h_1 hpc => cases h; exact .goto rfl (by rw [hpc]; rfl) (by simp) g'
  case h_2 hpc =>
    split at h <;> cases h
    · exact .goto rfl (by rw [hpc]; rfl) (by simp) g'
    · exact .goto (Sys.setConn_gos ..) (by rw [hpc]; rfl) (by simp) g'
  case h_3 hpc =>
    split at h
    · split at h <;> cases h
      · exact .goto (by simp) (by rw [hpc]; rfl) (by simp) g'
      · exact .goto (by simp) (by rw [hpc]; rfl) (by simp) g'
    · cases h
  case h_4 hpc =>
    split at h <;> cases h
    exact .goto (by simp) (by rw [hpc]; rfl) (by simp) g'
  case h_5 hpc =>
    split at h <;> cases h
    exact .goto (by simp) (by rw [hpc]; simp [Pc.next]) (by simp) g'
  case h_6 hpc =>
    split at h <;> cases h
    exact .goto (by simp) (by rw [hpc]; simp [Pc.next]) (by simp) g'
  case h_7 hpc =>
    split at h
    · cases h; exact .leaveWrite rfl (by rw [hpc]; rfl) g'
    · split at h <;> cases h
      · exact .goto rfl (by rw [hpc]; simp [Pc.next]) (by simp) g'
      · exact .same
      · exact .leaveWrite rfl (by rw [hpc]; rfl) g'
  case h_8 hpc =>
    have hgos : ∀ (s₁ : Sys) (p q : Prop) [Decidable p] [Decidable q] (c : Nat) (o o' : PcbOp),
        s₁.gos = s.gos → (if p then (if q then s₁.access c o else s₁).access c o' else
          if q then s₁.access c o else s₁).gos = s.gos := by
      intro s₁ p q _ _ c o o' hs
      split <;> split <;> exact hs
    split at h
    · split at h <;> cases h
      · exact .leaveWrite (hgos _ _ _ _ _ _ (by simp)) (by rw [hpc]; rfl) g'
      · exact .goto (hgos _ _ _ _ _ _ (by simp)) (by rw [hpc]; rfl) (by simp) g'
    · cases h
  case h_9 hpc => cases h; exact .goto (by simp) (by rw [hpc]; simp [Pc.next]) (by simp) g'
  case h_10 hpc =>
    split at h <;> cases h
    · exact .leaveClose rfl (by rw [hpc]; rfl) g'
    · rename_i hst
      exact .goto (by simp) (by rw [hpc]; simp [Pc.next]) (by simp [hst]) g'
  case h_11 hpc =>
    split at h <;> cases h
    exact .leaveClose (by simp) (by rw [hpc]; rfl) g'
  case h_12 ic hpc =>
    cases h
    cases ic
    · exact .goto (by simp) (by rw [hpc]; rfl) (by simp) g'
    · exact .goto (by simp) (by rw [hpc]; rfl) (by simp) g'
  case h_13 hpc =>
    split at h <;> cases h
    · exact .goto (by simp) (by rw [hpc]; rfl) (by simp) g'
    · exact .goto (by simp) (by rw [hpc]; rfl) (by simp) g'
  case h_14 hpc => cases h; exact .goto (by simp) (by rw [hpc]; rfl) (by simp) g'
  case h_15 hpc =>
    split at h <;> cases h
    exact .goto (by simp) (by rw [hpc]; rfl) (by simp) g'
  case h_16 hpc =>
    split at h <;> cases h
    · exact .goto rfl (by rw [hpc]; simp [Pc.next]) (by simp) g'
    · exact .goto rfl (by rw [hpc]; rfl) (by simp) g'
  case h_17 hpc =>
    cases h
    refine .goto rfl ?_ (by split <;> simp) g'
    rw [hpc]; split <;> simp [Pc.next]
  case h_18 hpc =>
    split at h
    · split at h <;> cases h
      exact .goto (by simp) (by rw [hpc]; rfl) (by simp) g'
    · cases h
  case h_19 hpc =>
    split at h <;> cases h
    exact .goto rfl (by rw [hpc]; rfl) (by simp) g'
  case h_20 => cases h

/-- Where a goroutine is after a step. -/
theorem step_go {a : Act} (h : step M s a = some s') (g : Gid) : GoEffect s a g (s'.gos g) := by
  unfold step at h
  split at h
  · cases h
  · cases a with
    | lock => simp only at h; split at h <;> cases h; exact .same
    | unlock => simp only at h; split at h <;> cases h; exact .same
    | accept key => simp only at h; split at h <;> cases h; exact .same
    | lwip p e t => exact (lwipStep_wakes h).effect
    | held x => exact heldStep_go h g
    | call g' c op => exact callStep_go h g
    | go g' x => exact goStep_go h g

end

/-! ## The lock -/

/-- The Go code that runs with `lwipMutex` held, and the connection it is about. -/
inductive Frame
  | none
  | accept (c : Nat)
  | callback (p c : Nat)
  | abort (g : Gid) (c : Nat)
  deriving DecidableEq, Repr

def Lock.frame : Lock → Frame
  | .free | .lwip _ => .none
  | .accept c => .accept c
  | .receive _ p c _ | .pipeWrite _ p c _ | .pipe _ p c _ _ _ | .localClosed _ p c
  | .check _ p c _ => .callback p c
  | .abort g c _ => .abort g c

/-- The connection has ended: `tcpClosed` or `tcpErrored`. -/
def Life.ended (l : Life) : Bool := l.state.terminal

/-- No connection ends. -/
def Sys.SameEnds (s s' : Sys) : Prop :=
  ∀ c, (s'.registry.life c).ended = (s.registry.life c).ended

theorem Sys.SameEnds.of_eq {s s' : Sys} (h : s'.registry = s.registry) : s.SameEnds s' :=
  fun c => by rw [h]

theorem Registry.set_ended {R : Registry} {c : Nat} {l : Life}
    (h : l.ended = (R.life c).ended) (d : Nat) : ((R.set c l).life d).ended = (R.life d).ended := by
  by_cases hd : d = c
  · subst hd; simpa using h
  · rw [R.set_life_ne l hd]

/-- The sections of goroutines outside `lwipMutex` end no connection. -/
theorem Effect.sameEnds_go {s : Sys} {g : Gid} {x : Env} {R : Registry} (h : Effect s (.go g x) R)
    (c : Nat) : (R.life c).ended = (s.registry.life c).ended := by
  cases h with
  | quiet => rfl
  | connected g c _ _ hst =>
    refine Registry.set_ended ?_ _
    show TcpConnState.terminal _ = (s.conn c).state.terminal
    rw [hst]; rfl
  | closeWrite g c ic st _ _ hst =>
    refine Registry.set_ended ?_ _
    exact TcpConnState.closeWrite_terminal hst
  | abort g c =>
    refine Registry.set_ended ?_ _
    exact TcpConnState.terminal_abort _
  | _ => contradiction

/-- What the holder of `lwipMutex` can be doing after step `a`. -/
inductive LockEffect (s : Sys) (a : Act) (s' : Sys) : Prop
  /-- An accept is done when the connect goroutine is let go. -/
  | none : s'.lock.frame = .none → (∀ c, s.lock.frame = .accept c → ∃ g, a = .held (.spawn g)) →
      LockEffect s a s'
  | accept (key : UInt32) : s'.lock.frame = .accept s.n → s.lock.frame = .none →
      s'.registry = s.registry.accept key → LockEffect s a s'
  /-- A callback found its connection. -/
  | found (p c : Nat) : s'.lock.frame = .callback p c → s.lock.frame = .none → p < s.n →
      (s.pcb p).hooked = true → s.tcpConns (s.conn p).connKey = some c →
      s'.registry = s.registry → LockEffect s a s'
  | abort (g : Gid) (c : Nat) : s'.lock.frame = .abort g c → s.lock.frame = .none →
      s.gos g = ⟨c, .abortLock⟩ → (s'.gos g).pc = .aborting → s'.registry = s.registry →
      LockEffect s a s'
  | kept : s'.lock.frame = s.lock.frame → s.SameEnds s' → (∀ g, a ≠ .held (.spawn g)) →
      LockEffect s a s'

section
variable {s s' : Sys} {M : Lwip}

theorem lwipStep_lock {p : Nat} {e : LwEv} {t : Tcp} (h : s.lwipStep M p e t = some s') :
    LockEffect s (.lwip p e t) s' := by
  unfold Sys.lwipStep at h
  split at h
  case h_2 => cases h
  case h_1 hd hl =>
    split at h
    case isFalse => cases h
    case isTrue hg =>
      have hhook : ((s.setTcp p t).pcb p).hooked = (s.pcb p).hooked := by
        simp [Sys.setTcp, Sys.setPcb]
      have hnone : s.lock.frame = .none := by rw [hl]; rfl
      have hcb : ∀ k : Nat → Lock, (∀ c, (k c).frame = .callback p c) →
          (s.pcb p).hooked = true → LockEffect s (.lwip p e t) ((s.setTcp p t).lookup hd p k) := by
        intro k hk hh
        cases hc : s.tcpConns (s.conn p).connKey with
        | some c =>
          refine .found p c ?_ hnone hg.1 hh hc ?_
          · simp only [Sys.lookup]
            have : ((s.setTcp p t).emit (.key p (0 < ((s.setTcp p t).conn p).cellFrees))).tcpConns
                (((s.setTcp p t).emit (.key p (0 < ((s.setTcp p t).conn p).cellFrees))).conn
                  p).connKey = some c := hc
            rw [this]
            exact hk c
          · rw [(s.setTcp p t).registry_lookup_of_some hd k hc, Sys.registry_setTcp]
        | none =>
          refine .none ?_ (by simp [hnone])
          simp only [Sys.lookup]
          have : ((s.setTcp p t).emit (.key p (0 < ((s.setTcp p t).conn p).cellFrees))).tcpConns
              (((s.setTcp p t).emit (.key p (0 < ((s.setTcp p t).conn p).cellFrees))).conn
                p).connKey = none := hc
          rw [this]
          rfl
      cases e with
      | tau => cases h; exact .none (by simp [hnone]) (by simp [hnone])
      | free => cases h; exact .none (by simp [hnone]) (by simp [hnone])
      | err => cases h; refine .none ?_ (by simp [hnone]); split <;> simp [hnone]
      | _ =>
        simp only [hhook] at h
        split at h <;> cases h
        exact hcb _ (fun c => rfl) ‹_›

theorem checkState_inl {c : Nat} {k k' : CheckPc} {s₁ : Sys}
    (h : s.checkState c k = (s₁, .inl k')) : s₁ = s := by
  cases k <;> simp only [Sys.checkState] at h
  case isClosed => split at h <;> cases h; rfl
  case checkClosing => split at h <;> cases h; rfl
  case checkAborting => split at h <;> cases h; rfl
  case broadcast => cases h

/-- `checkState` returns `nil` only on a closed connection. -/
theorem checkState_nil {c : Nat} {k : CheckPc} {s₁ : Sys}
    (h : s.checkState c k = (s₁, .inr none)) : s₁ = s ∧ (s.conn c).state = .closed := by
  cases k <;> simp only [Sys.checkState] at h
  case isClosed => split at h <;> cases h; exact ⟨rfl, ‹_›⟩
  case checkClosing => split at h <;> cases h
  case checkAborting => split at h <;> cases h
  case broadcast => cases h

/-- `checkState` returns `nil`, `LWIP_ERR_OK` or `LWIP_ERR_ABRT`. -/
theorem checkState_inr {c : Nat} {k : CheckPc} {s₁ : Sys} {e : Option LwipErr}
    (h : s.checkState c k = (s₁, .inr e)) : e = none ∨ e = some .ok ∨ e = some .abrt := by
  cases k <;> simp only [Sys.checkState] at h
  case isClosed => split at h <;> cases h; simp
  case checkClosing => split at h <;> cases h; simp
  case checkAborting => split at h <;> cases h; simp
  case broadcast => cases h; simp

theorem heldStep_lock {x : Env} (h : s.heldStep x = some s') : LockEffect s (.held x) s' := by
  have none : ∀ {s' : Sys}, s'.lock.frame = .none → (∀ c, s.lock ≠ .accept c) →
      LockEffect s (.held x) s' := fun hn hl => .none hn fun c hc => by
    cases hs : s.lock <;> simp [hs, Lock.frame] at hc hl
  unfold Sys.heldStep at h
  split at h
  case h_1 g hl => split at h <;> cases h; exact .none rfl fun _ _ => ⟨g, rfl⟩
  case h_2 hd p c d hl =>
    cases h
    unfold Sys.receiveCheck
    split
    · exact .kept (by rw [hl]; rfl) (.of_eq rfl) (by simp)
    · exact none rfl (by simp [hl])
    · exact none rfl (by simp [hl])
    · exact none rfl (by simp [hl])
    · exact none rfl (by simp [hl])
  case h_3 hd p c d hl =>
    split at h <;> cases h
    · exact none rfl (by simp [hl])
    · exact .kept (by rw [hl]; rfl) (.of_eq rfl) (by simp)
  case h_4 hl => split at h <;> cases h; exact none rfl (by simp [hl])
  case h_5 hl => split at h <;> cases h; exact none rfl (by simp [hl])
  case h_6 hd p c hl =>
    cases h
    refine .kept (by rw [hl]; rfl) ?_ (by simp)
    intro d
    rw [Sys.registry_setLock]
    simp only [Sys.setLocalClosed]
    split
    · rfl
    · rename_i st hst
      rw [Sys.registry_broadcast, Sys.registry_setConn]
      refine Registry.set_ended ?_ d
      exact TcpConnState.setLocalClosed_terminal hst
  case h_7 hd p c k hl =>
    split at h
    · rename_i hk
      cases h
      rw [checkState_inl hk]
      exact .kept (by rw [hl]; rfl) (.of_eq rfl) (by simp)
    · rename_i s₁ e hk
      cases h
      rcases checkState_inr hk with rfl | rfl | rfl
      · rw [(checkState_nil hk).1]
        exact .kept rfl (.of_eq rfl) (by simp)
      · exact none rfl (by simp [hl])
      · exact none rfl (by simp [hl])
  case h_8 g c k hl =>
    split at h
    · rename_i hk
      cases h
      rw [checkState_inl hk]
      exact .kept (by rw [hl]; rfl) (.of_eq rfl) (by simp)
    · cases h; exact none rfl (by simp [hl])
  case h_9 => cases h

theorem goStep_lock {g : Gid} {x : Env} (h : s.goStep g x = some s') :
    LockEffect s (.go g x) s' := by
  have kept : s'.lock.frame = s.lock.frame → LockEffect s (.go g x) s' := fun hf =>
    .kept hf (fun c => (goStep_effect h).sameEnds_go c) (by simp)
  unfold Sys.goStep at h
  simp only at h
  split at h
  case h_1 => cases h; exact kept rfl
  case h_2 => split at h <;> cases h <;> exact kept rfl
  case h_3 =>
    split at h
    · rename_i hl
      split at h <;> cases h
      · exact .none rfl (by simp [hl, Lock.frame])
      · exact kept rfl
    · cases h
  case h_4 =>
    split at h <;> cases h
    rename_i hl
    exact .none rfl (by simp [hl.1, Lock.frame])
  case h_5 => split at h <;> cases h; exact kept rfl
  case h_6 => split at h <;> cases h; exact kept rfl
  case h_7 =>
    split at h
    · cases h; exact kept rfl
    · split at h <;> cases h <;> exact kept rfl
  case h_8 =>
    split at h
    · split at h <;> cases h <;> refine kept ?_ <;> simp <;> split <;> split <;> simp
    · cases h
  case h_9 => cases h; exact kept rfl
  case h_10 => split at h <;> cases h <;> exact kept (by simp)
  case h_11 => split at h <;> cases h; exact kept (by simp)
  case h_12 => cases h; exact kept rfl
  case h_13 => split at h <;> cases h <;> exact kept rfl
  case h_14 => cases h; exact kept rfl
  case h_15 hpc =>
    split at h <;> cases h
    rename_i hl
    exact .abort g _ rfl (by rw [hl]; rfl) (by rw [← hpc]) (by simp) rfl
  case h_16 => split at h <;> cases h <;> exact kept rfl
  case h_17 => cases h; exact kept rfl
  case h_18 =>
    split at h
    · rename_i hl
      split at h <;> cases h
      exact kept (by rw [hl]; rfl)
    · cases h
  case h_19 => split at h <;> cases h; exact kept rfl
  case h_20 => cases h

/-- `lwipMutex` after section `x` of goroutine `g`. -/
inductive GoHold (s : Sys) (g : Gid) (x : Env) : Lock → Prop
  | same : (∀ n, x = .none → (s.gos g).pc ≠ .readWait n) → GoHold s g x s.lock
  | refused : s.lock = .free → (s.gos g).pc = .refused → GoHold s g x (.lwip (.go g))
  | settled : s.lock = .lwip (.go g) → (s.gos g).pc = .inRefused → GoHold s g x .free
  | abort (c : Nat) : s.lock = .free → s.gos g = ⟨c, .abortLock⟩ →
      GoHold s g x (.abort g c .isClosed)
  /-- A `Read` takes from the pipe. -/
  | read (n : Nat) (h : Holder) (p c : Nat) (d rest : Bytes) (once : Bool) : x = .none →
      s.gos g = ⟨c, .readWait n⟩ → s.lock = .pipe h p c d rest once →
      GoHold s g x (.pipe h p c d (rest.drop n) false)

theorem goStep_hold {g : Gid} {x : Env} (h : s.goStep g x = some s') : GoHold s g x s'.lock := by
  have same : s'.lock = s.lock → (∀ n, x = .none → (s.gos g).pc ≠ .readWait n) →
      GoHold s g x s'.lock := fun hl hn => by rw [hl]; exact .same hn
  unfold Sys.goStep at h
  simp only at h
  split at h
  case h_1 hpc => cases h; exact same rfl (by simp [hpc])
  case h_2 hpc => split at h <;> cases h <;> exact same rfl (by simp [hpc])
  case h_3 hpc =>
    split at h
    · split at h <;> cases h
      · exact .refused ‹_› hpc
      · exact same rfl (by simp [hpc])
    · cases h
  case h_4 hpc =>
    split at h <;> cases h
    rename_i hl
    exact .settled hl.1 hpc
  case h_5 hpc => split at h <;> cases h; exact same rfl (by simp [hpc])
  case h_6 hpc => split at h <;> cases h; exact same rfl (by simp [hpc])
  case h_7 hpc =>
    split at h
    · cases h; exact same rfl (by simp [hpc])
    · split at h <;> cases h <;> exact same rfl (by simp [hpc])
  case h_8 hpc =>
    split at h
    · split at h <;> cases h <;> refine same ?_ (by simp [hpc]) <;> simp <;> split <;> split <;> simp
    · cases h
  case h_9 hpc => cases h; exact same rfl (by simp [hpc])
  case h_10 hpc => split at h <;> cases h <;> exact same (by simp) (by simp [hpc])
  case h_11 hpc => split at h <;> cases h; exact same (by simp) (by simp [hpc])
  case h_12 hpc => cases h; exact same rfl (by simp [hpc])
  case h_13 hpc => split at h <;> cases h <;> exact same rfl (by simp [hpc])
  case h_14 hpc => cases h; exact same rfl (by simp [hpc])
  case h_15 hpc => split at h <;> cases h; exact .abort _ ‹_› (by rw [← hpc])
  case h_16 hpc => split at h <;> cases h <;> exact same rfl (by simp [hpc])
  case h_17 hpc => cases h; exact same rfl (by simp [hpc])
  case h_18 n hpc =>
    split at h
    · rename_i hd p c d rest once hl
      split at h <;> cases h
      rename_i hc
      exact .read n hd p c d rest once rfl (by rw [hc.1, ← hpc]) hl
    · cases h
  case h_19 => split at h <;> cases h; exact same rfl (by simp)
  case h_20 => cases h

/-- What the holder of `lwipMutex` can be doing after a step. -/
theorem step_lock {a : Act} (h : step M s a = some s') : LockEffect s a s' := by
  unfold step at h
  split at h
  · cases h
  · cases a with
    | lock =>
      simp only at h
      split at h <;> cases h
      rename_i hl
      exact .none rfl (by simp [hl, Lock.frame])
    | unlock =>
      simp only at h
      split at h <;> cases h
      rename_i hl
      exact .none rfl (by simp [hl.1, Lock.frame])
    | accept key =>
      simp only at h
      split at h <;> cases h
      rename_i hl
      exact .accept key rfl (by rw [hl]; rfl) (s.registry_newTCPConn key)
    | lwip p e t => exact lwipStep_lock h
    | held x => exact heldStep_lock h
    | call g c op =>
      refine .kept ?_ (.of_eq (callStep_effect h)) (by simp)
      simp only [Sys.callStep] at h
      split at h <;> cases h
      rfl
    | go g x => exact goStep_lock h

end

/-! ## The log -/

/-- The accesses to the connection's pcb in the section at `pc`. -/
def Pc.uses : Pc → PcbOp → Bool
  | .refused, .refusedData | .refused, .processRefused => true
  | .writeLwip _ _, .sndBuf | .writeLwip _ _, .tcpWrite | .writeLwip _ _, .tcpOutput => true
  | .shutdown _, .shutdownTx => true
  | _, _ => false

/-- The section at `pc` uses the connection's pcb. -/
def Pc.usesPcb : Pc → Bool
  | .refused | .writeLwip _ _ | .shutdown _ => true
  | _ => false

theorem Pc.usesPcb_of_uses {pc : Pc} {op : PcbOp} (h : pc.uses op = true) : pc.usesPcb = true := by
  cases pc <;> first | rfl | (cases op <;> cases h)

/-- The connection whose `checkAborting` section is next. -/
def Lock.checkAborting : Lock → Option Nat
  | .check _ _ c .checkAborting | .abort _ c .checkAborting => some c
  | _ => none

/-- What step `a` can log. -/
inductive Logged (s : Sys) (a : Act) : Ev → Prop
  /-- A callback of a pcb, or the err callback that its abort calls. -/
  | key (p : Nat) (e : LwEv) (t : Tcp) : a = .lwip p e t → p < s.n → (s.pcb p).hooked = true →
      Logged s a (.key p (0 < (s.conn p).cellFrees))
  /-- The err callback in `abortInternal`. -/
  | abortKey (c : Nat) (f : Bool) : a = .held .none → s.lock.checkAborting = some c →
      (s.conn c).state = .aborting → (s.pcb c).hooked = true → (s.pcb c).tcp.st ≠ .timeWait →
      Logged s a (.key c f)
  | go (g : Gid) (x : Env) (op : PcbOp) : a = .go g x → (s.gos g).pc.uses op = true →
      Logged s a (.pcb (s.gos g).conn op (s.pcb (s.gos g).conn).freed)
  /-- `Receive` and `tcpRecvFn`. -/
  | recv (p c q : Nat) (op : PcbOp) : s.lock.frame = .callback p c → q = p ∨ q = c →
      op = .recved ∨ op = .shutdownRx → Logged s a (.pcb q op (s.pcb q).freed)
  | close (c : Nat) (op : PcbOp) : s.lock.conn = some c → (s.conn c).state = .closing →
      op = .hooks ∨ op = .close → Logged s a (.pcb c op (s.pcb c).freed)
  | closeInternal (c : Nat) : s.lock.conn = some c → (s.conn c).state = .closing →
      Logged s a (.closeInternal c)
  | abort (c : Nat) : s.lock.conn = some c → (s.conn c).state = .aborting →
      Logged s a (.pcb c .abort (s.pcb c).freed)
  | errored (h : Holder) (p c : Nat) (d : Bytes) (e : Ev) : s.lock = .receive h p c d →
      (s.conn c).state = .errored → Logged s a e
  /-- A callback of a pcb without a connection. -/
  | drop (p : Nat) : p < s.n → (s.pcb p).hooked = true → s.tcpConns (s.conn p).connKey = none →
      Logged s a (.pcb p .abort (s.pcb p).freed)

/-- The log of `s'` extends that of `s` by what step `a` can log. -/
def Sys.Logs (s : Sys) (a : Act) (s' : Sys) : Prop :=
  ∃ es, s'.log = s.log ++ es ∧ ∀ e ∈ es, Logged s a e

theorem Sys.Logs.of_eq {s s' : Sys} {a : Act} (h : s'.log = s.log) : s.Logs a s' :=
  ⟨[], by simp [h], by simp⟩

theorem Sys.Logs.append {s s₁ s₂ : Sys} {a : Act} (h : s.Logs a s₁) (es : List Ev)
    (he : s₂.log = s₁.log ++ es) (hes : ∀ e ∈ es, Logged s a e) : s.Logs a s₂ := by
  obtain ⟨es', h', hl⟩ := h
  refine ⟨es' ++ es, by rw [he, h', List.append_assoc], fun e hm => ?_⟩
  rcases List.mem_append.1 hm with hm | hm
  · exact hl e hm
  · exact hes e hm

theorem Sys.Logs.snoc {s s₁ s₂ : Sys} {a : Act} (h : s.Logs a s₁) {e : Ev}
    (he : s₂.log = s₁.log ++ [e]) (hes : Logged s a e) : s.Logs a s₂ :=
  h.append _ he fun _ hm => List.mem_singleton.1 hm ▸ hes

theorem Sys.Logs.keep {s s₁ s₂ : Sys} {a : Act} (h : s.Logs a s₁) (he : s₂.log = s₁.log) :
    s.Logs a s₂ :=
  h.append [] (by simp [he]) (by simp)

section
variable {s s' : Sys} {M : Lwip}

theorem lwipStep_log {p : Nat} {e : LwEv} {t : Tcp} (h : s.lwipStep M p e t = some s') :
    s.Logs (.lwip p e t) s' := by
  unfold Sys.lwipStep at h
  split at h
  case h_2 => cases h
  case h_1 hd hl =>
    split at h
    case isFalse => cases h
    case isTrue hg =>
      have hpcb : ((s.setTcp p t).pcb p).hooked = (s.pcb p).hooked ∧
          ((s.setTcp p t).pcb p).freed = (s.pcb p).freed := by
        simp [Sys.setTcp, Sys.setPcb]
      have hcb : ∀ k : Nat → Lock, (s.pcb p).hooked = true →
          s.Logs (.lwip p e t) ((s.setTcp p t).lookup hd p k) := by
        intro k hh
        have hkey := Sys.Logs.snoc (s := s) (.of_eq (a := .lwip p e t) rfl)
          ((s.setTcp p t).emit_log (.key p (0 < ((s.setTcp p t).conn p).cellFrees)))
          (.key p e t rfl hg.1 hh)
        simp only [Sys.lookup]
        split
        · exact hkey.keep rfl
        · rename_i hc
          refine (hkey.append _ (Sys.tcpAbort_of_none _ hc).2.2 ?_).keep rfl
          intro e' he
          rcases List.mem_cons.1 he with rfl | he
          · have hd := Logged.drop (a := .lwip p e t) p hg.1 hh hc
            rw [← hpcb.2] at hd
            exact hd
          · split at he
            · obtain rfl := List.mem_singleton.1 he
              exact .key p e t rfl hg.1 hh
            · cases he
      cases e with
      | tau => cases h; exact .of_eq rfl
      | free => cases h; exact .of_eq rfl
      | err =>
        cases h
        split
        · rename_i hh
          rw [hpcb.1] at hh
          exact Sys.Logs.snoc (.of_eq rfl) ((s.setTcp p t).tcpErrFn_log p)
            (.key p .err t rfl hg.1 hh)
        · exact .of_eq rfl
      | _ =>
        simp only [hpcb.1] at h
        split at h <;> cases h
        exact hcb _ ‹_›

theorem closeInternal_logs {a : Act} {c : Nat} (hc : s.lock.conn = some c)
    (hst : (s.conn c).state = .closing) : s.Logs a (s.closeInternal c) := by
  have h1 := Sys.Logs.snoc (.of_eq (a := a) rfl) (s.emit_log (.closeInternal c))
    (.closeInternal c hc hst)
  have h2 := h1.snoc (Sys.access_log _ c .hooks) (.close c .hooks hc hst (.inl rfl))
  refine h2.snoc (e := .pcb c .close (s.pcb c).freed) ?_ (.close c .close hc hst (.inr rfl))
  simp [Sys.closeInternal, Sys.access, Sys.emit, Sys.release, Sys.setPcb]

theorem abortInternal_logs {a : Act} {c : Nat} {s₁ : Sys} (h : s.Logs a s₁)
    (ha : Logged s a (.pcb c .abort (s₁.pcb c).freed))
    (hk : (s₁.pcb c).hooked = true → (s₁.pcb c).tcp.st ≠ .timeWait → ∀ f, Logged s a (.key c f)) :
    s.Logs a (s₁.abortInternal c) := by
  refine h.append _ (s₁.abortInternal_control c).2.2 fun e he => ?_
  rcases List.mem_cons.1 he with rfl | he
  · exact ha
  · split at he
    · rename_i hp
      obtain rfl := List.mem_singleton.1 he
      exact hk hp.1 hp.2 _
    · cases he

theorem checkState_logs {c : Nat} {k : CheckPc} (hc : s.lock.conn = some c)
    (hk : k = .checkAborting → s.lock.checkAborting = some c) :
    s.Logs (.held .none) (s.checkState c k).1 := by
  cases k <;> simp only [Sys.checkState]
  case isClosed => exact .of_eq rfl
  case broadcast => exact .of_eq rfl
  case checkClosing =>
    split
    · exact closeInternal_logs hc ‹_›
    · exact .of_eq rfl
  case checkAborting =>
    split
    · rename_i hst
      exact abortInternal_logs (.of_eq rfl) (.abort c hc hst)
        fun hh ht f => .abortKey c f rfl (hk rfl) hst hh ht
    · exact .of_eq rfl

theorem recvClsd_logs {a : Act} {h : Holder} {p c : Nat} (hf : s.lock.frame = .callback p c) :
    s.Logs a (s.recvClsd h p) := by
  have h1 := Sys.Logs.snoc (.of_eq (a := a) rfl) (s.access_log p .recved)
    (.recv p c p .recved hf (.inl rfl) (.inl rfl))
  exact h1.snoc ((s.access p .recved).access_log p .shutdownRx)
    (.recv p c p .shutdownRx hf (.inl rfl) (.inr rfl))

theorem heldStep_log {x : Env} (h : s.heldStep x = some s') : s.Logs (.held x) s' := by
  unfold Sys.heldStep at h
  split at h
  case h_1 => split at h <;> cases h; exact .of_eq rfl
  case h_2 hd p c d hl =>
    cases h
    unfold Sys.receiveCheck
    split
    · exact .of_eq rfl
    · exact .of_eq rfl
    · exact recvClsd_logs (by rw [hl]; rfl)
    · rename_i hr
      have hst : (s.conn c).state = .errored := by
        cases hs : (s.conn c).state <;> simp [hs, TcpConnState.receiveCheck] at hr ⊢
      refine Sys.Logs.keep (abortInternal_logs (c := c) ?_ (.errored hd p c d _ hl hst)
        fun _ _ f => .errored hd p c d _ hl hst) rfl
      exact Sys.Logs.snoc (.of_eq rfl) (s.emit_log _) (.errored hd p c d _ hl hst)
    · exact .of_eq rfl
  case h_3 hd p c d hl =>
    split at h <;> cases h
    · exact recvClsd_logs (by rw [hl]; rfl)
    · exact .of_eq rfl
  case h_4 hd p c d rest once hl =>
    split at h <;> cases h
    exact Sys.Logs.snoc (.of_eq rfl) (s.access_log c .recved)
      (.recv p c c .recved (by rw [hl]; rfl) (.inr rfl) (.inl rfl))
  case h_5 hl => split at h <;> cases h; exact recvClsd_logs (by rw [hl]; rfl)
  case h_6 hd p c hl =>
    cases h
    refine .of_eq ?_
    simp only [Sys.setLocalClosed]
    split <;> rfl
  case h_7 hd p c k hl =>
    have hk' := checkState_logs (s := s) (c := c) (k := k) (by rw [hl]; rfl)
      (by rintro rfl; rw [hl]; rfl)
    split at h
    · rename_i hk
      cases h
      rw [hk] at hk'
      exact hk'.keep rfl
    · rename_i s₁ e hk
      cases h
      rw [hk] at hk'
      refine hk'.keep ?_
      unfold Sys.checkReturn
      split <;> rfl
  case h_8 g c k hl =>
    have hk' := checkState_logs (s := s) (c := c) (k := k) (by rw [hl]; rfl)
      (by rintro rfl; rw [hl]; rfl)
    split at h
    · rename_i hk
      cases h
      rw [hk] at hk'
      exact hk'.keep rfl
    · rename_i s₁ e hk
      cases h
      rw [hk] at hk'
      exact hk'.keep rfl
  case h_9 => cases h

theorem goStep_log {g : Gid} {x : Env} (h : s.goStep g x = some s') : s.Logs (.go g x) s' := by
  unfold Sys.goStep at h
  simp only at h
  split at h
  case h_1 => cases h; exact .of_eq rfl
  case h_2 => split at h <;> cases h <;> exact .of_eq rfl
  case h_3 hpc =>
    have h1 := Sys.Logs.snoc (.of_eq rfl) (s.access_log (s.gos g).conn .refusedData)
      (.go g .none .refusedData rfl (by rw [hpc]; rfl))
    split at h
    · split at h <;> cases h
      · refine (h1.snoc (Sys.access_log _ (s.gos g).conn .processRefused) ?_).keep rfl
        exact .go g .none .processRefused rfl (by rw [hpc]; rfl)
      · exact h1.keep rfl
    · cases h
  case h_4 => split at h <;> cases h; exact .of_eq rfl
  case h_5 => split at h <;> cases h; exact .of_eq rfl
  case h_6 => split at h <;> cases h; exact .of_eq rfl
  case h_7 =>
    split at h
    · cases h; exact .of_eq rfl
    · split at h <;> cases h <;> exact .of_eq rfl
  case h_8 d t sndBuf ret hpc =>
    have use : ∀ {s₁ : Sys} (op : PcbOp), (s.gos g).pc.uses op = true →
        s.Logs (.go g (.write sndBuf ret)) s₁ → s₁.pcb = s.pcb →
        s.Logs (.go g (.write sndBuf ret)) (s₁.access (s.gos g).conn op) := by
      intro s₁ op hop hs hp
      refine hs.snoc (s₁.access_log _ op) ?_
      rw [hp]
      exact .go g _ op rfl hop
    have h1 := use .sndBuf (by rw [hpc]; rfl) (.of_eq rfl) rfl
    have hif : ∀ {s₁ : Sys} (q : Prop) [Decidable q] (op : PcbOp), (s.gos g).pc.uses op = true →
        s.Logs (.go g (.write sndBuf ret)) s₁ → s₁.pcb = s.pcb →
        s.Logs (.go g (.write sndBuf ret)) (if q then s₁.access (s.gos g).conn op else s₁) ∧
          (if q then s₁.access (s.gos g).conn op else s₁).pcb = s.pcb := by
      intro s₁ q _ op hop hs hp
      split
      · exact ⟨use op hop hs hp, hp⟩
      · exact ⟨hs, hp⟩
    have h2 := hif (0 < sndBuf.toNat) .tcpWrite (by rw [hpc]; rfl) h1 rfl
    have h3 := hif (0 < (writeSection d sndBuf ret).1) .tcpOutput (by rw [hpc]; rfl) h2.1 h2.2
    split at h
    · split at h <;> cases h <;> exact h3.1.keep rfl
    · cases h
  case h_9 => cases h; exact .of_eq rfl
  case h_10 => split at h <;> cases h <;> exact .of_eq (by simp)
  case h_11 hpc =>
    split at h <;> cases h
    exact (Sys.Logs.snoc (.of_eq rfl) (s.access_log (s.gos g).conn .shutdownTx)
      (.go g _ .shutdownTx rfl (by rw [hpc]; rfl))).keep (by simp)
  case h_12 => cases h; exact .of_eq rfl
  case h_13 => split at h <;> cases h <;> exact .of_eq rfl
  case h_14 => cases h; exact .of_eq rfl
  case h_15 => split at h <;> cases h; exact .of_eq rfl
  case h_16 => split at h <;> cases h <;> exact .of_eq rfl
  case h_17 => cases h; exact .of_eq rfl
  case h_18 =>
    split at h
    · split at h <;> cases h; exact .of_eq rfl
    · cases h
  case h_19 => split at h <;> cases h; exact .of_eq rfl
  case h_20 => cases h

/-- What a step logs. -/
theorem step_log {a : Act} (h : step M s a = some s') : s.Logs a s' := by
  unfold step at h
  split at h
  · cases h
  · cases a with
    | lock => simp only at h; split at h <;> cases h; exact .of_eq rfl
    | unlock => simp only at h; split at h <;> cases h; exact .of_eq rfl
    | accept key => simp only at h; split at h <;> cases h; exact .of_eq rfl
    | lwip p e t => exact lwipStep_log h
    | held x => exact heldStep_log h
    | call g c op =>
      refine .of_eq ?_
      simp only [Sys.callStep] at h
      split at h <;> cases h
      rfl
    | go g x => exact goStep_log h

end

/-! ## Panics -/

namespace Sys

variable (s : Sys)

@[simp] theorem err_panicked (c : Nat) : (s.err c).panicked = s.panicked := rfl

@[simp] theorem tcpErrFn_panicked (p : Nat) : (s.tcpErrFn p).panicked = s.panicked := by
  simp only [tcpErrFn]; split <;> rfl

@[simp] theorem tcpAbort_panicked (p : Nat) : (s.tcpAbort p).panicked = s.panicked := by
  unfold tcpAbort
  split
  · rw [tcpErrFn_panicked]; rfl
  · rfl

@[simp] theorem abortInternal_panicked (c : Nat) : (s.abortInternal c).panicked = s.panicked := by
  rw [abortInternal, tcpAbort_panicked]; rfl

@[simp] theorem lookup_panicked (h : Holder) (p : Nat) (k : Nat → Lock) :
    (s.lookup h p k).panicked = s.panicked := by
  simp only [lookup]
  split
  · rfl
  · exact tcpAbort_panicked _ p

@[simp] theorem checkState_panicked (c : Nat) (k : CheckPc) :
    (s.checkState c k).1.panicked = s.panicked := by
  cases k <;> simp only [checkState]
  case checkClosing => split <;> rfl
  case checkAborting => split <;> simp
  case broadcast => rfl

theorem receiveCheck_panicked (h : Holder) (p c : Nat) (d : Bytes) :
    (s.receiveCheck h p c d).panicked = s.panicked := by
  unfold receiveCheck
  split
  · rfl
  · rfl
  · rfl
  · exact abortInternal_panicked _ c
  · rfl

end Sys

section
variable {s s' : Sys} {M : Lwip}

theorem heldStep_panicked {x : Env} (h : s.heldStep x = some s') (hs : s.panicked = false)
    (hp : s'.panicked = true) :
    ∃ h p c k, s.lock = .check h p c k ∧ (s.conn c).state = .closed := by
  have no : s'.panicked ≠ s.panicked := by rw [hs, hp]; decide
  unfold Sys.heldStep at h
  split at h
  case h_1 => split at h <;> cases h; exact absurd rfl no
  case h_2 => cases h; exact absurd (s.receiveCheck_panicked ..) no
  case h_3 => split at h <;> cases h <;> exact absurd rfl no
  case h_4 => split at h <;> cases h; exact absurd rfl no
  case h_5 => split at h <;> cases h; exact absurd rfl no
  case h_6 =>
    cases h
    refine absurd ?_ no
    simp only [Sys.setLocalClosed]
    split <;> rfl
  case h_7 hd p c k hl =>
    have hk' := s.checkState_panicked c k
    split at h
    · rename_i hk
      cases h
      rw [hk] at hk'
      exact absurd hk' no
    · rename_i s₁ e hk
      cases h
      rw [hk] at hk'
      rcases checkState_inr hk with rfl | rfl | rfl
      · exact ⟨hd, p, c, k, hl, (checkState_nil hk).2⟩
      · exact absurd hk' no
      · exact absurd hk' no
  case h_8 g c k hl =>
    have hk' := s.checkState_panicked c k
    split at h
    · rename_i hk
      cases h
      rw [hk] at hk'
      exact absurd hk' no
    · rename_i s₁ e hk
      cases h
      rw [hk] at hk'
      exact absurd hk' no
  case h_9 => cases h

theorem goStep_panicked {g : Gid} {x : Env} (h : s.goStep g x = some s') (hs : s.panicked = false)
    (hp : s'.panicked = true) :
    ∃ c d t, s.gos g = ⟨c, .writeLoop d t⟩ ∧ (s.conn c).state = .newConn := by
  have no : s'.panicked ≠ s.panicked := by rw [hs, hp]; decide
  unfold Sys.goStep at h
  simp only at h
  split at h
  case h_1 => cases h; exact absurd rfl no
  case h_2 => split at h <;> cases h <;> exact absurd rfl no
  case h_3 =>
    split at h
    · split at h <;> cases h <;> exact absurd rfl no
    · cases h
  case h_4 => split at h <;> cases h; exact absurd rfl no
  case h_5 => split at h <;> cases h; exact absurd rfl no
  case h_6 => split at h <;> cases h; exact absurd rfl no
  case h_7 d t hpc =>
    split at h
    · cases h; exact absurd rfl no
    · split at h
      · cases h; exact absurd rfl no
      · rename_i hw
        refine ⟨_, d, t, by rw [← hpc], ?_⟩
        cases hst : (s.conn (s.gos g).conn).state <;> simp [hst, TcpConnState.writeCheck] at hw ⊢
      · cases h; exact absurd rfl no
  case h_8 =>
    split at h
    · split at h <;> cases h <;> refine absurd ?_ no <;>
        simp only [Sys.leaveWrite, Sys.goto, Sys.setConn] <;> split <;> split <;> rfl
    · cases h
  case h_9 => cases h; exact absurd rfl no
  case h_10 ic _ =>
    split at h <;> cases h
    · cases ic <;> exact absurd rfl no
    · exact absurd rfl no
  case h_11 ic _ _ =>
    split at h <;> cases h
    cases ic <;> exact absurd rfl no
  case h_12 => cases h; exact absurd rfl no
  case h_13 => split at h <;> cases h <;> exact absurd rfl no
  case h_14 => cases h; exact absurd rfl no
  case h_15 => split at h <;> cases h; exact absurd rfl no
  case h_16 => split at h <;> cases h <;> exact absurd rfl no
  case h_17 => cases h; exact absurd rfl no
  case h_18 =>
    split at h
    · split at h <;> cases h; exact absurd rfl no
    · cases h
  case h_19 => split at h <;> cases h; exact absurd rfl no
  case h_20 => cases h

/-- Where the code panics: after a `checkState` that returned `nil`, and in `writeCheck`. -/
theorem step_panicked {a : Act} (h : step M s a = some s') (hp : s'.panicked = true) :
    (∃ h p c k, s.lock = .check h p c k ∧ (s.conn c).state = .closed) ∨
      ∃ g c d t, s.gos g = ⟨c, .writeLoop d t⟩ ∧ (s.conn c).state = .newConn := by
  unfold step at h
  split at h
  · cases h
  · rename_i hs
    have no : s'.panicked ≠ s.panicked := by rw [hp]; exact fun h => hs h.symm
    rw [Bool.not_eq_true] at hs
    cases a with
    | lock => simp only at h; split at h <;> cases h; exact absurd rfl no
    | unlock => simp only at h; split at h <;> cases h; exact absurd rfl no
    | accept key => simp only at h; split at h <;> cases h; exact absurd rfl no
    | lwip p e t =>
      simp only [Sys.lwipStep] at h
      split at h
      case h_2 => cases h
      case h_1 =>
        split at h
        case isFalse => cases h
        case isTrue =>
          cases e with
          | tau => cases h; exact absurd rfl no
          | free => cases h; exact absurd rfl no
          | err =>
            cases h
            refine absurd ?_ no
            split
            · exact (s.setTcp p t).tcpErrFn_panicked p
            · rfl
          | _ =>
            simp only at h
            split at h <;> cases h
            exact absurd ((s.setTcp p t).lookup_panicked ..) no
    | held x => exact .inl (heldStep_panicked h hs hp)
    | call g c op =>
      simp only [Sys.callStep] at h
      split at h <;> cases h
      exact absurd rfl no
    | go g x => exact .inr ⟨g, goStep_panicked h hs hp⟩

end

end Core
