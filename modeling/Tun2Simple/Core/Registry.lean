import Tun2Simple.Core.Step

/-!
# What a step does to the registry

`Registry` is what the lifetime of the connections depends on: the map `tcpConns`, and of each
connection its state, its ghost fields and the flags of its pcb (`Life`). `Sys.registry` forgets the
rest. `step_effect` says once what any step can do to it (`Effect`, with the guards under which it
does so); the invariants of `Core/Proof` are derived from it.
-/

namespace Core

/-- A connection and its pcb (module doc). -/
structure Life where
  state : TcpConnState
  key : UInt32
  started : Bool
  w : Bool
  r : Bool
  frees : Nat
  hooked : Bool
  closed : Bool
  freed : Bool

@[ext] structure Registry where
  n : Nat
  life : Nat → Life
  reg : UInt32 → Option Nat

namespace Registry

variable (R : Registry)

def set (c : Nat) (l : Life) : Registry := { R with life := Function.update R.life c l }

def setState (c : Nat) (st : TcpConnState) : Registry := R.set c { R.life c with state := st }

def free (p : Nat) : Registry := R.set p { R.life p with hooked := false, freed := true }

def release (c : Nat) : Registry :=
  let x := R.life c
  let found := (R.reg x.key).isSome
  { R with
    reg := if found then Function.update R.reg x.key none else R.reg
    life := Function.update R.life c
      { x with state := .closed, frees := if found then x.frees + 1 else x.frees } }

/-- `Err` of connection `c`. -/
def err (c : Nat) : Registry := (R.release c).setState c .errored

/-- `closeInternal`. -/
def close (c : Nat) : Registry :=
  let R := R.set c { R.life c with hooked := false }
  let R := R.release c
  R.set c { R.life c with closed := true }

def accept (key : UInt32) : Registry where
  n := R.n + 1
  life := Function.update R.life R.n
    ⟨.newConn, key, false, false, false, 0, true, false, false⟩
  reg := Function.update R.reg key (some R.n)

@[simp] theorem set_reg (c : Nat) (l : Life) : (R.set c l).reg = R.reg := rfl
@[simp] theorem set_life_self (c : Nat) (l : Life) : (R.set c l).life c = l := by simp [set]

theorem set_life_ne {c d : Nat} (l : Life) (h : d ≠ c) : (R.set c l).life d = R.life d := by
  simp [set, h]

@[simp] theorem set_same (c : Nat) : R.set c (R.life c) = R := by simp [set]

@[simp] theorem set_set (c : Nat) (l l' : Life) : (R.set c l).set c l' = R.set c l' := by
  simp [set]

end Registry

namespace Sys

/-- The part of the state the registry's invariants are about. -/
def registry (s : Sys) : Registry where
  n := s.n
  life c :=
    ⟨(s.conn c).state, (s.conn c).connKey, (s.conn c).started, (s.conn c).didCloseWrite,
      (s.conn c).didLocalClose, (s.conn c).cellFrees, (s.pcb c).hooked, (s.pcb c).closed, (s.pcb c).freed⟩
  reg := s.tcpConns

variable (s : Sys)

@[simp] theorem registry_n : s.registry.n = s.n := rfl
@[simp] theorem registry_reg : s.registry.reg = s.tcpConns := rfl
@[simp] theorem registry_goto (g : Gid) (pc : Pc) : (s.goto g pc).registry = s.registry := rfl
@[simp] theorem registry_setLock (l : Lock) : (s.setLock l).registry = s.registry := rfl
@[simp] theorem registry_return_ (h : Holder) : (s.return_ h).registry = s.registry := rfl
@[simp] theorem registry_emit (e : Ev) : (s.emit e).registry = s.registry := rfl
@[simp] theorem registry_broadcast (c : Nat) : (s.broadcast c).registry = s.registry := rfl

@[simp] theorem registry_access (p : Nat) (op : PcbOp) : (s.access p op).registry = s.registry :=
  rfl

@[simp] theorem registry_gos (f : Gid → Go) : ({ s with gos := f } : Sys).registry = s.registry :=
  rfl

@[simp] theorem registry_panicked (b : Bool) :
    ({ s with panicked := b } : Sys).registry = s.registry := rfl

theorem registry_setConn (c : Nat) (x : Conn) :
    (s.setConn c x).registry = s.registry.set c
      { s.registry.life c with state := x.state, key := x.connKey, started := x.started,
                               w := x.didCloseWrite, r := x.didLocalClose,
                               frees := x.cellFrees } := by
  refine Registry.ext rfl (funext fun d => ?_) rfl
  by_cases h : d = c
  · subst h; simp [registry, setConn]
  · rw [Registry.set_life_ne _ _ h]; simp [registry, setConn, h]

/-- A change of the other fields of a connection. -/
theorem registry_setConn_keep {c : Nat} {x : Conn}
    (h : (x.state, x.connKey, x.started, x.didCloseWrite, x.didLocalClose, x.cellFrees) =
      ((s.conn c).state, (s.conn c).connKey, (s.conn c).started, (s.conn c).didCloseWrite,
        (s.conn c).didLocalClose, (s.conn c).cellFrees)) : (s.setConn c x).registry = s.registry := by
  simp only [Prod.mk.injEq] at h
  rw [registry_setConn, h.1, h.2.1, h.2.2.1, h.2.2.2.1, h.2.2.2.2.1, h.2.2.2.2.2]
  exact Registry.set_same _ _

theorem registry_setPcb (p : Nat) (x : Pcb) :
    (s.setPcb p x).registry = s.registry.set p
      { s.registry.life p with hooked := x.hooked, closed := x.closed, freed := x.freed } := by
  refine Registry.ext rfl (funext fun d => ?_) rfl
  by_cases h : d = p
  · subst h; simp [registry, setPcb]
  · rw [Registry.set_life_ne _ _ h]; simp [registry, setPcb, h]

theorem registry_unhook (p : Nat) :
    (s.setPcb p { s.pcb p with hooked := false }).registry =
      s.registry.set p { s.registry.life p with hooked := false } := by
  rw [registry_setPcb]; rfl

theorem registry_markClosed (p : Nat) :
    (s.setPcb p { s.pcb p with closed := true }).registry =
      s.registry.set p { s.registry.life p with closed := true } := by
  rw [registry_setPcb]; rfl

@[simp] theorem registry_setTcp (p : Nat) (t : Tcp) : (s.setTcp p t).registry = s.registry := by
  rw [setTcp, registry_setPcb]
  exact Registry.set_same _ _

@[simp] theorem registry_free (p : Nat) : (s.free p).registry = s.registry.free p := by
  rw [free, registry_setPcb]; rfl

@[simp] theorem registry_release (c : Nat) : (s.release c).registry = s.registry.release c := by
  refine Registry.ext rfl (funext fun d => ?_) rfl
  by_cases h : d = c
  · subst h; simp only [registry, release, Registry.release, Function.update_self]; rfl
  · simp [registry, release, Registry.release, h]

@[simp] theorem registry_err (c : Nat) : (s.err c).registry = s.registry.err c := by
  rw [err, registry_broadcast, registry_setConn]
  simp only [registry_release, Registry.err, Registry.setState]
  congr 1
  simp only [registry, release, Registry.release, Function.update_self]; rfl

theorem release_lookup (c : Nat) :
    (s.release c).tcpConns ((s.release c).conn c).connKey = none := by
  simp only [release, Function.update_self]
  split
  · simp
  · simp_all

/-- After `release` the err callback finds no connection. -/
theorem tcpErrFn_of_none {p : Nat} (h : s.tcpConns (s.conn p).connKey = none) :
    s.tcpErrFn p = s.emit (.key p (0 < (s.conn p).cellFrees)) := by
  have h' : (s.emit (.key p (0 < (s.conn p).cellFrees))).tcpConns
      ((s.emit (.key p (0 < (s.conn p).cellFrees))).conn p).connKey = none := h
  simp only [tcpErrFn, h']

theorem registry_tcpErrFn_of_some {p c : Nat} (h : s.tcpConns (s.conn p).connKey = some c) :
    (s.tcpErrFn p).registry = s.registry.err c := by
  have h' : (s.emit (.key p (0 < (s.conn p).cellFrees))).tcpConns
      ((s.emit (.key p (0 < (s.conn p).cellFrees))).conn p).connKey = some c := h
  simp only [tcpErrFn, h', registry_err, registry_emit]

/-- `tcp_abort` of a pcb whose connection is not in `tcpConns` only frees it. -/
theorem registry_tcpAbort_of_none {p : Nat} (h : s.tcpConns (s.conn p).connKey = none) :
    (s.tcpAbort p).registry = s.registry.free p := by
  have h' : ((s.access p .abort).free p).tcpConns
      (((s.access p .abort).free p).conn p).connKey = none := h
  unfold tcpAbort
  split
  · rw [tcpErrFn_of_none _ h']; simp
  · simp

@[simp] theorem registry_abortInternal (c : Nat) :
    (s.abortInternal c).registry = (s.registry.release c).free c := by
  rw [abortInternal, registry_tcpAbort_of_none _ (s.release_lookup c), registry_release]

@[simp] theorem registry_closeInternal (c : Nat) :
    (s.closeInternal c).registry = s.registry.close c := by
  simp only [closeInternal, registry_markClosed, registry_access, registry_release, registry_unhook,
    registry_emit, Registry.close]

theorem registry_lookup_of_some {p c : Nat} (h : Holder) (k : Nat → Lock)
    (hc : s.tcpConns (s.conn p).connKey = some c) : (s.lookup h p k).registry = s.registry := by
  have h' : (s.emit (.key p (0 < (s.conn p).cellFrees))).tcpConns
      ((s.emit (.key p (0 < (s.conn p).cellFrees))).conn p).connKey = some c := hc
  simp only [lookup, h', registry_setLock, registry_emit]

theorem registry_lookup_of_none {p : Nat} (h : Holder) (k : Nat → Lock)
    (hc : s.tcpConns (s.conn p).connKey = none) :
    (s.lookup h p k).registry = s.registry.free p := by
  have h' : (s.emit (.key p (0 < (s.conn p).cellFrees))).tcpConns
      ((s.emit (.key p (0 < (s.conn p).cellFrees))).conn p).connKey = none := hc
  simp only [lookup, h', registry_return_, registry_tcpAbort_of_none _ h', registry_emit]

@[simp] theorem registry_recvClsd (h : Holder) (p : Nat) :
    (s.recvClsd h p).registry = s.registry := by
  simp [recvClsd]

@[simp] theorem registry_checkReturn (h : Holder) (e : Option LwipErr) :
    (s.checkReturn h e).registry = s.registry := by
  unfold checkReturn; split <;> rfl

@[simp] theorem registry_leaveWrite (g : Gid) (c : Nat) :
    (s.leaveWrite g c).registry = s.registry := by
  rw [leaveWrite, registry_goto]
  exact registry_setConn_keep _ rfl

@[simp] theorem registry_leaveClose (g : Gid) (c : Nat) (b : Bool) :
    (s.leaveClose g c b).registry = s.registry := by
  rw [leaveClose, registry_goto]
  split
  · exact registry_setConn_keep _ rfl
  · rfl

theorem registry_newTCPConn (key : UInt32) :
    (s.newTCPConn key).registry = s.registry.accept key := by
  refine Registry.ext rfl (funext fun d => ?_) rfl
  by_cases hd : d = s.n
  · subst hd; simp [registry, newTCPConn, Registry.accept]
  · simp [registry, newTCPConn, Registry.accept, hd]

end Sys

/-! ## Effects -/

/-- The connection whose code runs with `lwipMutex` held. -/
def Lock.conn : Lock → Option Nat
  | .accept c | .receive _ _ c _ | .pipeWrite _ _ c _ | .pipe _ _ c _ _ _ | .localClosed _ _ c
  | .check _ _ c _ | .abort _ c _ => some c
  | .free | .lwip _ => none

/-- The connection that the next section of `checkState` closes or aborts. -/
def Sys.ending (s : Sys) : Option Nat :=
  match s.lock with
  | .check _ _ c k | .abort _ c k =>
    if (k = .checkClosing ∧ (s.conn c).state = .closing) ∨
        (k = .checkAborting ∧ (s.conn c).state = .aborting) then some c else none
  | _ => none

theorem Sys.ending_eq_some {s : Sys} {c : Nat} (h : s.ending = some c) :
    s.lock.conn = some c ∧ ((s.conn c).state = .closing ∨ (s.conn c).state = .aborting) := by
  unfold Sys.ending at h
  split at h
  · rename_i hl
    split at h <;> cases h
    rename_i hst
    exact ⟨by rw [hl]; rfl, hst.imp And.right And.right⟩
  · rename_i hl
    split at h <;> cases h
    rename_i hst
    exact ⟨by rw [hl]; rfl, hst.imp And.right And.right⟩
  · cases h

/-- What step `a` can do to the registry of `s`. -/
inductive Effect (s : Sys) (a : Act) : Registry → Prop
  | quiet : Effect s a s.registry
  | accept (key : UInt32) : a = .accept key → Effect s a (s.registry.accept key)
  /-- `newTCPConn` sets `tcpConnecting`. -/
  | start (g : Gid) (c : Nat) : a = .held (.spawn g) → s.lock = .accept c →
      Effect s a (s.registry.set c
        { s.registry.life c with state := .connecting, started := true })
  | connected (g : Gid) (c : Nat) : a = .go g (.handle true) → s.gos g = ⟨c, .handling⟩ →
      (s.conn c).state = .connecting → Effect s a (s.registry.setState c .connected)
  | closeWrite (g : Gid) (c : Nat) (ic : Bool) (st : TcpConnState) : a = .go g .none →
      s.gos g = ⟨c, .closeWrite ic⟩ → (s.conn c).state.closeWrite = some st →
      Effect s a (s.registry.set c { s.registry.life c with state := st, w := true })
  | localClosed (h : Holder) (p c : Nat) (st : TcpConnState) : a = .held .none →
      s.lock = .localClosed h p c → (s.conn c).state.setLocalClosed = some st →
      Effect s a (s.registry.set c { s.registry.life c with state := st, r := true })
  | abort (g : Gid) (c : Nat) : a = .go g .none → s.gos g = ⟨c, .abort⟩ →
      Effect s a (s.registry.setState c (s.conn c).state.abort)
  | close (c : Nat) : a = .held .none → s.ending = some c → (s.conn c).state = .closing →
      Effect s a (s.registry.close c)
  /-- `abortInternal`. -/
  | abortFree (c : Nat) : a = .held .none → s.ending = some c → (s.conn c).state = .aborting →
      Effect s a ((s.registry.release c).free c)
  /-- `abortInternal` from `receiveCheck`. -/
  | erroredFree (h : Holder) (p c : Nat) (d : Bytes) : a = .held .none →
      s.lock = .receive h p c d → (s.conn c).state = .errored → Effect s a ((s.registry.release c).free c)
  /-- lwIP frees `p` around the err callback. -/
  | err (p c : Nat) (t : Tcp) : a = .lwip p .err t → p < s.n → (s.pcb p).hooked = true →
      s.tcpConns (s.conn p).connKey = some c → Effect s a ((s.registry.err c).free p)
  /-- A callback of a pcb without a connection: it is freed. -/
  | drop (p : Nat) (e : LwEv) (t : Tcp) : a = .lwip p e t → p < s.n → (s.pcb p).hooked = true →
      s.tcpConns (s.conn p).connKey = none → Effect s a (s.registry.free p)
  /-- lwIP frees `p`, which has no err callback. -/
  | unhooked (p : Nat) (t : Tcp) : a = .lwip p .err t → (s.pcb p).hooked = false → Effect s a (s.registry.free p)
  /-- lwIP frees `p` without its err callback. -/
  | free (p : Nat) (t : Tcp) : a = .lwip p .free t → Effect s a (s.registry.free p)

theorem Effect.of_eq {s s' : Sys} {a : Act} (h : s'.registry = s.registry) :
    Effect s a s'.registry := h ▸ .quiet

/-- A section of goroutine `g` that only sets other fields of the connection. -/
theorem Effect.keep {s : Sys} {a : Act} {c : Nat} {x : Conn} {g : Gid} {pc : Pc}
    (h : (x.state, x.connKey, x.started, x.didCloseWrite, x.didLocalClose, x.cellFrees) =
      ((s.conn c).state, (s.conn c).connKey, (s.conn c).started, (s.conn c).didCloseWrite,
        (s.conn c).didLocalClose, (s.conn c).cellFrees)) : Effect s a ((s.setConn c x).goto g pc).registry :=
  .of_eq (by rw [Sys.registry_goto]; exact s.registry_setConn_keep h)

section
variable {s s' : Sys} {M : Lwip}

theorem lwipStep_effect {p : Nat} {e : LwEv} {t : Tcp} (h : s.lwipStep M p e t = some s') :
    Effect s (.lwip p e t) s'.registry := by
  unfold Sys.lwipStep at h
  split at h
  case h_2 => cases h
  case h_1 hd hl =>
    split at h
    case isFalse => cases h
    case isTrue hg =>
      obtain ⟨hp, -, -, -⟩ := hg
      have hhook : ((s.setTcp p t).pcb p).hooked = (s.pcb p).hooked := by
        simp [Sys.setTcp, Sys.setPcb]
      -- the callbacks differ only in where they go on with the connection they found
      have hcb : ∀ k : Nat → Lock, (s.pcb p).hooked = true →
          Effect s (.lwip p e t) ((s.setTcp p t).lookup hd p k).registry := by
        intro k hk
        cases hc : s.tcpConns (s.conn p).connKey with
        | some c =>
          exact .of_eq (((s.setTcp p t).registry_lookup_of_some hd k hc).trans (by simp))
        | none =>
          rw [(s.setTcp p t).registry_lookup_of_none hd k hc, Sys.registry_setTcp]
          exact .drop p _ t rfl hp hk hc
      cases e with
      | tau => cases h; exact .of_eq (by simp)
      | free => cases h; rw [Sys.registry_free, Sys.registry_setTcp]; exact .free p t rfl
      | err =>
        simp only [hhook, Option.some.injEq] at h
        subst h
        rw [Sys.registry_free]
        split
        case isTrue hk =>
          cases hc : s.tcpConns (s.conn p).connKey with
          | some c =>
            rw [(s.setTcp p t).registry_tcpErrFn_of_some hc, Sys.registry_setTcp]
            exact .err p c t rfl hp hk hc
          | none =>
            rw [(s.setTcp p t).tcpErrFn_of_none hc, Sys.registry_emit, Sys.registry_setTcp]
            exact .drop p _ t rfl hp hk hc
        case isFalse hk =>
          rw [Sys.registry_setTcp]
          exact .unhooked p t rfl (by simpa using hk)
      | _ =>
        simp only [hhook] at h
        split at h
        · cases h; exact hcb _ ‹_›
        · cases h

theorem checkState_effect {c : Nat} {k : CheckPc}
    (hl : (∃ h p, s.lock = .check h p c k) ∨ ∃ g, s.lock = .abort g c k) :
    Effect s (.held .none) (s.checkState c k).1.registry := by
  have ending : (k = .checkClosing ∧ (s.conn c).state = .closing) ∨
      (k = .checkAborting ∧ (s.conn c).state = .aborting) → s.ending = some c := fun hk => by
    rcases hl with ⟨h, p, hl⟩ | ⟨g, hl⟩ <;> simp only [Sys.ending, hl] <;> exact if_pos hk
  cases k <;> simp only [Sys.checkState]
  case isClosed => exact .quiet
  case broadcast => exact .quiet
  case checkClosing =>
    split
    · rename_i hst
      rw [Sys.registry_closeInternal]
      exact .close c rfl (ending (.inl ⟨rfl, hst⟩)) hst
    · exact .quiet
  case checkAborting =>
    split
    · rename_i hst
      rw [Sys.registry_abortInternal]
      exact .abortFree c rfl (ending (.inr ⟨rfl, hst⟩)) hst
    · exact .quiet

theorem heldStep_effect {x : Env} (h : s.heldStep x = some s') :
    Effect s (.held x) s'.registry := by
  unfold Sys.heldStep at h
  split at h
  case h_1 c g hl =>
    split at h
    · cases h
      rw [Sys.registry_return_, Sys.registry_gos, s.registry_setConn]
      exact .start g c rfl hl
    · cases h
  case h_2 hd p c d hl =>
    cases h
    unfold Sys.receiveCheck
    split
    · exact .of_eq (by simp)
    · exact .of_eq (by simp)
    · exact .of_eq (by simp)
    · rename_i hr
      have hst : (s.conn c).state = .errored := by
        cases hs : (s.conn c).state <;> simp [hs, TcpConnState.receiveCheck] at hr ⊢
      simp only [Sys.registry_return_, Sys.registry_abortInternal, Sys.registry_emit]
      exact .erroredFree hd p c d rfl hl hst
    · exact .of_eq (by simp)
  case h_3 => split at h <;> cases h <;> exact .of_eq (by simp)
  case h_4 => split at h <;> cases h; exact .of_eq (by simp)
  case h_5 => split at h <;> cases h; exact .of_eq (by simp)
  case h_6 hd p c hl =>
    cases h
    simp only [Sys.registry_setLock, Sys.setLocalClosed]
    split
    · exact .quiet
    · rename_i st hst
      rw [Sys.registry_broadcast, Sys.registry_setConn]
      exact .localClosed hd p c st rfl hl hst
  case h_7 hd p c k hl =>
    have he := checkState_effect (.inl ⟨hd, p, hl⟩)
    split at h
    · rename_i hk
      cases h
      rw [hk] at he
      exact he
    · rename_i hk
      cases h
      rw [hk] at he
      rw [Sys.registry_checkReturn]
      exact he
  case h_8 g c k hl =>
    have he := checkState_effect (.inr ⟨g, hl⟩)
    split at h
    · rename_i hk
      cases h
      rw [hk] at he
      exact he
    · rename_i hk
      cases h
      rw [hk] at he
      exact he
  case h_9 => cases h

theorem callStep_effect {g : Gid} {c : Nat} {op : Op} (h : s.callStep g c op = some s') :
    s'.registry = s.registry := by
  unfold Sys.callStep at h
  split at h <;> cases h
  rfl

theorem goStep_effect {g : Gid} {x : Env} (h : s.goStep g x = some s') :
    Effect s (.go g x) s'.registry := by
  unfold Sys.goStep at h
  simp only at h
  split at h
  case h_1 => cases h; exact .quiet
  case h_2 hpc =>
    split at h <;> cases h
    · exact .quiet
    · rename_i hst
      rw [Sys.registry_goto, Sys.registry_setConn]
      exact .connected g _ rfl (by rw [← hpc]) (by simpa using hst)
  case h_3 =>
    split at h
    · split at h <;> cases h <;> exact .of_eq (by simp)
    · cases h
  case h_4 => split at h <;> cases h; exact .quiet
  case h_5 => split at h <;> cases h; refine .keep ?_; rfl
  case h_6 => split at h <;> cases h; refine .keep ?_; rfl
  case h_7 =>
    split at h
    · cases h; exact .of_eq (by simp)
    · split at h <;> cases h <;> exact .of_eq (by simp)
  case h_8 =>
    split at h
    · split at h <;> cases h <;> exact .of_eq (by simp; split <;> split <;> simp)
    · cases h
  case h_9 => cases h; refine .keep ?_; rfl
  case h_10 ic hpc =>
    split at h <;> cases h
    · exact .of_eq (by simp)
    · rename_i st hst
      rw [Sys.registry_goto, Sys.registry_setConn]
      exact .closeWrite g _ ic st rfl (by rw [← hpc]) hst
  case h_11 => split at h <;> cases h; exact .of_eq (by simp)
  case h_12 => cases h; refine .keep ?_; rfl
  case h_13 =>
    split at h <;> cases h
    · refine .keep ?_; rfl
    · exact .quiet
  case h_14 hpc =>
    cases h
    rw [Sys.registry_goto, Sys.registry_setConn]
    exact .abort g _ rfl (by rw [← hpc])
  case h_15 => split at h <;> cases h; exact .quiet
  case h_16 => split at h <;> cases h <;> exact .quiet
  case h_17 => cases h; exact .quiet
  case h_18 =>
    split at h
    · split at h <;> cases h; exact .quiet
    · cases h
  case h_19 => split at h <;> cases h; exact .quiet
  case h_20 => cases h

/-- What a step does to the registry. -/
theorem step_effect {a : Act} (h : step M s a = some s') : Effect s a s'.registry := by
  unfold step at h
  split at h
  · cases h
  · cases a with
    | lock => simp only at h; split at h <;> cases h; exact .quiet
    | unlock => simp only at h; split at h <;> cases h; exact .quiet
    | accept key =>
      simp only at h
      split at h <;> cases h
      rw [Sys.registry_newTCPConn]
      exact .accept key rfl
    | lwip p e t => exact lwipStep_effect h
    | held x => exact heldStep_effect h
    | call g c op => exact .of_eq (callStep_effect h)
    | go g x => exact goStep_effect h

end

/-! ## One connection -/

/-- The fields of a connection that its life cycle is about. -/
def Life.Is (l : Life) (st : TcpConnState) (started w r : Bool) : Prop :=
  l.state = st ∧ l.started = started ∧ l.w = w ∧ l.r = r

/-- What step `a` can do to connection `c`. -/
inductive ConnEffect (s : Sys) (a : Act) (c : Nat) (l : Life) : Prop
  | same : l.Is (s.conn c).state (s.conn c).started (s.conn c).didCloseWrite
      (s.conn c).didLocalClose → ConnEffect s a c l
  | accept (key : UInt32) : a = .accept key → c = s.n → l.Is .newConn false false false →
      ConnEffect s a c l
  | start (g : Gid) : a = .held (.spawn g) → s.lock = .accept c →
      l.Is .connecting true (s.conn c).didCloseWrite (s.conn c).didLocalClose → ConnEffect s a c l
  | connected (g : Gid) : s.gos g = ⟨c, .handling⟩ → (s.conn c).state = .connecting →
      l.Is .connected (s.conn c).started (s.conn c).didCloseWrite (s.conn c).didLocalClose →
      ConnEffect s a c l
  | closeWrite (g : Gid) (ic : Bool) (st : TcpConnState) : s.gos g = ⟨c, .closeWrite ic⟩ →
      (s.conn c).state.closeWrite = some st →
      l.Is st (s.conn c).started true (s.conn c).didLocalClose → ConnEffect s a c l
  | localClosed (h : Holder) (p : Nat) (st : TcpConnState) : s.lock = .localClosed h p c →
      (s.conn c).state.setLocalClosed = some st →
      l.Is st (s.conn c).started (s.conn c).didCloseWrite true → ConnEffect s a c l
  | abort (g : Gid) : a = .go g .none → s.gos g = ⟨c, .abort⟩ →
      l.Is (s.conn c).state.abort (s.conn c).started (s.conn c).didCloseWrite
        (s.conn c).didLocalClose → ConnEffect s a c l
  /-- `closeInternal` and `abortInternal`. -/
  | close : a = .held .none → s.ending = some c →
      l.Is .closed (s.conn c).started (s.conn c).didCloseWrite (s.conn c).didLocalClose →
      ConnEffect s a c l
  | erroredFree (h : Holder) (p : Nat) (d : Bytes) : s.lock = .receive h p c d →
      (s.conn c).state = .errored →
      l.Is .closed (s.conn c).started (s.conn c).didCloseWrite (s.conn c).didLocalClose →
      ConnEffect s a c l
  | err (p : Nat) (t : Tcp) (k : UInt32) : a = .lwip p .err t → s.tcpConns k = some c →
      l.Is .errored (s.conn c).started (s.conn c).didCloseWrite (s.conn c).didLocalClose →
      ConnEffect s a c l

/-- A step that sets connection `c` only. -/
theorem ConnEffect.of_set {s : Sys} {a : Act} {R : Registry} {c : Nat} {l : Life}
    (hR : ∀ d, d ≠ c → R.life d = s.registry.life d) (h : ConnEffect s a c l) (d : Nat) :
    ConnEffect s a d ((R.set c l).life d) := by
  by_cases hd : d = c
  · subst hd; rw [Registry.set_life_self]; exact h
  · rw [R.set_life_ne l hd, hR d hd]; exact .same ⟨rfl, rfl, rfl, rfl⟩

theorem Registry.release_life_ne {R : Registry} {c d : Nat} (h : d ≠ c) :
    (R.release c).life d = R.life d := by
  simp [release, h]

theorem Registry.close_eq (R : Registry) (c : Nat) :
    R.close c = (R.release c).set c
      { (R.release c).life c with hooked := false, closed := true } := by
  simp only [close, release, set, Function.update_self, Function.update_idem]

/-- lwIP's own changes of a pcb do not touch its connection. -/
theorem ConnEffect.free {s : Sys} {a : Act} {R : Registry} {d : Nat}
    (h : ConnEffect s a d (R.life d)) (p : Nat) : ConnEffect s a d ((R.free p).life d) := by
  by_cases hd : d = p
  · subst hd
    rw [Registry.free, Registry.set_life_self]
    cases h with
    | same h => exact .same h
    | accept key ha hc h => exact .accept key ha hc h
    | start g ha hl h => exact .start g ha hl h
    | connected g hg hst h => exact .connected g hg hst h
    | closeWrite g ic st hg hst h => exact .closeWrite g ic st hg hst h
    | localClosed hd p st hl hst h => exact .localClosed hd p st hl hst h
    | abort g ha hg h => exact .abort g ha hg h
    | close ha hl h => exact .close ha hl h
    | erroredFree hd p b hl hst h => exact .erroredFree hd p b hl hst h
    | err p t k ha hk h => exact .err p t k ha hk h
  · rw [Registry.free, R.set_life_ne _ hd]; exact h

/-- What a step does to a connection. -/
theorem Effect.conn {s : Sys} {a : Act} {R : Registry} (h : Effect s a R) (d : Nat) :
    ConnEffect s a d (R.life d) := by
  have same : ConnEffect s a d (s.registry.life d) := .same ⟨rfl, rfl, rfl, rfl⟩
  have closed : ∀ c, a = .held .none → s.ending = some c → ∀ l : Life,
      l.Is .closed (s.conn c).started (s.conn c).didCloseWrite (s.conn c).didLocalClose →
      ConnEffect s a d (((s.registry.release c).set c l).life d) := fun c ha hc l hl =>
    .of_set (fun _ => Registry.release_life_ne) (.close ha hc hl) d
  cases h with
  | quiet => exact same
  | accept key ha =>
    by_cases hd : d = s.n
    · subst hd
      refine .accept key ha rfl ?_
      simp only [Registry.accept, Sys.registry_n, Function.update_self]
      exact ⟨rfl, rfl, rfl, rfl⟩
    · simp only [Registry.accept, Sys.registry_n, Function.update_of_ne hd]
      exact same
  | start g c ha hl => exact .of_set (fun _ _ => rfl) (.start g ha hl ⟨rfl, rfl, rfl, rfl⟩) d
  | connected g c _ hg hst =>
    exact .of_set (fun _ _ => rfl) (.connected g hg hst ⟨rfl, rfl, rfl, rfl⟩) d
  | closeWrite g c ic st _ hg hst =>
    exact .of_set (fun _ _ => rfl) (.closeWrite g ic st hg hst ⟨rfl, rfl, rfl, rfl⟩) d
  | localClosed hd p c st _ hl hst =>
    exact .of_set (fun _ _ => rfl) (.localClosed hd p st hl hst ⟨rfl, rfl, rfl, rfl⟩) d
  | abort g c ha hg => exact .of_set (fun _ _ => rfl) (.abort g ha hg ⟨rfl, rfl, rfl, rfl⟩) d
  | close c ha hc =>
    rw [Registry.close_eq]
    refine closed c ha hc _ ?_
    simp only [Registry.release, Function.update_self]
    exact ⟨rfl, rfl, rfl, rfl⟩
  | abortFree c ha hc =>
    refine closed c ha hc _ ?_
    simp only [Registry.release, Function.update_self]
    exact ⟨rfl, rfl, rfl, rfl⟩
  | erroredFree hd p c b _ hl hst =>
    refine .of_set (fun _ => Registry.release_life_ne) (.erroredFree hd p b hl hst ?_) d
    simp only [Registry.release, Function.update_self]
    exact ⟨rfl, rfl, rfl, rfl⟩
  | err p c t ha _ _ hr =>
    refine .free (.of_set (fun _ => Registry.release_life_ne) (.err p t _ ha hr ?_) d) p
    simp only [Registry.release, Function.update_self]
    exact ⟨rfl, rfl, rfl, rfl⟩
  | drop p => exact same.free p
  | unhooked p => exact same.free p
  | free p => exact same.free p

end Core
