import Tun2Simple.Core.Proof.HalfClose
import Tun2Simple.Core.Lwip
import Tun2Simple.Core.Receive

/-!
# The received stream is what lwIP delivered

`Lock.rx` is where the delivery of a segment to connection `c` stands; `step_rx` says once what a
step does to it together with what can be seen of the step (`RxEffect`).

A segment goes through `Receive` and the pipe to the `Read`s while `lwipMutex` is held, so at most
one is in flight, and what was returned, followed by its rest, is all that was accepted (`Intact`).
It is cut off only where the reading side has ended (`Late`), and then nothing is returned any more
(`Cut`). `Flow` carries this through every run, for any behaviour of lwIP.
-/

namespace Core

open Trans

/-! ## Deliveries -/

/-- Where the delivery of a segment, or of the FIN, stands. -/
inductive Rx
  | none
  | receive (d : Bytes)
  | pipeWrite (d : Bytes)
  | pipe (rest : Bytes)
  | localClosed
  deriving DecidableEq, Repr

def Lock.rx (c : Nat) : Lock → Rx
  | .receive _ _ c' d => if c' = c then .receive d else .none
  | .pipeWrite _ _ c' d => if c' = c then .pipeWrite d else .none
  | .pipe _ _ c' _ rest _ => if c' = c then .pipe rest else .none
  | .localClosed _ _ c' => if c' = c then .localClosed else .none
  | _ => .none

/-- The bytes that are accepted and not yet returned. -/
def Rx.rest : Rx → Bytes
  | .receive d | .pipeWrite d | .pipe d => d
  | .none | .localClosed => []

namespace TcpConnState

/-- The handler has not connected yet. -/
def early (st : TcpConnState) : Bool := st = newConn ∨ st = connecting

/-- The reading side has ended. -/
def deaf : TcpConnState → Bool
  | receiveClosed | closing | aborting | closed | errored => true
  | _ => false

theorem receiveCheck_spec (st : TcpConnState) :
    (st.receiveCheck = none ∧ st.early = false ∧ st.deaf = false) ∨
      (st.receiveCheck = some .conn ∧ st.early = true) ∨
      (st.receiveCheck = some .clsd ∧ st.deaf = true) ∨
      (st.receiveCheck = some .abrt ∧ st.deaf = true) := by
  cases st <;> simp [receiveCheck, early, deaf]

end TcpConnState

/-- What a step does to the delivery: where it stood, what is seen of the step, where it stands. -/
inductive RxEffect (s : Sys) (c : Nat) : Rx → Option Obs → Rx → Prop
  | quiet (r : Rx) (o : Option Obs) : (∀ b ∈ o, b = .eof ∨ b = .torn) → RxEffect s c r o r
  | deliver (d : Bytes) : RxEffect s c .none (some (.deliver d)) (.receive d)
  | fin : RxEffect s c .none (some .fin) .localClosed
  | refuse (d : Bytes) : (s.conn c).state.early = true →
      RxEffect s c (.receive d) (some (.refuse d)) .none
  | pass (d : Bytes) : (s.conn c).state.early = false → (s.conn c).state.deaf = false →
      RxEffect s c (.receive d) none (.pipeWrite d)
  | drop (d : Bytes) : (s.conn c).state.deaf = true → RxEffect s c (.receive d) none .none
  | closed (d : Bytes) : (s.conn c).pipeDone = true → RxEffect s c (.pipeWrite d) none .none
  | pipe (d : Bytes) : (s.conn c).pipeDone = false → RxEffect s c (.pipeWrite d) none (.pipe d)
  | read (rest : Bytes) (n : Nat) :
      RxEffect s c (.pipe rest) (some (.read (rest.take n))) (.pipe (rest.drop n))
  | received : RxEffect s c (.pipe []) none .none
  | cut (rest : Bytes) : (s.conn c).pipeDone = true → RxEffect s c (.pipe rest) none .none
  | localClosed : RxEffect s c .localClosed (some .localClosed) .none
  /-- `setLocalClosed` returns at once. -/
  | ignored : (s.conn c).state.setLocalClosed = none → RxEffect s c .localClosed none .none

theorem Sys.lookup_lock (s : Sys) (h : Holder) (p : Nat) (k : Nat → Lock) :
    (s.lookup h p k).lock = (s.tcpConns (s.conn p).connKey).elim (.lwip h) k := by
  unfold Sys.lookup
  simp only
  cases hc : s.tcpConns (s.conn p).connKey with
  | some c =>
    have hc' : (s.emit (.key p (0 < (s.conn p).cellFrees))).tcpConns
      ((s.emit (.key p (0 < (s.conn p).cellFrees))).conn p).connKey = some c := hc
    rw [hc']
    rfl
  | none =>
    have hc' : (s.emit (.key p (0 < (s.conn p).cellFrees))).tcpConns
      ((s.emit (.key p (0 < (s.conn p).cellFrees))).conn p).connKey = none := hc
    rw [hc']
    rfl

section
variable {s s' : Sys} {M : Lwip} {a : Act}

theorem lwipStep_rx {p : Nat} {e : LwEv} {t : Tcp} (h : s.lwipStep M p e t = some s') (c : Nat) :
    RxEffect s c (s.lock.rx c) (s.lwipObs c p e) (s'.lock.rx c) := by
  unfold Sys.lwipStep at h
  split at h
  case h_2 => cases h
  case h_1 hd hl =>
    split at h
    case isFalse => cases h
    case isTrue hg =>
      have hhook : ((s.setTcp p t).pcb p).hooked = (s.pcb p).hooked := by
        simp [Sys.setTcp, Sys.setPcb]
      have hrx : s.lock.rx c = .none := by rw [hl]; rfl
      -- a callback, with what is seen of it and where it goes on where it finds the connection
      have hcb : ∀ (k : Nat → Lock) (o : Option Obs) (r : Rx), (s.pcb p).hooked = true →
          s.lwipObs c p e = (if s.finds c p then o else none) → (k c).rx c = r →
          (∀ c', c' ≠ c → (k c').rx c = .none) → RxEffect s c .none o r →
          RxEffect s c .none (s.lwipObs c p e) (((s.setTcp p t).lookup hd p k).lock.rx c) := by
        intro k o r hh ho hk hne heff
        rw [Sys.lookup_lock]
        show RxEffect s c .none _ (((s.tcpConns (s.conn p).connKey).elim (.lwip hd) k).rx c)
        cases hc : s.tcpConns (s.conn p).connKey with
        | none =>
          rw [ho, if_neg (by simp [Sys.finds, hc])]
          exact .quiet _ _ (by simp)
        | some c' =>
          by_cases hcc : c' = c
          · subst hcc
            rw [ho, if_pos (by simp [Sys.finds, hc, hh]), Option.elim_some, hk]
            exact heff
          · rw [ho, if_neg (by simp [Sys.finds, hc, hcc]), Option.elim_some, hne c' hcc]
            exact .quiet _ _ (by simp)
      have hquiet : ∀ {l : Lock}, l = s.lock → (∀ b ∈ s.lwipObs c p e, b = .eof ∨ b = .torn) →
          RxEffect s c .none (s.lwipObs c p e) (l.rx c) := by
        intro l hl' ho
        rw [hl', hrx]
        exact .quiet _ _ ho
      have silent : (if s.finds c p then none else none : Option Obs) = none := by split <;> rfl
      rw [hrx]
      cases e with
      | tau => cases h; exact hquiet rfl (by simp [Sys.lwipObs])
      | free => cases h; exact hquiet rfl (by simp [Sys.lwipObs])
      | err =>
        cases h
        refine hquiet ?_ ?_
        · split <;> simp
        · intro b hb
          simp only [Sys.lwipObs, Option.mem_def] at hb
          split at hb <;> cases hb
          exact .inr rfl
      | sent =>
        simp only [hhook] at h
        split at h <;> cases h
        exact hcb _ none .none ‹_› rfl rfl (fun _ _ => rfl) (.quiet _ _ (by simp))
      | poll =>
        simp only [hhook] at h
        split at h <;> cases h
        exact hcb _ none .none ‹_› rfl rfl (fun _ _ => rfl) (.quiet _ _ (by simp))
      | recv d =>
        simp only [hhook] at h
        split at h <;> cases h
        refine hcb _ (some (.deliver d)) (.receive d) ‹_› rfl ?_ ?_ (.deliver d)
        · simp [Lock.rx]
        · intro c' hc'
          simp [Lock.rx, hc']
      | fin =>
        simp only [hhook] at h
        split at h <;> cases h
        refine hcb _ (some .fin) .localClosed ‹_› rfl ?_ ?_ .fin
        · simp [Lock.rx]
        · intro c' hc'
          simp [Lock.rx, hc']

/-- Code of another connection runs with `lwipMutex` held. -/
theorem RxEffect.other {c : Nat} {r r' : Rx} {o : Option Obs} (hr : r = .none) (hr' : r' = .none)
    (ho : o = none) : RxEffect s c r o r' := by
  subst hr hr' ho
  exact .quiet _ _ (by simp)

theorem receiveCheck_rx (h : Holder) (p c : Nat) (d : Bytes)
    (hl : s.lock = .receive h p c d) :
    RxEffect s c (.receive d) (s.heldObs c) ((s.receiveCheck h p c d).lock.rx c) := by
  rcases (s.conn c).state.receiveCheck_spec with ⟨hr, he, hd⟩ | ⟨hr, he⟩ | ⟨hr, hd⟩ | ⟨hr, hd⟩ <;>
    simp only [Sys.receiveCheck, Sys.heldObs, hl, hr]
  · simp only [Sys.setLock_lock, Lock.rx]
    exact .pass d he hd
  · exact .refuse d he
  · exact .drop d hd
  · exact .drop d hd

theorem heldStep_rx {x : Env} (h : s.heldStep x = some s') (c : Nat) :
    RxEffect s c (s.lock.rx c) (s.obs c (.held x)) (s'.lock.rx c) := by
  unfold Sys.heldStep at h
  split at h
  case h_1 c' g hl =>
    split at h <;> cases h
    rw [hl]
    exact .quiet _ _ (by simp [Sys.obs])
  case h_2 hd p c' d hl =>
    cases h
    by_cases hc : c' = c
    · subst hc
      have hrx : s.lock.rx c' = .receive d := by simp [hl, Lock.rx]
      rw [hrx]
      exact receiveCheck_rx hd p c' d hl
    · refine .other ?_ ?_ ?_
      · simp [hl, Lock.rx, hc]
      · unfold Sys.receiveCheck
        split <;> simp [Lock.rx, hc]
      · simp [Sys.obs, Sys.heldObs, hl, hc]
  case h_3 hd p c' d hl =>
    have ho : s.obs c (.held .none) = none := by simp [Sys.obs, Sys.heldObs, hl]
    rw [ho, hl]
    by_cases hc : c' = c
    · subst hc
      split at h <;> cases h <;> rename_i hp <;>
        simp only [Sys.setLock_lock, Sys.recvClsd_lock, Lock.rx, if_true]
      · exact .closed d hp
      · exact .pipe d (by simpa using hp)
    · split at h <;> cases h <;> exact .other (by simp [Lock.rx, hc]) (by simp [Lock.rx, hc]) rfl
  case h_4 hd p c' d rest once hl =>
    have ho : s.obs c (.held .none) = none := by simp [Sys.obs, Sys.heldObs, hl]
    rw [ho, hl]
    split at h <;> cases h
    rename_i hr
    rw [hr.1]
    by_cases hc : c' = c
    · simp only [Lock.rx, hc, if_true]
      exact .received
    · exact .other (by simp [Lock.rx, hc]) rfl rfl
  case h_5 hd p c' d rest once hl =>
    rw [hl]
    split at h <;> cases h
    rename_i hr
    by_cases hc : c' = c
    · subst hc
      simp only [Lock.rx, if_true]
      exact .cut rest hr.2
    · exact .other (by simp [Lock.rx, hc]) rfl rfl
  case h_6 hd p c' hl =>
    cases h
    rw [hl]
    by_cases hc : c' = c
    · subst hc
      simp only [Lock.rx, if_true, Sys.obs, Sys.heldObs, hl, true_and]
      by_cases hst : (s.conn c').state.setLocalClosed = none
      · simp only [hst, ne_eq, not_true_eq_false, if_false]
        exact .ignored hst
      · simp only [hst, ne_eq, not_false_eq_true, if_true]
        exact .localClosed
    · exact .other (by simp [Lock.rx, hc]) rfl (by simp [Sys.obs, Sys.heldObs, hl, hc])
  case h_7 hd p c' k hl =>
    refine .other (by rw [hl]; rfl) ?_ (by simp [Sys.obs, Sys.heldObs, hl])
    split at h
    · cases h; rfl
    · rename_i s₁ e hk
      cases h
      rcases checkState_inr hk with rfl | rfl | rfl
      · rw [(checkState_nil hk).1]
        show s.lock.rx c = .none
        rw [hl]
        rfl
      · rfl
      · rfl
  case h_8 g c' k hl =>
    refine .other (by rw [hl]; rfl) ?_ (by simp [Sys.obs, Sys.heldObs, hl])
    split at h <;> cases h <;> rfl
  case h_9 => cases h

theorem goStep_rx {g : Gid} {x : Env} (h : s.goStep g x = some s') (c : Nat) :
    RxEffect s c (s.lock.rx c) (s.obs c (.go g x)) (s'.lock.rx c) := by
  -- only a section in the pipe's `select` shows more than the end of the reading side
  have quiet : (∀ n, x = .none → (s.gos g).pc ≠ .readWait n) →
      ∀ b ∈ s.obs c (.go g x), b = .eof ∨ b = .torn := by
    intro hn b hb
    simp only [Sys.obs, Option.mem_def] at hb
    split at hb
    · unfold Sys.goObs at hb
      split at hb
      · cases hb; exact .inr rfl
      · cases hb; exact .inr rfl
      · split at hb <;> cases hb; exact .inl rfl
      · split at hb <;> cases hb; exact .inl rfl
      · split at hb <;> cases hb; exact .inl rfl
      · exact absurd ‹(s.gos g).pc = _› (hn _ rfl)
      · cases hb
    · cases hb
  have rxNone : ∀ {r r' : Rx}, r = .none → r' = .none →
      (∀ n, x = .none → (s.gos g).pc ≠ .readWait n) →
      RxEffect s c r (s.obs c (.go g x)) r' := by
    intro r r' hr hr' hn
    subst hr hr'
    exact .quiet _ _ (quiet hn)
  have hh := goStep_hold h
  generalize s'.lock = l at hh
  cases hh with
  | same hn => exact .quiet _ _ (quiet hn)
  | refused hl hpc => exact rxNone (by rw [hl]; rfl) rfl (by simp [hpc])
  | settled hl hpc => exact rxNone (by rw [hl]; rfl) rfl (by simp [hpc])
  | abort c' hl hg => exact rxNone (by rw [hl]; rfl) rfl (by simp [hg])
  | read n hd p c' d rest once hx hg hl =>
    subst hx
    rw [hl]
    by_cases hc : c' = c
    · subst hc
      simp only [Lock.rx, if_true, Sys.obs, hg, Sys.goObs, hl]
      exact .read rest n
    · exact .other (by simp [Lock.rx, hc]) (by simp [Lock.rx, hc]) (by simp [Sys.obs, hg, hc])

theorem step_rx (h : step M s a = some s') (c : Nat) :
    RxEffect s c (s.lock.rx c) (s.obs c a) (s'.lock.rx c) := by
  unfold step at h
  split at h
  · cases h
  · cases a with
    | lock =>
      simp only at h
      split at h <;> cases h
      rename_i hl
      exact .other (by rw [hl]; rfl) rfl rfl
    | unlock =>
      simp only at h
      split at h <;> cases h
      rename_i hl
      exact .other (by rw [hl.1]; rfl) rfl rfl
    | accept key =>
      simp only at h
      split at h <;> cases h
      rename_i hl
      exact .other (by rw [hl]; rfl) rfl rfl
    | lwip p e t => exact lwipStep_rx h c
    | held x => exact heldStep_rx h c
    | call g c' op =>
      simp only [Sys.callStep] at h
      split at h <;> cases h
      exact .quiet _ _ (by simp [Sys.obs])
    | go g x => exact goStep_rx h c

end

/-! ## The pipe -/

namespace Sys

/-- A pipe is as done as before, or its connection was released. -/
def Piped (s s' : Sys) : Prop :=
  ∀ d, (s'.conn d).pipeDone = (s.conn d).pipeDone ∨
    ((s'.conn d).pipeDone = true ∧ (s'.conn d).state.terminal = true)

variable (s : Sys)

theorem Piped.of_eq {s s' : Sys} (h : s'.conn = s.conn) : s.Piped s' := fun d => .inl (by rw [h])

theorem piped_setConn {c : Nat} {x : Conn} (h : x.pipeDone = (s.conn c).pipeDone) :
    s.Piped (s.setConn c x) := by
  intro d
  left
  by_cases hd : d = c
  · subst hd; simpa [setConn] using h
  · simp [setConn, hd]

theorem Piped.congr {s t s' : Sys} (h : t.Piped s') (ht : t.conn = s.conn) : s.Piped s' := by
  intro d
  rw [← ht]
  exact h d

theorem piped_leaveWrite (g : Gid) (c : Nat) : s.Piped (s.leaveWrite g c) :=
  s.piped_setConn (c := c) rfl

theorem piped_leaveClose (g : Gid) (c : Nat) (b : Bool) : s.Piped (s.leaveClose g c b) := by
  cases b
  · exact .of_eq rfl
  · exact s.piped_setConn (c := c) rfl

theorem piped_release (c : Nat) : s.Piped (s.release c) := by
  intro d
  by_cases hd : d = c
  · subst hd; right; simp [release, Conn.pipeDone]
  · left; simp [release, hd]

theorem piped_err (c : Nat) : s.Piped (s.err c) := by
  intro d
  by_cases hd : d = c
  · subst hd; right; simp [err, broadcast, setConn, release, Conn.pipeDone]
  · left; simp [err, broadcast, setConn, release, hd]

theorem piped_tcpErrFn (p : Nat) : s.Piped (s.tcpErrFn p) := by
  simp only [tcpErrFn]
  split
  · exact piped_err (s.emit _) _
  · exact .of_eq rfl

theorem tcpAbort_conn {p : Nat} (h : s.tcpConns (s.conn p).connKey = none) :
    (s.tcpAbort p).conn = s.conn := by
  have h' : ((s.access p .abort).free p).tcpConns
      (((s.access p .abort).free p).conn p).connKey = none := h
  unfold tcpAbort
  split
  · rw [tcpErrFn_of_none _ h']; rfl
  · rfl

theorem piped_abortInternal (c : Nat) : s.Piped (s.abortInternal c) := by
  have hconn : (s.abortInternal c).conn = (s.release c).conn := tcpAbort_conn _ (s.release_lookup c)
  intro d
  rw [hconn]
  exact s.piped_release c d

theorem piped_lookup (h : Holder) (p : Nat) (k : Nat → Lock) : s.Piped (s.lookup h p k) := by
  simp only [lookup]
  split
  · exact .of_eq rfl
  · rename_i hc
    exact .of_eq (tcpAbort_conn _ hc)

theorem piped_checkState (c : Nat) (k : CheckPc) : s.Piped (s.checkState c k).1 := by
  cases k <;> simp only [checkState]
  case isClosed => exact .of_eq rfl
  case checkClosing =>
    split
    · exact s.piped_release c
    · exact .of_eq rfl
  case checkAborting =>
    split
    · exact s.piped_abortInternal c
    · exact .of_eq rfl
  case broadcast => exact .of_eq rfl

end Sys

/-- What step `a` does to the pipe of connection `c`. -/
inductive PipeEffect (s : Sys) (a : Act) (c : Nat) (x : Conn) : Prop
  | same : x.pipeDone = (s.conn c).pipeDone → PipeEffect s a c x
  | accept : c = s.n → x.pipeDone = false → PipeEffect s a c x
  | closeRead (g : Gid) (ic : Bool) : a = .go g .none → s.gos g = ⟨c, .closeRead ic⟩ →
      x.pipeDone = true → PipeEffect s a c x
  | localClosed (h : Holder) (p : Nat) : a = .held .none → s.lock = .localClosed h p c →
      (s.conn c).state.setLocalClosed ≠ none → x.pipeDone = true → PipeEffect s a c x
  | released : x.pipeDone = true → x.state.terminal = true → PipeEffect s a c x

theorem Sys.Piped.effect {s s' : Sys} {a : Act} (h : s.Piped s') (c : Nat) :
    PipeEffect s a c (s'.conn c) := by
  rcases h c with h | ⟨h, ht⟩
  · exact .same h
  · exact .released h ht

section
variable {s s' : Sys} {M : Lwip} {a : Act}

theorem lwipStep_piped {p : Nat} {e : LwEv} {t : Tcp} (h : s.lwipStep M p e t = some s') :
    s.Piped s' := by
  unfold Sys.lwipStep at h
  split at h
  case h_2 => cases h
  case h_1 hd hl =>
    split at h
    case isFalse => cases h
    case isTrue =>
      cases e with
      | tau => cases h; exact .of_eq rfl
      | free => cases h; exact .of_eq rfl
      | err =>
        cases h
        split
        · exact Sys.piped_tcpErrFn (s.setTcp p t) p
        · exact .of_eq rfl
      | _ =>
        simp only at h
        split at h <;> cases h
        exact Sys.piped_lookup (s.setTcp p t) hd p _

theorem heldStep_pipe {x : Env} (h : s.heldStep x = some s') (c : Nat) :
    PipeEffect s (.held x) c (s'.conn c) := by
  unfold Sys.heldStep at h
  split at h
  case h_1 c' g hl =>
    split at h <;> cases h
    exact Sys.Piped.effect (s.piped_setConn (by rfl)) c
  case h_2 hd p c' d hl =>
    cases h
    refine Sys.Piped.effect ?_ c
    unfold Sys.receiveCheck
    split
    · exact .of_eq rfl
    · exact .of_eq rfl
    · exact .of_eq rfl
    · exact Sys.piped_abortInternal (s.emit (.erroredAbort c')) c'
    · exact .of_eq rfl
  case h_3 => split at h <;> cases h <;> exact .same rfl
  case h_4 => split at h <;> cases h; exact .same rfl
  case h_5 => split at h <;> cases h; exact .same rfl
  case h_6 hd p c' hl =>
    cases h
    simp only [Sys.setLocalClosed]
    split
    · exact .same rfl
    · rename_i st hst
      by_cases hc : c' = c
      · subst hc
        refine .localClosed hd p rfl hl (by simp [hst]) ?_
        simp [Sys.setLock, Sys.broadcast, Sys.setConn, Conn.pipeDone]
      · refine .same ?_
        simp [Sys.setLock, Sys.broadcast, Sys.setConn, Ne.symm hc]
  case h_7 hd p c' k hl =>
    have hp := s.piped_checkState c' k
    split at h
    · rename_i hk
      cases h
      rw [hk] at hp
      exact Sys.Piped.effect hp c
    · rename_i s₁ e hk
      cases h
      rw [hk] at hp
      have hconn : (s₁.checkReturn hd e).conn = s₁.conn := by
        unfold Sys.checkReturn; split <;> rfl
      rw [hconn]
      exact Sys.Piped.effect hp c
  case h_8 g c' k hl =>
    have hp := s.piped_checkState c' k
    split at h
    · rename_i hk
      cases h
      rw [hk] at hp
      exact Sys.Piped.effect hp c
    · rename_i s₁ e hk
      cases h
      rw [hk] at hp
      exact Sys.Piped.effect hp c
  case h_9 => cases h

theorem goStep_pipe {g : Gid} {x : Env} (h : s.goStep g x = some s') (c : Nat) :
    PipeEffect s (.go g x) c (s'.conn c) := by
  have keep : ∀ {d : Nat} {y : Conn} {s' : Sys}, s'.conn = (s.setConn d y).conn →
      y.pipeDone = (s.conn d).pipeDone → PipeEffect s (.go g x) c (s'.conn c) := by
    intro d y s' hs hy
    rw [hs]
    exact Sys.Piped.effect (s.piped_setConn hy) c
  unfold Sys.goStep at h
  simp only at h
  split at h
  case h_1 => cases h; exact .same rfl
  case h_2 =>
    split at h <;> cases h
    · exact .same rfl
    · exact keep rfl rfl
  case h_3 =>
    split at h
    · split at h <;> cases h <;> exact .same rfl
    · cases h
  case h_4 => split at h <;> cases h; exact .same rfl
  case h_5 => split at h <;> cases h; exact keep rfl rfl
  case h_6 => split at h <;> cases h; exact keep rfl rfl
  case h_7 =>
    split at h
    · cases h; exact keep rfl rfl
    · split at h <;> cases h
      · exact .same rfl
      · exact .same rfl
      · exact keep rfl rfl
  case h_8 =>
    split at h
    · split at h <;> cases h
      · refine Sys.Piped.effect (Sys.Piped.congr (Sys.piped_leaveWrite _ g _) ?_) c
        split <;> split <;> rfl
      · refine Sys.Piped.effect (Sys.Piped.of_eq ?_) c
        show Sys.conn _ = s.conn
        split <;> split <;> rfl
    · cases h
  case h_9 => cases h; exact keep rfl rfl
  case h_10 =>
    split at h <;> cases h
    · exact Sys.Piped.effect (s.piped_leaveClose g _ _) c
    · exact keep rfl rfl
  case h_11 =>
    split at h <;> cases h
    refine Sys.Piped.effect (Sys.Piped.congr (Sys.piped_leaveClose _ g _ _) ?_) c
    rfl
  case h_12 ic hpc =>
    cases h
    by_cases hc : (s.gos g).conn = c
    · refine .closeRead g ic rfl (by rw [← hpc, ← hc]) ?_
      simp [Sys.setConn, Sys.goto, hc, Conn.pipeDone]
    · refine .same ?_
      simp [Sys.setConn, Sys.goto, Ne.symm hc]
  case h_13 =>
    split at h <;> cases h
    · exact keep rfl rfl
    · exact .same rfl
  case h_14 => cases h; exact keep rfl rfl
  case h_15 => split at h <;> cases h; exact .same rfl
  case h_16 => split at h <;> cases h <;> exact .same rfl
  case h_17 => cases h; exact .same rfl
  case h_18 =>
    split at h
    · split at h <;> cases h; exact .same rfl
    · cases h
  case h_19 => split at h <;> cases h; exact .same rfl
  case h_20 => cases h

theorem step_pipe (h : step M s a = some s') (c : Nat) : PipeEffect s a c (s'.conn c) := by
  unfold step at h
  split at h
  · cases h
  · cases a with
    | lock => simp only at h; split at h <;> cases h; exact .same rfl
    | unlock => simp only at h; split at h <;> cases h; exact .same rfl
    | accept key =>
      simp only at h
      split at h <;> cases h
      by_cases hc : c = s.n
      · refine .accept hc ?_
        simp [Sys.newTCPConn, hc, Conn.pipeDone]
      · refine .same ?_
        simp [Sys.newTCPConn, hc]
    | lwip p e t => exact (lwipStep_piped h).effect c
    | held x => exact heldStep_pipe h c
    | call g c' op =>
      simp only [Sys.callStep] at h
      split at h <;> cases h
      exact .same rfl
    | go g x => exact goStep_pipe h c

end

/-! ## The flow of segments -/

/-- The handler was connected and the reading side has ended. -/
structure Late (s : Sys) (c : Nat) : Prop where
  lt : c < s.n
  started : (s.conn c).started = true
  early : (s.conn c).state.early = false
  ended : (s.conn c).pipeDone = true ∨ (s.conn c).state.deaf = true

section
variable {s s' : Sys} {M : Lwip} {a : Act} {c : Nat}

theorem step_pipeDone (hs : step M s a = some s') (hc : c < s.n)
    (hp : (s.conn c).pipeDone = true) : (s'.conn c).pipeDone = true := by
  cases step_pipe hs c with
  | same h => exact h.trans hp
  | accept h => exact absurd h (Nat.ne_of_lt hc)
  | closeRead _ _ _ _ h => exact h
  | localClosed _ _ _ _ _ h => exact h
  | released h _ => exact h

/-- A started connection does not go back to connecting, and its reading side stays ended. -/
theorem step_early_deaf (hh : Half s) (hs : step M s a = some s') (hc : c < s.n)
    (hst : (s.conn c).started = true) :
    ((s.conn c).state.early = false → (s'.conn c).state.early = false) ∧
      ((s.conn c).state.deaf = true → (s'.conn c).state.deaf = true) := by
  have of_state : ∀ {st : TcpConnState}, (s'.conn c).state = st →
      ((s.conn c).state.early = false → st.early = false) ∧
        ((s.conn c).state.deaf = true → st.deaf = true) →
      ((s.conn c).state.early = false → (s'.conn c).state.early = false) ∧
        ((s.conn c).state.deaf = true → (s'.conn c).state.deaf = true) := by
    intro st h h'
    rw [h]
    exact h'
  cases (step_effect hs).conn c with
  | same hl => exact of_state hl.1 ⟨id, id⟩
  | accept _ _ hn _ => exact absurd hn (Nat.ne_of_lt hc)
  | start g _ hl _ =>
    have := hh.accept (c := c) (by rw [hl]; rfl)
    rw [hst] at this
    cases this
  | connected _ _ hcn hl => refine of_state hl.1 ?_; rw [hcn]; decide
  | closeWrite _ _ st _ hcw hl =>
    refine of_state hl.1 ?_
    rcases TcpConnState.closeWrite_eq_some hcw with ⟨h, rfl⟩ | ⟨h | h | h, rfl⟩ <;> rw [h] <;>
      decide
  | localClosed _ _ st _ hlc hl =>
    refine of_state hl.1 ?_
    rcases TcpConnState.setLocalClosed_eq_some hlc with ⟨h, rfl⟩ | ⟨h | h | h, rfl⟩ <;> rw [h] <;>
      decide
  | abort _ _ _ hl => refine of_state hl.1 ?_; cases (s.conn c).state <;> decide
  | close _ _ hl => exact of_state hl.1 ⟨fun _ => rfl, fun _ => rfl⟩
  | erroredFree _ _ _ _ _ hl => exact of_state hl.1 ⟨fun _ => rfl, fun _ => rfl⟩
  | err _ _ _ _ _ hl => exact of_state hl.1 ⟨fun _ => rfl, fun _ => rfl⟩

theorem Late.step (h : Late s c) (hh : Half s) (hs : Core.step M s a = some s') : Late s' c := by
  obtain ⟨he, hd⟩ := step_early_deaf hh hs h.lt h.started
  exact ⟨Nat.lt_of_lt_of_le h.lt (step_n_le hs), step_started hs h.lt h.started, he h.early,
    h.ended.imp (step_pipeDone hs h.lt) hd⟩

/-- The connection of a delivery exists and is started. -/
theorem Base.rx_started (hb : Base s) (hr : s.lock.rx c ≠ .none) :
    c < s.n ∧ (s.conn c).started = true := by
  have hf : ∃ p, s.lock.frame = .callback p c := by
    cases hl : s.lock <;> simp only [hl, Lock.rx, ne_eq, ite_eq_right_iff, reduceCtorEq, imp_false,
      not_not, not_true_eq_false] at hr
    all_goals exact ⟨_, by rw [hr]; rfl⟩
  obtain ⟨p, hf⟩ := hf
  exact ⟨(hb.callback hf).1, hb.callback_started hf⟩

end

/-- Nothing is returned any more. -/
structure Frozen (s : Sys) (c : Nat) (r : Rx) : Prop where
  late : Late s c
  pipe : ∀ {rest}, r ≠ .pipe rest
  pipeWrite : ∀ {d}, r = .pipeWrite d → (s.conn c).pipeDone = true

/-- What was returned and what is in flight is what was accepted. -/
def Intact (r : Rx) (x : Stream) : Prop := x.returned ++ r.rest = x.accepted.flatten

structure Flow (s : Sys) (c : Nat) (r : Rx) (x : Stream) : Prop where
  last : ∀ {d}, r = .receive d → ∃ l, x.accepted = l ++ [d]
  passed : ∀ {d}, r = .pipeWrite d ∨ r = .pipe d → (s.conn c).state.early = false
  flow : Intact r x ∨ x.returned <+: x.accepted.flatten ∧ Frozen s c r

/-- The sum after one more step. -/
def Stream.next (x : Stream) (o : Option Obs) : Stream := o.elim x x.add

section
variable {s s' : Sys} {M : Lwip} {a : Act} {c : Nat}

theorem Frozen.step {r r' : Rx} {o : Option Obs} (h : Frozen s c r) (hh : Half s)
    (hs : Core.step M s a = some s') (he : RxEffect s c r o r') :
    Frozen s' c r' ∧ ∀ b ∈ o, ∀ d, b ≠ .read d ∧ b ≠ .refuse d := by
  have hl := h.late.step hh hs
  have hp := step_pipeDone hs h.late.lt
  have none : Frozen s' c .none := ⟨hl, by simp, by simp⟩
  cases he with
  | quiet r o ho =>
    refine ⟨⟨hl, h.pipe, fun hr => hp (h.pipeWrite hr)⟩, fun b hb d => ?_⟩
    rcases ho b hb with rfl | rfl <;> exact ⟨by simp, by simp⟩
  | deliver d => exact ⟨⟨hl, by simp, by simp⟩, by simp⟩
  | fin => exact ⟨⟨hl, by simp, by simp⟩, by simp⟩
  | refuse d hd => rw [h.late.early] at hd; cases hd
  | pass d _ hd =>
    refine ⟨⟨hl, by simp, fun _ => ?_⟩, by simp⟩
    rcases h.late.ended with hpd | hde
    · exact hp hpd
    · rw [hd] at hde; cases hde
  | drop d => exact ⟨none, by simp⟩
  | closed d => exact ⟨none, by simp⟩
  | pipe d hd => rw [h.pipeWrite rfl] at hd; cases hd
  | read rest n => exact absurd rfl h.pipe
  | received => exact absurd rfl h.pipe
  | cut rest => exact absurd rfl h.pipe
  | localClosed => exact ⟨none, by simp⟩
  | ignored => exact ⟨none, by simp⟩

theorem TcpConnState.early_of_deaf {st : TcpConnState} (h : st.deaf = true) : st.early = false := by
  cases st <;> first | rfl | cases h

/-- One step of the flow. -/
theorem Flow.step {r r' : Rx} {o : Option Obs} {x : Stream} (h : Flow s c r x) (hh : Half s)
    (hr : r ≠ .none → c < s.n ∧ (s.conn c).started = true) (hs : Core.step M s a = some s')
    (he : RxEffect s c r o r') : Flow s' c r' (x.next o) := by
  -- the connection hears no more: what was in flight is lost
  have cutOff : r ≠ .none → (s.conn c).state.early = false →
      (s.conn c).pipeDone = true ∨ (s.conn c).state.deaf = true →
      x.returned <+: x.accepted.flatten ∧ Frozen s' c .none := by
    intro hne hearly hend
    have hl : Late s c := ⟨(hr hne).1, (hr hne).2, hearly, hend⟩
    refine ⟨?_, hl.step hh hs, by simp, by simp⟩
    rcases h.flow with hi | ⟨hi, -⟩
    · exact ⟨r.rest, hi⟩
    · exact hi
  have frozen : Frozen s c r → Frozen s' c r' := fun hf => (hf.step hh hs he).1
  have early : r ≠ .none → (s.conn c).state.early = false → (s'.conn c).state.early = false :=
    fun hne => (step_early_deaf hh hs (hr hne).1 (hr hne).2).1
  cases he with
  | quiet r o ho =>
    have hx : x.next o = x := by
      cases o with
      | none => rfl
      | some b => rcases ho b rfl with rfl | rfl <;> rfl
    rw [hx]
    refine ⟨h.last, fun hd => early ?_ (h.passed hd), h.flow.imp_right (.imp_right frozen)⟩
    rcases hd with rfl | rfl <;> simp
  | deliver d =>
    refine ⟨fun hd => ?_, by simp, ?_⟩
    · cases hd
      exact ⟨x.accepted, rfl⟩
    · rcases h.flow with hi | ⟨hi, hf⟩
      · left
        simp only [Intact, Rx.rest, List.append_nil] at hi
        simp [Intact, Rx.rest, Stream.next, Stream.add, hi]
      · refine .inr ⟨hi.trans ?_, frozen hf⟩
        simp [Stream.next, Stream.add]
  | fin => exact ⟨by simp, by simp, h.flow.imp_right (.imp_right frozen)⟩
  | refuse d hd =>
    obtain ⟨l, hl⟩ := h.last rfl
    refine ⟨by simp, by simp, .inl ?_⟩
    rcases h.flow with hi | ⟨-, hf⟩
    · simp only [Intact, Rx.rest, hl, List.flatten_append, List.flatten_singleton,
        List.append_cancel_right_eq] at hi
      simp [Intact, Rx.rest, Stream.next, Stream.add, hl, hi]
    · rw [hf.late.early] at hd
      cases hd
  | pass d hearly =>
    exact ⟨by simp, fun _ => early (by simp) hearly, h.flow.imp_right (.imp_right frozen)⟩
  | drop d hd =>
    exact ⟨by simp, by simp, .inr (cutOff (by simp) (TcpConnState.early_of_deaf hd) (.inr hd))⟩
  | closed d hd => exact ⟨by simp, by simp, .inr (cutOff (by simp) (h.passed (.inl rfl)) (.inl hd))⟩
  | pipe d =>
    exact ⟨by simp, fun _ => early (by simp) (h.passed (.inl rfl)), h.flow.imp_right (.imp_right frozen)⟩
  | read rest n =>
    refine ⟨by simp, fun _ => early (by simp) (h.passed (.inr rfl)), ?_⟩
    rcases h.flow with hi | ⟨-, hf⟩
    · left
      simp only [Intact, Rx.rest] at hi
      simp [Intact, Rx.rest, Stream.next, Stream.add, hi]
    · exact absurd rfl hf.pipe
  | received =>
    refine ⟨by simp, by simp, ?_⟩
    rcases h.flow with hi | ⟨-, hf⟩
    · exact .inl hi
    · exact absurd rfl hf.pipe
  | cut rest hd => exact ⟨by simp, by simp, .inr (cutOff (by simp) (h.passed (.inr rfl)) (.inl hd))⟩
  | localClosed => exact ⟨by simp, by simp, h.flow.imp_right (.imp_right frozen)⟩
  | ignored => exact ⟨by simp, by simp, h.flow.imp_right (.imp_right frozen)⟩

/-! ## Refused segments -/

/-- The segments are those that were accepted and the one that lwIP keeps. -/
structure InOrder (r : Rx) (x : Stream) : Prop where
  segs : x.segs = x.accepted ++ x.pending.toList
  idle : r ≠ .none → x.pending = none

theorem InOrder.step {r r' : Rx} {o : Option Obs} {x : Stream} (h : InOrder r x)
    (hl : ∀ {d}, r = .receive d → ∃ l, x.accepted = l ++ [d])
    (hd : ∀ d ∈ x.pending, (∀ d', o = some (.deliver d') → d' = d) ∧ o ≠ some .fin)
    (he : RxEffect s c r o r') : InOrder r' (x.next o) := by
  cases he with
  | quiet r o ho =>
    have hx : x.next o = x := by
      cases o with
      | none => rfl
      | some b => rcases ho b rfl with rfl | rfl <;> rfl
    rw [hx]
    exact h
  | deliver d =>
    refine ⟨?_, fun _ => rfl⟩
    cases hp : x.pending with
    | none => simp [Stream.next, Stream.add, hp, h.segs]
    | some d' =>
      obtain rfl := (hd d' hp).1 d rfl
      simp [Stream.next, Stream.add, hp, h.segs]
  | fin =>
    refine ⟨h.segs, fun _ => ?_⟩
    cases hp : x.pending with
    | none => exact hp
    | some d => exact absurd rfl (hd d hp).2
  | refuse d =>
    obtain ⟨l, hl⟩ := hl rfl
    refine ⟨?_, fun hr => absurd rfl hr⟩
    simp [Stream.next, Stream.add, h.segs, h.idle (by simp), hl]
  | pass d => exact ⟨h.segs, fun _ => h.idle (by simp)⟩
  | drop d => exact ⟨h.segs, fun _ => h.idle (by simp)⟩
  | closed d => exact ⟨h.segs, fun _ => h.idle (by simp)⟩
  | pipe d => exact ⟨h.segs, fun _ => h.idle (by simp)⟩
  | read rest n => exact ⟨h.segs, fun _ => h.idle (by simp)⟩
  | received => exact ⟨h.segs, fun _ => h.idle (by simp)⟩
  | cut rest => exact ⟨h.segs, fun _ => h.idle (by simp)⟩
  | localClosed => exact ⟨h.segs, fun _ => h.idle (by simp)⟩
  | ignored => exact ⟨h.segs, fun _ => h.idle (by simp)⟩

end

/-! ## Runs -/

theorem obsOf_snoc (c : Nat) (tr : List (Sys × Act)) (s : Sys) (a : Act) :
    obsOf c (tr ++ [(s, a)]) = obsOf c tr ++ (s.obs c a).toList := by
  cases h : s.obs c a <;> simp [obsOf, h]

theorem stream_snoc (c : Nat) (tr : List (Sys × Act)) (s : Sys) (a : Act) :
    stream c (tr ++ [(s, a)]) = (stream c tr).next (s.obs c a) := by
  rw [stream, obsOf_snoc, List.foldl_append]
  cases s.obs c a <;> rfl

/-- The rule for what is seen first and what is seen then; `x.pending` is kept before it. -/
theorem redelivers_append {x : Stream} {os os' : List Obs} :
    redelivers x.pending (os ++ os') ↔
      redelivers x.pending os ∧ redelivers (os.foldl Stream.add x).pending os' := by
  induction os generalizing x with
  | nil => exact (and_iff_right trivial).symm
  | cons b os ih =>
    cases b with
    | deliver d => exact (and_congr_right' (ih (x := x.add (.deliver d)))).trans and_assoc.symm
    | fin => exact (and_congr_right' (ih (x := x))).trans and_assoc.symm
    | refuse d => exact ih (x := x.add (.refuse d))
    | read d => exact ih (x := x.add (.read d))
    | _ => exact ih

/-- The rule for the last of the observations, with the segment that lwIP keeps before it. -/
theorem redelivers_snoc {x : Stream} {os : List Obs} {o : Option Obs}
    (h : redelivers x.pending (os ++ o.toList)) :
    redelivers x.pending os ∧ ∀ d ∈ (os.foldl Stream.add x).pending,
      (∀ d', o = some (.deliver d') → d' = d) ∧ o ≠ some .fin := by
  obtain ⟨hos, hlast⟩ := redelivers_append.1 h
  refine ⟨hos, fun d hd => ⟨fun d' ho => ?_, fun ho => ?_⟩⟩
  · subst ho
    rw [Option.mem_def] at hd
    simpa [redelivers, hd, eq_comm] using hlast
  · subst ho
    rw [Option.mem_def] at hd
    simp [redelivers, hd] at hlast

theorem Redelivers.snoc {c : Nat} {tr : List (Sys × Act)} {s : Sys} {a : Act}
    (h : Redelivers c (tr ++ [(s, a)])) : Redelivers c tr ∧ ∀ d ∈ (stream c tr).pending,
      (∀ d', s.obs c a = some (.deliver d') → d' = d) ∧ s.obs c a ≠ some .fin := by
  rw [Redelivers, obsOf_snoc] at h
  exact redelivers_snoc (x := {}) h

section
variable {s s' : Sys} {M : Lwip} {a : Act} {c : Nat} {tr : List (Sys × Act)}

theorem flow_run (hr : Run (step M) {} tr s) (c : Nat) : Flow s c (s.lock.rx c) (stream c tr) := by
  induction hr with
  | nil => exact ⟨by simp [Lock.rx], by simp [Lock.rx], .inl rfl⟩
  | snoc hr hs ih =>
    rw [stream_snoc]
    exact ih.step (half_run hr) (base_run hr).rx_started hs (step_rx hs c)

theorem inOrder_run (hr : Run (step M) {} tr s) (hd : Redelivers c tr) :
    InOrder (s.lock.rx c) (stream c tr) := by
  induction hr with
  | nil => exact ⟨rfl, fun _ => rfl⟩
  | snoc hr hs ih =>
    rw [stream_snoc]
    exact (ih hd.snoc.1).step (flow_run hr c).last hd.snoc.2 (step_rx hs c)

/-! ## The end of the stream -/

theorem Registry.free_state (R : Registry) (p c : Nat) :
    ((R.free p).life c).state = (R.life c).state := by
  by_cases hc : c = p
  · subst hc; simp [Registry.free]
  · rw [Registry.free, Registry.set_life_ne _ _ hc]

/-- The state of a connection ends its reading side only where `LocalClosed`, `Abort` or `Err` is
seen. -/
theorem step_deaf (hs : step M s a = some s') (hd : (s.conn c).state.deaf = false) :
    (s'.conn c).state.deaf = false ∨ s.obs c a = some .torn ∨ s.obs c a = some .localClosed := by
  have he := step_effect hs
  show (s'.registry.life c).state.deaf = false ∨ _
  generalize s'.registry = R at he
  have set : ∀ {c' : Nat} {l : Life}, (c = c' → l.state.deaf = false) →
      ((s.registry.set c' l).life c).state.deaf = false := by
    intro c' l hl
    by_cases hc : c = c'
    · subst hc
      rw [Registry.set_life_self]
      exact hl rfl
    · rw [Registry.set_life_ne _ l hc]
      exact hd
  have no : ∀ {c' : Nat}, (s.conn c').state.deaf = true → c ≠ c' := by
    intro c' h hc
    subst hc
    rw [hd] at h
    cases h
  have ending : ∀ {c' : Nat}, s.ending = some c' → c ≠ c' := by
    intro c' h
    rcases (Sys.ending_eq_some h).2 with h | h <;> exact no (by rw [h]; rfl)
  cases he with
  | quiet => exact .inl hd
  | accept key =>
    left
    by_cases hc : c = s.n
    · subst hc
      simp [Registry.accept, TcpConnState.deaf]
    · simp only [Registry.accept, Sys.registry_n, Function.update_of_ne hc]
      exact hd
  | start g c' => exact .inl (set fun _ => rfl)
  | connected g c' => exact .inl (set fun _ => rfl)
  | closeWrite g c' ic st _ _ hst =>
    refine .inl (set fun hc => ?_)
    subst hc
    rcases TcpConnState.closeWrite_eq_some hst with ⟨h, -⟩ | ⟨-, h⟩
    · rw [h] at hd; cases hd
    · exact h ▸ rfl
  | localClosed h p c' st ha hl hst =>
    by_cases hc : c' = c
    · subst hc ha
      right; right
      simp [Sys.obs, Sys.heldObs, hl, hst]
    · exact .inl (set fun h => absurd h.symm hc)
  | abort g c' ha hg =>
    by_cases hc : c' = c
    · subst hc ha
      right; left
      simp [Sys.obs, Sys.goObs, hg]
    · exact .inl (set fun h => absurd h.symm hc)
  | close c' _ hc =>
    rw [Registry.close_eq, Registry.set_life_ne _ _ (ending hc), Registry.release_life_ne (ending hc)]
    exact .inl hd
  | abortFree c' _ hc =>
    rw [Registry.free, Registry.set_life_ne _ _ (ending hc), Registry.release_life_ne (ending hc)]
    exact .inl hd
  | erroredFree h p c' d _ _ hst =>
    have hc : c ≠ c' := no (by rw [hst]; rfl)
    rw [Registry.free, Registry.set_life_ne _ _ hc, Registry.release_life_ne hc]
    exact .inl hd
  | err p c' t ha _ hh hr =>
    by_cases hc : c' = c
    · subst hc ha
      right; left
      simp [Sys.obs, Sys.lwipObs, Sys.finds, hh, hr]
    · rw [Registry.free_state, Registry.err, Registry.setState, Registry.set_life_ne _ _ (Ne.symm hc),
        Registry.release_life_ne (Ne.symm hc)]
      exact .inl hd
  | drop p => rw [Registry.free_state]; exact .inl hd
  | unhooked p => rw [Registry.free_state]; exact .inl hd
  | free p => rw [Registry.free_state]; exact .inl hd

/-- The reading side is open until `LocalClosed` is seen or it is torn. -/
theorem step_hears (hs : step M s a = some s') (hp : (s.conn c).pipeDone = false)
    (hd : (s.conn c).state.deaf = false) (ht : s.obs c a ≠ some .torn)
    (hl : s.obs c a ≠ some .localClosed) :
    (s'.conn c).pipeDone = false ∧ (s'.conn c).state.deaf = false := by
  have hd' : (s'.conn c).state.deaf = false := by
    rcases step_deaf hs hd with h | h | h
    · exact h
    · exact absurd h ht
    · exact absurd h hl
  refine ⟨?_, hd'⟩
  cases step_pipe hs c with
  | same h => exact h.trans hp
  | accept _ h => exact h
  | closeRead g ic ha hg =>
    subst ha
    exact absurd (by simp [Sys.obs, Sys.goObs, hg]) ht
  | localClosed h p ha hlk hst =>
    subst ha
    exact absurd (by simp [Sys.obs, Sys.heldObs, hlk, hst]) hl
  | released _ hterm =>
    rcases TcpConnState.terminal_iff.1 hterm with h | h <;> rw [h] at hd' <;> cases hd'

theorem obs_localClosed (ho : s.obs c a = some .localClosed) :
    a = .held .none ∧ ∃ h p st, s.lock = .localClosed h p c ∧
      (s.conn c).state.setLocalClosed = some st := by
  unfold Sys.obs at ho
  split at ho
  · unfold Sys.lwipObs at ho
    split at ho
    · split at ho <;> cases ho
    · cases ho
  · refine ⟨rfl, ?_⟩
    unfold Sys.heldObs at ho
    split at ho
    · split at ho <;> cases ho
    · rename_i h p c' hl
      split at ho
      · rename_i hc
        obtain ⟨st, hst⟩ := Option.ne_none_iff_exists'.1 hc.2
        exact ⟨h, p, st, by rw [hl, hc.1], hst⟩
      · cases ho
    · cases ho
  · split at ho
    · unfold Sys.goObs at ho
      split at ho
      case h_6 => split at ho <;> cases ho
      all_goals first | cases ho | (split at ho <;> cases ho)
    · cases ho
  · cases ho

/-- The `LocalClosed` that is seen comes from a FIN, and freezes the stream. -/
theorem step_localClosed (hb : Base s) (hs : step M s a = some s')
    (ho : s.obs c a = some .localClosed) :
    s.lock.rx c = .localClosed ∧ Frozen s' c (s'.lock.rx c) := by
  obtain ⟨rfl, h, p, st, hl, hst⟩ := obs_localClosed ho
  have hrx : s.lock.rx c = .localClosed := by simp [hl, Lock.rx]
  obtain ⟨hlt, hstart⟩ := hb.rx_started (c := c) (by rw [hrx]; simp)
  have hs' := heldStep_of_step hs
  simp only [Sys.heldStep, hl, Option.some.injEq] at hs'
  have hst' : (s'.conn c).state = st := by
    rw [← hs']
    simp [Sys.setLocalClosed, hst, Sys.setLock, Sys.broadcast, Sys.setConn]
  have hdeaf : (s'.conn c).state.deaf = true := by
    rw [hst']
    rcases TcpConnState.setLocalClosed_eq_some hst with ⟨-, rfl⟩ | ⟨-, rfl⟩ <;> rfl
  have hrx' : s'.lock.rx c = .none := by rw [← hs']; rfl
  rw [hrx']
  exact ⟨hrx, ⟨Nat.lt_of_lt_of_le hlt (step_n_le hs), step_started hs hlt hstart,
    TcpConnState.early_of_deaf hdeaf, .inr hdeaf⟩, by simp, by simp⟩

/-- A run without a `CloseRead`, `Close`, `Abort` or `Err` of connection `c`: until `LocalClosed`
its reading side is open; then all the segments that were delivered have been returned, and
no more. -/
def Heard (s : Sys) (c : Nat) (tr : List (Sys × Act)) : Prop :=
  ((s.conn c).pipeDone = false ∧ (s.conn c).state.deaf = false) ∨
    Frozen s c (s.lock.rx c) ∧ ∃ pre t b post, tr = pre ++ (t, b) :: post ∧
      t.obs c b = some .localClosed ∧ (stream c tr).returned = (stream c pre).segs.flatten

theorem heard_run (hr : Run (step M) {} tr s) (hd : Redelivers c tr) (ht : Untorn c tr) :
    Heard s c tr := by
  induction hr with
  | nil => exact .inl ⟨rfl, rfl⟩
  | snoc hr hs ih =>
    rename_i tr t s a
    rw [Untorn, obsOf_snoc, List.mem_append, not_or, Option.mem_toList] at ht
    rcases ih hd.snoc.1 ht.1 with ⟨hp, hdf⟩ | ⟨hf, pre, t', b, post, rfl, hb, hret⟩
    · by_cases hl : t.obs c a = some .localClosed
      · -- nothing is in flight and nothing is kept by lwIP
        obtain ⟨hrx, hf⟩ := step_localClosed (base_run hr) hs hl
        refine .inr ⟨hf, tr, t, a, [], rfl, hl, ?_⟩
        have hio := inOrder_run hr hd.snoc.1
        have hsegs := hio.segs
        rw [hio.idle (by rw [hrx]; simp), Option.toList_none, List.append_nil] at hsegs
        rw [stream_snoc, hl, hsegs]
        show (stream c tr).returned = _
        rcases (flow_run hr c).flow with hi | ⟨-, hf'⟩
        · simpa [Intact, hrx, Rx.rest] using hi
        · rcases hf'.late.ended with h | h
          · rw [hp] at h; cases h
          · rw [hdf] at h; cases h
      · exact .inl (step_hears hs hp hdf (fun h => ht.2 h) hl)
    · obtain ⟨hf', hno⟩ := hf.step (half_run hr) hs (step_rx hs c)
      refine .inr ⟨hf', pre, t', b, post ++ [(t, a)], by simp, hb, ?_⟩
      rw [stream_snoc, ← hret]
      cases ho : t.obs c a with
      | none => rfl
      | some e =>
        cases e with
        | read d => exact absurd rfl (hno _ ho d).1
        | _ => rfl

theorem obs_eof (ho : s.obs c a = some .eof) :
    (s.conn c).state.deaf = true ∨ (s.conn c).pipeDone = true := by
  unfold Sys.obs at ho
  split at ho
  · unfold Sys.lwipObs at ho
    split at ho
    · split at ho <;> cases ho
    · cases ho
  · unfold Sys.heldObs at ho
    split at ho
    · split at ho <;> cases ho
    · split at ho <;> cases ho
    · cases ho
  · split at ho
    · unfold Sys.goObs at ho
      split at ho
      · cases ho
      · cases ho
      · split at ho <;> cases ho
        rename_i hrc
        left
        cases hst : (s.conn c).state <;> simp [hst, TcpConnState.readCheck, TcpConnState.num] at hrc
        rfl
      · split at ho <;> cases ho
        exact .inr ‹_›
      · split at ho <;> cases ho
        exact .inr ‹_›
      · split at ho <;> cases ho
      · cases ho
    · cases ho
  · cases ho

theorem foldl_segs {x : Stream} {os : List Obs} (h : ∀ d, .deliver d ∉ os) :
    (os.foldl Stream.add x).segs = x.segs := by
  induction os generalizing x with
  | nil => rfl
  | cons b os ih =>
    rw [List.foldl_cons, ih fun d hd => h d (List.mem_cons_of_mem _ hd)]
    cases b with
    | deliver d => exact absurd List.mem_cons_self (h d)
    | _ => rfl

theorem returned_accepted (hr : Run (step M) {} tr s) :
    (stream c tr).returned <+: (stream c tr).accepted.flatten := by
  rcases (flow_run hr c).flow with hi | ⟨hi, -⟩
  · exact ⟨_, hi⟩
  · exact hi

theorem returned_segs (hr : Run (step M) {} tr s) (hd : Redelivers c tr) :
    (stream c tr).returned <+: (stream c tr).segs.flatten := by
  rw [(inOrder_run hr hd).segs, List.flatten_append]
  exact (returned_accepted hr).trans (List.prefix_append _ _)

/-- What the `Read`s of a connection return, for every run and every behaviour of lwIP that
re-delivers refused segments: a prefix of the segments that were accepted, which are the segments in
lwIP's order but for one that it keeps. And while nothing has torn the reading side, `io.EOF` comes
after `LocalClosed` only, when all that was delivered before `LocalClosed` has been returned (which
is all that was delivered, where nothing is after the FIN). -/
theorem received_in_order (hr : Run (step M) {} tr s) (hd : Redelivers c tr) :
    (stream c tr).returned <+: (stream c tr).accepted.flatten ∧
    (stream c tr).segs = (stream c tr).accepted ++ (stream c tr).pending.toList ∧
    (stream c tr).returned <+: (stream c tr).segs.flatten ∧
    ∀ a s', step M s a = some s' → s.obs c a = some .eof → Untorn c tr →
      ∃ pre t b post, tr = pre ++ (t, b) :: post ∧ t.obs c b = some .localClosed ∧
        (stream c tr).returned = (stream c pre).segs.flatten ∧
        ((∀ d, .deliver d ∉ obsOf c post) → (stream c tr).returned = (stream c tr).segs.flatten) := by
  refine ⟨returned_accepted hr, (inOrder_run hr hd).segs, returned_segs hr hd, fun a s' _ ho ht => ?_⟩
  rcases heard_run hr hd ht with ⟨hp, hdf⟩ | ⟨-, pre, t, b, post, htr, hb, hret⟩
  · rcases obs_eof ho with h | h
    · rw [hdf] at h; cases h
    · rw [hp] at h; cases h
  · refine ⟨pre, t, b, post, htr, hb, hret, fun hno => ?_⟩
    have hobs : obsOf c tr = obsOf c pre ++ .localClosed :: obsOf c post := by
      rw [htr]
      simp [obsOf, hb]
    rw [hret, stream, stream, hobs, List.foldl_append, List.foldl_cons, foldl_segs hno]
    rfl

end

/-- A segment comes in while the handler connects and is delivered again then; two `Read`s take it,
and a third one gets `io.EOF` after the FIN. -/
def earlyActs : List Act :=
  let g : Seg := ⟨false, false, [1, 2, 3], false⟩
  let f : Seg := ⟨false, false, [], true⟩
  let read : List Act := [.call 2 0 (.read 2), .go 2 .none, .go 2 .none, .go 2 .none]
  [Act.lock, .accept 7, .held (.spawn 1), .lwip 0 .tau { work := .seg g },
    .lwip 0 .tau { work := .events false false (some [1, 2, 3]) false },
    .lwip 0 (.recv [1, 2, 3]) {}, .held .none, .unlock, .go 1 (.handle true), .go 1 .none,
    .lwip 0 (.recv [1, 2, 3]) {}, .held .none, .held .none] ++ read ++ read ++
  [Act.held .none, .go 1 .none, .lock, .lwip 0 .tau { work := .seg f },
    .lwip 0 .tau { st := .closeWait, work := .events false false none true },
    .lwip 0 .fin { st := .closeWait }, .held .none, .call 2 0 (.read 2)]

theorem received_in_order_early :
    ∃ tr s s', Run (step tcpLwip) {} tr s ∧ Redelivers 0 tr ∧ Untorn 0 tr ∧
      obsOf 0 tr = [.deliver [1, 2, 3], .refuse [1, 2, 3], .deliver [1, 2, 3], .read [1, 2],
        .read [3], .fin, .localClosed] ∧
      step tcpLwip s (.go 2 .none) = some s' ∧ s.obs 0 (.go 2 .none) = some .eof ∧
      (stream 0 tr).returned <+: (stream 0 tr).segs.flatten ∧
      ∃ pre t b post, tr = pre ++ (t, b) :: post ∧ t.obs 0 b = some .localClosed ∧
        (stream 0 tr).returned = (stream 0 pre).segs.flatten := by
  obtain ⟨s, hr, hs⟩ := exists_run (step tcpLwip) {} earlyActs
    (fun s => (step tcpLwip s (.go 2 .none)).isSome && s.obs 0 (.go 2 .none) == some .eof) (by decide)
  simp only [Bool.and_eq_true, beq_iff_eq] at hs
  obtain ⟨hs', ho⟩ := hs
  obtain ⟨s', hs'⟩ := Option.isSome_iff_exists.1 hs'
  have hd : Redelivers 0 (execTrace (step tcpLwip) {} earlyActs) := by decide
  have ht : Untorn 0 (execTrace (step tcpLwip) {} earlyActs) := by decide
  have hobs : obsOf 0 (execTrace (step tcpLwip) {} earlyActs) = [.deliver [1, 2, 3],
    .refuse [1, 2, 3], .deliver [1, 2, 3], .read [1, 2], .read [3], .fin, .localClosed] := by decide
  have key := received_in_order hr hd
  obtain ⟨pre, t, b, post, htr, hb, hret, -⟩ := key.2.2.2 _ s' hs' ho ht
  exact ⟨_, s, s', hr, hd, ht, hobs, hs', ho, key.2.2.1, pre, t, b, post, htr, hb, hret⟩

end Core
