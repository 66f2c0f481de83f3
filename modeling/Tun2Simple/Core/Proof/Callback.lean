import Tun2Simple.Core.Callback
import Tun2Simple.Core.Lwip
import Tun2Simple.Core.Proof.Registry

/-!
# The contract of the callbacks

`Recorded s r`: the callback that `r` has running is the one at which `s.lock` stands, with nothing
called so far but what its place says, and those that returned kept their contract. Every step keeps
it as long as a callback's connection is the one of its pcb (`Inv.callback_eq`), so that no key in
use may be drawn: `callback_contract`.
-/

namespace Core

open Trans

/-! ## The calls and the log -/

/-- The calls of `tcp_recved` and `tcp_abort` among the events of the log. -/
def Ev.call : Ev → Option (Nat × PcbOp)
  | .pcb p .recved _ => some (p, .recved)
  | .pcb p .abort _ => some (p, .abort)
  | _ => none

def CbCall.op : CbCall → Option (Nat × PcbOp)
  | .tcpRecved p _ => some (p, .recved)
  | .tcpAbort p => some (p, .abort)
  | _ => none

theorem leave_op (q : Option Bytes) (f : Bool) (err : LwipErr) :
    (leave q f err).filterMap CbCall.op = [] := by
  unfold leave
  split <;> rfl

theorem abortLog_call (s : Sys) (p : Nat) : (s.abortLog p).filterMap Ev.call = [(p, .abort)] := by
  unfold Sys.abortLog
  split <;> rfl

section
variable {s s' : Sys} {M : Lwip}

theorem lookup_calls {h : Holder} {p : Nat} {t : Tcp} {e : LwEv} {f : Fn} {k : Nat → Lock}
    (he : e.fn = some f) : ((s.setTcp p t).lookup h p k).log.filterMap Ev.call =
      s.log.filterMap Ev.call ++ (s.calls (.lwip p e t)).filterMap CbCall.op := by
  unfold Sys.lookup
  simp only
  split
  · rename_i c hc
    have hcalls : s.calls (.lwip p e t) = [] := by
      have hc' : s.tcpConns (s.conn p).connKey = some c := hc
      simp only [Sys.calls, he, hc']
    rw [hcalls]
    simp [Sys.setLock, Ev.call]
  · rename_i hc
    have hcalls : s.calls (.lwip p e t) = .tcpAbort p :: leave f.pbuf true .abrt := by
      have hc' : s.tcpConns (s.conn p).connKey = none := hc
      simp only [Sys.calls, he, hc']
    rw [hcalls, Sys.return_, Sys.setLock, (Sys.tcpAbort_of_none _ hc).2.2]
    rw [List.filterMap_append, abortLog_call]
    simp [leave_op, Ev.call, CbCall.op]

theorem lwipStep_calls {p : Nat} {e : LwEv} {t : Tcp} (h : s.lwipStep M p e t = some s') :
    s'.log.filterMap Ev.call =
      s.log.filterMap Ev.call ++ (s.calls (.lwip p e t)).filterMap CbCall.op := by
  unfold Sys.lwipStep at h
  split at h
  case h_2 => cases h
  case h_1 =>
    split at h
    case isFalse => cases h
    case isTrue =>
      cases e with
      | tau => cases h; simp [Sys.calls, LwEv.fn]
      | free => cases h; simp [Sys.calls, LwEv.fn]
      | err =>
        cases h
        simp only [Sys.calls, LwEv.fn, List.filterMap_nil, List.append_nil]
        split <;> simp [Ev.call]
      | sent | poll | recv | fin =>
        simp only at h
        split at h <;> cases h
        exact lookup_calls rfl

theorem checkState_calls (c : Nat) (k : CheckPc) : (s.checkState c k).1.log.filterMap Ev.call =
    s.log.filterMap Ev.call ++ (s.checkCalls c k).filterMap CbCall.op := by
  cases k <;> simp only [Sys.checkState, Sys.checkCalls]
  case isClosed => simp
  case checkClosing =>
    split
    · simp [leave_op, Sys.closeInternal, Sys.access, Sys.emit, Sys.release, Sys.setPcb, Ev.call]
    · simp
  case checkAborting =>
    split
    · rw [(s.abortInternal_control c).2.2]
      simp [abortLog_call, leave_op, CbCall.op]
    · simp
  case broadcast => simp [leave_op, Sys.broadcast]

theorem recvClsd_calls (h : Holder) (p : Nat) (d : Bytes) :
    (s.recvClsd h p).log.filterMap Ev.call =
      s.log.filterMap Ev.call ++ (recvClsdCalls p d).filterMap CbCall.op := by
  simp [Sys.recvClsd, Sys.return_, Sys.setLock, Ev.call, recvClsdCalls, leave_op, CbCall.op]

theorem heldStep_calls {x : Env} (h : s.heldStep x = some s') (ha : ∀ g c k, s.lock ≠ .abort g c k) :
    s'.log.filterMap Ev.call = s.log.filterMap Ev.call ++ (s.heldCalls x).filterMap CbCall.op := by
  unfold Sys.heldStep at h
  split at h
  case h_1 hl => split at h <;> cases h; simp [Sys.heldCalls, hl, Sys.return_, Sys.setLock]
  case h_2 hd p c d hl =>
    cases h
    simp only [Sys.heldCalls, hl, Sys.receiveCheck]
    cases (s.conn c).state.receiveCheck with
    | none => simp [Sys.setLock]
    | some e =>
      cases e with
      | conn => simp [leave_op, Sys.return_, Sys.setLock]
      | clsd => exact recvClsd_calls hd p d
      | abrt =>
        simp only [Sys.return_, Sys.setLock, (Sys.abortInternal_control _ c).2.2]
        rw [List.filterMap_append, abortLog_call]
        simp [leave_op, Ev.call, CbCall.op]
      | ok => simp [leave_op, Sys.return_, Sys.setLock]
  case h_3 hd p c d hl =>
    simp only [Sys.heldCalls, hl]
    split at h <;> cases h
    · rw [if_pos ‹_›]; exact recvClsd_calls hd p d
    · rw [if_neg ‹_›]; simp [Sys.setLock]
  case h_4 hl =>
    simp only [Sys.heldCalls, hl]
    split at h <;> cases h
    rw [if_pos ‹_›]
    simp [Sys.return_, Sys.setLock, Ev.call, leave_op, CbCall.op]
  case h_5 hd p c d rest once hl =>
    simp only [Sys.heldCalls, hl]
    split at h <;> cases h
    exact recvClsd_calls hd p d
  case h_6 hl =>
    cases h
    simp only [Sys.heldCalls, hl, Sys.setLocalClosed]
    split <;> simp [Sys.setLock, Sys.broadcast]
  case h_7 hd p c k hl =>
    have hk' := checkState_calls (s := s) c k
    simp only [Sys.heldCalls, hl]
    split at h
    · rename_i hk
      cases h
      rw [hk] at hk'
      exact hk'
    · rename_i s₁ e hk
      cases h
      rw [hk] at hk'
      rw [← hk']
      unfold Sys.checkReturn
      split <;> rfl
  case h_8 g c k hl => exact absurd hl (ha g c k)
  case h_9 => cases h

/-- `calls` lists the calls of `tcp_recved` and `tcp_abort` that the callbacks log. -/
theorem step_calls {a : Act} (h : step M s a = some s') (hg : ∀ g x, a ≠ .go g x)
    (ha : ∀ g c k, s.lock ≠ .abort g c k) :
    s'.log.filterMap Ev.call = s.log.filterMap Ev.call ++ (s.calls a).filterMap CbCall.op := by
  have quiet : s'.log = s.log → s.calls a = [] → s'.log.filterMap Ev.call =
      s.log.filterMap Ev.call ++ (s.calls a).filterMap CbCall.op := by
    intro hlog hcalls
    rw [hlog, hcalls]
    simp
  unfold step at h
  split at h
  · cases h
  · cases a with
    | lock => simp only at h; split at h <;> cases h; exact quiet rfl rfl
    | unlock => simp only at h; split at h <;> cases h; exact quiet rfl rfl
    | accept key => simp only at h; split at h <;> cases h; exact quiet rfl rfl
    | lwip p e t => exact lwipStep_calls h
    | held x => exact heldStep_calls h ha
    | call g c op => simp only [Sys.callStep] at h; split at h <;> cases h; exact quiet rfl rfl
    | go g x => exact absurd rfl (hg g x)

end

/-! ## The record -/

namespace Record

variable {b : Callback} {rs : List (Callback × LwipErr)}

/-- The callback returns; the deferred `pbuf_free` is the last of its calls. -/
theorem leave_eq (q : Option Bytes) (f : Bool) (err : LwipErr) :
    (leave q f err).foldl add ⟨some b, rs⟩ =
      ⟨none, rs ++ [({ b with frees := b.frees + if q.isSome && f then 1 else 0 }, err)]⟩ := by
  unfold leave
  split <;> simp [add]

theorem abort_leave (c : Nat) (q : Option Bytes) :
    (.tcpAbort c :: leave q true .abrt).foldl add ⟨some b, rs⟩ =
      ⟨none, rs ++ [({ b with
        aborts := b.aborts ++ [c]
        frees := b.frees + if q.isSome then 1 else 0 }, LwipErr.abrt)]⟩ := by
  rw [List.foldl_cons]
  exact (leave_eq q true .abrt).trans (by simp)

theorem recved_leave (p : Nat) (len : UInt16) (d : Bytes) :
    (.tcpRecved p len :: leave (some d) true .ok).foldl add ⟨some b, rs⟩ =
      ⟨none, rs ++ [({ b with
        recved := b.recved ++ [(p, len)]
        frees := b.frees + 1 }, LwipErr.ok)]⟩ := by
  rw [List.foldl_cons]
  exact (leave_eq (some d) true .ok).trans (by simp)

end Record

theorem record_snoc (tr : List (Sys × Act)) (s : Sys) (a : Act) :
    record (tr ++ [(s, a)]) = (record tr).step s a := by
  simp [record]

/-! ## What a callback may return -/

namespace Contract

/-- The data was taken, or the pipe was found closed. -/
theorem received (p : Nat) (d bs : Bytes) :
    Contract { fn := .tcpRecvFn (some d), p, recved := [(p, totLen d)], frees := 1, read := bs }
      .ok where
  outcome _ _ := .ok rfl (by simp) (by simp [Callback.credited, Callback.totLen, Fn.pbuf])
  abrt_iff := by simp

/-- The connection is not connected yet. -/
theorem refused (p : Nat) (d : Bytes) :
    Contract { fn := .tcpRecvFn (some d), p } .conn where
  outcome _ _ := .conn rfl rfl rfl
  abrt_iff := by simp

/-- A callback without a pbuf has nothing to free and nothing to credit. -/
theorem checked (p : Nat) {f : Fn} (hf : f.pbuf = none) : Contract { fn := f, p } .ok where
  outcome _ _ := .ok (by simp [Callback.pbufs, hf]) (by simp)
    (by simp [Callback.credited, Callback.totLen, hf])
  abrt_iff := by simp

theorem aborted (p : Nat) (f : Fn) :
    Contract { fn := f, p, aborts := [p], frees := if f.pbuf.isSome then 1 else 0 } .abrt where
  outcome _ _ := .abrt rfl rfl
  abrt_iff := by simp

end Contract

/-! ## The running callback -/

/-- The callback that runs when `lwipMutex` is in state `l`. -/
def Lock.Runs : Lock → Option Callback → Prop
  | .receive _ p _ d, r | .pipeWrite _ p _ d, r => r = some { fn := .tcpRecvFn (some d), p }
  | .pipe _ p _ d _ _, r => ∃ bs, r = some { fn := .tcpRecvFn (some d), p, read := bs }
  | .localClosed _ p _, r => r = some { fn := .tcpRecvFn none, p }
  | .check _ p _ _, r => ∃ f : Fn, f.pbuf = none ∧ r = some { fn := f, p }
  | .free, r | .lwip _, r | .accept _, r | .abort _ _ _, r => r = none

structure Recorded (s : Sys) (r : Record) : Prop where
  running : s.lock.Runs r.running
  returned : ∀ x ∈ r.returned, Contract x.1 x.2

theorem recorded_init : Recorded {} {} where
  running := rfl
  returned := by simp

section
variable {s s' : Sys} {r : Record} {M : Lwip}

/-- A callback returns to lwIP. -/
theorem Recorded.leave {h : Holder} {x : Callback × LwipErr} (hr : Recorded s r)
    (hl : s'.lock = .lwip h) (hx : Contract x.1 x.2) : Recorded s' ⟨none, r.returned ++ [x]⟩ where
  running := by rw [hl]; exact rfl
  returned y hy := by
    rcases List.mem_append.1 hy with hy | hy
    · exact hr.returned y hy
    · rw [List.mem_singleton.1 hy]
      exact hx

/-- lwIP calls a callback: with a connection its first section is next, without one it has aborted
the pcb and returned. -/
theorem Recorded.lookup {h : Holder} {p : Nat} {t : Tcp} {e : LwEv} {f : Fn} {k : Nat → Lock}
    (hr : Recorded s r) (he : e.fn = some f) (hk : ∀ c, (k c).Runs (some { fn := f, p })) :
    Recorded ((s.setTcp p t).lookup h p k) (r.step s (.lwip p e t)) := by
  have hstart : r.start (.lwip p e t) = { r with running := some { fn := f, p } } := by
    simp only [Record.start, he]
  cases hc : s.tcpConns (s.conn p).connKey with
  | some c =>
    have hcalls : s.calls (.lwip p e t) = [] := by simp only [Sys.calls, he, hc]
    have hlock : ((s.setTcp p t).lookup h p k).lock = k c := by
      unfold Sys.lookup
      have : ((s.setTcp p t).emit (.key p (0 < ((s.setTcp p t).conn p).cellFrees))).tcpConns
          (((s.setTcp p t).emit (.key p (0 < ((s.setTcp p t).conn p).cellFrees))).conn
            p).connKey = some c := hc
      simp only [this, Sys.setLock_lock]
    rw [Record.step, hcalls, hstart]
    exact ⟨by rw [hlock]; exact hk c, hr.returned⟩
  | none =>
    have hcalls : s.calls (.lwip p e t) = .tcpAbort p :: Core.leave f.pbuf true .abrt := by
      simp only [Sys.calls, he, hc]
    have hlock : ((s.setTcp p t).lookup h p k).lock = .lwip h := by
      unfold Sys.lookup
      have : ((s.setTcp p t).emit (.key p (0 < ((s.setTcp p t).conn p).cellFrees))).tcpConns
          (((s.setTcp p t).emit (.key p (0 < ((s.setTcp p t).conn p).cellFrees))).conn
            p).connKey = none := hc
      simp only [this, Sys.return_lock]
    rw [Record.step, hcalls, hstart, Record.abort_leave]
    refine hr.leave hlock ?_
    simpa using Contract.aborted p f

theorem Recorded.lwip {p : Nat} {e : LwEv} {t : Tcp} (hr : Recorded s r)
    (h : s.lwipStep M p e t = some s') : Recorded s' (r.step s (.lwip p e t)) := by
  unfold Sys.lwipStep at h
  split at h
  case h_2 => cases h
  case h_1 hd hl =>
    have hrun := hr.running
    rw [hl] at hrun
    split at h
    case isFalse => cases h
    case isTrue hg =>
      have quiet : e.fn = none → s'.lock = .lwip hd → Recorded s' (r.step s (.lwip p e t)) := by
        intro he hl'
        have hstep : r.step s (.lwip p e t) = r := by
          simp only [Record.step, Record.start, Sys.calls, he, List.foldl_nil]
        rw [hstep]
        exact ⟨by rw [hl']; exact hrun, hr.returned⟩
      cases e with
      | tau => cases h; exact quiet rfl hl
      | free => cases h; exact quiet rfl hl
      | err =>
        cases h
        refine quiet rfl ?_
        split <;> simp [hl]
      | sent =>
        simp only at h
        split at h <;> cases h
        exact hr.lookup rfl fun c => ⟨_, rfl, rfl⟩
      | poll =>
        simp only at h
        split at h <;> cases h
        exact hr.lookup rfl fun c => ⟨_, rfl, rfl⟩
      | recv d =>
        simp only at h
        split at h <;> cases h
        exact hr.lookup rfl fun c => rfl
      | fin =>
        simp only at h
        split at h <;> cases h
        exact hr.lookup rfl fun c => rfl

/-- The sections of `checkState`, in `tcpSentFn`, `tcpPollFn` and `tcpRecvFn` without data. -/
theorem Recorded.check {h : Holder} {p : Nat} {k : CheckPc} (hr : Recorded s r)
    (hl : s.lock = .check h p p k) (hs : s.heldStep .none = some s') (hp : s'.panicked = false) :
    Recorded s' (r.step s (.held .none)) := by
  have hrun := hr.running
  rw [hl] at hrun
  obtain ⟨f, hf, hrun⟩ := hrun
  have hr0 : r = ⟨some { fn := f, p }, r.returned⟩ := by rw [← hrun]
  have hstep : r.step s (.held .none) = (s.checkCalls p k).foldl Record.add r := by
    simp only [Record.step, Record.start, Sys.calls, Sys.heldCalls, hl]
  have next : ∀ {s₁ : Sys} {k'}, s₁ = s.setLock (.check h p p k') → Recorded s₁ r := by
    rintro s₁ k' rfl
    exact ⟨⟨f, hf, hrun⟩, hr.returned⟩
  have ok : ∀ {s₁ : Sys}, s₁.lock = .lwip h →
      Recorded s₁ ((Core.leave none true .ok).foldl Record.add r) := by
    intro s₁ hl₁
    rw [hr0, Record.leave_eq]
    exact hr.leave hl₁ (Contract.checked p hf)
  rw [hstep]
  cases k <;> simp only [Sys.heldStep, hl, Sys.checkState] at hs
  case isClosed =>
    by_cases hst : (s.conn p).state = .closed
    · simp only [if_pos hst] at hs
      cases hs
      cases hp
    · simp only [if_neg hst] at hs
      cases hs
      exact next rfl
  case checkClosing =>
    by_cases hst : (s.conn p).state = .closing
    · simp only [if_pos hst] at hs
      cases hs
      simp only [Sys.checkCalls, if_pos hst]
      exact ok rfl
    · simp only [if_neg hst] at hs
      cases hs
      simp only [Sys.checkCalls, if_neg hst]
      exact next rfl
  case checkAborting =>
    by_cases hst : (s.conn p).state = .aborting
    · simp only [if_pos hst] at hs
      cases hs
      simp only [Sys.checkCalls, if_pos hst]
      rw [hr0, Record.abort_leave]
      refine hr.leave rfl ?_
      simpa [hf] using Contract.aborted p f
    · simp only [if_neg hst] at hs
      cases hs
      simp only [Sys.checkCalls, if_neg hst]
      exact next rfl
  case broadcast =>
    cases hs
    exact ok rfl

/-- `tcpRecvFn` returns after one `tcp_recved` for its pbuf. -/
theorem Recorded.recved {h : Holder} {p : Nat} {d bs : Bytes} (hr : Recorded s r)
    (hrun : r.running = some { fn := .tcpRecvFn (some d), p, read := bs })
    (hl : s'.lock = .lwip h) : Recorded s' ((recvClsdCalls p d).foldl Record.add r) := by
  have hr0 : r = ⟨some { fn := .tcpRecvFn (some d), p, read := bs }, r.returned⟩ := by rw [← hrun]
  rw [recvClsdCalls, hr0, Record.recved_leave]
  exact hr.leave hl (Contract.received p d bs)

theorem Recorded.receive {h : Holder} {p : Nat} {d : Bytes} (hr : Recorded s r) (hb : Base s)
    (hl : s.lock = .receive h p p d) :
    Recorded (s.receiveCheck h p p d) (r.step s (.held .none)) := by
  have hrun := hr.running
  rw [hl] at hrun
  have hr0 : r = ⟨some { fn := .tcpRecvFn (some d), p }, r.returned⟩ := by rw [← hrun]
  have herr := hb.not_errored hl
  simp only [Record.step, Record.start, Sys.calls, Sys.heldCalls, hl, Sys.receiveCheck]
  cases hst : (s.conn p).state with
  | connected | writeClosed => exact ⟨hrun, hr.returned⟩
  | newConn | connecting =>
    simp only [TcpConnState.receiveCheck]
    rw [hr0, Record.leave_eq]
    exact hr.leave rfl (Contract.refused p d)
  | aborting | closed | receiveClosed | closing => exact hr.recved hrun rfl
  | errored => exact absurd hst herr

/-- What runs with `lwipMutex` held. -/
theorem Recorded.held {x : Env} (hr : Recorded s r) (hi : Inv s) (hs : s.heldStep x = some s')
    (hp : s'.panicked = false) : Recorded s' (r.step s (.held x)) := by
  have hrun := hr.running
  have hc : ∀ {p c}, s.lock.frame = .callback p c → p = c := hi.callback_eq
  have hs0 := hs
  unfold Sys.heldStep at hs
  split at hs
  case h_1 c g hl =>
    split at hs <;> cases hs
    rw [hl] at hrun
    simp only [Record.step, Record.start, Sys.calls, Sys.heldCalls, hl]
    exact ⟨hrun, hr.returned⟩
  case h_2 h p c d hl =>
    cases hs
    obtain rfl := hc (by rw [hl]; rfl)
    exact hr.receive hi.toBase hl
  case h_3 h p c d hl =>
    rw [hl] at hrun
    simp only [Record.step, Record.start, Sys.calls, Sys.heldCalls, hl]
    split at hs <;> cases hs
    · rw [if_pos ‹_›]
      exact hr.recved hrun rfl
    · rw [if_neg ‹_›]
      exact ⟨⟨[], hrun⟩, hr.returned⟩
  case h_4 h p c d rest once hl =>
    obtain rfl := hc (by rw [hl]; rfl)
    rw [hl] at hrun
    obtain ⟨bs, hrun⟩ := hrun
    simp only [Record.step, Record.start, Sys.calls, Sys.heldCalls, hl]
    split at hs <;> cases hs
    rw [if_pos ‹_›]
    exact hr.recved hrun rfl
  case h_5 h p c d rest once hl =>
    rw [hl] at hrun
    obtain ⟨bs, hrun⟩ := hrun
    simp only [Record.step, Record.start, Sys.calls, Sys.heldCalls, hl]
    split at hs <;> cases hs
    exact hr.recved hrun rfl
  case h_6 h p c hl =>
    cases hs
    rw [hl] at hrun
    simp only [Record.step, Record.start, Sys.calls, Sys.heldCalls, hl]
    exact ⟨⟨_, rfl, hrun⟩, hr.returned⟩
  case h_7 h p c k hl =>
    obtain rfl := hc (by rw [hl]; rfl)
    exact hr.check hl hs0 hp
  case h_8 g c k hl =>
    rw [hl] at hrun
    simp only [Record.step, Record.start, Sys.calls, Sys.heldCalls, hl]
    split at hs <;> cases hs
    · exact ⟨hrun, hr.returned⟩
    · exact ⟨hrun, hr.returned⟩
  case h_9 => cases hs

/-- Goroutines outside `lwipMutex`: only a `Read` meets a callback. -/
theorem Recorded.go {g : Gid} {x : Env} (hr : Recorded s r) (hs : s.goStep g x = some s') :
    Recorded s' (r.step s (.go g x)) := by
  have hrun := hr.running
  have quiet : (∀ n, x = .none → (s.gos g).pc ≠ .readWait n) → r.step s (.go g x) = r := by
    intro hn
    cases x with
    | none =>
      simp only [Record.step, Record.start, Sys.calls]
      split
      · exact absurd ‹_› (hn _ rfl)
      · rfl
    | _ => rfl
  have hold := goStep_hold hs
  generalize hl : s'.lock = l at hold
  cases hold with
  | same hn =>
    rw [quiet hn]
    exact ⟨by rw [hl]; exact hrun, hr.returned⟩
  | refused hf hpc =>
    rw [quiet fun n _ => by rw [hpc]; simp]
    rw [hf] at hrun
    exact ⟨by rw [hl]; exact hrun, hr.returned⟩
  | settled hf hpc =>
    rw [quiet fun n _ => by rw [hpc]; simp]
    rw [hf] at hrun
    exact ⟨by rw [hl]; exact hrun, hr.returned⟩
  | abort c hf hg =>
    rw [quiet fun n _ => by rw [hg]; simp]
    rw [hf] at hrun
    exact ⟨by rw [hl]; exact hrun, hr.returned⟩
  | read n h p c d rest once hx hg hf =>
    subst hx
    rw [hf] at hrun
    obtain ⟨bs, hrun⟩ := hrun
    refine ⟨?_, ?_⟩
    · rw [hl]
      refine ⟨bs ++ rest.take n, ?_⟩
      simp [Record.step, Record.start, Sys.calls, hg, hf, Record.add, hrun]
    · simp only [Record.step, Record.start, Sys.calls, hg, hf, List.foldl_cons, List.foldl_nil,
        Record.add]
      exact hr.returned

theorem Recorded.step {a : Act} (hr : Recorded s r) (hi : Inv s) (hs : Core.step M s a = some s') :
    Recorded s' (r.step s a) := by
  have hp := hi.toBase.panicked_step hs
  have hrun := hr.running
  cases a with
  | lock =>
    unfold Core.step at hs
    split at hs
    · cases hs
    · simp only at hs
      split at hs <;> cases hs
      rename_i hl
      rw [hl] at hrun
      exact ⟨hrun, hr.returned⟩
  | unlock =>
    unfold Core.step at hs
    split at hs
    · cases hs
    · simp only at hs
      split at hs <;> cases hs
      rename_i hl
      rw [hl.1] at hrun
      exact ⟨hrun, hr.returned⟩
  | accept key =>
    unfold Core.step at hs
    split at hs
    · cases hs
    · simp only at hs
      split at hs <;> cases hs
      rename_i hl
      rw [hl] at hrun
      exact ⟨hrun, hr.returned⟩
  | lwip p e t => exact hr.lwip (lwipStep_of_step hs)
  | held x => exact hr.held hi (heldStep_of_step hs) hp
  | call g c op =>
    unfold Core.step at hs
    split at hs
    · cases hs
    · simp only [Sys.callStep] at hs
      split at hs <;> cases hs
      exact ⟨hrun, hr.returned⟩
  | go g x => exact hr.go (goStep_of_step hs)

theorem recorded_run {tr : List (Sys × Act)} (h : Run (Core.step M) {} tr s)
    (hk : Meets FreshKey tr) : Recorded s (record tr) := by
  induction h with
  | nil => exact recorded_init
  | snoc hr hst ih =>
    rw [meets_snoc] at hk
    rw [record_snoc]
    exact (ih hk.1).step (inv_run hr hk.1) hst

/-- The contract of `tcpRecvFn`, `tcpSentFn` and `tcpPollFn` in every run that draws no key in use,
for any behaviour of lwIP. -/
theorem callback_contract {tr : List (Sys × Act)} (hr : Run (Core.step M) {} tr s)
    (hk : Meets FreshKey tr) :
    s.panicked = false ∧ ∀ x ∈ (record tr).returned, Contract x.1 x.2 :=
  ⟨(no_panic_run hr).1, (recorded_run hr hk).returned⟩

end

/-- Three bytes come in before the handler is ready and again when it is; it reads two of them and
closes its end of the pipe, then it aborts and lwIP polls. -/
theorem callback_contract_partial :
    ∃ tr s, Run (step anyLwip) {} tr s ∧ Meets FreshKey tr ∧ s.panicked = false ∧
      (record tr).returned = [
        ({ fn := .tcpRecvFn (some [1, 2, 3]), p := 0 }, .conn),
        ({ fn := .tcpRecvFn (some [1, 2, 3]), p := 0, recved := [(0, 3)], frees := 1,
           read := [1, 2] }, .ok),
        ({ fn := .tcpPollFn, p := 0, aborts := [0] }, .abrt)] ∧
      ∀ x ∈ (record tr).returned, Contract x.1 x.2 := by
  let acts : List Act := [.lock, .accept 7, .held (.spawn 0), .lwip 0 (.recv [1, 2, 3]) {},
    .held .none, .go 0 (.handle true), .lwip 0 (.recv [1, 2, 3]) {}, .held .none, .held .none,
    .call 1 0 (.read 2), .go 1 .none, .go 1 .none, .go 1 .none, .call 1 0 .closeRead, .go 1 .none,
    .held .pipeDone, .call 1 0 .abort, .go 1 .none, .lwip 0 .poll {}, .held .none, .held .none,
    .held .none]
  obtain ⟨s, hr, -⟩ := exists_run (step anyLwip) {} acts (fun _ => true) (by decide)
  have hk : Meets FreshKey (execTrace (step anyLwip) {} acts) := by decide
  have key := callback_contract hr hk
  exact ⟨_, s, hr, hk, key.1, by decide, key.2⟩

/-- Two connections under one key, the second being aborted: the FIN of the first aborts the pcb of
the second. -/
theorem key_in_use_aborts_other :
    ¬ ∀ tr s, Run (step tcpLwip) {} tr s → ∀ x ∈ (record tr).returned, Contract x.1 x.2 := by
  intro h
  let acts : List Act := [.lock, .accept 7, .held (.spawn 0), .accept 7, .held (.spawn 1), .unlock,
    .go 1 (.handle false), .go 1 .none, .lock, .lwip 0 .tau { work := .seg ⟨false, false, [], true⟩ },
    .lwip 0 .tau { st := .closeWait, work := .events false false none true },
    .lwip 0 .fin { st := .closeWait }, .held .none, .held .none, .held .none, .held .none]
  obtain ⟨s, hr, -⟩ := exists_run (step tcpLwip) {} acts (fun _ => true) (by decide)
  have hret : (record (execTrace (step tcpLwip) {} acts)).returned =
      [({ fn := .tcpRecvFn none, p := 0, aborts := [1] }, .abrt)] := by decide
  have hc := h _ s hr ({ fn := .tcpRecvFn none, p := 0, aborts := [1] }, .abrt) (by simp [hret])
  cases hc.outcome _ rfl with
  | abrt ha => exact absurd ha (by decide)

end Core
