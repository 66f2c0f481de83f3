import Tun2Simple.Core.Proof.Receive
import Tun2Simple.Lwip.Proof.RxStream

/-!
# lwIP's calls are the deliveries that `tcpRecvFn` gets

What is seen of a connection in the Go code (`Core.Obs`) has lwIP's calls of the recv callback in it.
Calls that keep the order of a stream re-deliver what was refused (`redelivers_of_orderly`), so the
connections of lwIP's receiving side do what `Core.Redelivers` assumes; and what `Read` returns of such
a connection is a prefix of the peer's stream (`read_from_peer`).
-/

namespace Lwip

open Core (Obs Stream redelivers redelivers_append obsOf stream Redelivers)
open TcpPcb Trans

/-! ## No call after an abort -/

/-- The callback has not aborted the connection. -/
def NoAbort (es : List Event) : Prop := ∀ d, .recv d .abrt ∉ es

/-- Only a freed pcb was aborted by its callback. -/
def Rx.Alive (x : Rx) : Prop := x.live = true → NoAbort x.events

section Alive

variable {x y : Rx} {d : Bytes} {f : Bool} {a : Answer}

theorem NoAbort.snoc {es : List Event} {e : Event} (h : NoAbort es) (he : ∀ d, e ≠ .recv d .abrt) :
    NoAbort (es ++ [e]) := by
  intro d hd
  rcases List.mem_append.1 hd with hd | hd
  · exact h d hd
  · exact he d (List.mem_singleton.1 hd).symm

theorem eventRecv_alive (h : NoAbort x.events) (hy : x.eventRecv d a = some y) : y.Alive := by
  obtain ⟨-, he, hl⟩ := eventRecv_spec hy
  intro hlive
  rw [he]
  refine h.snoc fun d' hd' => ?_
  injection hd' with _ hret
  rw [hl, hret] at hlive
  cases hlive

theorem eventClosed_alive (h : NoAbort x.events) (hy : x.eventClosed a = some y) : y.Alive := by
  obtain ⟨-, he, -⟩ := eventClosed_spec hy
  intro _
  rw [he]
  exact h.snoc fun d hd => by cases hd

theorem tcpProcessRefusedData_alive {recv fin : Answer} (h : NoAbort x.events)
    (hy : x.tcpProcessRefusedData recv fin = some y) : y.Alive := by
  rw [Rx.tcpProcessRefusedData] at hy
  split at hy
  · cases hy
    exact fun _ => h
  · obtain ⟨z, hz, hy⟩ := Option.bind_eq_some_iff.1 hy
    have hzl := (eventRecv_spec hz).2.2
    have ha : z.Alive := eventRecv_alive (x := { x with pcb := { x.pcb with refused := none } }) h hz
    split at hy
    · rename_i hret
      split at hy
      · exact eventClosed_alive (ha (by rw [hzl, hret]; rfl)) hy
      · cases hy
        exact ha
    · cases hy
      exact ha
    · cases hy
      exact ha

theorem deliver_alive (h : NoAbort x.events) (hy : x.deliver d a = some y) : y.Alive := by
  rw [Rx.deliver] at hy
  split at hy
  · cases hy
    exact fun _ => h
  · split at hy
    · cases hy
    · split at hy
      · cases hy
        exact fun hl => by cases hl
      · obtain ⟨z, hz, hy⟩ := Option.bind_eq_some_iff.1 hy
        cases hy
        have ha := eventRecv_alive h hz
        split <;> exact ha

theorem deliverFin_alive (h : x.Alive) (hy : x.deliverFin f a = some y) : y.Alive := by
  rw [Rx.deliverFin] at hy
  split at hy
  · rename_i hb
    have hno := h (Bool.and_eq_true_iff.1 hb).2
    split at hy
    · cases hy
      exact fun _ => hno
    · exact eventClosed_alive hno hy
  · cases hy
    exact h

theorem finish_alive {r : Received} {closed acked : Bool} {ans : Answers} (h : NoAbort x.events)
    (hy : x.finish r closed acked ans = some y) : y.Alive := by
  rw [Rx.finish] at hy
  obtain ⟨x1, hx1, hy⟩ := Option.bind_eq_some_iff.1 hy
  have he := (eventSent_spec hx1).2
  split at hy
  · obtain ⟨x2, hx2, hy⟩ := Option.bind_eq_some_iff.1 hy
    exact deliverFin_alive (deliver_alive (he ▸ h) hx2) hy
  · cases hy
    exact fun hl => by cases hl

theorem tcpInput_alive {mem : Mem} {i : Incoming} {ans : Answers} (h : NoAbort x.events)
    (hy : x.tcpInput mem i ans = some y) : y.Alive := by
  rw [Rx.tcpInput] at hy
  split at hy
  · cases hy
    exact fun _ => h
  split at hy
  · cases hy
    exact fun _ => h
  obtain ⟨z, hz, hy⟩ := Option.bind_eq_some_iff.1 hy
  have ha := tcpProcessRefusedData_alive h hz
  split at hy
  · cases hy
    exact ha
  rename_i hzl
  split at hy
  · cases hy
    split <;> exact ha
  obtain ⟨p, hp, hy⟩ := Option.bind_eq_some_iff.1 hy
  cases p with
  | reset =>
    cases hy
    exact fun hl => by cases hl
  | goOn r closed => exact finish_alive (ha (by simpa using hzl)) hy

theorem step_alive {a : Act} (h : x.Alive) (hs : x.step a = some y) : y.Alive := by
  unfold Rx.step at hs
  split at hs
  · rename_i hl
    cases a with
    | segment mem i ans => exact tcpInput_alive (h hl) hs
    | fasttmr ans =>
      dsimp only at hs
      split at hs
      · cases hs
      · rw [Rx.tcpFasttmr] at hs
        refine tcpProcessRefusedData_alive ?_ hs
        exact h hl
    | recved len =>
      obtain ⟨pcb, -, hs⟩ := Option.bind_eq_some_iff.1 hs
      cases hs
      exact h
    | output | shutdownRx | shutdownTx =>
      cases hs
      exact h
  · cases hs

end Alive

/-! ## What the Go code sees of the calls -/

/-- A call of the recv callback in `tcpRecvFn`. -/
def Event.obs : Event → List Obs
  | .recv d .other => [.deliver d, .refuse d]
  | .recv d .ok | .recv d .abrt => [.deliver d]
  | .closed => [.fin]

/-- It is seen of a call of lwIP's. -/
def isCall : Obs → Bool
  | .deliver _ | .refuse _ | .fin => true
  | .localClosed | .read _ | .eof | .torn => false

/-- All that is seen of lwIP's calls. -/
def callsOf (es : List Event) : List Obs := es.flatMap Event.obs

theorem callsOf_snoc (es : List Event) (e : Event) : callsOf (es ++ [e]) = callsOf es ++ e.obs := by
  simp [callsOf]

/-- Only lwIP's calls matter for what it re-delivers. -/
theorem redelivers_filter (kept : Option Bytes) (os : List Obs) :
    redelivers kept (os.filter isCall) ↔ redelivers kept os := by
  induction os generalizing kept with
  | nil => exact Iff.rfl
  | cons o os ih =>
    cases o with
    | deliver d => exact and_congr_right' (ih none)
    | fin => exact and_congr_right' (ih kept)
    | refuse d => exact ih (some d)
    | localClosed | read d | eof | torn => exact ih kept

/-- Only lwIP's calls make up the segments. -/
theorem segs_filter (x x' : Stream) (os : List Obs) (hs : x'.segs = x.segs) (hp : x'.pending = x.pending) :
    ((os.filter isCall).foldl Stream.add x').segs = (os.foldl Stream.add x).segs := by
  induction os generalizing x x' with
  | nil => exact hs
  | cons o os ih =>
    cases o with
    | deliver d => exact ih _ _ (by simp only [Stream.add, hs, hp]) rfl
    | refuse d => exact ih _ _ hs rfl
    | fin | localClosed | read d | eof | torn => exact ih _ _ hs hp

/-- Segments are only added. -/
theorem segs_prefix (x : Stream) (os : List Obs) : x.segs <+: (os.foldl Stream.add x).segs := by
  induction os generalizing x with
  | nil => exact List.prefix_refl _
  | cons o os ih =>
    refine List.IsPrefix.trans ?_ (ih (x.add o))
    cases o with
    | deliver d =>
      show x.segs <+: if x.pending.isSome then x.segs else x.segs ++ [d]
      split
      · exact List.prefix_refl _
      · exact List.prefix_append _ _
    | _ => exact List.prefix_refl _

/-- The sum of calls that keep the order of the stream. -/
structure Summed (S : Bytes) (es : List Event) (x : Stream) : Prop where
  pending : x.pending = kept es
  segs : x.segs.flatten = accepted es ++ (kept es).getD []
  pre : x.segs.flatten <+: S

/-- The next call has the next data, or what was refused. -/
theorem Summed.deliver {S : Bytes} {es : List Event} {x : Stream} {d : Bytes} (h : Summed S es x)
    (hk : ∀ d' ∈ kept es, d = d') : (x.add (.deliver d)).segs.flatten = accepted es ++ d := by
  have hp := h.pending
  have hs := h.segs
  show (if x.pending.isSome then x.segs else x.segs ++ [d]).flatten = _
  cases hkept : kept es with
  | none =>
    rw [hkept] at hp hs
    rw [hp, if_neg (by simp), List.flatten_append, hs]
    simp
  | some d' =>
    rw [hkept] at hp hs
    rw [hp, if_pos (Option.isSome_some ..), hs, hk d' hkept]
    rfl

/-- Calls in the order of a stream re-deliver what was refused, and their segments are a prefix of it. -/
theorem redelivers_of_orderly {S : Bytes} {es : List Event} (h : Orderly S es) (hno : NoAbort es) :
    redelivers none (callsOf es) ∧ Summed S es ((callsOf es).foldl Stream.add {}) := by
  induction h with
  | nil => exact ⟨trivial, rfl, rfl, List.nil_prefix⟩
  | @recv es d ret hes hclosed hk hpre ih =>
    obtain ⟨hr, hsum⟩ := ih fun d hd => hno d (List.mem_append_left _ hd)
    have hsegs := hsum.deliver hk
    have hgoes : kept es = none ∨ kept es = some d := by
      cases hkept : kept es with
      | none => exact .inl rfl
      | some d' => exact .inr (by rw [hk d' hkept])
    have hacc := accepted_snoc_recv es d ret
    have hkept := kept_snoc_recv es d ret
    rw [callsOf_snoc, List.foldl_append]
    cases ret with
    | ok =>
      refine ⟨(redelivers_append (x := {})).2 ⟨hr, ?_⟩, ?_⟩
      · rw [hsum.pending]
        exact ⟨hgoes, trivial⟩
      · refine ⟨hkept.symm, hsegs.trans ?_, hsegs ▸ hpre⟩
        rw [hacc, hkept]
        simp
    | abrt => exact absurd (List.mem_append_right _ (List.mem_singleton_self _)) (hno d)
    | other =>
      refine ⟨(redelivers_append (x := {})).2 ⟨hr, ?_⟩, ?_⟩
      · rw [hsum.pending]
        exact ⟨hgoes, trivial⟩
      · refine ⟨hkept.symm, hsegs.trans ?_, hsegs ▸ hpre⟩
        rw [hacc, hkept]
        simp
  | @closed es hes hclosed hk hall ih =>
    obtain ⟨hr, hsum⟩ := ih fun d hd => hno d (List.mem_append_left _ hd)
    rw [callsOf_snoc, List.foldl_append]
    refine ⟨(redelivers_append (x := {})).2 ⟨hr, ?_⟩, ?_, ?_, hsum.pre⟩
    · rw [hsum.pending]
      exact ⟨hk, trivial⟩
    · rw [kept_snoc_closed]
      exact hsum.pending.trans hk
    · rw [kept_snoc_closed, accepted_snoc_closed]
      refine hsum.segs.trans ?_
      rw [hk]

/-! ## From the peer to `Read` -/

section

variable {isn : BitVec 32} {S : Bytes} {mss : Nat} {x : Rx} {M : Core.Lwip} {s : Core.Sys} {c : Nat}
  {trx : List (Rx × Act)} {tr : List (Core.Sys × Core.Act)}

/-- The calls of a connection's recv callback are as `tcpRecvFn` needs them. -/
theorem calls_of_run (hx : Run Rx.step (Rx.start isn mss) trx x) (hp : Meets (FromPeer isn S) trx)
    (hopen : x.pcb.rxClosed = false) (hl : x.live = true) :
    redelivers none (callsOf x.events) ∧ ((callsOf x.events).foldl Stream.add {}).segs.flatten <+: S := by
  have halive : x.Alive := hx.inv (C := fun _ _ => True) (P := Rx.Alive) (fun _ _ => trivial)
    (fun _ d hd => by cases hd) fun _ _ _ h _ hs => step_alive h hs
  obtain ⟨hr, hsum⟩ := redelivers_of_orderly ((run_inv hx hp).orderly hopen) (halive hl)
  exact ⟨hr, hsum.pre⟩

/-- In every run of the Go code in which lwIP's calls for connection `c` are those of a run of its
receiving side with a peer that sends `S`, refused segments are re-delivered, and what the `Read`s of
the connection return is a prefix of `S`. -/
theorem read_from_peer (hr : Run (Core.step M) {} tr s) (hx : Run Rx.step (Rx.start isn mss) trx x)
    (hp : Meets (FromPeer isn S) trx) (hopen : x.pcb.rxClosed = false) (hl : x.live = true)
    (hcalls : (obsOf c tr).filter isCall <+: callsOf x.events) :
    Redelivers c tr ∧ (stream c tr).returned <+: S := by
  obtain ⟨hred, hpre⟩ := calls_of_run hx hp hopen hl
  obtain ⟨more, hmore⟩ := hcalls
  rw [← hmore] at hred hpre
  have hd : Redelivers c tr :=
    (redelivers_filter none (obsOf c tr)).1 ((redelivers_append (x := {})).1 hred).1
  have hsegs : (stream c tr).segs <+:
      (((obsOf c tr).filter isCall ++ more).foldl Stream.add {}).segs := by
    rw [List.foldl_append, stream, ← segs_filter {} {} _ rfl rfl]
    exact segs_prefix _ more
  obtain ⟨rest, hrest⟩ := hsegs
  refine ⟨hd, (Core.returned_segs hr hd).trans (List.IsPrefix.trans ?_ hpre)⟩
  rw [← hrest, List.flatten_append]
  exact List.prefix_append _ _

end

/-- The segment comes in while the handler connects and is refused, the timer offers it again, and the
FIN follows. -/
def earlySegs : List Act :=
  [.segment {} { seqno := 0, data := [1, 2, 3] } { recv := { ret := .other } }, .fasttmr {},
    .segment {} { seqno := 3, data := [], fin := true } {}]

theorem read_from_peer_early :
    ∃ tr s trx x, Run (Core.step Core.tcpLwip) {} tr s ∧ Run Rx.step (Rx.start 0 1460) trx x ∧
      (obsOf 0 tr).filter isCall = callsOf x.events ∧ (stream 0 tr).returned = [1, 2, 3] ∧
      (stream 0 tr).returned <+: [1, 2, 3] := by
  obtain ⟨s, hr, hs⟩ := exists_run (Core.step Core.tcpLwip) {} Core.earlyActs (fun s => s.n == 1)
    (by decide)
  obtain ⟨x, hx, hxs⟩ := exists_run Rx.step (Rx.start 0 1460) earlySegs
    (fun x => x.pcb.rxClosed == false && x.live &&
      x.events == [.recv [1, 2, 3] .other, .recv [1, 2, 3] .ok, .closed]) (by decide +kernel)
  simp only [Bool.and_eq_true, beq_iff_eq] at hxs
  obtain ⟨⟨hopen, hl⟩, he⟩ := hxs
  have hp : Meets (FromPeer 0 [1, 2, 3]) (execTrace Rx.step (Rx.start 0 1460) earlySegs) :=
    meets_of_check (by decide +kernel)
  have hcalls : (obsOf 0 (execTrace (Core.step Core.tcpLwip) {} Core.earlyActs)).filter isCall =
      callsOf x.events := by
    rw [he]
    decide
  have hread : (stream 0 (execTrace (Core.step Core.tcpLwip) {} Core.earlyActs)).returned = [1, 2, 3] := by
    decide
  exact ⟨_, s, _, x, hr, hx, hcalls, hread,
    (read_from_peer hr hx hp hopen hl (hcalls ▸ List.prefix_refl _)).2⟩

end Lwip
