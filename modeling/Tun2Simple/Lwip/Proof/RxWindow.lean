import Tun2Simple.Lwip.Proof.RxStream

/-!
# The window: no assertion fails, and received data counts

A peer that keeps to its stream and to the announced window never makes an `LWIP_ASSERT` of the
receiving side fail, in whatever order its segments come and whatever the callbacks answer
(`step_isSome_of_announced`); the right edge that is announced to it never moves to the left, and
there is always room for what it announces (`announced_mono`). Of a segment that has the next byte,
what fits in the window is passed to the application or kept for it, unless the application refuses
once more what it refused before (`segment_advances`).
-/

namespace Lwip

open Core TcpPcb Trans

variable {isn : BitVec 32} {S : Bytes}

/-! ## What is received goes to the application -/

/-- The callback has the data, or it is kept. -/
theorem deliver_received {x y : Rx} {d : Bytes} {a : Answer} (hfree : d = [] ∨ x.pcb.refused = none)
    (hy : x.deliver d a = some y) (hl : y.live = true) : y.received = x.received ++ d := by
  rw [Rx.deliver] at hy
  split at hy
  · rename_i hd
    cases hy
    rw [hd, List.append_nil]
  · rename_i hd
    have hnone : x.pcb.refused = none := hfree.resolve_left hd
    rw [if_neg (by simp [hnone])] at hy
    split at hy
    · cases hy
      cases hl
    · obtain ⟨z, hz, hy⟩ := Option.bind_eq_some_iff.1 hy
      cases hy
      obtain ⟨w, he, hzl⟩ := eventRecv_spec hz
      have hzn : z.pcb.refused = none := by
        rcases w.dropped with hd | hd
        · exact hd.trans hnone
        · exact hd
      rw [Rx.received_eq, Rx.received_eq, held_none hnone, List.append_nil]
      split
      · rename_i hret
        show accepted z.events ++ d = _
        rw [he, accepted_snoc_recv, hret]
        simp
      · rename_i hret
        rw [if_neg hret] at hl
        have hok : a.ret = .ok := by
          cases ha : a.ret with
          | ok => rfl
          | abrt =>
            rw [hzl, ha] at hl
            cases hl
          | other => exact absurd ha hret
        rw [he, accepted_snoc_recv, if_pos hok, held_none hzn, List.append_nil]

/-- The callback is called for the FIN, or the FIN waits for the data that is kept. -/
theorem deliverFin_received {x y : Rx} {f : Bool} {a : Answer} (hy : x.deliverFin f a = some y)
    (hl : y.live = true) :
    y.received = x.received ∧ (f = true → .closed ∈ y.events ∨ ∃ d, y.pcb.refused = some (d, true)) := by
  rw [Rx.deliverFin] at hy
  split at hy
  · split at hy
    · rename_i href
      cases hy
      refine ⟨?_, fun _ => .inr ⟨_, rfl⟩⟩
      rw [Rx.received_eq, Rx.received_eq, held_some href]
      rfl
    · rename_i href
      obtain ⟨w, he, -⟩ := eventClosed_spec hy
      have hyn : y.pcb.refused = none := by
        rcases w.dropped with hd | hd
        · exact hd.trans href
        · exact hd
      refine ⟨?_, fun _ => .inl (by simp [he])⟩
      rw [Rx.received_eq, Rx.received_eq, he, accepted_snoc_closed, held_none href, held_none hyn]
  · rename_i hb
    cases hy
    refine ⟨rfl, fun hf => ?_⟩
    simp [hf, hl] at hb

theorem deliverFin_live {x y : Rx} {f : Bool} {a : Answer} (hy : x.deliverFin f a = some y)
    (hl : y.live = true) : x.live = true := by
  rw [Rx.deliverFin] at hy
  split at hy
  · rename_i hb
    exact (Bool.and_eq_true_iff.1 hb).2
  · cases hy
    exact hl

theorem deliver_frame {x y : Rx} {d : Bytes} {a : Answer} (hy : x.deliver d a = some y) :
    (y.pcb.rxClosed = false → x.pcb.rxClosed = false) ∧ y.pcb.state = x.pcb.state := by
  rw [Rx.deliver] at hy
  split at hy
  · cases hy
    exact ⟨id, rfl⟩
  · split at hy
    · cases hy
    · split at hy
      · cases hy
        exact ⟨id, rfl⟩
      · obtain ⟨z, hz, hy⟩ := Option.bind_eq_some_iff.1 hy
        cases hy
        obtain ⟨w, -, -⟩ := eventRecv_spec hz
        split <;> exact ⟨w.rxClosed, w.state⟩

theorem deliverFin_frame {x y : Rx} {f : Bool} {a : Answer} (hy : x.deliverFin f a = some y) :
    (y.pcb.rxClosed = false → x.pcb.rxClosed = false) ∧ y.pcb.state = x.pcb.state := by
  rw [Rx.deliverFin] at hy
  split at hy
  · split at hy
    · cases hy
      exact ⟨id, rfl⟩
    · obtain ⟨w, -, -⟩ := eventClosed_spec hy
      exact ⟨w.rxClosed, w.state⟩
  · cases hy
    exact ⟨id, rfl⟩

theorem finish_frame {x y : Rx} {r : Received} {closed acked : Bool} {ans : Answers}
    (hy : x.finish r closed acked ans = some y) :
    (y.pcb.rxClosed = false → r.pcb.rxClosed = false) ∧ y.pcb.state = r.pcb.state := by
  rw [Rx.finish] at hy
  obtain ⟨x1, hx1, hy⟩ := Option.bind_eq_some_iff.1 hy
  obtain ⟨w, -⟩ := eventSent_spec hx1
  split at hy
  · obtain ⟨x2, hx2, hy⟩ := Option.bind_eq_some_iff.1 hy
    obtain ⟨hopen2, hst2⟩ := deliver_frame hx2
    obtain ⟨hopen3, hst3⟩ := deliverFin_frame hy
    exact ⟨fun hx => w.rxClosed (hopen2 (hopen3 hx)), hst3.trans (hst2.trans w.state)⟩
  · cases hy
    exact ⟨w.rxClosed, w.state⟩

theorem finish_received {x y : Rx} {r : Received} {closed acked : Bool} {ans : Answers}
    (hfree : r.recvData = [] ∨ r.pcb.refused = none) (hy : x.finish r closed acked ans = some y)
    (hl : y.live = true) (hx : r.pcb.refused = none ∨ y.pcb.rxClosed = false) :
    y.received = accepted x.events ++ held r.pcb ++ r.recvData ∧
      (r.gotFin = true → .closed ∈ y.events ∨ ∃ d, y.pcb.refused = some (d, true)) := by
  rw [Rx.finish] at hy
  obtain ⟨x1, hx1, hy⟩ := Option.bind_eq_some_iff.1 hy
  obtain ⟨w, he⟩ := eventSent_spec hx1
  dsimp only at w he
  split at hy
  · obtain ⟨x2, hx2, hy⟩ := Option.bind_eq_some_iff.1 hy
    have hl2 : x2.live = true := deliverFin_live hy hl
    obtain ⟨hrec, hfin⟩ := deliverFin_received hy hl
    have href : x1.pcb.refused = r.pcb.refused := by
      rcases hx with hnone | hx
      · rcases w.dropped with hd | hd
        · exact hd
        · rw [hd, hnone]
      · exact w.refused ((deliver_frame hx2).1 ((deliverFin_frame hy).1 hx))
    refine ⟨?_, hfin⟩
    rw [hrec, deliver_received (hfree.imp_right href.trans) hx2 hl2, Rx.received_eq, he, held, href]
    rfl
  · cases hy
    cases hl

/-- `tcp_process` of a segment with the next byte: as much is taken as fits in the window. -/
theorem tcpProcess_advances {es : List Event} {pcb : TcpPcb} {mem : Mem} {i : Incoming} {p : Processed}
    {off : Nat} (hup : UpTo isn S (accepted es).length pcb) (hpre : accepted es <+: S)
    (hacc : pcb.state.accepts = true) (hwnd : 0 < pcb.rcvWnd) (hrst : i.rst = false) (hsyn : i.syn = false)
    (hshort : i.inseg.tcplen ≤ 65535) (hg : Genuine isn S off i.inseg) (hlo : off ≤ (accepted es).length)
    (hhi : (accepted es).length < off + i.inseg.tcplen) (hr : pcb.tcpProcess mem i = some p) :
    ∃ r closed, p = .goOn r closed ∧ (pcb.refused = none → r.pcb.refused = none) ∧
      min (off + i.data.length) ((accepted es).length + pcb.rcvWnd) ≤ (accepted es ++ r.recvData).length ∧
      (i.fin = true → off + i.inseg.tcplen ≤ (accepted es).length + pcb.rcvWnd → r.gotFin = true) := by
  rw [tcpProcess, if_neg (by simp [hrst]), if_neg (by simp [hsyn])] at hr
  obtain ⟨r1, hr1, hr⟩ := Option.bind_eq_some_iff.1 hr
  cases hr
  obtain ⟨m, hT, -, hadv⟩ := tcpReceive_spec hup hg (by omega) (by omega) hshort hacc hr1
  obtain ⟨hmin, hfin⟩ := hadv hlo hhi hwnd
  refine ⟨_, _, rfl, fun hnone => ?_, ?_, hfin⟩
  · obtain ⟨-, href, -⟩ := afterReceive_refused r1.pcb i.ackAll r1.gotFin
    rcases href with ⟨href, -⟩ | ⟨href, -⟩
    · exact href.trans (hT.refused.trans hnone)
    · exact href
  · show _ ≤ (accepted es ++ r1.recvData).length
    rw [hT.append hpre, List.length_take, Nat.min_eq_left hT.bound]
    exact hmin

/-! ## Refused data that is offered again -/

/-- The recv callback refuses once more what it refused before. -/
def Rx.RefusesAgain (x : Rx) (ans : Answers) : Prop := x.pcb.refused ≠ none ∧ ans.refused.ret = .other

/-- It is kept again. -/
theorem tcpProcessRefusedData_again {x z : Rx} {ans : Answers} (h : x.RefusesAgain ans)
    (hz : x.tcpProcessRefusedData ans.refused ans.refusedFin = some z) :
    z.received = x.received ∧ z.pcb.refused = x.pcb.refused ∧ z.live = true ∧
      z.pcb.rcvNxt = x.pcb.rcvNxt ∧ z.pcb.ooseq = x.pcb.ooseq := by
  obtain ⟨hsome, hret⟩ := h
  rw [Rx.tcpProcessRefusedData] at hz
  split at hz
  · rename_i hnone
    exact absurd hnone hsome
  · rename_i d f href
    obtain ⟨y, hy, hz⟩ := Option.bind_eq_some_iff.1 hz
    obtain ⟨w, he, hl⟩ := eventRecv_spec hy
    rw [hret] at he hl hz
    cases hz
    refine ⟨?_, href.symm, hl, w.nxt, w.ooseq⟩
    rw [Rx.received_eq, Rx.received_eq, held_some href]
    show accepted y.events ++ d = _
    rw [he, accepted_snoc_recv]
    simp

/-- It is accepted, if there was any. -/
theorem tcpProcessRefusedData_accepted {x z : Rx} {ans : Answers} (h : ¬ x.RefusesAgain ans)
    (hflag : ∀ p ∈ x.pcb.refused, p.2 = false) (hl : x.live = true)
    (hz : x.tcpProcessRefusedData ans.refused ans.refusedFin = some z) :
    z.live = false ∨ (z.live = true ∧ accepted z.events = x.received ∧ z.pcb.refused = none ∧
      WindowOnly { x.pcb with refused := none } z.pcb) := by
  rw [Rx.tcpProcessRefusedData] at hz
  split at hz
  · rename_i href
    cases hz
    refine .inr ⟨hl, by rw [Rx.received_eq, held_none href, List.append_nil], href, ?_⟩
    rw [← href]
    exact .refl _
  · rename_i d f href
    obtain ⟨y, hy, hz⟩ := Option.bind_eq_some_iff.1 hz
    obtain ⟨w, he, hyl⟩ := eventRecv_spec hy
    cases hret : ans.refused.ret with
    | ok =>
      have hf : f = false := hflag _ href
      rw [hret, hf] at hz
      cases hz
      rw [hret] at he hyl
      refine .inr ⟨hyl, ?_, by rcases w.dropped with hd | hd <;> exact hd, w⟩
      rw [he, accepted_snoc_recv, if_pos rfl, Rx.received_eq, held_some href]
    | abrt =>
      rw [hret] at hz hyl
      cases hz
      exact .inl hyl
    | other => exact absurd ⟨by rw [href]; simp, hret⟩ h

/-- The segment after the refused data: `z` is the connection when the application has accepted it. -/
theorem goOn_advances {z y : Rx} {mem : Mem} {i : Incoming} {ans : Answers} {off : Nat} {p : Processed}
    (hup : UpTo isn S (accepted z.events).length z.pcb) (hpre : accepted z.events <+: S)
    (hacc : z.pcb.state.accepts = true) (href : z.pcb.refused = none) (hwnd : 0 < z.pcb.rcvWnd)
    (hrst : i.rst = false) (hsyn : i.syn = false) (hshort : i.inseg.tcplen ≤ 65535)
    (hg : Genuine isn S off i.inseg) (hlo : off ≤ (accepted z.events).length)
    (hhi : (accepted z.events).length < off + i.inseg.tcplen)
    (hy : (match p with
      | .reset => some { z with live := false }
      | .goOn r closed => z.finish r closed i.acked ans) = some y)
    (hp : z.pcb.tcpProcess mem i = some p) (hl : y.live = true) :
    min (off + i.data.length) ((accepted z.events).length + z.pcb.rcvWnd) ≤ y.received.length ∧
      (i.fin = true → off + i.inseg.tcplen ≤ (accepted z.events).length + z.pcb.rcvWnd →
        .closed ∈ y.events ∨ ∃ d, y.pcb.refused = some (d, true)) := by
  obtain ⟨r, closed, rfl, hfree, hmin, hfin⟩ := tcpProcess_advances hup hpre hacc hwnd hrst hsyn hshort hg
    hlo hhi hp
  obtain ⟨hyr, hyf⟩ := finish_received (.inr (hfree href)) hy hl (.inl (hfree href))
  rw [held_none (hfree href), List.append_nil] at hyr
  exact ⟨by rw [hyr]; exact hmin, fun hf hfit => hyf (hfin hf hfit)⟩

/-- In every run, for a segment that has the byte which comes next, while there is window and the
receiving side is open: what fits in the window of it is accepted by the application or kept for it,
and so is its FIN. Only where the application refuses once more what it refused before, the segment is
dropped. -/
theorem segment_advances {mss : Nat} {tr : List (Rx × Act)} {x y : Rx} {mem : Mem} {i : Incoming}
    {ans : Answers} {off : Nat} (h : Run Rx.step (Rx.start isn mss) tr x)
    (hp : Meets (FromPeer isn S) tr) (hx : x.pcb.rxClosed = false) (hacc : x.pcb.state.accepts = true)
    (hwnd : 0 < x.pcb.rcvWnd) (hrst : i.rst = false) (hsyn : i.syn = false)
    (hshort : i.inseg.tcplen ≤ 65535) (hg : Genuine isn S off i.inseg) (hlo : off ≤ x.received.length)
    (hhi : x.received.length < off + i.inseg.tcplen) (hs : x.step (.segment mem i ans) = some y)
    (hl : y.live = true) :
    (¬ x.RefusesAgain ans →
      min (off + i.data.length) (x.received.length + x.pcb.rcvWnd) ≤ y.received.length ∧
        y.received <+: S ∧
        (i.fin = true → off + i.inseg.tcplen ≤ x.received.length + x.pcb.rcvWnd →
          .closed ∈ y.events ∨ ∃ d, y.pcb.refused = some (d, true))) ∧
      (x.RefusesAgain ans → y.received = x.received ∧ y.pcb.rcvNxt = x.pcb.rcvNxt ∧
        y.pcb.ooseq = x.pcb.ooseq) := by
  have hi := run_inv h hp
  have hpeer : FromPeer isn S x (.segment mem i ans) := fun _ _ => ⟨off, hg, by omega, by omega⟩
  have hy := step_inv hi hpeer hs
  unfold Rx.step at hs
  split at hs
  · rename_i hlive
    have htw : ¬ x.pcb.state = .timeWait := by
      intro ht
      rw [ht] at hacc
      cases hacc
    obtain ⟨upTo, pre, hflag⟩ : UpTo isn S x.received.length x.pcb ∧ x.received <+: S ∧
        ∀ p ∈ x.pcb.refused, p.2 = false := by
      rcases hi.phase hx hlive with ⟨-, upTo, pre, -, -, flag⟩ | ⟨acc, -⟩ | ⟨acc, -⟩ | ht
      · exact ⟨upTo, pre, flag⟩
      · exact absurd hacc (by simp [acc])
      · exact absurd hacc (by simp [acc])
      · exact absurd ht htw
    dsimp only at hs
    rw [Rx.tcpInput, if_neg (by omega), if_neg htw] at hs
    obtain ⟨z, hz, hs⟩ := Option.bind_eq_some_iff.1 hs
    refine ⟨fun hno => ?_, fun hagain => ?_⟩
    · rcases tcpProcessRefusedData_accepted hno hflag hlive hz with hzl | ⟨hzl, hrec, hfree, w⟩
      · rw [if_pos hzl] at hs
        cases hs
        rw [hl] at hzl
        cases hzl
      · rw [if_neg (by simp [hzl]), if_neg (by simp [hfree])] at hs
        obtain ⟨p, hpr, hs⟩ := Option.bind_eq_some_iff.1 hs
        obtain ⟨hwider, -⟩ : x.pcb.rcvWnd ≤ z.pcb.rcvWnd ∧ z.pcb.rcvWnd ≤ tcpWnd := w.wnd upTo.wnd
        have hup : UpTo isn S (accepted z.events).length z.pcb := by
          rw [hrec]
          exact w.upTo ⟨upTo.nxt, upTo.bound, upTo.wnd, upTo.queue⟩
        obtain ⟨hmin, hfin⟩ := goOn_advances hup (hrec ▸ pre) (by rw [w.state]; exact hacc) hfree
          (by omega) hrst hsyn hshort hg (hrec ▸ hlo) (hrec ▸ hhi) hs hpr hl
        rw [hrec] at hmin hfin
        exact ⟨by omega, hy.received hl, fun hf hfit => hfin hf (by omega)⟩
    · obtain ⟨hrec, href, hzl, hnxt, hq⟩ := tcpProcessRefusedData_again hagain hz
      have hsome : z.pcb.refused.isSome = true := by
        rw [href, Option.isSome_iff_ne_none]
        exact hagain.1
      rw [if_neg (by simp [hzl]), if_pos ⟨hsome, by omega⟩] at hs
      cases hs
      split
      · have ha := tcpSendEmptyAck_ackOnly z.pcb mem.ack
        refine ⟨Eq.trans ?_ hrec, ha.nxt.trans hnxt, ha.ooseq.trans hq⟩
        rw [Rx.received_eq, Rx.received_eq, held, held, ha.refused]
      · exact ⟨hrec, hnxt, hq⟩
  · cases hs

/-- The second segment was queued and the first one refused with it; the application accepts both
before the third segment, which has the FIN. -/
theorem segment_advances_reordered : ∃ tr x y, Run Rx.step (Rx.start 4294967294 1460) tr x ∧
    x.pcb.refused = some ([1, 2, 3, 4], false) ∧
    x.step (.segment {} { seqno := 1, data := [4, 5], fin := true } {}) = some y ∧
    5 ≤ y.received.length ∧ y.received <+: [1, 2, 3, 4, 5] ∧
    (.closed ∈ y.events ∨ ∃ d, y.pcb.refused = some (d, true)) := by
  obtain ⟨x, hrun, hx⟩ := exists_run Rx.step (Rx.start 4294967294 1460) (reordered.take 2)
    (fun x => x.received == [1, 2, 3, 4] && x.pcb.rxClosed == false && x.pcb.state.accepts &&
      x.pcb.refused == some ([1, 2, 3, 4], false) && x.pcb.rcvWnd == 32764 &&
      (x.step (.segment {} { seqno := 1, data := [4, 5], fin := true } {})).any fun y => y.live)
    (by decide +kernel)
  simp only [Bool.and_eq_true, beq_iff_eq] at hx
  obtain ⟨⟨⟨⟨⟨hrec, hopen⟩, hacc⟩, href⟩, hwnd⟩, hstep⟩ := hx
  obtain ⟨y, hy, hl⟩ := (Option.any_eq_true _ _).1 hstep
  have hg : Genuine 4294967294 [1, 2, 3, 4, 5] 3
    (Incoming.inseg { seqno := 1, data := [4, 5], fin := true }) := by decide
  have hmeets : Meets (FromPeer 4294967294 [1, 2, 3, 4, 5])
    (execTrace Rx.step (Rx.start 4294967294 1460) (reordered.take 2)) :=
    meets_of_check (by decide +kernel)
  obtain ⟨hmin, hpre, hfin⟩ := (segment_advances hrun hmeets hopen hacc (by omega) rfl rfl (by decide) hg
    (by rw [hrec]; decide) (by rw [hrec]; decide) hy hl).1 fun h => absurd h.2 (by decide)
  refine ⟨_, x, y, hrun, href, hy, ?_, hpre, hfin rfl ?_⟩
  · rw [hrec, hwnd] at hmin
    exact hmin
  · rw [hrec, hwnd]
    decide

/-! ## The edges of the window -/

/-- `rcv_nxt` is at `n` and the right edge that was announced last at `e`. Of the window there is now,
none was taken back and no more is announced than there is room for. -/
structure Edges (isn : BitVec 32) (n e : Nat) (pcb : TcpPcb) : Prop where
  nxt : pcb.rcvNxt = pos isn n
  edge : pcb.rcvAnnRightEdge = pos isn e
  le : n ≤ e
  ann : e ≤ n + pcb.rcvAnnWnd
  room : pcb.rcvAnnWnd ≤ pcb.rcvWnd
  wnd : pcb.rcvWnd ≤ tcpWnd

/-- The right edge moves to the right, by no more than a window. -/
def Advance (e e' : Nat) : Prop := e ≤ e' ∧ e' ≤ e + tcpWnd

theorem Advance.refl (e : Nat) : Advance e e := ⟨Nat.le_refl _, Nat.le_add_right _ _⟩

section Edges

variable {n e : Nat} {pcb : TcpPcb}

/-- Where the window has not shrunk, `tcp_update_rcv_ann_wnd` succeeds. -/
theorem tcpUpdateRcvAnnWnd_edges (nxt : pcb.rcvNxt = pos isn n) (edge : pcb.rcvAnnRightEdge = pos isn e)
    (le : n ≤ e) (hroom : e ≤ n + pcb.rcvWnd) (wnd : pcb.rcvWnd ≤ tcpWnd) :
    ∃ w k, pcb.tcpUpdateRcvAnnWnd = some ({ pcb with rcvAnnWnd := w }, k) ∧
      Edges isn n e { pcb with rcvAnnWnd := w } := by
  have hwnd : tcpWnd = 32768 := rfl
  rw [tcpUpdateRcvAnnWnd]
  split
  · exact ⟨_, _, rfl, nxt, edge, le, hroom, Nat.le_refl _, wnd⟩
  · have hgt : Serial.gt pcb.rcvNxt pcb.rcvAnnRightEdge = false := by
      rw [nxt, edge, gt_pos (by omega) (by omega)]
      exact decide_eq_false (by omega)
    have hsub : (pcb.rcvAnnRightEdge - pcb.rcvNxt).toNat = e - n := by
      rw [nxt, edge, toNat_pos_sub le (by omega)]
    rw [if_neg (by simp [hgt]), hsub]
    dsimp only
    rw [if_pos (by omega)]
    exact ⟨_, _, rfl, nxt, edge, le, by show e ≤ n + (e - n); omega, by show e - n ≤ pcb.rcvWnd; omega, wnd⟩

theorem Edges.ack {pcb' : TcpPcb} (h : Edges isn n e pcb) (ha : AckOnly pcb pcb')
    (hann : pcb'.rcvAnnWnd = pcb.rcvAnnWnd)
    (hedge : pcb'.rcvAnnRightEdge = pcb.rcvAnnRightEdge ∨
      pcb'.rcvAnnRightEdge = pcb.rcvNxt + BitVec.ofNat 32 pcb.rcvAnnWnd) :
    ∃ e', Advance e e' ∧ Edges isn n e' pcb' := by
  rcases hedge with hedge | hedge
  · exact ⟨e, .refl e, ha.nxt.trans h.nxt, hedge.trans h.edge, h.le, hann ▸ h.ann,
      by rw [hann, ha.wnd]; exact h.room, by rw [ha.wnd]; exact h.wnd⟩
  · have hle := h.le
    have hroom := h.room
    have hwnd := h.wnd
    exact ⟨n + pcb.rcvAnnWnd, ⟨h.ann, by omega⟩, ha.nxt.trans h.nxt, by rw [hedge, h.nxt, pos_add],
      Nat.le_add_right _ _,
      by rw [hann], by rw [hann, ha.wnd]; exact h.room, by rw [ha.wnd]; exact h.wnd⟩

theorem tcpAckNow_edges (h : Edges isn n e pcb) : Edges isn n e pcb.tcpAckNow :=
  ⟨h.nxt, h.edge, h.le, h.ann, h.room, h.wnd⟩

theorem tcpAck_edges (h : Edges isn n e pcb) : Edges isn n e pcb.tcpAck := by
  rw [tcpAck]
  split <;> exact ⟨h.nxt, h.edge, h.le, h.ann, h.room, h.wnd⟩

theorem tcpSendEmptyAck_edges (h : Edges isn n e pcb) (mem : Bool) :
    ∃ e', Advance e e' ∧ Edges isn n e' (pcb.tcpSendEmptyAck mem) := by
  refine h.ack (tcpSendEmptyAck_ackOnly pcb mem) ?_ ?_
  · cases mem <;> rfl
  · cases mem
    · exact .inl rfl
    · exact .inr rfl

theorem tcpRecved_edges (h : Edges isn n e pcb) (len : Nat) :
    ∃ pcb', pcb.tcpRecved len = some pcb' ∧ Edges isn n e pcb' := by
  have hwnd := h.wnd
  have hann := h.ann
  have hroom := h.room
  rw [tcpRecved]
  -- the window grows, up to `TCP_WND`
  have hle : ∀ a b : Nat, b ≤ tcpWnd → b ≤ (if tcpWnd < a ∨ a < b then tcpWnd else a) ∧
      (if tcpWnd < a ∨ a < b then tcpWnd else a) ≤ tcpWnd := by
    intro a b hb
    split <;> omega
  obtain ⟨hge, hmax⟩ := hle (u16 (pcb.rcvWnd + u16 len)) pcb.rcvWnd hwnd
  dsimp only
  generalize (if tcpWnd < u16 (pcb.rcvWnd + u16 len) ∨ u16 (pcb.rcvWnd + u16 len) < pcb.rcvWnd then tcpWnd
    else u16 (pcb.rcvWnd + u16 len)) = wnd at hge hmax
  obtain ⟨w, k, hu, he⟩ := @tcpUpdateRcvAnnWnd_edges isn n e { pcb with rcvWnd := wnd } h.nxt h.edge h.le
    (by show e ≤ n + wnd; omega) hmax
  rw [hu]
  refine ⟨_, rfl, ?_⟩
  dsimp only
  split
  · exact tcpAckNow_edges he
  · exact he

theorem foldlM_recved_edges (h : Edges isn n e pcb) (ns : List Nat) :
    ∃ pcb', ns.foldlM tcpRecved pcb = some pcb' ∧ Edges isn n e pcb' := by
  induction ns generalizing pcb with
  | nil => exact ⟨pcb, rfl, h⟩
  | cons k ns ih =>
    obtain ⟨p, hp, hpe⟩ := tcpRecved_edges h k
    rw [List.foldlM_cons, hp]
    exact ih hpe

/-! ## The calls of the callbacks -/

/-- The window is sound, and before the FIN was received, the queue has nothing outside of it. -/
structure Sound (isn : BitVec 32) (S : Bytes) (n e : Nat) (pcb : TcpPcb) : Prop where
  edges : Edges isn n e pcb
  queue : pcb.state.accepts = true → n ≤ S.length ∧ Queue isn S n e pcb.ooseq

theorem Sound.upTo (h : Sound isn S n e pcb) (hacc : pcb.state.accepts = true) : UpTo isn S n pcb := by
  have hwnd : tcpWnd = 32768 := rfl
  have hann := h.edges.ann
  have hroom := h.edges.room
  have hmax := h.edges.wnd
  exact ⟨h.edges.nxt, (h.queue hacc).1, hmax, (h.queue hacc).2.mono (Nat.le_refl _) (by omega)⟩

/-- An ACK is sent or asked for, or nothing happens. -/
theorem Sound.ack {pcb' : TcpPcb} {e' : Nat} (h : Sound isn S n e pcb) (ha : AckOnly pcb pcb')
    (hee : e ≤ e') (he : Edges isn n e' pcb') : Sound isn S n e' pcb' := by
  refine ⟨he, fun hacc => ?_⟩
  rw [ha.state] at hacc
  rw [ha.ooseq]
  exact ⟨(h.queue hacc).1, (h.queue hacc).2.mono (Nat.le_refl _) hee⟩

theorem Sound.refused (h : Sound isn S n e pcb) (r : Option (Bytes × Bool)) :
    Sound isn S n e { pcb with refused := r } :=
  ⟨⟨h.edges.nxt, h.edges.edge, h.edges.le, h.edges.ann, h.edges.room, h.edges.wnd⟩, h.queue⟩

section Events

variable {x : Rx}

/-- A callback's answer makes no assertion fail. -/
theorem answer_sound (h : Sound isn S n e x.pcb) (a : Answer) :
    ∃ y, x.answer a = some y ∧ Sound isn S n e y.pcb := by
  obtain ⟨pcb, hp, he⟩ := foldlM_recved_edges h.edges a.recved
  have w := foldlM_recved_windowOnly hp
  have hq : pcb.state.accepts = true → n ≤ S.length ∧ Queue isn S n e pcb.ooseq := by
    rw [w.state, w.ooseq]
    exact h.queue
  rw [Rx.answer, hp]
  refine ⟨_, rfl, ?_⟩
  dsimp only
  split
  · exact ⟨⟨he.nxt, he.edge, he.le, he.ann, he.room, he.wnd⟩, hq⟩
  · exact ⟨he, hq⟩

theorem eventRecv_sound (h : Sound isn S n e x.pcb) (d : Bytes) (a : Answer) :
    ∃ y, x.eventRecv d a = some y ∧ Sound isn S n e y.pcb :=
  answer_sound (x := { x with events := x.events ++ [.recv d a.ret] }) h a

theorem eventClosed_sound (h : Sound isn S n e x.pcb) (a : Answer) :
    ∃ y, x.eventClosed a = some y ∧ Sound isn S n e y.pcb := by
  refine answer_sound ?_ a
  dsimp only
  split
  · exact h
  · obtain ⟨⟨nxt, edge, le, ann, room, wnd⟩, hq⟩ := h
    exact ⟨⟨nxt, edge, le, ann, by show x.pcb.rcvAnnWnd ≤ x.pcb.rcvWnd + 1; omega,
      by show x.pcb.rcvWnd + 1 ≤ tcpWnd; omega⟩, hq⟩

theorem eventSent_sound (h : Sound isn S n e x.pcb) (acked : Bool) (a : Answer) :
    ∃ y, x.eventSent acked a = some y ∧ Sound isn S n e y.pcb := by
  rw [Rx.eventSent]
  split
  · exact answer_sound h a
  · exact ⟨x, rfl, h⟩

theorem tcpProcessRefusedData_sound (h : Sound isn S n e x.pcb) (recv fin : Answer) :
    ∃ y, x.tcpProcessRefusedData recv fin = some y ∧ Sound isn S n e y.pcb := by
  rw [Rx.tcpProcessRefusedData]
  split
  · exact ⟨x, rfl, h⟩
  · rename_i d f href
    obtain ⟨z, hz, he⟩ := eventRecv_sound (x := { x with pcb := { x.pcb with refused := none } })
      (h.refused none) d recv
    rw [hz, Option.bind_eq_bind, Option.bind_some]
    split
    · split
      · exact eventClosed_sound he fin
      · exact ⟨z, rfl, he⟩
    · exact ⟨z, rfl, he⟩
    · exact ⟨_, rfl, he.refused _⟩

theorem deliver_sound {d : Bytes} (h : Sound isn S n e x.pcb) (hfree : d = [] ∨ x.pcb.refused = none)
    (a : Answer) : ∃ y, x.deliver d a = some y ∧ Sound isn S n e y.pcb := by
  rw [Rx.deliver]
  split
  · exact ⟨x, rfl, h⟩
  · rename_i hd
    rw [if_neg (by simp [hfree.resolve_left hd])]
    split
    · exact ⟨_, rfl, h⟩
    · obtain ⟨y, hy, he⟩ := eventRecv_sound h d a
      rw [hy]
      refine ⟨_, rfl, ?_⟩
      dsimp only
      split
      · exact he.refused _
      · exact he

theorem deliverFin_sound (h : Sound isn S n e x.pcb) (f : Bool) (a : Answer) :
    ∃ y, x.deliverFin f a = some y ∧ Sound isn S n e y.pcb := by
  rw [Rx.deliverFin]
  split
  · split
    · exact ⟨_, rfl, h.refused _⟩
    · exact eventClosed_sound h a
  · exact ⟨x, rfl, h⟩

theorem finish_sound {r : Received} (h : Sound isn S n e r.pcb)
    (hfree : r.recvData = [] ∨ r.pcb.refused = none) (closed acked : Bool) (ans : Answers) :
    ∃ y, x.finish r closed acked ans = some y ∧ Sound isn S n e y.pcb := by
  obtain ⟨x1, hx1, h1⟩ := eventSent_sound (x := { x with pcb := r.pcb }) h acked ans.sent
  obtain ⟨w, -⟩ := eventSent_spec hx1
  have hfree1 : r.recvData = [] ∨ x1.pcb.refused = none := by
    refine hfree.imp_right fun hnone => ?_
    rcases w.dropped with hd | hd
    · exact hd.trans hnone
    · exact hd
  rw [Rx.finish, hx1, Option.bind_eq_bind, Option.bind_some]
  split
  · obtain ⟨x2, hx2, h2⟩ := deliver_sound h1 hfree1 ans.recv
    rw [hx2]
    exact deliverFin_sound h2 r.gotFin ans.fin
  · exact ⟨_, rfl, h1⟩

end Events

/-! ## `tcp_receive` of a segment inside the announced window -/

theorem take_edges {r : Received} {g : TcpSeg} {tcplen : Nat} (h : Edges isn n e r.pcb)
    (hs : g.seqno = pos isn n) (hle : n + tcplen ≤ e) :
    ∃ r', r.take g tcplen = some r' ∧ Edges isn (n + tcplen) e r'.pcb := by
  have hann := h.ann
  have hroom := h.room
  have hwnd := h.wnd
  rw [Received.take, if_neg (by omega)]
  obtain ⟨w, k, hu, he⟩ := @tcpUpdateRcvAnnWnd_edges isn (n + tcplen) e
    { r.pcb with rcvNxt := g.seqno + BitVec.ofNat 32 tcplen, rcvWnd := r.pcb.rcvWnd - tcplen }
    (by rw [hs, pos_add]) h.edge hle (by show e ≤ n + tcplen + (r.pcb.rcvWnd - tcplen); omega)
    (by show r.pcb.rcvWnd - tcplen ≤ tcpWnd; omega)
  dsimp only at hu ⊢
  rw [hu]
  exact ⟨_, rfl, he⟩

theorem dequeue_edges {q : List TcpSeg} {r : Received} (h : Edges isn n e r.pcb)
    (hq : Queue isn S n e q) : ∃ r', dequeue q r = some r' ∧ ∃ m, Edges isn m e r'.pcb := by
  induction q generalizing n r with
  | nil => exact ⟨_, rfl, n, h.nxt, h.edge, h.le, h.ann, h.room, h.wnd⟩
  | cons g q ih =>
    obtain ⟨o, ho, hg, hle, hfin, hrest⟩ := hq
    have hwnd : tcpWnd = 32768 := rfl
    have hann := h.ann
    have hroom := h.room
    have hmax := h.wnd
    rw [dequeue, h.nxt, hg.seqno]
    by_cases heq : o = n
    · subst heq
      obtain ⟨r1, hr1, h1⟩ := take_edges h hg.seqno hle
      rw [if_pos rfl, hr1, Option.bind_eq_bind, Option.bind_some]
      refine ih (n := o + g.tcplen) ?_ ?_
      · split
        · exact ⟨h1.nxt, h1.edge, h1.le, h1.ann, h1.room, h1.wnd⟩
        · exact h1
      · cases hf : g.fin with
        | true =>
          rw [hfin hf]
          trivial
        | false =>
          rw [hg.tcplen_eq, hf]
          exact hrest
    · have hlen := g.len_le
      rw [if_neg (fun hp => heq ((pos_inj (by omega) (by omega)).1 hp))]
      exact ⟨_, rfl, n, h.nxt, h.edge, h.le, h.ann, h.room, h.wnd⟩

theorem receiveInSeq_sound {g : TcpSeg} (h : Sound isn S n e pcb) (hacc : pcb.state.accepts = true)
    (hg : Genuine isn S n g) (hle : n + g.tcplen ≤ e) :
    ∃ r m, pcb.receiveInSeq g = some r ∧ Taken isn S pcb n m r ∧
      Edges isn (m + r.gotFin.toNat) e r.pcb ∧ (r.gotFin = false → Queue isn S m e r.pcb.ooseq) := by
  obtain ⟨he, hq⟩ := h
  obtain ⟨hb, hq⟩ := hq hacc
  have hwnd : tcpWnd = 32768 := rfl
  have hann := he.ann
  have hroom := he.room
  have hmax := he.wnd
  have hlen := g.len_le
  obtain ⟨g1, hg1, -, -, hcase⟩ := trimInseg_genuine hg he.nxt (by omega)
  obtain ⟨rfl, -⟩ : g1 = g ∧ g.tcplen ≤ pcb.rcvWnd := by
    refine hcase.resolve_right ?_
    omega
  obtain ⟨g2, q, hadj, hgen, hge, hlen2, hqueue, hfin, -⟩ := adjustOoseq_spec hg hle (by omega) hq (by omega)
  have hu : u16 g2.tcplen = g2.tcplen := u16_of_le (by omega)
  obtain ⟨r1, hr1, he1⟩ := take_edges (r := { pcb }) he hgen.seqno hge
  obtain ⟨hT1, hf1⟩ := (Taken.refl he.nxt hb rfl rfl rfl rfl).take rfl hgen rfl hr1
  have hq1 : Queue isn S (n + g2.tcplen) e q := by
    cases hf : g2.fin with
    | true =>
      rw [hfin hf]
      trivial
    | false =>
      rw [hgen.tcplen_eq, hf]
      exact hqueue
  obtain ⟨r2, hr2, k, he2⟩ := dequeue_edges he1 hq1
  obtain ⟨m, hm, hT2, hQ, -, -⟩ := dequeue_taken hT1 (fun hb => hfin (by rw [← hf1]; exact hb)) hqueue
    (by omega) hr2
  -- both say where `rcv_nxt` is
  have hk : k = m + r2.gotFin.toNat := by
    have h1 := he2.le
    have h2 := he2.ann
    have h3 := he2.room
    have h4 := he2.wnd
    have h5 := hT2.le
    have h6 := hT2.wnd
    refine (pos_inj ?_ ?_).1 (he2.nxt.symm.trans hT2.nxt) <;> omega
  subst hk
  refine ⟨{ r2 with pcb := r2.pcb.tcpAck }, m, ?_, hT2.ack (tcpAck_ackOnly r2.pcb), tcpAck_edges he2,
    fun hb => ?_⟩
  · rw [receiveInSeq, hg1, Option.bind_eq_bind, Option.bind_some, hadj, Option.bind_eq_bind,
      Option.bind_some]
    dsimp only
    rw [hu, hr1, Option.bind_eq_bind, Option.bind_some, hr2]
    rfl
  · dsimp only
    rw [(tcpAck_ackOnly r2.pcb).ooseq]
    exact hQ hb

theorem tcpQueueOoseq_sound {off : Nat} {g : TcpSeg} (h : Sound isn S n e pcb)
    (hacc : pcb.state.accepts = true) (hg : Genuine isn S off g) (hlo : n ≤ off) (hle : off + g.tcplen ≤ e)
    (mem : Bool) : ∃ q, pcb.tcpQueueOoseq mem g = some { pcb with ooseq := q } ∧ Queue isn S n e q := by
  obtain ⟨he, hq⟩ := h
  obtain ⟨-, hq⟩ := hq hacc
  have hwnd : tcpWnd = 32768 := rfl
  have hann := he.ann
  have hroom := he.room
  have hmax := he.wnd
  rw [tcpQueueOoseq]
  split
  · split
    · exact ⟨[g], rfl, off, hlo, hg, hle, fun _ => rfl, trivial⟩
    · obtain ⟨q, hins, hqueue⟩ := oosInsert_queue he.nxt hmax hlo (by omega) hg hle (by omega) hlo
        (Nat.le_refl _) hq
      rw [hins]
      exact ⟨q, rfl, hqueue⟩
  · exact ⟨pcb.ooseq, rfl, hq⟩

theorem tcpReceive_sound {off : Nat} {g : TcpSeg} (h : Sound isn S n e pcb)
    (hacc : pcb.state.accepts = true) (hg : Genuine isn S off g) (h1 : off < n + 2 ^ 29)
    (h2 : n < off + 2 ^ 29) (hshort : g.tcplen ≤ 65535) (hle : off + g.tcplen ≤ e) (htcp : 0 < g.tcplen)
    (mem : Mem) : ∃ r m e', pcb.tcpReceive mem g = some r ∧ Taken isn S pcb n m r ∧ Advance e e' ∧
      Edges isn (m + r.gotFin.toNat) e' r.pcb ∧ (r.gotFin = false → Queue isn S m e' r.pcb.ooseq) := by
  have hup := h.upTo hacc
  obtain ⟨pcb1, o, g1, hp, hgen, hcase, heq⟩ := tcpReceive_eq hup hg h1 h2 hshort hacc htcp mem
  obtain ⟨ha, h'⟩ : AckOnly pcb pcb1 ∧ Sound isn S n e pcb1 := by
    rcases hp with rfl | rfl
    · exact ⟨.refl _, h⟩
    · exact ⟨tcpAckNow_ackOnly pcb, tcpAckNow_edges h.edges, h.queue⟩
  have hle1 : o + g1.tcplen ≤ e := by
    have htl := hg.tcplen_eq
    have htl1 := hgen.tcplen_eq
    rcases hcase with ⟨rfl, rfl, -⟩ | ⟨rfl, -, hlen, hfin⟩
    · exact hle
    · rw [htl1, hfin]
      omega
  have hacc1 : pcb1.state.accepts = true := ha.state ▸ hacc
  rw [heq]
  split
  · rename_i hwin
    split
    · rename_i hno
      subst hno
      obtain ⟨r, m, hr, hT, hE, hQ⟩ := receiveInSeq_sound h' hacc1 hgen hle1
      exact ⟨r, m, e, hr, hT.of_ack ha, .refl e, hE, hQ⟩
    · obtain ⟨q, hq, hqueue⟩ := tcpQueueOoseq_sound h' hacc1 hgen hwin.1 hle1 mem.segCopy
      have he := h'.edges
      obtain ⟨e', hee, hE⟩ := @tcpSendEmptyAck_edges isn n e { pcb1 with ooseq := q }
        ⟨he.nxt, he.edge, he.le, he.ann, he.room, he.wnd⟩ mem.ack
      have ha2 := tcpSendEmptyAck_ackOnly { pcb1 with ooseq := q } mem.ack
      rw [hq]
      refine ⟨_, n, e', rfl, ((ha.taken hup).ooseq q).ack ha2, hee, hE, fun _ => ?_⟩
      show Queue isn S n e' (TcpPcb.tcpSendEmptyAck _ _).ooseq
      rw [ha2.ooseq]
      exact hqueue.mono (Nat.le_refl _) hee.1
  · obtain ⟨e', hee, hE⟩ := tcpSendEmptyAck_edges h'.edges mem.ack
    have ha2 := tcpSendEmptyAck_ackOnly pcb1 mem.ack
    refine ⟨_, n, e', rfl, (ha.taken hup).ack ha2, hee, hE, fun _ => ?_⟩
    show Queue isn S n e' (pcb1.tcpSendEmptyAck mem.ack).ooseq
    rw [ha2.ooseq]
    exact (h'.queue hacc1).2.mono (Nat.le_refl _) hee.1

theorem afterReceive_edges (h : Edges isn n e pcb) (ackAll gotFin : Bool) :
    Edges isn n e (pcb.afterReceive ackAll gotFin) := by
  rw [afterReceive, purge]
  split <;> exact ⟨h.nxt, h.edge, h.le, h.ann, h.room, h.wnd⟩

/-- What a segment needs for `tcp_process`: before the FIN was received, it is genuine and inside the
announced window. -/
def Fits (isn : BitVec 32) (S : Bytes) (n e : Nat) (pcb : TcpPcb) (i : Incoming) : Prop :=
  i.rst = false → i.syn = false → 0 < i.inseg.tcplen → pcb.state.accepts = true →
    ∃ off, Genuine isn S off i.inseg ∧ off < n + 2 ^ 29 ∧ n < off + 2 ^ 29 ∧ off + i.inseg.tcplen ≤ e

theorem tcpProcess_sound {i : Incoming} (h : Sound isn S n e pcb) (hshort : i.inseg.tcplen ≤ 65535)
    (hfits : Fits isn S n e pcb i) (mem : Mem) :
    ∃ p, pcb.tcpProcess mem i = some p ∧ ∀ r closed, p = .goOn r closed →
      (r.recvData = [] ∨ 0 < i.inseg.tcplen) ∧
      ∃ m e', Advance e e' ∧ Sound isn S m e' r.pcb ∧
        (r.pcb.state.accepts = true → m = n + r.recvData.length ∧ r.pcb.refused = pcb.refused) := by
  rw [tcpProcess]
  by_cases hrst : i.rst = true
  · rw [if_pos hrst]
    split
    · refine ⟨_, rfl, fun r closed hp => ?_⟩
      cases hp
    · split <;> refine ⟨_, rfl, fun r closed hp => ?_⟩ <;> cases hp
      · exact ⟨.inl rfl, n, e, .refl e,
          h.ack (tcpAckNow_ackOnly pcb) (Nat.le_refl _) (tcpAckNow_edges h.edges), fun _ => ⟨rfl, rfl⟩⟩
      · exact ⟨.inl rfl, n, e, .refl e, h, fun _ => ⟨rfl, rfl⟩⟩
  rw [if_neg hrst]
  by_cases hsyn : i.syn = true
  · rw [if_pos hsyn]
    refine ⟨_, rfl, fun r closed hp => ?_⟩
    cases hp
    exact ⟨.inl rfl, n, e, .refl e,
      h.ack (tcpAckNow_ackOnly pcb) (Nat.le_refl _) (tcpAckNow_edges h.edges), fun _ => ⟨rfl, rfl⟩⟩
  rw [if_neg hsyn]
  by_cases hq : 0 < i.inseg.tcplen ∧ pcb.state.accepts = true
  · obtain ⟨off, hg, h1, h2, hle⟩ := hfits (by simpa using hrst) (by simpa using hsyn) hq.1 hq.2
    obtain ⟨r, m, e', hr, hT, hee, hE, hQ⟩ := tcpReceive_sound h hq.2 hg h1 h2 hshort hle hq.1 mem
    rw [hr]
    refine ⟨_, rfl, fun r' closed hp => ?_⟩
    cases hp
    obtain ⟨hs, href, -, hn, hw⟩ := afterReceive_refused r.pcb i.ackAll r.gotFin
    refine ⟨.inr hq.1, m + r.gotFin.toNat, e', hee, ⟨afterReceive_edges hE _ _, fun hacc => ?_⟩,
      fun hacc => ?_⟩
    all_goals
      -- no FIN was received, and the pcb is not in `TIME_WAIT`
      dsimp only at hacc
      rw [hs] at hacc
      have hf : r.gotFin = false := by
        cases hb : r.gotFin with
        | false => rfl
        | true =>
          rw [hb] at hacc
          rcases hT.state with hst | ⟨-, -, hst⟩
          · rw [hst, (onSeg_accepts hq.2 i.ackAll).2] at hacc
            cases hacc
          · rw [hst] at hacc
            cases hacc
      obtain ⟨href, hoos⟩ := href.resolve_right fun ht => by
        rw [ht.2] at hacc
        cases hacc
    · rw [hf, Bool.toNat_false, Nat.add_zero]
      dsimp only
      rw [← hf, hoos]
      exact ⟨hT.bound, hQ hf⟩
    · have hlen : r.recvData.length = m - n := by
        rw [hT.data, List.length_take, List.length_drop]
        have := hT.bound
        omega
      have hle := hT.le
      refine ⟨?_, href.trans hT.refused⟩
      rw [hf, Bool.toNat_false]
      show m + 0 = n + r.recvData.length
      omega
  · rw [tcpReceive, if_neg hq]
    refine ⟨_, rfl, fun r closed hp => ?_⟩
    cases hp
    have ha : AckOnly pcb (if pcb.inWindow i.inseg.seqno then pcb else pcb.tcpAckNow) := by
      split
      · exact .refl pcb
      · exact tcpAckNow_ackOnly pcb
    have he : Edges isn n e (if pcb.inWindow i.inseg.seqno then pcb else pcb.tcpAckNow) := by
      split
      · exact h.edges
      · exact tcpAckNow_edges h.edges
    have hsound := h.ack ha (Nat.le_refl _) he
    generalize (if pcb.inWindow i.inseg.seqno then pcb else pcb.tcpAckNow) = pcb1 at ha he hsound
    obtain ⟨hs, href, -, -, -⟩ := afterReceive_refused pcb1 i.ackAll false
    refine ⟨.inl rfl, n, e, .refl e, ⟨afterReceive_edges he _ _, fun hacc => ?_⟩, fun hacc => ?_⟩
    all_goals
      dsimp only at hacc
      rw [hs] at hacc
      obtain ⟨href, hoos⟩ := href.resolve_right fun ht => by
        rw [ht.2] at hacc
        cases hacc
    · have hacc1 : pcb1.state.accepts = true := by
        cases hb : pcb1.state.accepts with
        | true => rfl
        | false =>
          rw [onSeg_not_accepts hb] at hacc
          cases hacc
      dsimp only
      rw [hoos]
      exact hsound.queue hacc1
    · exact ⟨rfl, href.trans ha.refused⟩

end Edges

/-! ## Runs -/

/-- The peer sends nothing beyond the right edge that was announced last. -/
def KeepsWindow (x : Rx) : Act → Prop
  | .segment _ i _ => i.rst = false → i.syn = false → 0 < i.inseg.tcplen →
      Serial.le (i.seqno + BitVec.ofNat 32 i.inseg.tcplen) x.pcb.rcvAnnRightEdge = true
  | _ => True

instance (x : Rx) (a : Act) : Decidable (KeepsWindow x a) :=
  match a with
  | .segment _ i _ => inferInstanceAs (Decidable (i.rst = false → i.syn = false → 0 < i.inseg.tcplen →
      Serial.le (i.seqno + BitVec.ofNat 32 i.inseg.tcplen) x.pcb.rcvAnnRightEdge = true))
  | .fasttmr _ | .recved _ | .output | .shutdownRx | .shutdownTx => isTrue trivial

/-- The peer keeps to its stream and to the window. -/
def Conforms (isn : BitVec 32) (S : Bytes) (x : Rx) (a : Act) : Prop := FromPeer isn S x a ∧ KeepsWindow x a

/-- `rcv_nxt` counts what was received, and the window is sound. -/
def Windowed (isn : BitVec 32) (S : Bytes) (e : Nat) (x : Rx) : Prop :=
  ∃ n, Sound isn S n e x.pcb ∧ (x.pcb.state.accepts = true → n = x.received.length)

/-- The step succeeds, and the window is sound after it. -/
def Goes (isn : BitVec 32) (S : Bytes) (e : Nat) (y : Option Rx) : Prop :=
  ∃ z, y = some z ∧ (z.live = true → z.pcb.rxClosed = false → ∃ e', Advance e e' ∧ Windowed isn S e' z)

theorem fits_of_conforms {n e : Nat} {x : Rx} {pcb : TcpPcb} {mem : Mem} {i : Incoming} {ans : Answers}
    (h : Edges isn n e x.pcb) (hn : x.pcb.state.accepts = true → n = x.received.length)
    (hstate : pcb.state = x.pcb.state) (hc : Conforms isn S x (.segment mem i ans))
    (hshort : i.inseg.tcplen ≤ 65535) : Fits isn S n e pcb i := by
  intro hrst hsyn htcp hacc
  obtain ⟨off, hg, h1, h2⟩ := hc.1 hrst hsyn
  have hle := hc.2 hrst hsyn htcp
  have hseq : i.seqno = pos isn off := hg.seqno
  have hwnd : tcpWnd = 32768 := rfl
  have hlo := h.le
  have hann := h.ann
  have hroom := h.room
  have hmax := h.wnd
  rw [← hn (hstate ▸ hacc)] at h1 h2
  rw [hseq, pos_add, h.edge, le_pos (by omega) (by omega), decide_eq_true_eq] at hle
  exact ⟨off, hg, h1, h2, hle⟩

theorem tcpProcess_not_accepts {pcb : TcpPcb} {mem : Mem} {i : Incoming} {r : Received} {closed : Bool}
    (hno : pcb.state.accepts = false) (h : pcb.tcpProcess mem i = some (.goOn r closed)) :
    r.pcb.state.accepts = false := by
  rw [tcpProcess] at h
  split at h
  · split at h
    · cases h
    · split at h <;> cases h <;> exact hno
  · split at h
    · cases h
      exact hno
    · obtain ⟨r1, hr1, h⟩ := Option.bind_eq_some_iff.1 h
      cases h
      obtain ⟨ha, -, -⟩ := tcpReceive_quiet (fun hq => by simp [hno] at hq) hr1
      obtain ⟨hs, -⟩ := afterReceive_refused r1.pcb i.ackAll r1.gotFin
      dsimp only
      rw [hs, ha.state, onSeg_not_accepts hno]

theorem tcpInput_goes {e : Nat} {x : Rx} {mem : Mem} {i : Incoming} {ans : Answers}
    (h : Windowed isn S e x) (hc : Conforms isn S x (.segment mem i ans)) :
    Goes isn S e (x.tcpInput mem i ans) := by
  obtain ⟨n, hs, hn⟩ := h
  rw [Rx.tcpInput]
  split
  · exact ⟨x, rfl, fun _ _ => ⟨e, .refl e, n, hs, hn⟩⟩
  rename_i hshort
  have hshort : i.inseg.tcplen ≤ 65535 := by omega
  split
  · rename_i hst
    refine ⟨_, rfl, fun _ _ => ?_⟩
    have hno : x.pcb.state.accepts = false := by rw [hst]; rfl
    obtain ⟨e', hee, hE⟩ : ∃ e', Advance e e' ∧ Edges isn n e' (x.pcb.tcpTimewaitInput i) := by
      rw [tcpTimewaitInput]
      split
      · exact ⟨e, .refl e, hs.edges⟩
      · split
        · exact hs.edges.ack ⟨rfl, rfl, rfl, rfl, rfl, rfl⟩ rfl (.inr rfl)
        · exact ⟨e, .refl e, hs.edges⟩
    have hno' : (x.pcb.tcpTimewaitInput i).state.accepts = false := by
      rw [tcpTimewaitInput]
      split
      · exact hno
      · split <;> exact hno
    refine ⟨e', hee, n, ⟨hE, fun hacc => ?_⟩, fun hacc => ?_⟩
    · exact absurd hacc (by simp [hno'])
    · exact absurd hacc (by simp [hno'])
  obtain ⟨z, hz, hzs⟩ := tcpProcessRefusedData_sound hs ans.refused ans.refusedFin
  rw [hz, Option.bind_eq_bind, Option.bind_some]
  split
  · rename_i hzl
    exact ⟨z, rfl, fun hb => absurd hb (by simp [hzl])⟩
  rename_i hzl
  have hzl : z.live = true := by simpa using hzl
  obtain ⟨hrec, hzst, -⟩ := tcpProcessRefusedData_received hz hzl
  have hnz : z.pcb.rxClosed = false → z.pcb.state.accepts = true → n = z.received.length := by
    intro hx hacc
    rw [hrec hx]
    exact hn (hzst ▸ hacc)
  split
  · -- data that is refused still: the segment is dropped
    split
    · obtain ⟨e', hee, hE⟩ := tcpSendEmptyAck_edges hzs.edges mem.ack
      have ha := tcpSendEmptyAck_ackOnly z.pcb mem.ack
      refine ⟨_, rfl, fun _ hx => ⟨e', hee, n, hzs.ack ha hee.1 hE, fun hacc => ?_⟩⟩
      rw [Rx.received_eq, held]
      dsimp only at hx hacc ⊢
      rw [ha.refused]
      exact hnz (ha.rxClosed ▸ hx) (ha.state ▸ hacc)
    · exact ⟨z, rfl, fun _ hx => ⟨e, .refl e, n, hzs, hnz hx⟩⟩
  rename_i hdrop
  obtain ⟨p, hp, hgo⟩ := tcpProcess_sound hzs hshort (fits_of_conforms hs.edges hn hzst hc hshort) mem
  rw [hp, Option.bind_eq_bind, Option.bind_some]
  cases p with
  | reset => exact ⟨_, rfl, fun hb => by cases hb⟩
  | goOn r closed =>
    obtain ⟨hdata, m, e', hee, hrs, hm⟩ := hgo r closed rfl
    obtain ⟨hrx, href⟩ := tcpProcess_frame hp
    have hfree : r.recvData = [] ∨ r.pcb.refused = none := by
      refine hdata.imp_right fun htcp => ?_
      rcases href with href | href
      · rw [href]
        simpa [htcp] using hdrop
      · exact href
    obtain ⟨y, hy, hys⟩ := finish_sound (x := z) hrs hfree closed i.acked ans
    refine ⟨y, hy, fun hl hx => ⟨e', hee, m, hys, fun hacc => ?_⟩⟩
    obtain ⟨hyr, -⟩ := finish_received hfree hy hl (.inr hx)
    obtain ⟨hyx, hyst⟩ := finish_frame hy
    rw [hyst] at hacc
    obtain ⟨hm, hkept⟩ := hm hacc
    have hzx : z.pcb.rxClosed = false := hrx ▸ hyx hx
    have hzacc : z.pcb.state.accepts = true := by
      cases hb : z.pcb.state.accepts with
      | true => rfl
      | false =>
        rw [tcpProcess_not_accepts hb hp] at hacc
        cases hacc
    have hheld : held r.pcb = held z.pcb := by rw [held, held, hkept]
    rw [hyr, hm, hnz hzx hzacc, Rx.received_eq, hheld]
    exact List.length_append.symm

theorem step_goes {e : Nat} {x : Rx} {a : Act} (h : Windowed isn S e x) (hl : x.live = true)
    (hc : Conforms isn S x a) (ht : x.pcb.state = .timeWait → ∀ ans, a ≠ .fasttmr ans) :
    Goes isn S e (x.step a) := by
  unfold Rx.step
  rw [if_pos hl]
  cases a with
  | segment mem i ans => exact tcpInput_goes h hc
  | fasttmr ans =>
    obtain ⟨n, hs, hn⟩ := h
    dsimp only
    rw [if_neg (fun hst => ht hst ans rfl), Rx.tcpFasttmr]
    have ha : AckOnly x.pcb (if x.pcb.ackDelay = true then
        { x.pcb.announce with ackDelay := false, ackNow := false } else x.pcb) := by
      split
      · exact ⟨rfl, rfl, rfl, rfl, rfl, rfl⟩
      · exact .refl _
    obtain ⟨e', hee, hE⟩ : ∃ e', Advance e e' ∧ Edges isn n e' (if x.pcb.ackDelay = true then
        { x.pcb.announce with ackDelay := false, ackNow := false } else x.pcb) := by
      split
      · exact hs.edges.ack ⟨rfl, rfl, rfl, rfl, rfl, rfl⟩ rfl (.inr rfl)
      · exact ⟨e, .refl e, hs.edges⟩
    generalize (if x.pcb.ackDelay = true then
      { x.pcb.announce with ackDelay := false, ackNow := false } else x.pcb) = pcb at ha hE
    obtain ⟨y, hy, hys⟩ := tcpProcessRefusedData_sound (x := { x with pcb }) (hs.ack ha hee.1 hE)
      ans.refused ans.refusedFin
    refine ⟨y, hy, fun hyl hx => ⟨e', hee, n, hys, fun hacc => ?_⟩⟩
    obtain ⟨hrec, hst, -⟩ := tcpProcessRefusedData_received hy hyl
    have hheld : held pcb = held x.pcb := by rw [held, held, ha.refused]
    rw [hrec hx, Rx.received_eq]
    dsimp only
    rw [hheld]
    exact hn (ha.state ▸ hst ▸ hacc)
  | recved len =>
    obtain ⟨n, hs, hn⟩ := h
    obtain ⟨pcb, hp, hE⟩ := tcpRecved_edges hs.edges len
    have w := tcpRecved_windowOnly hp
    dsimp only
    rw [hp]
    refine ⟨_, rfl, fun _ hx => ⟨e, .refl e, n, ⟨hE, ?_⟩, ?_⟩⟩
    · dsimp only
      rw [w.state, w.ooseq]
      exact hs.queue
    · have hheld : held pcb = held x.pcb := by rw [held, held, w.refused hx]
      rw [Rx.received_eq]
      dsimp only
      rw [w.state, hheld]
      exact hn
  | output =>
    obtain ⟨n, hs, hn⟩ := h
    have ha : AckOnly x.pcb { x.pcb.announce with ackDelay := false, ackNow := false } :=
      ⟨rfl, rfl, rfl, rfl, rfl, rfl⟩
    obtain ⟨e', hee, hE⟩ := hs.edges.ack ha rfl (.inr rfl)
    exact ⟨_, rfl, fun _ _ => ⟨e', hee, n, hs.ack ha hee.1 hE, hn⟩⟩
  | shutdownRx =>
    refine ⟨_, rfl, fun _ hx => ?_⟩
    cases hx
  | shutdownTx =>
    obtain ⟨n, ⟨⟨nxt, edge, le, ann, room, wnd⟩, hq⟩, hn⟩ := h
    have hacc : (shutdownTx x.pcb.state).accepts = x.pcb.state.accepts := by cases x.pcb.state <;> rfl
    refine ⟨_, rfl, fun _ _ => ⟨e, .refl e, n, ⟨⟨nxt, edge, le, ann, room, wnd⟩, ?_⟩, ?_⟩⟩
    · dsimp only
      rw [hacc]
      exact hq
    · dsimp only
      rw [hacc]
      exact hn

theorem start_windowed (isn : BitVec 32) (S : Bytes) (mss : Nat) :
    Windowed isn S tcpWnd (Rx.start isn mss) := by
  refine ⟨0, ⟨⟨(Serial.at_zero isn).symm, ?_, Nat.zero_le _, ?_, Nat.le_refl _, Nat.le_refl _⟩,
    fun _ => ⟨Nat.zero_le _, trivial⟩⟩, fun _ => rfl⟩
  · have hp := @pos_add isn 0 tcpWnd
    rw [pos, Serial.at_zero, Nat.zero_add] at hp
    exact hp
  · exact Nat.le_of_eq (Nat.zero_add _).symm

theorem tcpProcessRefusedData_open {x y : Rx} {recv fin : Answer}
    (hr : x.tcpProcessRefusedData recv fin = some y) (hx : y.pcb.rxClosed = false) :
    x.pcb.rxClosed = false := by
  rw [Rx.tcpProcessRefusedData] at hr
  split at hr
  · cases hr
    exact hx
  · obtain ⟨z, hz, hr⟩ := Option.bind_eq_some_iff.1 hr
    obtain ⟨w, -, -⟩ := eventRecv_spec hz
    split at hr
    · split at hr
      · exact w.rxClosed ((eventClosed_spec hr).1.rxClosed hx)
      · cases hr
        exact w.rxClosed hx
    · cases hr
      exact w.rxClosed hx
    · cases hr
      exact w.rxClosed hx

theorem tcpInput_open {x y : Rx} {mem : Mem} {i : Incoming} {ans : Answers}
    (hr : x.tcpInput mem i ans = some y) (hx : y.pcb.rxClosed = false) : x.pcb.rxClosed = false := by
  rw [Rx.tcpInput] at hr
  split at hr
  · cases hr
    exact hx
  split at hr
  · cases hr
    revert hx
    dsimp only
    rw [tcpTimewaitInput]
    split
    · exact id
    · split <;> exact id
  obtain ⟨z, hz, hr⟩ := Option.bind_eq_some_iff.1 hr
  refine tcpProcessRefusedData_open hz ?_
  split at hr
  · cases hr
    exact hx
  split at hr
  · cases hr
    revert hx
    split
    · exact fun hx => (tcpSendEmptyAck_ackOnly z.pcb mem.ack).rxClosed ▸ hx
    · exact id
  obtain ⟨p, hp, hr⟩ := Option.bind_eq_some_iff.1 hr
  cases p with
  | reset =>
    cases hr
    exact hx
  | goOn r closed => exact (tcpProcess_frame hp).1 ▸ (finish_frame hr).1 hx

/-- A step never opens the receiving side again. -/
theorem step_before {x y : Rx} {a : Act} (hs : x.step a = some y) (hx : y.pcb.rxClosed = false) :
    x.live = true ∧ x.pcb.rxClosed = false ∧
      (x.pcb.state = .timeWait → ∀ ans, a ≠ .fasttmr ans) := by
  unfold Rx.step at hs
  split at hs
  · rename_i hxl
    refine ⟨hxl, ?_, fun hst ans ha => ?_⟩
    · cases a with
      | segment mem i ans => exact tcpInput_open hs hx
      | fasttmr ans =>
        dsimp only at hs
        split at hs
        · cases hs
        · rw [Rx.tcpFasttmr] at hs
          have hopen := tcpProcessRefusedData_open hs hx
          revert hopen
          dsimp only
          split <;> exact id
      | recved len =>
        obtain ⟨pcb, hp, hs⟩ := Option.bind_eq_some_iff.1 hs
        cases hs
        exact (tcpRecved_windowOnly hp).rxClosed hx
      | output =>
        cases hs
        exact hx
      | shutdownRx =>
        cases hs
        cases hx
      | shutdownTx =>
        cases hs
        exact hx
    · subst ha
      dsimp only at hs
      rw [if_pos hst] at hs
      cases hs
  · cases hs

/-- The window stays sound in every run with a conforming peer, while the receiving side is open. -/
theorem run_windowed {mss : Nat} {tr : List (Rx × Act)} {x : Rx} (h : Run Rx.step (Rx.start isn mss) tr x)
    (hc : Meets (Conforms isn S) tr) :
    x.live = true → x.pcb.rxClosed = false → ∃ e, Windowed isn S e x := by
  apply h.inv hc (P := fun x => x.live = true → x.pcb.rxClosed = false → ∃ e, Windowed isn S e x)
  · exact fun _ _ => ⟨tcpWnd, start_windowed isn S mss⟩
  intro x a y ih hc hs hl hx
  obtain ⟨hxl, hxo, ht⟩ := step_before hs hx
  obtain ⟨e, hw⟩ := ih hxl hxo
  obtain ⟨z, hz, hgo⟩ := step_goes hw hxl hc ht
  cases hs.symm.trans hz
  obtain ⟨e', -, hw'⟩ := hgo hl hx
  exact ⟨e', hw'⟩

/-- In every run with a peer that keeps to its stream and to the announced window, no assertion fails:
every next step with this peer succeeds, whatever the callbacks answer, while the receiving side is
open. -/
theorem step_isSome_of_announced {mss : Nat} {tr : List (Rx × Act)} {x : Rx} {a : Act}
    (h : Run Rx.step (Rx.start isn mss) tr x) (hc : Meets (Conforms isn S) tr)
    (ha : Conforms isn S x a) (hl : x.live = true) (hx : x.pcb.rxClosed = false)
    (ht : x.pcb.state = .timeWait → ∀ ans, a ≠ .fasttmr ans) : (x.step a).isSome = true := by
  obtain ⟨e, hw⟩ := run_windowed h hc hl hx
  obtain ⟨y, hy, -⟩ := step_goes hw hl ha ht
  rw [hy]
  rfl

theorem meets_conforms_of_check {tr : List (Rx × Act)}
    (h : Meets (fun x a => fromPeerCheck isn S x a = true ∧ KeepsWindow x a) tr) :
    Meets (Conforms isn S) tr := fun y hy => ⟨fromPeer_of_check (h y hy).1, (h y hy).2⟩

/-- The second segment came first; the last one has the FIN, and its data overlaps. -/
theorem step_isSome_of_announced_reordered : ∃ tr x, Run Rx.step (Rx.start 4294967294 1460) tr x ∧
    (x.step (.segment {} { seqno := 1, data := [4, 5], fin := true } {})).isSome = true := by
  obtain ⟨x, hrun, hx⟩ := exists_run Rx.step (Rx.start 4294967294 1460) (reordered.take 3)
    (fun x => x.live && x.pcb.rxClosed == false && x.pcb.state == .established &&
      fromPeerCheck 4294967294 [1, 2, 3, 4, 5] x
        (.segment {} { seqno := 1, data := [4, 5], fin := true } {}) &&
      decide (KeepsWindow x (.segment {} { seqno := 1, data := [4, 5], fin := true } {})))
    (by decide +kernel)
  simp only [Bool.and_eq_true, beq_iff_eq, decide_eq_true_eq] at hx
  obtain ⟨⟨⟨⟨hl, hopen⟩, hst⟩, hpeer⟩, hkeep⟩ := hx
  refine ⟨_, x, hrun, step_isSome_of_announced hrun (meets_conforms_of_check ?_)
    ⟨fromPeer_of_check hpeer, hkeep⟩ hl hopen fun ht => ?_⟩
  · decide +kernel
  · rw [hst] at ht
    cases ht

/-- In every run with such a peer, a step never moves the announced right edge to the left, and what is
announced does not go beyond the room there is. -/
theorem announced_mono {mss : Nat} {tr : List (Rx × Act)} {x y : Rx} {a : Act}
    (h : Run Rx.step (Rx.start isn mss) tr x) (hc : Meets (Conforms isn S) tr)
    (ha : Conforms isn S x a) (hs : x.step a = some y) (hl : y.live = true)
    (hx : y.pcb.rxClosed = false) :
    Serial.le x.pcb.rcvAnnRightEdge y.pcb.rcvAnnRightEdge = true ∧
      Serial.le y.pcb.rcvAnnRightEdge y.pcb.rightEdge = true ∧
      y.pcb.rcvAnnWnd ≤ y.pcb.rcvWnd ∧ y.pcb.rcvWnd ≤ tcpWnd := by
  have hwnd : tcpWnd = 32768 := rfl
  obtain ⟨hxl, hxo, ht⟩ := step_before hs hx
  obtain ⟨e, hw⟩ := run_windowed h hc hxl hxo
  obtain ⟨z, hz, hgo⟩ := step_goes hw hxl ha ht
  cases hs.symm.trans hz
  obtain ⟨e', hee, m, hs', -⟩ := hgo hl hx
  obtain ⟨n, hs, -⟩ := hw
  have h1 := hee.1
  have h2 := hee.2
  have hann := hs'.edges.ann
  have hle := hs'.edges.le
  have hroom := hs'.edges.room
  have hmax := hs'.edges.wnd
  refine ⟨?_, ?_, hroom, hmax⟩
  · rw [hs.edges.edge, hs'.edges.edge, le_pos (by omega) (by omega)]
    exact decide_eq_true h1
  · rw [rightEdge, hs'.edges.edge, hs'.edges.nxt, pos_add, le_pos (by omega) (by omega)]
    exact decide_eq_true (by omega)

/-- The application has taken the data, and an ACK announces the new window. -/
theorem announced_mono_output : ∃ tr x y, Run Rx.step (Rx.start 4294967294 1) tr x ∧
    x.step .output = some y ∧ x.pcb.rcvAnnRightEdge ≠ y.pcb.rcvAnnRightEdge ∧
    Serial.le x.pcb.rcvAnnRightEdge y.pcb.rcvAnnRightEdge = true := by
  obtain ⟨x, hrun, hx⟩ := exists_run Rx.step (Rx.start 4294967294 1)
    (reordered.take 3 ++ [.recved 4])
    (fun x => (x.step .output).any fun y => y.live && y.pcb.rxClosed == false &&
      x.pcb.rcvAnnRightEdge != y.pcb.rcvAnnRightEdge)
    (by decide +kernel)
  obtain ⟨y, hy, hyp⟩ := (Option.any_eq_true _ _).1 hx
  simp only [Bool.and_eq_true, beq_iff_eq, bne_iff_ne, ne_eq] at hyp
  obtain ⟨⟨hl, hopen⟩, hne⟩ := hyp
  have hmeets : Meets (Conforms 4294967294 [1, 2, 3, 4, 5])
      (execTrace Rx.step (Rx.start 4294967294 1) (reordered.take 3 ++ [.recved 4])) :=
    meets_conforms_of_check (by decide +kernel)
  have hout : Conforms 4294967294 [1, 2, 3, 4, 5] x .output := ⟨trivial, trivial⟩
  exact ⟨_, x, y, hrun, hy, hne, (announced_mono hrun hmeets hout hy hl hopen).1⟩

end Lwip
