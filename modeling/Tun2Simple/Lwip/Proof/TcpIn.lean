import Tun2Simple.Lwip.TcpIn

/-!
# What the receiving side passes on is the peer's stream

`S` is the stream that the peer sends and `isn` the sequence number of its first byte. A segment that
carries a part of it is `Genuine`; the queue of segments out of order holds such parts, in order and
disjoint (`Queue`). `tcpReceive_spec` says what `tcp_receive` makes of a genuine segment: the bytes it
passes on go on where the last ones ended.
-/

namespace Lwip

open Core TcpPcb

variable (isn : BitVec 32) (S : Bytes)

/-- The sequence number of the byte at `x`. -/
def pos (x : Nat) : BitVec 32 := Serial.at_ isn x

/-- `g` carries the bytes of the stream from `off` on, and its FIN only if they are the last. -/
structure Genuine (off : Nat) (g : TcpSeg) : Prop where
  seqno : g.seqno = pos isn off
  data : g.p = (S.drop off).take g.len
  le : off + g.len ≤ S.length
  fin : g.fin = true → off + g.len = S.length
  syn : g.syn = false
  short : g.len ≤ 65535

instance (off : Nat) (g : TcpSeg) : Decidable (Genuine isn S off g) :=
  decidable_of_iff (g.seqno = pos isn off ∧ g.p = (S.drop off).take g.len ∧ off + g.len ≤ S.length ∧
      (g.fin = true → off + g.len = S.length) ∧ g.syn = false ∧ g.len ≤ 65535)
    ⟨fun ⟨h1, h2, h3, h4, h5, h6⟩ => ⟨h1, h2, h3, h4, h5, h6⟩, fun ⟨h1, h2, h3, h4, h5, h6⟩ =>
      ⟨h1, h2, h3, h4, h5, h6⟩⟩

/-- Segments with disjoint parts of the stream from `lo` up to `hi`, in order; only the last one may
have the FIN. -/
def Queue (lo hi : Nat) : List TcpSeg → Prop
  | [] => True
  | g :: q => ∃ off, lo ≤ off ∧ Genuine isn S off g ∧ off + g.tcplen ≤ hi ∧ (g.fin = true → q = []) ∧
      Queue (off + g.len) hi q

variable {isn S}

/-! ## Positions -/

section Positions

variable {x y : Nat}

theorem pos_add (n : Nat) : pos isn x + BitVec.ofNat 32 n = pos isn (x + n) := Serial.at_add isn x n

theorem toNat_pos_sub (h : y ≤ x) (hlt : x < y + 2 ^ 32) : (pos isn x - pos isn y).toNat = x - y :=
  Serial.toNat_at_sub_at isn h hlt

variable (h1 : x < y + 2 ^ 30) (h2 : y < x + 2 ^ 30)
include h1 h2

theorem lt_pos : Serial.lt (pos isn x) (pos isn y) = decide (x < y) :=
  Serial.lt_at isn (by omega) (by omega)

theorem le_pos : Serial.le (pos isn x) (pos isn y) = decide (x ≤ y) :=
  Serial.le_at isn (by omega) (by omega)

theorem gt_pos : Serial.gt (pos isn x) (pos isn y) = decide (y < x) :=
  Serial.gt_at isn (by omega) (by omega)

theorem ge_pos : Serial.ge (pos isn x) (pos isn y) = decide (y ≤ x) :=
  Serial.ge_at isn (by omega) (by omega)

theorem pos_inj : pos isn x = pos isn y ↔ x = y := Serial.at_inj isn (by omega) (by omega)

theorem ge_pos_add_one : Serial.ge (pos isn x) (pos isn y + 1) = decide (y < x) := by
  rw [show pos isn y + 1 = pos isn (y + 1) from pos_add 1]
  exact Serial.ge_at isn (by omega) (by omega)

theorem le_pos_sub_one : Serial.le (pos isn x) (pos isn y - 1) = decide (x < y) :=
  Serial.le_at_sub_one isn (by omega) (by omega)

end Positions

/-! ## Genuine segments -/

theorem u16_of_le {n : Nat} (h : n ≤ 65535) : u16 n = n := Nat.mod_eq_of_lt (by omega)

theorem TcpSeg.len_le (g : TcpSeg) : g.len ≤ g.tcplen := Nat.le_add_right _ _

namespace Genuine

variable {off : Nat} {g : TcpSeg} (h : Genuine isn S off g)
include h

theorem stop_eq : g.stop = pos isn (off + g.len) := by
  rw [TcpSeg.stop, h.seqno, pos_add]

theorem length_p : g.p.length = g.len := by
  rw [h.data, List.length_take, List.length_drop]
  exact Nat.min_eq_left (by have := h.le; omega)

theorem tcplen_eq : g.tcplen = g.len + g.fin.toNat := by
  rw [TcpSeg.tcplen, h.syn, Bool.or_false]
  cases g.fin <;> rfl

/-- The first `n` bytes, of which the FIN is no part. -/
theorem trim {n : Nat} (hn : n ≤ g.len) (hfin : g.fin = false) : Genuine isn S off (g.trim n) where
  seqno := h.seqno
  data := by
    show g.p.take n = _
    rw [h.data, List.take_take, Nat.min_eq_left hn]
    rfl
  le := Nat.le_trans (Nat.add_le_add_left hn off) h.le
  fin hf := by
    have : g.fin = true := hf
    rw [hfin] at this
    cases this
  syn := h.syn
  short := Nat.le_trans hn h.short

/-- The FIN is dropped. -/
theorem noFin : Genuine isn S off { g with fin := false } where
  seqno := h.seqno
  data := h.data
  le := h.le
  fin hf := by cases hf
  syn := h.syn
  short := h.short

/-- The FIN of a segment that ends no later. -/
theorem addFin {o : Nat} {g' : TcpSeg} (h' : Genuine isn S o g') (hle : o + g'.len ≤ off + g.len) :
    Genuine isn S off { g with fin := g.fin || g'.fin } where
  seqno := h.seqno
  data := h.data
  le := h.le
  fin hf := by
    rcases Bool.or_eq_true_iff.1 hf with hf | hf
    · exact h.fin hf
    · have hend := h'.fin hf
      have hle' := h.le
      show off + g.len = S.length
      omega
  syn := h.syn
  short := h.short

/-- With such a FIN, a segment needs no more room than both. -/
theorem addFin_le {o hi : Nat} {g' : TcpSeg} (h' : Genuine isn S o g') (hle : o + g'.len ≤ off + g.len)
    (hhi : off + g.tcplen ≤ hi) (hhi' : o + g'.tcplen ≤ hi) :
    off + { g with fin := g.fin || g'.fin }.tcplen ≤ hi := by
  rw [(h.addFin h' hle).tcplen_eq]
  show off + (g.len + (g.fin || g'.fin).toNat) ≤ hi
  have htl := h.tcplen_eq
  cases hf : g'.fin with
  | false =>
    rw [Bool.or_false]
    omega
  | true =>
    have hend := h'.fin hf
    have hb := h.le
    rw [h'.tcplen_eq, hf, Bool.toNat_true] at hhi'
    rw [Bool.or_true, Bool.toNat_true]
    omega

end Genuine

/-! ## Queues -/

theorem Queue.mono {lo lo' hi hi' : Nat} {q : List TcpSeg} (h : Queue isn S lo hi q) (hlo : lo' ≤ lo)
    (hhi : hi ≤ hi') : Queue isn S lo' hi' q := by
  induction q generalizing lo lo' with
  | nil => trivial
  | cons g q ih =>
    obtain ⟨off, hoff, hg, hle, hfin, hq⟩ := h
    exact ⟨off, Nat.le_trans hlo hoff, hg, Nat.le_trans hle hhi, hfin, ih hq (Nat.le_refl _)⟩

/-- What `freeCovered` leaves: the segment, which may have got a FIN, and the rest of the queue, whose
first segment goes on further. -/
theorem freeCovered_spec {lo hi off : Nat} {cseg : TcpSeg} {q : List TcpSeg}
    (hc : Genuine isn S off cseg) (hce : off + cseg.tcplen ≤ hi) (hcf : cseg.fin = true → q = [])
    (hlo : off ≤ lo) (hq : Queue isn S lo hi q) (hhi : hi < off + 2 ^ 30) :
    let r := freeCovered cseg q
    Genuine isn S off r.1 ∧ off + r.1.tcplen ≤ hi ∧ r.1.len = cseg.len ∧ Queue isn S lo hi r.2 ∧
      (r.1.fin = true → r.2 = []) := by
  induction q generalizing cseg lo with
  | nil => exact ⟨hc, hce, rfl, trivial, fun _ => rfl⟩
  | cons next rest ih =>
    obtain ⟨o, ho, hn, hle, hfin, hrest⟩ := hq
    have hlen := hc.short
    have hnlen := next.len_le
    rw [freeCovered, hc.stop_eq, hn.stop_eq, ge_pos (by omega) (by omega)]
    by_cases hcov : o + next.len ≤ off + cseg.len
    · rw [if_pos (decide_eq_true hcov)]
      have hf : cseg.fin = false := by
        cases hb : cseg.fin with
        | false => rfl
        | true => cases hcf hb
      obtain ⟨h1, he, h2, h3, h4⟩ := ih (hc.addFin hn hcov) (hc.addFin_le hn hcov hce hle)
        (fun hb => hfin (by simpa [hf] using hb)) (by omega) hrest
      exact ⟨h1, he, h2, h3.mono (by omega) (Nat.le_refl _), h4⟩
    · rw [if_neg (by simpa using hcov)]
      exact ⟨hc, hce, rfl, ⟨o, ho, hn, hle, hfin, hrest⟩, hcf⟩

/-- A segment put before the rest of a queue. -/
theorem tcpOosInsertSegment_queue {lo hi off : Nat} {cseg : TcpSeg} {q : List TcpSeg}
    (hc : Genuine isn S off cseg) (hlo : off ≤ lo) (hq : Queue isn S lo hi q)
    (hle : off + cseg.tcplen ≤ hi) (hhi : hi < off + 2 ^ 30) :
    Queue isn S off hi (tcpOosInsertSegment cseg q) := by
  rw [tcpOosInsertSegment]
  by_cases hf : cseg.fin = true
  · rw [if_pos hf]
    exact ⟨off, Nat.le_refl _, hc, hle, fun _ => rfl, trivial⟩
  · rw [if_neg hf]
    have hspec := freeCovered_spec hc hle (fun h => absurd h hf) hlo hq hhi
    generalize freeCovered cseg q = r at hspec
    obtain ⟨c, rest⟩ := r
    obtain ⟨hc', hcle, hlen, hrest, hfin⟩ := hspec
    dsimp only at hc' hcle hlen hrest hfin ⊢
    cases rest with
    | nil => exact ⟨off, Nat.le_refl _, hc', hcle, fun _ => rfl, trivial⟩
    | cons n rest =>
      obtain ⟨o, ho, hn, hnle, hnfin, hrest⟩ := hrest
      have hcf : c.fin = false := by
        cases hb : c.fin with
        | false => rfl
        | true => cases hfin hb
      have hsh := hc'.short
      have hclen := c.len_le
      have hnlen := n.len_le
      dsimp only
      rw [hc'.stop_eq, hn.seqno, gt_pos (by omega) (by omega)]
      by_cases hov : o < off + c.len
      · rw [if_pos (decide_eq_true hov), hc'.seqno, toNat_pos_sub (by omega) (by omega),
          u16_of_le (by omega)]
        have htrim := hc'.trim (n := o - off) (by omega) hcf
        refine ⟨off, Nat.le_refl _, htrim, ?_, fun hb => ?_, o, ?_, hn, hnle, hnfin, hrest⟩
        · rw [htrim.tcplen_eq]
          show off + (o - off + c.fin.toNat) ≤ hi
          rw [hcf, Bool.toNat_false]
          omega
        · have hb : c.fin = true := hb
          rw [hcf] at hb
          cases hb
        · show off + (o - off) ≤ o
          omega
      · rw [if_neg (by simpa using hov)]
        exact ⟨off, Nat.le_refl _, hc', hcle, fun hb => absurd hb (by simp [hcf]), o, by omega, hn,
          hnle, hnfin, hrest⟩

theorem trimTo_genuine {off o : Nat} {g : TcpSeg} (h : Genuine isn S off g) (hf : g.fin = false)
    (hlt : off ≤ o) (hnear : o < off + 2 ^ 30) :
    Genuine isn S off (trimTo g (pos isn o)) ∧ off + (trimTo g (pos isn o)).len ≤ o ∧
      (trimTo g (pos isn o)).tcplen ≤ g.tcplen ∧ (trimTo g (pos isn o)).fin = false := by
  have hsh := h.short
  rw [trimTo, h.stop_eq, gt_pos (by omega) (by omega)]
  by_cases hov : o < off + g.len
  · rw [if_pos (decide_eq_true hov), h.seqno, toNat_pos_sub hlt (by omega), u16_of_le (by omega)]
    have htrim := h.trim (n := o - off) (by omega) hf
    refine ⟨htrim, ?_, ?_, hf⟩
    · show off + (o - off) ≤ o
      omega
    · rw [htrim.tcplen_eq, h.tcplen_eq]
      show o - off + g.fin.toNat ≤ g.len + g.fin.toNat
      omega
  · rw [if_neg (by simpa using hov)]
    exact ⟨h, by omega, Nat.le_refl _, hf⟩

theorem trimToWindow_genuine {pcb : TcpPcb} {n off : Nat} {g : TcpSeg} (h : Genuine isn S off g)
    (hn : pcb.rcvNxt = pos isn n) (hw : pcb.rcvWnd ≤ tcpWnd) (hlo : n ≤ off)
    (hoff : off ≤ n + pcb.rcvWnd) :
    ∃ g', pcb.trimToWindow g = some g' ∧ Genuine isn S off g' ∧ g'.tcplen ≤ g.tcplen := by
  have hsh := h.short
  have hwnd : tcpWnd = 32768 := rfl
  have htl := h.tcplen_eq
  have hb := g.fin.toNat_le
  have hedge : pcb.rightEdge = pos isn (n + pcb.rcvWnd) := by rw [rightEdge, hn, pos_add]
  have hgt : Serial.gt (g.seqno + BitVec.ofNat 32 g.tcplen) pcb.rightEdge =
      decide (n + pcb.rcvWnd < off + g.tcplen) := by
    rw [hedge, h.seqno, pos_add, gt_pos (by omega) (by omega)]
  rw [trimToWindow, hgt]
  by_cases hov : n + pcb.rcvWnd < off + g.tcplen
  · have hsub : u16 (pcb.rightEdge - g.seqno).toNat = n + pcb.rcvWnd - off := by
      rw [hedge, h.seqno, toNat_pos_sub hoff (by omega), u16_of_le (by omega)]
    have hle : n + pcb.rcvWnd - off ≤ g.len := by omega
    have htrim := h.noFin.trim hle rfl
    have htlen : ({ g with fin := false }.trim (n + pcb.rcvWnd - off)).tcplen = n + pcb.rcvWnd - off :=
      htrim.tcplen_eq
    rw [if_pos (decide_eq_true hov), hsub]
    dsimp only
    rw [if_pos]
    · exact ⟨_, rfl, htrim, by omega⟩
    · rw [htlen, u16_of_le (by omega), htrim.seqno, pos_add, hedge, Nat.add_sub_cancel' hoff]
  · rw [if_neg (by simpa using hov)]
    exact ⟨g, rfl, h, Nat.le_refl _⟩

theorem not_fin_of_cons {g next : TcpSeg} {rest : List TcpSeg} (h : g.fin = true → next :: rest = []) :
    g.fin = false := by
  cases hb : g.fin with
  | false => rfl
  | true => cases h hb

section Insert

variable {pcb : TcpPcb} {n hi off : Nat} {inseg : TcpSeg} (hn : pcb.rcvNxt = pos isn n)
  (hw : pcb.rcvWnd ≤ tcpWnd) (hlo : n ≤ off) (hoff : off ≤ n + pcb.rcvWnd)
  (hg : Genuine isn S off inseg) (hle : off + inseg.tcplen ≤ hi) (hhi : hi < n + 2 ^ 29)
include hn hw hlo hoff hg hle hhi

/-- The new segment behind `next`, the last one of the queue. -/
theorem oosAppend_queue {lo o : Nat} {next : TcpSeg} (hlt : o < off) (hlo' : lo ≤ o)
    (hnext : Genuine isn S o next) (hnle : o + next.tcplen ≤ hi) (hfin : next.fin = false)
    (hclose : n ≤ o) : ∃ inseg', pcb.trimToWindow inseg = some inseg' ∧
      Queue isn S lo hi [trimTo next (pos isn off), inseg'] := by
  obtain ⟨ht, htle, htlen, htf⟩ := trimTo_genuine hnext hfin (Nat.le_of_lt hlt) (by omega)
  obtain ⟨inseg', hr, hi', hlen⟩ := trimToWindow_genuine hg hn hw hlo hoff
  exact ⟨inseg', hr, o, hlo', ht, by omega, fun hb => absurd hb (by simp [htf]), off, htle, hi', by omega,
    fun _ => rfl, trivial⟩

/-- The loop where the new segment starts behind `next`: what stands before the rest of the queue
stays (`keep`), and so does the rest (`hrec`). -/
theorem oosGoOn_queue {lo b o : Nat} {next : TcpSeg} {rest : List TcpSeg} (prev : List TcpSeg)
    (hlt : o < off) (hclose : n ≤ o) (hb : b ≤ o) (hnext : Genuine isn S o next)
    (hnle : o + next.tcplen ≤ hi) (hq : Queue isn S b hi (next :: rest))
    (keep : ∀ t, Queue isn S b hi t → Queue isn S lo hi (prev ++ t))
    (hrec : ∃ t, pcb.oosInsert inseg (some next) rest = some t ∧ Queue isn S b hi t) :
    ∃ q', (if rest = [] ∧ Serial.gt inseg.seqno next.seqno = true then
        if next.fin = true then some (prev ++ [next])
        else do return prev ++ [trimTo next inseg.seqno, ← pcb.trimToWindow inseg]
      else do return prev ++ (← pcb.oosInsert inseg (some next) rest)) = some q' ∧
    Queue isn S lo hi q' := by
  have hsh := hg.short
  have hnlen := next.len_le
  have hwnd : tcpWnd = 32768 := rfl
  rw [hg.seqno, hnext.seqno, gt_pos (by omega) (by omega)]
  by_cases htail : rest = []
  · subst htail
    rw [if_pos ⟨rfl, decide_eq_true hlt⟩]
    by_cases hf : next.fin = true
    · rw [if_pos hf]
      exact ⟨_, rfl, keep _ hq⟩
    · rw [if_neg hf]
      obtain ⟨seg, hseg, hqueue⟩ := oosAppend_queue hn hw hlo hoff hg hle hhi hlt hb hnext hnle
        (by simpa using hf) hclose
      rw [hseg]
      exact ⟨_, rfl, keep _ hqueue⟩
  · rw [if_neg (fun h => htail h.1)]
    obtain ⟨t, ht, hqueue⟩ := hrec
    rw [ht]
    exact ⟨_, rfl, keep _ hqueue⟩

/-- The loop from `p` on, which starts before the new segment. -/
theorem oosInsert_some {lo o : Nat} {p : TcpSeg} {q : List TcpSeg} (hlo' : lo ≤ o) (hclose : n ≤ o)
    (hlt : o < off) (hp : Genuine isn S o p) (hple : o + p.tcplen ≤ hi) (hpf : p.fin = true → q = [])
    (hq : Queue isn S (o + p.len) hi q) :
    ∃ q', pcb.oosInsert inseg (some p) q = some q' ∧ Queue isn S lo hi q' := by
  have hsh := hg.short
  have hwnd : tcpWnd = 32768 := rfl
  induction q generalizing p o lo with
  | nil => exact ⟨[p], rfl, o, hlo', hp, hple, fun _ => rfl, trivial⟩
  | cons next rest ih =>
    have hq' := hq
    obtain ⟨o', ho', hnext, hnle, hnf, hrest⟩ := hq
    have hnlen := next.len_le
    have hfrom : Queue isn S o' hi (next :: rest) := ⟨o', Nat.le_refl _, hnext, hnle, hnf, hrest⟩
    have hpf' := not_fin_of_cons hpf
    have keep : ∀ t, Queue isn S (o + p.len) hi t → Queue isn S lo hi (p :: t) := fun _ ht =>
      ⟨o, hlo', hp, hple, fun hb => absurd hb (by simp [hpf']), ht⟩
    rw [oosInsert]
    by_cases heq : off = o'
    · subst heq
      rw [if_pos (hg.seqno.trans hnext.seqno.symm)]
      split
      · exact ⟨_, rfl, keep _ ((tcpOosInsertSegment_queue hg (Nat.le_refl _) hfrom hle (by omega)).mono ho'
          (Nat.le_refl _))⟩
      · exact ⟨_, rfl, keep _ hq'⟩
    · have hne : ¬ inseg.seqno = next.seqno := by
        rw [hg.seqno, hnext.seqno, pos_inj (by omega) (by omega)]
        exact heq
      have hbetween : Serial.between inseg.seqno (p.seqno + 1) (next.seqno - 1) = decide (off < o') := by
        rw [hg.seqno, hp.seqno, hnext.seqno, Serial.between, ge_pos_add_one (by omega) (by omega),
          le_pos_sub_one (by omega) (by omega), decide_eq_true hlt, Bool.true_and]
      rw [if_neg hne]
      dsimp only
      rw [hbetween]
      by_cases hlt' : off < o'
      · rw [if_pos (decide_eq_true hlt')]
        obtain ⟨ht, htle, htlen, htf⟩ := trimTo_genuine hp hpf' (Nat.le_of_lt hlt) (by omega)
        rw [hg.seqno]
        exact ⟨_, rfl, o, hlo', ht, by omega, fun hb => absurd hb (by simp [htf]),
          (tcpOosInsertSegment_queue hg (Nat.le_of_lt hlt') hfrom hle (by omega)).mono htle
            (Nat.le_refl _)⟩
      · rw [if_neg (by simpa using hlt')]
        exact oosGoOn_queue hn hw hlo hoff hg hle hhi [p] (by omega) (by omega) ho' hnext hnle hq' keep
          (ih ho' (by omega) (by omega) hnext hnle hnf hrest)

/-- The queue after the loop. -/
theorem oosInsert_queue {lo : Nat} {q : List TcpSeg} (hlo' : lo ≤ off) (hclose : n ≤ lo)
    (hq : Queue isn S lo hi q) :
    ∃ q', pcb.oosInsert inseg none q = some q' ∧ Queue isn S lo hi q' := by
  have hsh := hg.short
  have hwnd : tcpWnd = 32768 := rfl
  cases q with
  | nil => exact ⟨[], rfl, trivial⟩
  | cons next rest =>
    have hq' := hq
    obtain ⟨o', ho', hnext, hnle, hnf, hrest⟩ := hq
    have hnlen := next.len_le
    have hfrom : Queue isn S o' hi (next :: rest) := ⟨o', Nat.le_refl _, hnext, hnle, hnf, hrest⟩
    rw [oosInsert]
    by_cases heq : off = o'
    · subst heq
      rw [if_pos (hg.seqno.trans hnext.seqno.symm)]
      split
      · exact ⟨_, rfl, (tcpOosInsertSegment_queue hg (Nat.le_refl _) hfrom hle (by omega)).mono hlo'
          (Nat.le_refl _)⟩
      · exact ⟨_, rfl, hq'⟩
    · have hne : ¬ inseg.seqno = next.seqno := by
        rw [hg.seqno, hnext.seqno, pos_inj (by omega) (by omega)]
        exact heq
      have hless : Serial.lt inseg.seqno next.seqno = decide (off < o') := by
        rw [hg.seqno, hnext.seqno, lt_pos (by omega) (by omega)]
      rw [if_neg hne]
      dsimp only
      rw [hless]
      by_cases hlt' : off < o'
      · rw [if_pos (decide_eq_true hlt')]
        exact ⟨_, rfl, (tcpOosInsertSegment_queue hg (Nat.le_of_lt hlt') hfrom hle (by omega)).mono hlo'
          (Nat.le_refl _)⟩
      · rw [if_neg (by simpa using hlt')]
        exact oosGoOn_queue hn hw hlo hoff hg hle hhi [] (by omega) (by omega) ho' hnext hnle hq'
          (fun _ ht => ht) (oosInsert_some hn hw hlo hoff hg hle hhi ho' (by omega) (by omega) hnext hnle
            hnf hrest)

end Insert

/-! ## Segments in sequence -/

theorem startsBefore_eq {pcb : TcpPcb} {n off : Nat} {g : TcpSeg} (h : Genuine isn S off g)
    (hn : pcb.rcvNxt = pos isn n) (h1 : off < n + 2 ^ 29) (h2 : n < off + 2 ^ 29) :
    pcb.startsBefore g = decide (off < n ∧ n < off + g.tcplen) := by
  have hsh := h.short
  have htl := h.tcplen_eq
  have hb := g.fin.toNat_le
  rw [startsBefore, Serial.between, hn, h.seqno, ge_pos_add_one (by omega) (by omega), pos_add,
    le_pos_sub_one (by omega) (by omega), Bool.decide_and]

/-- What comes before `rcv_nxt` is cut off. -/
theorem trimFront_genuine {pcb : TcpPcb} {n off : Nat} {g : TcpSeg} (h : Genuine isn S off g)
    (hn : pcb.rcvNxt = pos isn n) (h1 : off < n + 2 ^ 29) (h2 : n < off + 2 ^ 29)
    (hshort : g.tcplen ≤ 65535) :
    ∃ g', pcb.trimFront g = some g' ∧
      ((g' = g ∧ ¬ (off < n ∧ n < off + g.tcplen)) ∨
        (off < n ∧ Genuine isn S n g' ∧ n + g'.len = off + g.len ∧ g'.fin = g.fin)) := by
  rw [trimFront, startsBefore_eq h hn h1 h2]
  by_cases hb : off < n ∧ n < off + g.tcplen
  · have htl := h.tcplen_eq
    have hbl := g.fin.toNat_le
    have hlo : off ≤ n := Nat.le_of_lt hb.1
    have hle : n ≤ off + g.len := by omega
    have hoff : (pcb.rcvNxt - g.seqno).toNat = n - off := by
      rw [hn, h.seqno, toNat_pos_sub hlo (by omega)]
    rw [if_pos (decide_eq_true hb), hoff]
    dsimp only
    rw [if_pos ⟨by omega, by rw [h.length_p]; omega⟩]
    refine ⟨_, rfl, .inr ⟨hb.1, ⟨hn, ?_, ?_, fun hf => ?_, h.syn, ?_⟩, ?_, rfl⟩⟩
    · show g.p.drop (n - off) = (S.drop n).take (g.len - (n - off))
      rw [h.data, List.drop_take, List.drop_drop, Nat.add_sub_cancel' hlo]
    · show n + (g.len - (n - off)) ≤ S.length
      have := h.le
      omega
    · show n + (g.len - (n - off)) = S.length
      have := h.fin hf
      omega
    · show g.len - (n - off) ≤ 65535
      omega
    · show n + (g.len - (n - off)) = off + g.len
      omega
  · rw [if_neg (by simpa using hb)]
    exact ⟨g, rfl, .inl ⟨rfl, hb⟩⟩

/-- What `inseg` is trimmed to: nothing that overruns the window is left. -/
theorem trimInseg_genuine {pcb : TcpPcb} {n : Nat} {g : TcpSeg} (h : Genuine isn S n g)
    (hn : pcb.rcvNxt = pos isn n) (hshort : g.tcplen ≤ 65535) :
    ∃ g', pcb.trimInseg g = some g' ∧ Genuine isn S n g' ∧ g'.tcplen ≤ pcb.rcvWnd ∧
      ((g' = g ∧ g.tcplen ≤ pcb.rcvWnd) ∨ (g'.len = pcb.rcvWnd ∧ pcb.rcvWnd < g.tcplen)) := by
  have htl := h.tcplen_eq
  rw [trimInseg, u16_of_le hshort]
  by_cases hov : pcb.rcvWnd < g.tcplen
  · have hb := g.fin.toNat_le
    have hle : pcb.rcvWnd ≤ g.len := by omega
    have htrim := h.noFin.trim hle rfl
    have htlen : ({ g with fin := false }.trim pcb.rcvWnd).tcplen = pcb.rcvWnd := htrim.tcplen_eq
    have hsyn : (pcb.rcvWnd - if g.syn = true then 1 else 0) = pcb.rcvWnd := by rw [h.syn]; rfl
    rw [if_pos hov, hsyn]
    dsimp only
    rw [if_pos]
    · exact ⟨_, rfl, htrim, by omega, .inr ⟨rfl, hov⟩⟩
    · rw [htlen, u16_of_le (by omega), htrim.seqno, pos_add, rightEdge, hn, pos_add]
  · rw [if_neg hov]
    exact ⟨g, rfl, h, by omega, .inl ⟨rfl, by omega⟩⟩

theorem copyFin_eq {g : TcpSeg} {b : Bool} (hf : g.fin = false) (hs : g.syn = false) :
    (if (b && !g.syn) = true then { g with fin := true } else g) = { g with fin := g.fin || b } := by
  obtain ⟨seqno, len, p, fin, syn⟩ := g
  cases hf
  cases hs
  cases b <;> rfl

/-- What `removeCovered` leaves, like `freeCovered_spec`. -/
theorem removeCovered_spec {lo hi n : Nat} {g : TcpSeg} {q : List TcpSeg} (hg : Genuine isn S n g)
    (hge : n + g.tcplen ≤ hi) (hgf : g.fin = true → q = []) (hshort : g.len < 65535) (hlo : n ≤ lo)
    (hq : Queue isn S lo hi q) (hhi : hi < n + 2 ^ 29) :
    let r := removeCovered g q
    Genuine isn S n r.1 ∧ n + r.1.tcplen ≤ hi ∧ r.1.len = g.len ∧ Queue isn S lo hi r.2 ∧
      (r.1.fin = true → r.2 = []) ∧
      ∀ next ∈ r.2.head?, Serial.ge (pos isn (n + g.len)) next.stop = false := by
  induction q generalizing g lo with
  | nil => exact ⟨hg, hge, rfl, trivial, fun _ => rfl, fun _ h => by cases h⟩
  | cons next rest ih =>
    obtain ⟨o, ho, hn, hle, hfin, hrest⟩ := hq
    have hnlen := next.len_le
    have hf := not_fin_of_cons hgf
    have htl : g.tcplen = g.len := by rw [hg.tcplen_eq, hf]; rfl
    have hcover : Serial.ge (g.seqno + BitVec.ofNat 32 (u16 g.tcplen)) next.stop =
        decide (o + next.len ≤ n + g.len) := by
      rw [htl, u16_of_le (by omega), hg.seqno, pos_add, hn.stop_eq, ge_pos (by omega) (by omega)]
    rw [removeCovered, hcover]
    by_cases hcov : o + next.len ≤ n + g.len
    · rw [if_pos (decide_eq_true hcov), copyFin_eq hf hg.syn]
      obtain ⟨h1, he, h2, h3, h4, h5⟩ := ih (hg.addFin hn hcov) (hg.addFin_le hn hcov hge hle)
        (fun hb => hfin (by simpa [hf] using hb)) hshort (by omega) hrest
      exact ⟨h1, he, h2, h3.mono (by omega) (Nat.le_refl _), h4, h5⟩
    · rw [if_neg (by simpa using hcov)]
      refine ⟨hg, hge, rfl, ⟨o, ho, hn, hle, hfin, hrest⟩, hgf, fun x hx => ?_⟩
      cases hx
      rw [hn.stop_eq, ge_pos (by omega) (by omega), decide_eq_false hcov]

/-- The segment without what the queue has of it: if that is less, the queue goes on where it ends,
and further. -/
theorem adjustOoseq_spec {hi n : Nat} {g : TcpSeg} {q : List TcpSeg} (hg : Genuine isn S n g)
    (hge : n + g.tcplen ≤ hi) (hshort : g.len < 65535) (hq : Queue isn S n hi q)
    (hhi : hi < n + 2 ^ 29) :
    ∃ g' q', adjustOoseq g q = some (g', q') ∧ Genuine isn S n g' ∧ n + g'.tcplen ≤ hi ∧
      g'.len ≤ g.len ∧ Queue isn S (n + g'.len) hi q' ∧ (g'.fin = true → q' = []) ∧
      ((g'.len = g.len ∧ (g.fin = true → g'.fin = true)) ∨
        ∃ next rest, q' = next :: rest ∧ next.seqno = pos isn (n + g'.len) ∧
          g.len < g'.len + next.len) := by
  rw [adjustOoseq]
  by_cases hf' : q = [] ∨ g.fin = true
  · rw [if_pos hf']
    exact ⟨g, [], rfl, hg, hge, Nat.le_refl _, trivial, fun _ => rfl, .inl ⟨rfl, fun h => h⟩⟩
  · rw [if_neg hf']
    have hf : ¬ g.fin = true := fun h => hf' (.inr h)
    have hspec := removeCovered_spec hg hge (fun h => absurd h hf) hshort (Nat.le_refl _) hq hhi
    generalize removeCovered g q = r at hspec
    obtain ⟨c, rest⟩ := r
    obtain ⟨hc, hce, hlen, hrest, hfin, hover⟩ := hspec
    dsimp only at hc hce hlen hrest hfin hover ⊢
    cases rest with
    | nil =>
      exact ⟨c, [], rfl, hc, hce, by omega, trivial, fun _ => rfl, .inl ⟨hlen, fun h => absurd h hf⟩⟩
    | cons next rest =>
      obtain ⟨o, ho, hn, hnle, hnf, hrest⟩ := hrest
      have hnlen := next.len_le
      have hcf := not_fin_of_cons hfin
      have htl : c.tcplen = c.len := by rw [hc.tcplen_eq, hcf]; rfl
      have hstop := hover next rfl
      rw [hn.stop_eq, ge_pos (by omega) (by omega), decide_eq_false_iff_not] at hstop
      have hgt : Serial.gt (c.seqno + BitVec.ofNat 32 (u16 c.tcplen)) next.seqno =
          decide (o < n + c.len) := by
        rw [htl, u16_of_le (by omega), hc.seqno, pos_add, hn.seqno, gt_pos (by omega) (by omega)]
      dsimp only
      rw [hgt]
      by_cases hov : o < n + c.len
      · have hsub : u16 (next.seqno - c.seqno).toNat = o - n := by
          rw [hn.seqno, hc.seqno, toNat_pos_sub ho (by omega), u16_of_le (by omega)]
        have htrim := hc.trim (n := o - n) (by omega) hcf
        have htlen : (c.trim (o - n)).tcplen = o - n := by
          rw [htrim.tcplen_eq]
          show o - n + c.fin.toNat = o - n
          rw [hcf]
          rfl
        rw [if_pos (decide_eq_true hov), hsub, hc.syn]
        simp only [Bool.false_eq_true, if_false]
        rw [if_pos]
        · refine ⟨_, _, rfl, htrim, by omega, by show o - n ≤ g.len; omega,
            ⟨o, by show n + (o - n) ≤ o; omega, hn, hnle, hnf, hrest⟩, fun hb => ?_,
            .inr ⟨next, rest, rfl, ?_, ?_⟩⟩
          · have hb : c.fin = true := hb
            rw [hcf] at hb
            cases hb
          · show next.seqno = pos isn (n + (o - n))
            rw [hn.seqno, Nat.add_sub_cancel' ho]
          · show g.len < o - n + next.len
            omega
        · rw [htlen, u16_of_le (by omega), htrim.seqno, pos_add, hn.seqno, Nat.add_sub_cancel' ho]
      · rw [if_neg (by simpa using hov)]
        exact ⟨c, _, rfl, hc, hce, by omega, ⟨o, by omega, hn, hnle, hnf, hrest⟩, hfin,
          .inl ⟨hlen, fun h => absurd h hf⟩⟩

/-! ## `tcp_receive` -/

theorem tcpUpdateRcvAnnWnd_eq {pcb pcb' : TcpPcb} {k : Nat}
    (h : pcb.tcpUpdateRcvAnnWnd = some (pcb', k)) : ∃ w, pcb' = { pcb with rcvAnnWnd := w } := by
  rw [tcpUpdateRcvAnnWnd] at h
  split at h
  · cases h
    exact ⟨_, rfl⟩
  · split at h
    · cases h
      exact ⟨_, rfl⟩
    · dsimp only at h
      split at h <;> cases h
      exact ⟨_, rfl⟩

/-- Of the stream, the part from `n` to `m` was taken from segments; `pcb` is the pcb before. -/
structure Taken (isn : BitVec 32) (S : Bytes) (pcb : TcpPcb) (n m : Nat) (r : Received) : Prop where
  le : n ≤ m
  data : r.recvData = (S.drop n).take (m - n)
  bound : m ≤ S.length
  nxt : r.pcb.rcvNxt = pos isn (m + r.gotFin.toNat)
  fin : r.gotFin = true → m = S.length
  wnd : m + r.gotFin.toNat + r.pcb.rcvWnd = n + pcb.rcvWnd
  refused : r.pcb.refused = pcb.refused
  rxClosed : r.pcb.rxClosed = pcb.rxClosed
  state : r.pcb.state = pcb.state ∨
    (pcb.state = .established ∧ r.gotFin = true ∧ r.pcb.state = .closeWait)

/-- Nothing was taken. -/
theorem Taken.refl {pcb pcb' : TcpPcb} {n : Nat} (hn : pcb'.rcvNxt = pos isn n) (hle : n ≤ S.length)
    (hw : pcb'.rcvWnd = pcb.rcvWnd) (hr : pcb'.refused = pcb.refused)
    (hx : pcb'.rxClosed = pcb.rxClosed) (hs : pcb'.state = pcb.state) :
    Taken isn S pcb n n { pcb := pcb' } where
  le := Nat.le_refl _
  data := by rw [Nat.sub_self, List.take_zero]
  bound := hle
  nxt := hn
  fin h := by cases h
  wnd := by rw [hw]; rfl
  refused := hr
  rxClosed := hx
  state := .inl hs

theorem Taken.ooseq {pcb : TcpPcb} {n m : Nat} {r : Received} (h : Taken isn S pcb n m r)
    (q : List TcpSeg) : Taken isn S pcb n m { r with pcb := { r.pcb with ooseq := q } } :=
  ⟨h.le, h.data, h.bound, h.nxt, h.fin, h.wnd, h.refused, h.rxClosed, h.state⟩

/-- The next segment is taken over. -/
theorem Taken.take {pcb : TcpPcb} {n m tcplen : Nat} {r r' : Received} {g : TcpSeg}
    (h : Taken isn S pcb n m r) (hf : r.gotFin = false) (hg : Genuine isn S m g)
    (ht : tcplen = g.tcplen) (hr : r.take g tcplen = some r') :
    Taken isn S pcb n (m + g.len) r' ∧ r'.gotFin = g.fin := by
  subst ht
  rw [Received.take] at hr
  split at hr
  · cases hr
  · rename_i hwnd
    obtain ⟨⟨pcb', k⟩, hu, hr⟩ := Option.bind_eq_some_iff.1 hr
    obtain ⟨w, rfl⟩ := tcpUpdateRcvAnnWnd_eq hu
    cases hr
    have hle := h.le
    have htl := hg.tcplen_eq
    have hw := h.wnd
    rw [hf] at hw
    have hgf : (r.gotFin || g.fin) = g.fin := by rw [hf, Bool.false_or]
    refine ⟨⟨by omega, ?_, hg.le, ?_, fun hb => ?_, ?_, h.refused, h.rxClosed, ?_⟩, hgf⟩
    · show r.recvData ++ g.p = _
      rw [h.data, hg.data, show m + g.len - n = (m - n) + g.len by omega, List.take_add,
        List.drop_drop, Nat.add_sub_cancel' hle]
    · show g.seqno + BitVec.ofNat 32 g.tcplen = pos isn (m + g.len + (r.gotFin || g.fin).toNat)
      rw [hgf, hg.seqno, pos_add, htl, Nat.add_assoc]
    · have hb : (r.gotFin || g.fin) = true := hb
      rw [hgf] at hb
      exact hg.fin hb
    · show m + g.len + (r.gotFin || g.fin).toNat + (r.pcb.rcvWnd - g.tcplen) = _
      rw [hgf]
      simp only [Bool.toNat_false] at hw
      omega
    · rcases h.state with hs | ⟨-, hb, -⟩
      · exact .inl hs
      · rw [hf] at hb
        cases hb

/-- The segments that are now in sequence are taken from the queue. -/
theorem dequeue_taken {pcb : TcpPcb} {n m hi : Nat} {q : List TcpSeg} {r r' : Received}
    (h : Taken isn S pcb n m r) (hf : r.gotFin = true → q = []) (hq : Queue isn S m hi q)
    (hhi : hi < m + 2 ^ 29) (hr : dequeue q r = some r') :
    ∃ m', m ≤ m' ∧ Taken isn S pcb n m' r' ∧ (r'.gotFin = false → Queue isn S m' hi r'.pcb.ooseq) ∧
      (r.gotFin = true → r'.gotFin = true) ∧
      ∀ g ∈ q.head?, g.seqno = pos isn m → m + g.len ≤ m' := by
  induction q generalizing m r with
  | nil =>
    cases hr
    exact ⟨m, Nat.le_refl _, h.ooseq [], fun _ => trivial, fun hb => hb, fun _ hg => by cases hg⟩
  | cons cseg rest ih =>
    have hq' := hq
    obtain ⟨o, ho, hg, hle, hgf, hrest⟩ := hq
    have hf' : r.gotFin = false := by
      cases hb : r.gotFin with
      | false => rfl
      | true => cases hf hb
    have hnxt := h.nxt
    rw [hf', Bool.toNat_false, Nat.add_zero] at hnxt
    rw [dequeue, hnxt, hg.seqno] at hr
    by_cases heq : o = m
    · subst heq
      rw [if_pos rfl] at hr
      obtain ⟨r1, hr1, hr⟩ := Option.bind_eq_some_iff.1 hr
      obtain ⟨ht, hfin⟩ := h.take hf' hg rfl hr1
      -- the state changes with a FIN that was queued
      have ht2 : Taken isn S pcb n (o + cseg.len)
          (if cseg.fin = true ∧ r1.pcb.state = .established then
            { r1 with pcb := { r1.pcb with state := .closeWait } } else r1) := by
        split
        · rename_i hc
          refine ⟨ht.le, ht.data, ht.bound, ht.nxt, ht.fin, ht.wnd, ht.refused, ht.rxClosed, ?_⟩
          rcases ht.state with hs | ⟨hs, -, hs'⟩
          · exact .inr ⟨by rw [← hs]; exact hc.2, by rw [hfin]; exact hc.1, rfl⟩
          · rw [hc.2] at hs'
            cases hs'
        · exact ht
      obtain ⟨m', hm', hT, hQ, -, -⟩ := ih ht2 (fun hb => hgf (by
        rw [← hfin]
        split at hb <;> exact hb)) hrest (by omega) hr
      refine ⟨m', by omega, hT, hQ, fun hb => absurd hb (by simp [hf']),
        fun g hg _ => ?_⟩
      cases hg
      exact hm'
    · rw [if_neg (fun hp => heq ((pos_inj (by omega) (by omega)).1 hp))] at hr
      cases hr
      refine ⟨m, Nat.le_refl _, h.ooseq _, fun _ => hq', fun hb => hb, fun g hg' hs => ?_⟩
      cases hg'
      exact absurd ((pos_inj (by omega) (by omega)).1 (hg.seqno.symm.trans hs)) heq

/-- The pcb has taken the stream up to `n`, and no FIN. -/
structure UpTo (isn : BitVec 32) (S : Bytes) (n : Nat) (pcb : TcpPcb) : Prop where
  nxt : pcb.rcvNxt = pos isn n
  bound : n ≤ S.length
  wnd : pcb.rcvWnd ≤ tcpWnd
  queue : Queue isn S n (n + 2 ^ 18) pcb.ooseq

/-- An ACK is sent or asked for. -/
structure AckOnly (pcb pcb' : TcpPcb) : Prop where
  nxt : pcb'.rcvNxt = pcb.rcvNxt
  wnd : pcb'.rcvWnd = pcb.rcvWnd
  refused : pcb'.refused = pcb.refused
  rxClosed : pcb'.rxClosed = pcb.rxClosed
  state : pcb'.state = pcb.state
  ooseq : pcb'.ooseq = pcb.ooseq

theorem AckOnly.refl (pcb : TcpPcb) : AckOnly pcb pcb := ⟨rfl, rfl, rfl, rfl, rfl, rfl⟩

theorem tcpAckNow_ackOnly (pcb : TcpPcb) : AckOnly pcb pcb.tcpAckNow := ⟨rfl, rfl, rfl, rfl, rfl, rfl⟩

theorem tcpAck_ackOnly (pcb : TcpPcb) : AckOnly pcb pcb.tcpAck := by
  rw [tcpAck]
  split <;> exact ⟨rfl, rfl, rfl, rfl, rfl, rfl⟩

theorem tcpSendEmptyAck_ackOnly (pcb : TcpPcb) (mem : Bool) : AckOnly pcb (pcb.tcpSendEmptyAck mem) := by
  cases mem <;> exact ⟨rfl, rfl, rfl, rfl, rfl, rfl⟩

theorem AckOnly.upTo {pcb pcb' : TcpPcb} {n : Nat} (a : AckOnly pcb pcb') (h : UpTo isn S n pcb) :
    UpTo isn S n pcb' :=
  ⟨a.nxt.trans h.nxt, h.bound, a.wnd ▸ h.wnd, a.ooseq ▸ h.queue⟩

/-- Nothing is taken from the segment. -/
theorem AckOnly.taken {pcb pcb' : TcpPcb} {n : Nat} (a : AckOnly pcb pcb') (h : UpTo isn S n pcb) :
    Taken isn S pcb n n { pcb := pcb' } :=
  .refl (a.nxt.trans h.nxt) h.bound a.wnd a.refused a.rxClosed a.state

theorem Taken.ack {pcb pcb' : TcpPcb} {n m : Nat} {r : Received} (h : Taken isn S pcb n m r)
    (a : AckOnly r.pcb pcb') : Taken isn S pcb n m { r with pcb := pcb' } :=
  ⟨h.le, h.data, h.bound, a.nxt.trans h.nxt, h.fin, by rw [a.wnd]; exact h.wnd,
    a.refused.trans h.refused, a.rxClosed.trans h.rxClosed, by rw [a.state]; exact h.state⟩

/-- An ACK asked for before changes nothing. -/
theorem Taken.of_ack {pcb pcb' : TcpPcb} {n m : Nat} {r : Received} (h : Taken isn S pcb' n m r)
    (a : AckOnly pcb pcb') : Taken isn S pcb n m r :=
  ⟨h.le, h.data, h.bound, h.nxt, h.fin, by rw [← a.wnd]; exact h.wnd, h.refused.trans a.refused,
    h.rxClosed.trans a.rxClosed, by rw [← a.state]; exact h.state⟩

/-- A segment in sequence: the stream is taken at least up to its end or the right edge. -/
theorem receiveInSeq_spec {pcb : TcpPcb} {n : Nat} {g : TcpSeg} {r : Received}
    (h : UpTo isn S n pcb) (hg : Genuine isn S n g) (hshort : g.tcplen ≤ 65535)
    (hr : pcb.receiveInSeq g = some r) :
    ∃ m, Taken isn S pcb n m r ∧ (r.gotFin = false → Queue isn S m (m + 2 ^ 18) r.pcb.ooseq) ∧
      n + min g.len pcb.rcvWnd ≤ m ∧
      (g.fin = true → g.tcplen ≤ pcb.rcvWnd → r.gotFin = true) := by
  have hwnd : tcpWnd = 32768 := rfl
  have hw := h.wnd
  rw [receiveInSeq] at hr
  obtain ⟨g1, hg1, hgen1, htl1, hcase⟩ := trimInseg_genuine hg h.nxt hshort
  rw [hg1, Option.bind_eq_bind, Option.bind_some] at hr
  have htlen1 := hgen1.tcplen_eq
  obtain ⟨g2, q, hadj, hgen2, -, hlen2, hq, hfin2, hgo⟩ :=
    adjustOoseq_spec hgen1 (by omega) (by omega) h.queue (by omega)
  rw [hadj, Option.bind_eq_bind, Option.bind_some] at hr
  have htlen2 := hgen2.tcplen_eq
  have hb := g2.fin.toNat_le
  obtain ⟨r1, hr1, hr⟩ := Option.bind_eq_some_iff.1 hr
  obtain ⟨ht1, hf1⟩ := (Taken.refl h.nxt h.bound rfl rfl rfl rfl).take rfl hgen2
    (u16_of_le (by omega)) hr1
  obtain ⟨r2, hr2, hr⟩ := Option.bind_eq_some_iff.1 hr
  obtain ⟨m, hm, hT, hQ, hkeep, hhead⟩ := dequeue_taken ht1 (fun hb => hfin2 (by rw [← hf1]; exact hb))
    hq (by omega) hr2
  cases hr
  have ha := tcpAck_ackOnly r2.pcb
  refine ⟨m, hT.ack ha, fun hb => ?_, ?_, fun hf hfit => ?_⟩
  · show Queue isn S m (m + 2 ^ 18) r2.pcb.tcpAck.ooseq
    rw [ha.ooseq]
    exact (hQ hb).mono (Nat.le_refl _) (by omega)
  · have hlen : min g.len pcb.rcvWnd ≤ g1.len := by
      rcases hcase with ⟨rfl, -⟩ | ⟨hl, -⟩ <;> omega
    rcases hgo with ⟨hl, -⟩ | ⟨next, rest, rfl, hs, hl⟩
    · omega
    · have := hhead next rfl hs
      omega
  · rcases hcase with ⟨rfl, -⟩ | ⟨-, hov⟩
    · rcases hgo with ⟨-, hff⟩ | ⟨next, rest, rfl, -, -⟩
      · exact hkeep (by rw [hf1]; exact hff hf)
      · -- a segment with a FIN empties the queue
        rw [adjustOoseq, if_pos (.inr hf)] at hadj
        cases hadj
    · omega

theorem inWindow_eq {pcb : TcpPcb} {n off : Nat} (h : UpTo isn S n pcb) (h1 : off < n + 2 ^ 29)
    (h2 : n < off + 2 ^ 29) : pcb.inWindow (pos isn off) = decide (n ≤ off ∧ off < n + pcb.rcvWnd) := by
  have hw := h.wnd
  have hwnd : tcpWnd = 32768 := rfl
  rw [inWindow, Serial.between, rightEdge, h.nxt, pos_add, ge_pos (by omega) (by omega),
    le_pos_sub_one (by omega) (by omega), Bool.decide_and]

/-- A segment that is out of sequence is put in the queue. -/
theorem tcpQueueOoseq_spec {pcb pcb' : TcpPcb} {n off : Nat} {g : TcpSeg} {mem : Bool}
    (h : UpTo isn S n pcb) (hg : Genuine isn S off g) (hlo : n ≤ off) (hoff : off < n + pcb.rcvWnd)
    (hr : pcb.tcpQueueOoseq mem g = some pcb') :
    ∃ q, pcb' = { pcb with ooseq := q } ∧ Queue isn S n (n + 2 ^ 18) q := by
  have hw := h.wnd
  have hwnd : tcpWnd = 32768 := rfl
  have hsh := hg.short
  have htl := hg.tcplen_eq
  have hb := g.fin.toNat_le
  rw [tcpQueueOoseq] at hr
  split at hr
  · split at hr
    · cases hr
      exact ⟨[g], rfl, off, hlo, hg, by omega, fun _ => rfl, trivial⟩
    · obtain ⟨q, hq, hqueue⟩ := oosInsert_queue h.nxt hw hlo (by omega) hg (by omega) (by omega) hlo
        (Nat.le_refl _) h.queue
      rw [hq] at hr
      cases hr
      exact ⟨q, rfl, hqueue⟩
  · cases hr
    exact ⟨pcb.ooseq, rfl, h.queue⟩

/-- What `tcp_receive` does with a genuine segment: without what comes before `rcv_nxt`, the segment
starts at `o`. -/
theorem tcpReceive_eq {pcb : TcpPcb} {n off : Nat} {g : TcpSeg} (h : UpTo isn S n pcb)
    (hg : Genuine isn S off g) (h1 : off < n + 2 ^ 29) (h2 : n < off + 2 ^ 29) (hshort : g.tcplen ≤ 65535)
    (hacc : pcb.state.accepts = true) (htcp : 0 < g.tcplen) (mem : Mem) :
    ∃ pcb1 o g1, (pcb1 = pcb ∨ pcb1 = pcb.tcpAckNow) ∧ Genuine isn S o g1 ∧
      ((o = off ∧ g1 = g ∧ ¬ (off < n ∧ n < off + g.tcplen)) ∨
        (o = n ∧ off < n ∧ n + g1.len = off + g.len ∧ g1.fin = g.fin)) ∧
      pcb.tcpReceive mem g =
        if n ≤ o ∧ o < n + pcb.rcvWnd then
          if n = o then pcb1.receiveInSeq g1
          else do return { pcb := (← pcb1.tcpQueueOoseq mem.segCopy g1).tcpSendEmptyAck mem.ack }
        else some { pcb := pcb1.tcpSendEmptyAck mem.ack } := by
  obtain ⟨g1, hg1, hfront⟩ := trimFront_genuine hg h.nxt h1 h2 hshort
  obtain ⟨o, hgen, hnear1, hnear2, hcase⟩ : ∃ o, Genuine isn S o g1 ∧ o < n + 2 ^ 29 ∧ n < o + 2 ^ 29 ∧
      ((o = off ∧ g1 = g ∧ ¬ (off < n ∧ n < off + g.tcplen)) ∨
        (o = n ∧ off < n ∧ n + g1.len = off + g.len ∧ g1.fin = g.fin)) := by
    rcases hfront with ⟨rfl, hno⟩ | ⟨hlt, hgen, hlen, hfin⟩
    · exact ⟨off, hg, h1, h2, .inl ⟨rfl, rfl, hno⟩⟩
    · exact ⟨n, hgen, by omega, by omega, .inr ⟨rfl, hlt, hlen, hfin⟩⟩
  refine ⟨if (!pcb.startsBefore g && Serial.lt g.seqno pcb.rcvNxt) = true then pcb.tcpAckNow else pcb, o, g1,
    ?_, hgen, hcase, ?_⟩
  · split
    · exact .inr rfl
    · exact .inl rfl
  rw [tcpReceive, if_pos ⟨htcp, hacc⟩, hg1, Option.bind_eq_bind, Option.bind_some]
  -- an ACK that is asked for changes nothing
  generalize hp : (if (!pcb.startsBefore g && Serial.lt g.seqno pcb.rcvNxt) = true then pcb.tcpAckNow
    else pcb) = pcb1
  have ha : AckOnly pcb pcb1 := by
    subst hp
    split
    · exact tcpAckNow_ackOnly pcb
    · exact .refl pcb
  have h' := ha.upTo h
  have hwin : pcb1.inWindow g1.seqno = decide (n ≤ o ∧ o < n + pcb.rcvWnd) := by
    rw [hgen.seqno, inWindow_eq h' hnear1 hnear2, ha.wnd]
  have hseq : pcb1.rcvNxt = g1.seqno ↔ n = o := by
    rw [h'.nxt, hgen.seqno, pos_inj (by omega) (by omega)]
  dsimp only
  simp only [hwin, hseq, decide_eq_true_eq]
  rfl

/-- What `tcp_receive` takes from a genuine segment. From one that has the next byte, it takes all
that fits in the window. -/
theorem tcpReceive_spec {pcb : TcpPcb} {n off : Nat} {g : TcpSeg} {r : Received} {mem : Mem}
    (h : UpTo isn S n pcb) (hg : Genuine isn S off g) (h1 : off < n + 2 ^ 29) (h2 : n < off + 2 ^ 29)
    (hshort : g.tcplen ≤ 65535) (hacc : pcb.state.accepts = true)
    (hr : pcb.tcpReceive mem g = some r) :
    ∃ m, Taken isn S pcb n m r ∧ (r.gotFin = false → Queue isn S m (m + 2 ^ 18) r.pcb.ooseq) ∧
      (off ≤ n → n < off + g.tcplen → 0 < pcb.rcvWnd →
        min (off + g.len) (n + pcb.rcvWnd) ≤ m ∧
        (g.fin = true → off + g.tcplen ≤ n + pcb.rcvWnd → r.gotFin = true)) := by
  have htl := hg.tcplen_eq
  by_cases htcp : 0 < g.tcplen
  · obtain ⟨pcb1, o, g1, hp, hgen, hcase, heq⟩ := tcpReceive_eq h hg h1 h2 hshort hacc htcp mem
    rw [heq] at hr
    have ha : AckOnly pcb pcb1 := by
      rcases hp with rfl | rfl
      · exact .refl _
      · exact tcpAckNow_ackOnly pcb
    have h' := ha.upTo h
    have htl1 := hgen.tcplen_eq
    have hsh1 : g1.tcplen ≤ 65535 := by
      rcases hcase with ⟨-, rfl, -⟩ | ⟨-, hlt, hlen, hfin⟩
      · exact hshort
      · rw [htl1, hfin]
        omega
    split at hr
    · rename_i hwin
      split at hr
      · rename_i heq
        subst heq
        obtain ⟨m, hT, hQ, hm, hf⟩ := receiveInSeq_spec h' hgen hsh1 hr
        rw [ha.wnd] at hm hf
        refine ⟨m, hT.of_ack ha, hQ, fun hle hlt hpos => ?_⟩
        have hend : n + g1.len = off + g.len ∧ g1.fin = g.fin := by
          rcases hcase with ⟨rfl, rfl, -⟩ | ⟨-, -, hlen, hfin⟩
          · exact ⟨rfl, rfl⟩
          · exact ⟨hlen, hfin⟩
        refine ⟨by omega, fun hfin hfit => hf (hend.2.trans hfin) ?_⟩
        rw [htl1, hend.2]
        omega
      · obtain ⟨pcb2, hq2, hr⟩ := Option.bind_eq_some_iff.1 hr
        obtain ⟨q, rfl, hq⟩ := tcpQueueOoseq_spec h' hgen hwin.1 (by rw [ha.wnd]; exact hwin.2) hq2
        cases hr
        have ha2 := tcpSendEmptyAck_ackOnly { pcb1 with ooseq := q } mem.ack
        refine ⟨n, ((ha.taken h).ooseq q).ack ha2, fun _ => ?_, fun hle hlt hpos => ?_⟩
        · show Queue isn S n (n + 2 ^ 18) (TcpPcb.tcpSendEmptyAck _ _).ooseq
          rw [ha2.ooseq]
          exact hq
        · rcases hcase with ⟨rfl, rfl, hno⟩ | ⟨rfl, -⟩ <;> omega
    · rename_i hwin
      cases hr
      have ha2 := tcpSendEmptyAck_ackOnly pcb1 mem.ack
      refine ⟨n, (ha.taken h).ack ha2, fun _ => ?_, fun hle hlt hpos => ?_⟩
      · show Queue isn S n (n + 2 ^ 18) (pcb1.tcpSendEmptyAck mem.ack).ooseq
        rw [ha2.ooseq]
        exact h'.queue
      · rcases hcase with ⟨rfl, rfl, hno⟩ | ⟨rfl, -⟩ <;> omega
  · rw [tcpReceive, if_neg (fun hc => htcp hc.1)] at hr
    cases hr
    have ha : AckOnly pcb (if pcb.inWindow g.seqno then pcb else pcb.tcpAckNow) := by
      split
      · exact .refl pcb
      · exact tcpAckNow_ackOnly pcb
    refine ⟨n, ha.taken h, fun _ => ?_, fun hle hlt hpos => by omega⟩
    rw [ha.ooseq]
    exact h.queue

end Lwip
