import Tun2Simple.Lib.Pieces
import Tun2Simple.Lib.Run
import Tun2Simple.Lwip.Ip4Frag

/-!
# Reassembly

Whatever fragments come in, no assertion fails, the number of queued pbufs is counted right and stays
within `IP_REASS_MAX_PBUFS`, and the fragments of each datagram are kept in order and do not overlap
(`reass_inv`). A fragment completes a datagram exactly if it and the queued ones have all its bytes,
and what is returned then is that datagram (`ip4Reass_exact`).
-/

namespace Lwip

open Core Pieces Trans

/-! ## The queue of one datagram -/

/-- The fragment's place in its datagram. -/
def Frag.piece (f : Frag) : Piece UInt8 := ⟨f.start, f.data⟩

/-- The end does not overflow. -/
def Frag.Fits (f : Frag) : Prop := f.start + f.data.length < 65536

theorem Frag.stop_eq {f : Frag} (h : f.Fits) : f.stop = f.start + f.data.length := Nat.mod_eq_of_lt h

theorem Frag.piece_stop {f : Frag} (h : f.Fits) : f.piece.stop = f.stop := (f.stop_eq h).symm

/-- In order from `lo` on, without an overlap. -/
def Ordered (lo : Nat) (q : List Frag) : Prop := Ascending lo (q.map Frag.piece) ∧ ∀ f ∈ q, f.Fits

/-- There is no hole from `prev` on. -/
def linked : Option Frag → List Frag → Bool
  | _, [] => true
  | none, f :: fs => noHoles f fs
  | some r, fs => noHoles r fs

theorem Ordered.cons {lo : Nat} {f : Frag} {q : List Frag} :
    Ordered lo (f :: q) ↔ lo ≤ f.start ∧ f.Fits ∧ Ordered f.stop q := by
  constructor
  · rintro ⟨⟨hlo, hasc⟩, hfit⟩
    have hf := hfit f (List.mem_cons_self ..)
    rw [Frag.piece_stop hf] at hasc
    exact ⟨hlo, hf, hasc, fun g hg => hfit g (List.mem_cons_of_mem _ hg)⟩
  · rintro ⟨hlo, hf, hasc, hfit⟩
    refine ⟨⟨hlo, ?_⟩, fun g hg => ?_⟩
    · rw [Frag.piece_stop hf]
      exact hasc
    · rcases List.mem_cons.1 hg with rfl | hg
      · exact hf
      · exact hfit g hg

theorem Ordered.mono {lo lo' : Nat} {q : List Frag} (h : Ordered lo q) (hle : lo' ≤ lo) : Ordered lo' q :=
  ⟨h.1.mono hle, h.2⟩

/-- The fragments have a byte in common, or start at the same place. -/
def Frag.Overlaps (a b : Frag) : Prop := a.start = b.start ∨ (a.start < b.stop ∧ b.start < a.stop)

/-- What the loop does: the new fragment is put behind those that end before it, or it is dropped. -/
theorem chainLoop_spec {new : Frag} (hnew : new.Fits) {q : List Frag} {lo : Nat} (hq : Ordered lo q)
    (prev : Option Frag) (valid : Bool) (hprev : ∀ r ∈ prev, r.stop ≤ new.start)
    (hlo : lo ≤ new.start) :
    (∃ pre post, q = pre ++ post ∧ chainLoop new prev valid q =
        some (some ⟨pre ++ new :: post, post, valid && linked prev (pre ++ [new])⟩) ∧
        Ordered lo (pre ++ new :: post)) ∨
      (chainLoop new prev valid q = some none ∧ ∃ f ∈ q, new.Overlaps f) := by
  induction q generalizing lo prev valid with
  | nil =>
    left
    refine ⟨[], [], rfl, ?_, Ordered.cons.2 ⟨hlo, hnew, trivial, fun _ h => by cases h⟩⟩
    cases prev with
    | none => simp [chainLoop, linked, noHoles]
    | some r => simp [chainLoop, linked, noHoles, hprev r rfl]
  | cons f q ih =>
    obtain ⟨hf, hfit, hrest⟩ := Ordered.cons.1 hq
    have hstop := new.stop_eq hnew
    have hfstop := f.stop_eq hfit
    rw [chainLoop.eq_def]
    dsimp only
    by_cases hlt : new.start < f.start
    · rw [if_pos hlt]
      by_cases hov : f.start < new.stop
      · right
        refine ⟨?_, f, List.mem_cons_self .., .inr ⟨by omega, hov⟩⟩
        cases prev with
        | none => exact if_pos hov
        | some r => exact if_pos (.inr hov)
      · left
        refine ⟨[], f :: q, rfl, ?_, Ordered.cons.2 ⟨hlo, hnew, Ordered.cons.2 ⟨by omega, hfit, hrest⟩⟩⟩
        cases prev with
        | none => simp [linked, noHoles, hov]
        | some r =>
          have hr := hprev r rfl
          simp [linked, noHoles, hov, Nat.not_lt.2 hr]
    · rw [if_neg hlt]
      by_cases heq : new.start = f.start
      · right
        exact ⟨if_pos heq, f, List.mem_cons_self .., .inl heq⟩
      · rw [if_neg heq]
        by_cases hin : new.start < f.stop
        · right
          exact ⟨if_pos hin, f, List.mem_cons_self .., .inr ⟨hin, by omega⟩⟩
        · rw [if_neg hin]
          -- the loop goes on behind `f`
          have hprev' : ∀ r ∈ some f, r.stop ≤ new.start := by
            intro r hr
            cases hr
            omega
          rcases ih hrest (some f) (valid && prev.all fun r => r.stop == f.start) hprev' (by omega) with
            ⟨pre, post, rfl, hloop, hord⟩ | ⟨hloop, g, hg, hov⟩
          · left
            refine ⟨f :: pre, post, rfl, ?_, Ordered.cons.2 ⟨hf, hfit, hord⟩⟩
            rw [hloop]
            have hlinked : (valid && linked prev (f :: pre ++ [new])) =
                (valid && (prev.all fun r => r.stop == f.start) && linked (some f) (pre ++ [new])) := by
              cases prev with
              | none => cases pre <;> simp [linked]
              | some r => cases pre <;> simp [linked, noHoles, Bool.and_assoc]
            rw [hlinked]
            rfl
          · right
            rw [hloop]
            exact ⟨rfl, g, List.mem_cons_of_mem _ hg, hov⟩

theorem noHoles_eq {f : Frag} {q : List Frag} (h : ∀ g ∈ q, g.Fits) :
    noHoles f q = gapless f.stop (q.map Frag.piece) := by
  induction q generalizing f with
  | nil => rfl
  | cons g q ih =>
    rw [noHoles, List.map_cons, gapless, Frag.piece_stop (h g (List.mem_cons_self ..)),
      ih fun g hg => h g (List.mem_cons_of_mem _ hg)]
    congr 1
    exact Bool.beq_comm

theorem noHoles_append (f new : Frag) (pre post : List Frag) :
    noHoles f (pre ++ new :: post) = (noHoles f (pre ++ [new]) && noHoles new post) := by
  induction pre generalizing f with
  | nil => simp [noHoles]
  | cons g pre ih => simp only [List.cons_append, noHoles, ih, Bool.and_assoc]

/-- The checks of the validation part: the queue starts at 0 and has no hole. -/
theorem gapless_eq {new : Frag} {pre post : List Frag} (h : ∀ g ∈ pre ++ new :: post, g.Fits) :
    (linked none (pre ++ [new]) && ((pre ++ new :: post).head?.any fun q => q.start == 0) &&
      noHoles new post) = gapless 0 ((pre ++ new :: post).map Frag.piece) := by
  cases pre with
  | nil =>
    have hpost : ∀ g ∈ post, g.Fits := fun g hg => h g (List.mem_cons_of_mem _ hg)
    show (true && (new.start == 0) && noHoles new post) = _
    rw [Bool.true_and, noHoles_eq hpost, ← Frag.piece_stop (h new (List.mem_cons_self ..))]
    rfl
  | cons f pre =>
    have hrest : ∀ g ∈ pre ++ new :: post, g.Fits := fun g hg => h g (List.mem_cons_of_mem _ hg)
    show (noHoles f (pre ++ [new]) && (f.start == 0) && noHoles new post) = _
    rw [Bool.and_comm (noHoles f _), Bool.and_assoc, ← noHoles_append, noHoles_eq hrest,
      ← Frag.piece_stop (h f (List.mem_cons_self ..))]
    rfl

theorem Frag.start_lt (f : Frag) : f.start < 65536 := by
  have := f.off_lt
  unfold Frag.start
  omega

theorem Frag.fits_iff (f : Frag) : f.stop < f.start ↔ ¬ f.Fits := by
  have h1 := f.start_lt
  have h2 := f.len_lt
  have h3 := f.len_eq
  unfold Frag.Fits Frag.stop
  omega

/-- The state of a datagram in the queue: its fragments are in order, and the last one is known if it
has come. -/
structure ReassData.Sound (r : ReassData) : Prop where
  ordered : Ordered 0 r.p
  last : r.lastFrag = true → ∃ f ∈ r.p, f.hdr.mf = false ∧ r.datagramLen = f.stop
  short : r.lastFrag = true → r.datagramLen ≤ 0xffff - ipHlen
  seen : ∀ f ∈ r.p, f.hdr.mf = false → r.lastFrag = true
  mine : ∀ f ∈ r.p, r.iphdr.matches_ f.hdr = true

/-- A fragment is dropped, or put in its place. -/
theorem chainFrag_spec {r : ReassData} (h : r.Sound) (new : Frag) :
    (r.chainFrag new (!new.hdr.mf) = some (r, .pbufDropped) ∧
      (¬ new.Fits ∨ ∃ f ∈ r.p, new.Overlaps f)) ∨
    ∃ pre post, r.p = pre ++ post ∧ Ordered 0 (pre ++ new :: post) ∧
      r.chainFrag new (!new.hdr.mf) = some ({ r with p := pre ++ new :: post },
        if (!new.hdr.mf || r.lastFrag) && gapless 0 ((pre ++ new :: post).map Frag.piece) then
          .telegramFinished else .pbufQueued) := by
  rw [ReassData.chainFrag]
  by_cases hfits : new.Fits
  · rw [if_neg (by rw [Frag.fits_iff]; exact not_not_intro hfits)]
    rcases chainLoop_spec hfits h.ordered none true (fun _ hr => by cases hr) (Nat.zero_le _) with
      ⟨pre, post, hq, hloop, hord⟩ | ⟨hloop, hov⟩
    · right
      refine ⟨pre, post, hq, hord, ?_⟩
      rw [hloop]
      dsimp only
      rw [Bool.true_and, gapless_eq hord.2]
      by_cases hlast : (!new.hdr.mf || r.lastFrag) = true
      · rw [if_pos hlast, hlast, Bool.true_and]
        split
        · rename_i hgap
          -- a last fragment does not start at 0, so it is not the only one
          rw [if_neg]
          intro hone
          obtain ⟨rfl, rfl⟩ : pre = [] ∧ post = [] := by
            constructor <;> apply List.eq_nil_of_length_eq_zero <;>
              simp only [List.length_append, List.length_cons] at hone <;> omega
          rcases Bool.or_eq_true_iff.1 hlast with hmf | hseen
          · have hstart : new.start = 0 := by simpa [gapless, Frag.piece] using hgap
            rcases new.isFrag with hoff | hmf'
            · unfold Frag.start at hstart
              omega
            · simp [hmf'] at hmf
          · obtain ⟨f, hf, -⟩ := h.last hseen
            rw [hq] at hf
            cases hf
        · rfl
      · rw [if_neg hlast]
        have hno : (!new.hdr.mf || r.lastFrag) = false := by simpa using hlast
        rw [hno]
        rfl
    · left
      rw [hloop]
      exact ⟨rfl, .inr hov⟩
  · left
    rw [if_pos (by rw [Frag.fits_iff]; exact hfits)]
    exact ⟨rfl, .inl hfits⟩

/-! ## All datagrams -/

/-- The pbufs of these datagrams. -/
def clenOf (l : List ReassData) : Nat := (l.map ReassData.clen).sum

@[simp] theorem clenOf_nil : clenOf [] = 0 := rfl

@[simp] theorem clenOf_cons (r : ReassData) (l : List ReassData) : clenOf (r :: l) = r.clen + clenOf l := rfl

@[simp] theorem clenOf_append (l l' : List ReassData) : clenOf (l ++ l') = clenOf l + clenOf l' := by
  simp [clenOf]

/-- No two datagrams have the same addresses and id. -/
def Distinct (l : List ReassData) : Prop := l.Pairwise fun a b => a.iphdr.matches_ b.iphdr = false

/-- What holds of the queue in every run. -/
structure Reass.Inv (s : Reass) : Prop where
  count : s.pbufcount = clenOf s.reassdatagrams
  max : s.pbufcount ≤ ipReassMaxPbufs
  distinct : Distinct s.reassdatagrams
  sound : ∀ r ∈ s.reassdatagrams, r.Sound ∧ r.p ≠ []

theorem IpHdr.matches_iff {a b : IpHdr} :
    a.matches_ b = true ↔ a.src = b.src ∧ a.dest = b.dest ∧ a.id = b.id := by
  simp [IpHdr.matches_, and_assoc]

theorem IpHdr.matches_comm (a b : IpHdr) : a.matches_ b = b.matches_ a := by
  rw [Bool.eq_iff_iff, matches_iff, matches_iff]
  constructor <;> rintro ⟨h1, h2, h3⟩ <;> exact ⟨h1.symm, h2.symm, h3.symm⟩

theorem IpHdr.matches_congr {a b : IpHdr} (h : a.matches_ b = true) (c : IpHdr) :
    a.matches_ c = b.matches_ c := by
  obtain ⟨h1, h2, h3⟩ := matches_iff.1 h
  simp only [IpHdr.matches_, h1, h2, h3]

/-- The datagrams that the fragment with this header does not belong to are freed, or none. -/
def Keeps (h : IpHdr) (s s' : Reass) : Prop :=
  s'.reassdatagrams.filter (fun r => r.iphdr.matches_ h) = s.reassdatagrams.filter fun r => r.iphdr.matches_ h

theorem freeCompleteDatagram_spec {s : Reass} {r : ReassData} (hle : r.clen ≤ s.pbufcount)
    (hmax : s.pbufcount ≤ ipReassMaxPbufs) (hp : r.p ≠ []) (rest : List ReassData) :
    ∃ s', s.freeCompleteDatagram r rest = some s' ∧ s'.reassdatagrams = rest ∧
      s'.pbufcount = s.pbufcount - r.clen := by
  have hm : ipReassMaxPbufs = 10 := rfl
  rw [Reass.freeCompleteDatagram]
  cases hq : r.p with
  | nil => exact absurd hq hp
  | cons f q =>
    dsimp only
    rw [if_neg (by omega)]
    exact ⟨_, rfl, rfl, rfl⟩

theorem Distinct.remove {l l' : List ReassData} {r : ReassData} (h : Distinct (l ++ r :: l')) :
    Distinct (l ++ l') :=
  h.sublist (List.Sublist.append_left (List.sublist_cons_self r l') l)

/-- Another datagram with the same addresses and id. -/
theorem Distinct.replace {l l' : List ReassData} {r x : ReassData} (h : Distinct (l ++ r :: l'))
    (hx : ∀ c, x.iphdr.matches_ c = r.iphdr.matches_ c) : Distinct (l ++ x :: l') := by
  rw [Distinct, List.pairwise_append, List.pairwise_cons] at h ⊢
  obtain ⟨hl, ⟨hrl, hl'⟩, hll⟩ := h
  refine ⟨hl, ⟨fun y hy => (hx _).trans (hrl y hy), hl'⟩, fun y hy z hz => ?_⟩
  rcases List.mem_cons.1 hz with rfl | hz
  · rw [IpHdr.matches_comm, hx, IpHdr.matches_comm]
    exact hll y hy r (List.mem_cons_self ..)
  · exact hll y hy z (List.mem_cons_of_mem _ hz)

theorem mem_of_remove {l l' : List ReassData} {r x : ReassData} (h : x ∈ l ++ l') : x ∈ l ++ r :: l' := by
  rcases List.mem_append.1 h with h | h
  · exact List.mem_append_left _ h
  · exact List.mem_append_right _ (List.mem_cons_of_mem _ h)

theorem Reass.Inv.remove {s s' : Reass} {l l' : List ReassData} {r : ReassData} (h : s.Inv)
    (hl : s.reassdatagrams = l ++ r :: l') (hs : s'.reassdatagrams = l ++ l')
    (hc : s'.pbufcount = clenOf (l ++ l')) (hle : s'.pbufcount ≤ s.pbufcount) : s'.Inv where
  count := by rw [hs, hc]
  max := Nat.le_trans hle h.max
  distinct := by
    rw [hs]
    exact (hl ▸ h.distinct).remove
  sound x hx := by
    refine h.sound x ?_
    rw [hs] at hx
    rw [hl]
    exact mem_of_remove hx

/-- The oldest datagram is one of the others. -/
theorem oldest_spec {h : IpHdr} {l : List ReassData} {i j : Nat} {best : Option (Nat × Nat)}
    (hj : Reass.oldest h i best l = some j) :
    (∃ t, best = some (j, t)) ∨
      ∃ a r b, l = a ++ r :: b ∧ j = i + a.length ∧ r.iphdr.matches_ h = false := by
  induction l generalizing i best with
  | nil =>
    obtain ⟨⟨k, t⟩, hb, rfl⟩ := Option.map_eq_some_iff.1 hj
    exact .inl ⟨t, hb⟩
  | cons r l ih =>
    unfold Reass.oldest at hj
    rcases ih hj with ⟨t, hb⟩ | ⟨a, x, b, rfl, rfl, hx⟩
    · split at hb
      · exact .inl ⟨t, hb⟩
      · rename_i hr
        have hr' : r.iphdr.matches_ h = false := by simpa using hr
        split at hb
        · cases hb
          exact .inr ⟨[], r, l, rfl, rfl, hr'⟩
        · split at hb
          · cases hb
            exact .inr ⟨[], r, l, rfl, rfl, hr'⟩
          · exact .inl ⟨t, hb⟩
    · exact .inr ⟨r :: a, x, b, rfl, by simp; omega, hx⟩

/-- Datagrams are freed, but not the fragment's own one. -/
theorem removeOldestDatagram_spec {s : Reass} (hs : s.Inv) (h : IpHdr) (needed turns freed : Nat) :
    ∃ s' n, Reass.removeOldestDatagram h needed turns s freed = some (s', n) ∧ s'.Inv ∧ Keeps h s s' ∧
      s'.pbufcount ≤ s.pbufcount ∧ s'.reassdatagrams.Sublist s.reassdatagrams := by
  induction turns generalizing s freed with
  | zero => exact ⟨s, freed, rfl, hs, rfl, Nat.le_refl _, List.Sublist.refl _⟩
  | succ turns ih =>
    rw [Reass.removeOldestDatagram]
    cases ho : Reass.oldest h 0 none s.reassdatagrams with
    | none => exact ⟨s, freed, rfl, hs, rfl, Nat.le_refl _, List.Sublist.refl _⟩
    | some i =>
      obtain ⟨t, hb⟩ | ⟨a, r, b, hl, rfl, hr⟩ := oldest_spec ho
      · cases hb
      have hget : s.reassdatagrams[0 + a.length]? = some r := by
        rw [hl, Nat.zero_add, List.getElem?_append_right (Nat.le_refl _), Nat.sub_self]
        rfl
      have herase : s.reassdatagrams.eraseIdx (0 + a.length) = a ++ b := by
        rw [hl, Nat.zero_add, List.eraseIdx_append_of_length_le (Nat.le_refl _), Nat.sub_self]
        rfl
      have hmem : r ∈ s.reassdatagrams := by simp [hl]
      have hcount := hs.count
      rw [hl, clenOf_append, clenOf_cons] at hcount
      obtain ⟨s1, h1, hl1, hc1⟩ := freeCompleteDatagram_spec (by omega) hs.max (hs.sound r hmem).2 (a ++ b)
      have hle1 : s1.pbufcount ≤ s.pbufcount := by omega
      have hi1 := hs.remove hl hl1 (by rw [clenOf_append]; omega) hle1
      have hk1 : Keeps h s s1 := by
        rw [Keeps, hl1, hl, List.filter_append, List.filter_append, List.filter_cons_of_neg (by simp [hr])]
      have hsub1 : s1.reassdatagrams.Sublist s.reassdatagrams := by
        rw [hl1, hl]
        exact List.Sublist.append_left (List.sublist_cons_self r b) a
      dsimp only
      rw [hget]
      dsimp only
      rw [herase, h1]
      dsimp only
      split
      · obtain ⟨s', n, hs', hi', hk', hle', hsub'⟩ := ih hi1 (freed + r.clen)
        exact ⟨s', n, hs', hi', hk'.trans hk1, Nat.le_trans hle' hle1, hsub'.trans hsub1⟩
      · exact ⟨s1, _, rfl, hi1, hk1, hle1, hsub1⟩

/-- If the fragment may be enqueued, there is room for its pbufs. -/
theorem makeRoom_spec {s : Reass} (hs : s.Inv) (p : Frag) :
    ∃ s' ok, s.makeRoom p = some (s', ok) ∧ s'.Inv ∧ Keeps p.hdr s s' ∧
      (ok = true → s'.pbufcount + p.clen ≤ ipReassMaxPbufs) ∧
      (s.pbufcount + p.clen ≤ ipReassMaxPbufs → s' = s) ∧
      s'.reassdatagrams.Sublist s.reassdatagrams := by
  rw [Reass.makeRoom]
  split
  · obtain ⟨s', n, hr, hi, hk, -, hsub⟩ := removeOldestDatagram_spec hs p.hdr p.clen s.reassdatagrams.length 0
    rw [hr]
    refine ⟨s', _, rfl, hi, hk, fun hok => ?_, fun hroom => ?_, hsub⟩
    · exact of_decide_eq_true (Bool.and_eq_true_iff.1 hok).2
    · omega
  · exact ⟨s, true, rfl, hs, rfl, fun _ => by omega, fun _ => rfl, List.Sublist.refl _⟩

/-- The fragment's datagram and its place. -/
theorem find_spec {h : IpHdr} {l : List ReassData} :
    (Reass.find h l = none ∧ ∀ r ∈ l, r.iphdr.matches_ h = false) ∨
      ∃ a r b, l = a ++ r :: b ∧ Reass.find h l = some (a.length, r) ∧ r.iphdr.matches_ h = true := by
  induction l with
  | nil => exact .inl ⟨rfl, fun _ hr => by cases hr⟩
  | cons r l ih =>
    rw [Reass.find]
    by_cases hr : r.iphdr.matches_ h = true
    · exact .inr ⟨[], r, l, rfl, if_pos hr, hr⟩
    · rw [if_neg hr]
      rcases ih with ⟨hn, hall⟩ | ⟨a, x, b, rfl, hf, hx⟩
      · left
        rw [hn]
        refine ⟨rfl, fun x hx => ?_⟩
        rcases List.mem_cons.1 hx with rfl | hx
        · simpa using hr
        · exact hall x hx
      · right
        rw [hf]
        exact ⟨r :: a, x, b, rfl, rfl, hx⟩

/-! ### A fragment in its datagram -/

/-- The datagram with the new fragment between `pre` and `post`. -/
def ReassData.insert (r : ReassData) (pre post : List Frag) (new : Frag) : ReassData :=
  { r with p := pre ++ new :: post }.lastSeen (!new.hdr.mf) new.stop

theorem ReassData.insert_p (r : ReassData) (pre post : List Frag) (new : Frag) :
    (r.insert pre post new).p = pre ++ new :: post := by
  rw [insert, lastSeen]
  split <;> rfl

theorem ReassData.insert_iphdr (r : ReassData) (pre post : List Frag) (new : Frag) :
    (r.insert pre post new).iphdr = r.iphdr := by
  rw [insert, lastSeen]
  split <;> rfl

theorem ReassData.insert_timer (r : ReassData) (pre post : List Frag) (new : Frag) :
    (r.insert pre post new).timer = r.timer := by
  rw [insert, lastSeen]
  split <;> rfl

theorem ReassData.insert_clen {r : ReassData} {pre post : List Frag} (h : r.p = pre ++ post) (new : Frag) :
    (r.insert pre post new).clen = r.clen + new.clen := by
  rw [clen, clen, insert_p, h]
  simp only [List.map_append, List.map_cons, List.sum_append, List.sum_cons]
  omega

theorem ReassData.Sound.insert {r : ReassData} {pre post : List Frag} {new : Frag} (h : r.Sound)
    (hp : r.p = pre ++ post) (hord : Ordered 0 (pre ++ new :: post))
    (hm : r.iphdr.matches_ new.hdr = true) (hs : new.hdr.mf = false → new.stop ≤ 0xffff - ipHlen) :
    (r.insert pre post new).Sound := by
  have hmem : ∀ f, f ∈ pre ++ new :: post ↔ f = new ∨ f ∈ r.p := by
    intro f
    rw [hp]
    simp only [List.mem_append, List.mem_cons]
    exact or_left_comm
  refine ⟨by rwa [insert_p], fun hl => ?_, fun hl => ?_, fun f hf hmf => ?_, fun f hf => ?_⟩
  · rw [insert_p]
    rw [ReassData.insert, lastSeen] at hl ⊢
    cases hmf : new.hdr.mf with
    | false => exact ⟨new, (hmem _).2 (.inl rfl), hmf, rfl⟩
    | true =>
      rw [hmf] at hl
      obtain ⟨f, hf, hfm, hlen⟩ := h.last hl
      exact ⟨f, (hmem _).2 (.inr hf), hfm, hlen⟩
  · rw [ReassData.insert, lastSeen] at hl ⊢
    cases hmf : new.hdr.mf with
    | false => exact hs hmf
    | true =>
      rw [hmf] at hl
      exact h.short hl
  · rw [insert_p, hmem] at hf
    rw [ReassData.insert, lastSeen]
    rcases hf with rfl | hf
    · rw [hmf]
      rfl
    · split
      · rfl
      · exact h.seen f hf hmf
  · rw [insert_p, hmem] at hf
    rw [insert_iphdr]
    rcases hf with rfl | hf
    · exact hm
    · exact h.mine f hf

/-- All fragments are there. -/
def ReassData.complete (r : ReassData) : Bool := r.lastFrag && gapless 0 (r.p.map Frag.piece)

/-- What becomes of the datagram `ipr`, between `a` and `b`, with the fragment `p`. -/
inductive Outcome (a b : List ReassData) (ipr : ReassData) (p : Frag) (s' : Reass) :
    Option Datagram → Prop
  | dropped (why : ¬ p.Fits ∨ (p.hdr.mf = false ∧ 0xffff - ipHlen < p.stop) ∨ ∃ f ∈ ipr.p, p.Overlaps f)
      (queue : s'.reassdatagrams = if ipr.p = [] then a ++ b else a ++ ipr :: b) : Outcome a b ipr p s' none
  | queued {pre post : List Frag} (split : ipr.p = pre ++ post) (sound : (ipr.insert pre post p).Sound)
      (open_ : (ipr.insert pre post p).complete = false)
      (queue : s'.reassdatagrams = a ++ ipr.insert pre post p :: b) : Outcome a b ipr p s' none
  | finished {pre post : List Frag} (split : ipr.p = pre ++ post) (sound : (ipr.insert pre post p).Sound)
      (done : (ipr.insert pre post p).complete = true) (queue : s'.reassdatagrams = a ++ b) :
      Outcome a b ipr p s' (some (ipr.insert pre post p).datagram)

/-- The datagram `ipr` is the one at the end of `a`, or will be if it is new. -/
structure Placing (s : Reass) (a b : List ReassData) (r ipr : ReassData) (p : Frag) : Prop where
  list : s.reassdatagrams = a ++ r :: b
  count : s.pbufcount = clenOf a + ipr.clen + clenOf b
  room : s.pbufcount + p.clen ≤ ipReassMaxPbufs
  distinct : Distinct (a ++ ipr :: b)
  others : ∀ x ∈ a ++ b, x.Sound ∧ x.p ≠ []
  sound : ipr.Sound
  mine : ipr.iphdr.matches_ p.hdr = true
  new : ipr.p = [] → a = []

namespace Placing

variable {s : Reass} {a b : List ReassData} {r ipr : ReassData} {p : Frag} (h : Placing s a b r ipr p)
include h

theorem set_eq (x : ReassData) : s.reassdatagrams.set a.length x = a ++ x :: b := by
  rw [h.list, List.set_append_right _ _ (Nat.le_refl _), Nat.sub_self]
  rfl

theorem eraseIdx_eq : s.reassdatagrams.eraseIdx a.length = a ++ b := by
  rw [h.list, List.eraseIdx_append_of_length_le (Nat.le_refl _), Nat.sub_self]
  rfl

/-- The datagram is changed, or put in the list. -/
theorem inv_set {s' : Reass} {x : ReassData} (hl : s'.reassdatagrams = a ++ x :: b)
    (hc : s'.pbufcount = clenOf a + x.clen + clenOf b) (hmax : s'.pbufcount ≤ ipReassMaxPbufs)
    (hhdr : x.iphdr = ipr.iphdr) (hx : x.Sound) (hp : x.p ≠ []) : s'.Inv where
  count := by
    rw [hc, hl, clenOf_append, clenOf_cons, Nat.add_assoc]
  max := hmax
  distinct := by
    rw [hl]
    exact h.distinct.replace fun c => by rw [hhdr]
  sound y hy := by
    rw [hl] at hy
    rcases List.mem_append.1 hy with hy | hy
    · exact h.others y (List.mem_append_left _ hy)
    · rcases List.mem_cons.1 hy with rfl | hy
      · exact ⟨hx, hp⟩
      · exact h.others y (List.mem_append_right _ hy)

/-- The datagram is taken out of the list. -/
theorem inv_remove {s' : Reass} (hl : s'.reassdatagrams = a ++ b) (hc : s'.pbufcount = clenOf a + clenOf b)
    (hmax : s'.pbufcount ≤ ipReassMaxPbufs) : s'.Inv where
  count := by rw [hc, hl, clenOf_append]
  max := hmax
  distinct := hl ▸ h.distinct.remove
  sound y hy := h.others y (hl ▸ hy)

theorem nullreturnIpr_spec :
    ∃ s', s.nullreturnIpr a.length ipr = some (s', none) ∧ s'.Inv ∧
      s'.reassdatagrams = if ipr.p = [] then a ++ b else a ++ ipr :: b := by
  have hroom := h.room
  rw [Reass.nullreturnIpr]
  by_cases hp : ipr.p = []
  · have hclen : ipr.clen = 0 := by rw [ReassData.clen, hp]; rfl
    have hc := h.count
    rw [if_pos hp, if_pos hp, if_pos (by rw [h.new hp]; rfl), h.eraseIdx_eq]
    exact ⟨_, rfl, h.inv_remove rfl (by show s.pbufcount = _; omega)
      (by show s.pbufcount ≤ _; omega), rfl⟩
  · rw [if_neg hp, if_neg hp, h.set_eq]
    exact ⟨_, rfl, h.inv_set rfl h.count (by show s.pbufcount ≤ _; omega) rfl h.sound hp, rfl⟩

end Placing

theorem intoDatagram_spec {s : Reass} {a b : List ReassData} {r ipr : ReassData} {p : Frag}
    (h : Placing s a b r ipr p) :
    ∃ s' out, s.intoDatagram a.length ipr p = some (s', out) ∧ s'.Inv ∧ Outcome a b ipr p s' out := by
  have hroom := h.room
  have hmax : ipReassMaxPbufs = 10 := rfl
  have hcount := h.count
  obtain ⟨s0, h0, hi0, hl0⟩ := h.nullreturnIpr_spec
  unfold Reass.intoDatagram
  dsimp only
  by_cases hbig : (!p.hdr.mf) = true ∧
      ((p.start + p.data.length) % 65536 < p.start ∨ 0xffff - ipHlen < (p.start + p.data.length) % 65536)
  · rw [if_pos hbig, h0]
    refine ⟨s0, none, rfl, hi0, .dropped ?_ hl0⟩
    obtain ⟨hmf, hlt | hlong⟩ := hbig
    · exact .inl (p.fits_iff.1 hlt)
    · exact .inr (.inl ⟨by simpa using hmf, hlong⟩)
  · rw [if_neg hbig]
    rcases chainFrag_spec h.sound p with ⟨hc, hwhy⟩ | ⟨pre, post, hp, hord, hc⟩
    · rw [hc]
      exact ⟨s0, none, h0, hi0, .dropped (hwhy.imp_right .inr) hl0⟩
    · have hshort : p.hdr.mf = false → p.stop ≤ 0xffff - ipHlen := by
        intro hmf
        unfold Frag.stop
        simp only [hmf, Bool.not_false, true_and] at hbig
        omega
      have hsound := h.sound.insert hp hord h.mine hshort
      have hclen := ReassData.insert_clen hp p
      have hmod : (s.pbufcount + p.clen) % 65536 = s.pbufcount + p.clen := Nat.mod_eq_of_lt (by omega)
      have hdone : (ipr.insert pre post p).complete =
          ((!p.hdr.mf || ipr.lastFrag) && gapless 0 ((pre ++ p :: post).map Frag.piece)) := by
        rw [ReassData.complete, ReassData.insert_p, ReassData.insert, ReassData.lastSeen]
        cases p.hdr.mf <;> rfl
      rw [hc]
      cases hb : (ipr.insert pre post p).complete with
      | false =>
        rw [← hdone, hb]
        refine ⟨_, none, rfl, ?_, .queued hp hsound hb (h.set_eq _)⟩
        refine h.inv_set (h.set_eq _) ?_ ?_ (ReassData.insert_iphdr ..) hsound ?_
        · show (s.pbufcount + p.clen) % 65536 = clenOf a + (ipr.insert pre post p).clen + clenOf b
          omega
        · show (s.pbufcount + p.clen) % 65536 ≤ ipReassMaxPbufs
          omega
        · show (ipr.insert pre post p).p ≠ []
          rw [ReassData.insert_p]
          simp
      | true =>
        rw [← hdone, hb, if_pos rfl]
        have hle : ¬ (s.pbufcount + p.clen) % 65536 < (ipr.insert pre post p).clen := by omega
        dsimp only
        rw [show ({ ipr with p := pre ++ p :: post } : ReassData).lastSeen (!p.hdr.mf)
          ((p.start + p.data.length) % 65536) = ipr.insert pre post p from rfl, if_neg hle]
        refine ⟨_, _, rfl, h.inv_remove h.eraseIdx_eq ?_ ?_, .finished hp hsound hb h.eraseIdx_eq⟩
        · show (s.pbufcount + p.clen) % 65536 - (ipr.insert pre post p).clen = clenOf a + clenOf b
          omega
        · show (s.pbufcount + p.clen) % 65536 - (ipr.insert pre post p).clen ≤ ipReassMaxPbufs
          omega

/-! ### `ip4_reass` -/

/-- The fragments that are queued of the datagram with this header. -/
def Reass.queued (s : Reass) (h : IpHdr) : List Frag :=
  (s.reassdatagrams.filter fun r => r.iphdr.matches_ h).flatMap ReassData.p

theorem filter_eq_nil {h : IpHdr} {l : List ReassData} (hl : ∀ r ∈ l, r.iphdr.matches_ h = false) :
    (l.filter fun r => r.iphdr.matches_ h) = [] :=
  List.filter_eq_nil_iff.2 fun r hr => by simp [hl r hr]

theorem Reass.queued_eq {s : Reass} {a b : List ReassData} {r : ReassData} {h : IpHdr}
    (hl : s.reassdatagrams = a ++ r :: b) (hr : r.iphdr.matches_ h = true)
    (hno : ∀ x ∈ a ++ b, x.iphdr.matches_ h = false) : s.queued h = r.p := by
  rw [queued, hl, List.filter_append, List.filter_cons, if_pos hr,
    filter_eq_nil fun x hx => hno x (List.mem_append_left _ hx),
    filter_eq_nil fun x hx => hno x (List.mem_append_right _ hx)]
  simp

theorem Reass.queued_nil {s : Reass} {h : IpHdr}
    (hno : ∀ x ∈ s.reassdatagrams, x.iphdr.matches_ h = false) : s.queued h = [] := by
  rw [queued, filter_eq_nil hno]
  rfl

theorem Keeps.queued {h : IpHdr} {s s' : Reass} (hk : Keeps h s s') : s'.queued h = s.queued h := by
  rw [Reass.queued, hk]
  rfl

theorem Keeps.none {h : IpHdr} {s s' : Reass} (hk : Keeps h s s')
    (hno : ∀ x ∈ s.reassdatagrams, x.iphdr.matches_ h = false) :
    ∀ x ∈ s'.reassdatagrams, x.iphdr.matches_ h = false := by
  intro x hx
  rw [Keeps, filter_eq_nil hno] at hk
  simpa using List.filter_eq_nil_iff.1 hk x hx

/-- The other datagrams have other headers. -/
theorem Distinct.others {a b : List ReassData} {r : ReassData} {h : IpHdr} (hd : Distinct (a ++ r :: b))
    (hr : r.iphdr.matches_ h = true) : ∀ x ∈ a ++ b, x.iphdr.matches_ h = false := by
  rw [Distinct, List.pairwise_append, List.pairwise_cons] at hd
  intro x hx
  rw [IpHdr.matches_comm, ← IpHdr.matches_congr hr]
  rcases List.mem_append.1 hx with hx | hx
  · rw [IpHdr.matches_comm]
    exact hd.2.2 x hx r (List.mem_cons_self ..)
  · exact hd.2.1.1 x hx

/-- No datagram has to be freed for the fragment. -/
def Reass.HasRoom (s : Reass) (mem : Malloc) (p : Frag) : Prop :=
  s.pbufcount + p.clen ≤ ipReassMaxPbufs ∧ mem.first = true

instance (s : Reass) (mem : Reass.Malloc) (p : Frag) : Decidable (s.HasRoom mem p) :=
  inferInstanceAs (Decidable (_ ∧ _))

/-- The datagram `ipr` that the fragment `p` goes into, with the others before and behind it. -/
structure Arrival (s : Reass) (mem : Reass.Malloc) (p : Frag) (a b : List ReassData) (ipr : ReassData) :
    Prop where
  queue : ipr.p = s.queued p.hdr
  hdr : ipr.iphdr = p.hdr ∨
    ∃ r ∈ s.reassdatagrams, r.iphdr.matches_ p.hdr = true ∧ ipr.iphdr = r.iphdr
  timer : ipr.timer = ipReassMaxage ∨
    ∃ r ∈ s.reassdatagrams, r.iphdr.matches_ p.hdr = true ∧ ipr.timer = r.timer
  mine : ipr.iphdr.matches_ p.hdr = true
  sound : ipr.Sound
  others : ∀ x ∈ a ++ b, x.iphdr.matches_ p.hdr = false
  frame : s.HasRoom mem p → a ++ b = s.reassdatagrams.filter fun r => !r.iphdr.matches_ p.hdr
  sub : (a ++ b).Sublist s.reassdatagrams

theorem filter_others {a b : List ReassData} {r : ReassData} {h : IpHdr} (hr : r.iphdr.matches_ h = true)
    (hno : ∀ x ∈ a ++ b, x.iphdr.matches_ h = false) :
    (a ++ r :: b).filter (fun x => !x.iphdr.matches_ h) = a ++ b := by
  rw [List.filter_append, List.filter_cons_of_neg (by simp [hr]), ← List.filter_append]
  exact List.filter_eq_self.2 fun x hx => by simp [hno x hx]

theorem keepHdr_spec {r : ReassData} {p : Frag} (h : r.Sound) (hr : r.iphdr.matches_ p.hdr = true) :
    (Reass.keepHdr r p).p = r.p ∧ (Reass.keepHdr r p).Sound ∧
      (Reass.keepHdr r p).iphdr.matches_ p.hdr = true ∧
      ((Reass.keepHdr r p).iphdr = p.hdr ∨ (Reass.keepHdr r p).iphdr = r.iphdr) ∧
      (Reass.keepHdr r p).timer = r.timer := by
  rw [Reass.keepHdr]
  split
  · refine ⟨rfl, ⟨h.ordered, h.last, h.short, h.seen, fun f hf => ?_⟩, ?_, .inl rfl, rfl⟩
    · rw [← IpHdr.matches_congr hr]
      exact h.mine f hf
    · exact IpHdr.matches_iff.2 ⟨rfl, rfl, rfl⟩
  · exact ⟨rfl, h, hr, .inr rfl, rfl⟩

theorem sound_new (h : IpHdr) : ({ iphdr := h } : ReassData).Sound where
  ordered := ⟨trivial, fun _ hf => (by cases hf)⟩
  last hl := by cases hl
  short hl := by cases hl
  seen _ hf := by cases hf
  mine _ hf := by cases hf

/-- A new datagram. -/
theorem placing_new {s : Reass} {l : List ReassData} (p : Frag) (hi : s.Inv)
    (hno : ∀ x ∈ s.reassdatagrams, x.iphdr.matches_ p.hdr = false) (hl : s.reassdatagrams = l)
    (hroom : s.pbufcount + p.clen ≤ ipReassMaxPbufs) :
    Placing { s with reassdatagrams := { iphdr := p.hdr } :: l } [] l { iphdr := p.hdr } { iphdr := p.hdr }
      p := by
  subst hl
  refine ⟨rfl, ?_, hroom, List.pairwise_cons.2 ⟨fun x hx => ?_, hi.distinct⟩, hi.sound, sound_new _,
    IpHdr.matches_iff.2 ⟨rfl, rfl, rfl⟩, fun _ => rfl⟩
  · show s.pbufcount = 0 + 0 + clenOf s.reassdatagrams
    rw [hi.count]
    omega
  · rw [IpHdr.matches_comm]
    exact hno x hx

/-- What `ip4_reass` does: the fragment is refused, or it goes into its datagram. -/
theorem ip4Reass_spec {s : Reass} (hs : s.Inv) (mem : Reass.Malloc) (p : Frag) :
    ∃ s' out, s.ip4Reass mem p = some (s', out) ∧ s'.Inv ∧
      ((out = none ∧ ¬ (p.hdr.hlBytes = ipHlen ∧ s.HasRoom mem p) ∧
          s'.reassdatagrams.Sublist s.reassdatagrams) ∨
        ∃ a b ipr, Arrival s mem p a b ipr ∧ Outcome a b ipr p s' out) := by
  rw [Reass.ip4Reass]
  by_cases hhl : p.hdr.hlBytes = ipHlen
  swap
  · rw [if_pos hhl]
    exact ⟨s, none, rfl, hs, .inl ⟨rfl, fun h => hhl h.1, List.Sublist.refl _⟩⟩
  rw [if_neg (not_not_intro hhl)]
  obtain ⟨s1, ok, hmk, hi1, hk1, hok, hkeep, hsub1⟩ := makeRoom_spec hs p
  rw [hmk]
  cases ok with
  | false =>
    refine ⟨s1, none, rfl, hi1, .inl ⟨rfl, fun h => ?_, hsub1⟩⟩
    have hroom := h.2.1
    rw [Reass.makeRoom, if_neg (by omega)] at hmk
    cases hmk
  | true =>
    have hroom := hok rfl
    dsimp only
    rcases find_spec (h := p.hdr) (l := s1.reassdatagrams) with ⟨hf, hno⟩ | ⟨a, r, b, hl, hf, hr⟩
    · -- the first fragment of its datagram
      have hq : ([] : List Frag) = s.queued p.hdr := by rw [← hk1.queued, Reass.queued_nil hno]
      rw [hf]
      dsimp only
      have hnew : ∀ s2 : Reass, s2.Inv → Keeps p.hdr s1 s2 → s2.pbufcount + p.clen ≤ ipReassMaxPbufs →
          (mem.first = true → s2 = s1) → s2.reassdatagrams.Sublist s.reassdatagrams → ∃ s' out, Reass.intoDatagram
              { s2 with reassdatagrams := { iphdr := p.hdr } :: s2.reassdatagrams } 0 { iphdr := p.hdr } p =
            some (s', out) ∧ s'.Inv ∧ ∃ a b ipr, Arrival s mem p a b ipr ∧ Outcome a b ipr p s' out := by
        intro s2 hi2 hk2 hroom2 hsame hsub2
        have hno2 := hk2.none hno
        obtain ⟨s', out, hr, hi', ho⟩ := intoDatagram_spec (placing_new p hi2 hno2 rfl hroom2)
        refine ⟨s', out, hr, hi', [], _, _, ⟨hq, .inl rfl, .inl rfl, IpHdr.matches_iff.2 ⟨rfl, rfl, rfl⟩,
          sound_new _, hno2, fun h => ?_, hsub2⟩, ho⟩
        rw [← hkeep h.1, ← hsame h.2]
        exact (List.filter_eq_self.2 fun x hx => by simp [hno2 x hx]).symm
      rw [Reass.enqueueNewDatagram]
      by_cases hmem : mem.first = true
      · rw [if_pos hmem]
        obtain ⟨s', out, hr, hi', ho⟩ := hnew s1 hi1 rfl hroom (fun _ => rfl) hsub1
        exact ⟨s', out, hr, hi', .inr ho⟩
      · rw [if_neg hmem]
        obtain ⟨s2, n, hrm, hi2, hk2, hle, hsub2⟩ :=
          removeOldestDatagram_spec hi1 p.hdr p.clen s1.reassdatagrams.length 0
        rw [hrm, Option.map_some]
        dsimp only
        by_cases hagain : p.clen ≤ n ∧ mem.second = true
        · obtain ⟨s', out, hr, hi', ho⟩ := hnew s2 hi2 hk2 (by omega) (fun h => absurd h hmem)
            (hsub2.trans hsub1)
          refine ⟨s', out, ?_, hi', .inr ho⟩
          rw [if_pos hagain]
          exact hr
        · rw [if_neg hagain]
          exact ⟨s2, none, rfl, hi2, .inl ⟨rfl, fun h => hmem h.2.2, hsub2.trans hsub1⟩⟩
    · have hmem : r ∈ s1.reassdatagrams := by simp [hl]
      obtain ⟨hp, hsound, hm, hhdr, htimer⟩ := keepHdr_spec (hi1.sound r hmem).1 hr
      have hothers := (hl ▸ hi1.distinct).others hr
      have hclen : (Reass.keepHdr r p).clen = r.clen := by rw [ReassData.clen, hp]; rfl
      have hplace : Placing s1 a b r (Reass.keepHdr r p) p := by
        refine ⟨hl, ?_, hroom, ?_, fun x hx => hi1.sound x ?_, hsound, hm, fun hnil => ?_⟩
        · rw [hi1.count, hl, clenOf_append, clenOf_cons, hclen, Nat.add_assoc]
        · exact (hl ▸ hi1.distinct).replace fun c => (IpHdr.matches_congr hm c).trans
            (IpHdr.matches_congr hr c).symm
        · rw [hl]
          exact mem_of_remove hx
        · exact absurd (hp.symm.trans hnil) (hi1.sound r hmem).2
      obtain ⟨s', out, hr', hi', ho⟩ := intoDatagram_spec hplace
      rw [hf]
      have hr1 : r ∈ s.reassdatagrams := by
        have hrs : r ∈ s1.reassdatagrams.filter fun r => r.iphdr.matches_ p.hdr :=
          List.mem_filter.2 ⟨hmem, hr⟩
        rw [hk1] at hrs
        exact (List.mem_filter.1 hrs).1
      refine ⟨s', out, hr', hi', .inr ⟨a, b, _, ⟨?_, ?_, .inr ⟨r, hr1, hr, htimer⟩, hm, hsound, hothers,
        fun h => ?_, ?_⟩, ho⟩⟩
      · rw [hp, ← hk1.queued, Reass.queued_eq hl hr hothers]
      · exact hhdr.imp_right fun h => ⟨r, hr1, hr, h⟩
      · rw [← hkeep h.1, hl, filter_others hr hothers]
      · apply List.Sublist.trans _ hsub1
        rw [hl]
        exact List.Sublist.append_left (List.sublist_cons_self r b) a

/-! ## What is returned -/

/-- The bytes of the fragments. -/
def bytesOf (q : List Frag) : Nat := (q.map fun f => f.data.length).sum

/-- `f` is a fragment of the datagram with the data `B`. -/
structure FragOf (B : Bytes) (f : Frag) : Prop where
  part : f.piece.PartOf B
  last : f.hdr.mf = false ↔ f.start + f.data.length = B.length

theorem total_map_piece (q : List Frag) : total (q.map Frag.piece) = bytesOf q := by
  induction q with
  | nil => rfl
  | cons f q ih =>
    rw [List.map_cons, total_cons, ih]
    rfl

theorem bytesOf_insert {q pre post : List Frag} (h : q = pre ++ post) (p : Frag) :
    bytesOf (pre ++ p :: post) = bytesOf q + p.data.length := by
  rw [h, bytesOf, bytesOf]
  simp only [List.map_append, List.map_cons, List.sum_append, List.sum_cons]
  omega

theorem FragOf.stop_le {B : Bytes} {f : Frag} (h : FragOf B f) : f.start + f.data.length ≤ B.length := h.part.2

/-- A queue of fragments of `B` is complete exactly if they have as many bytes. -/
theorem ReassData.complete_iff {B : Bytes} {r : ReassData} (h : r.Sound) (hp : r.p ≠ [])
    (hB : ∀ f ∈ r.p, FragOf B f) : r.complete = true ↔ bytesOf r.p = B.length := by
  have hstops : ∀ x ∈ r.p.map Frag.piece, x.stop ≤ B.length := by
    intro x hx
    obtain ⟨f, hf, rfl⟩ := List.mem_map.1 hx
    exact (hB f hf).stop_le
  rw [complete, Bool.and_eq_true, ← total_map_piece]
  constructor
  · rintro ⟨hlast, hgap⟩
    obtain ⟨f, hf, hmf, -⟩ := h.last hlast
    have hle := total_le h.ordered.1 (Nat.zero_le _) hstops
    have hge : f.start + f.data.length ≤ 0 + total (r.p.map Frag.piece) :=
      stop_le_of_gapless hgap (List.mem_map_of_mem hf)
    have hend := (hB f hf).last.1 hmf
    omega
  · intro htotal
    have hgap := gapless_of_total h.ordered.1 (Nat.zero_le _) hstops (by omega)
    refine ⟨?_, hgap⟩
    obtain ⟨x, hx, hstop⟩ := exists_stop_eq (mt List.map_eq_nil_iff.1 hp) 0
    obtain ⟨f, hf, rfl⟩ := List.mem_map.1 hx
    rw [stopOf_of_gapless hgap, htotal, Nat.zero_add] at hstop
    exact h.seen f hf ((hB f hf).last.2 hstop)

/-- The header of the whole datagram with `n` bytes of data. -/
def IpHdr.whole (h : IpHdr) (n : Nat) : IpHdr := { h with len := n + ipHlen, off := 0, mf := false, df := false }

/-- A complete queue of fragments of `B` is the datagram. -/
theorem ReassData.datagram_eq {B : Bytes} {r : ReassData} (h : r.Sound) (hp : r.p ≠ [])
    (hB : ∀ f ∈ r.p, FragOf B f) (hc : r.complete = true) :
    r.datagram = ⟨r.iphdr.whole B.length, B⟩ := by
  have hbytes := (complete_iff h hp hB).1 hc
  obtain ⟨hlast, hgap⟩ := Bool.and_eq_true_iff.1 hc
  obtain ⟨f, hf, hmf, hlen⟩ := h.last hlast
  have hshort := h.short hlast
  have hend := (hB f hf).last.1 hmf
  have hglue : r.p.flatMap Frag.data = glue (r.p.map Frag.piece) := by
    rw [glue, List.flatMap_map]
    rfl
  have hparts : ∀ x ∈ r.p.map Frag.piece, x.PartOf B := by
    intro x hx
    obtain ⟨g, hg, rfl⟩ := List.mem_map.1 hx
    exact (hB g hg).part
  have hdata : r.p.flatMap Frag.data = B := by
    rw [hglue, glue_eq hparts hgap, total_map_piece, hbytes, List.drop_zero, List.take_length]
  have hdlen : (r.datagramLen + ipHlen) % 65536 = B.length + ipHlen := by
    rw [hlen, Frag.stop_eq (h.ordered.2 f hf), hend] at hshort ⊢
    have : ipHlen = 20 := rfl
    omega
  rw [datagram, hdata, hdlen]
  rfl

theorem insert_mem {ipr : ReassData} {pre post : List Frag} {p f : Frag} (h : ipr.p = pre ++ post) :
    f ∈ (ipr.insert pre post p).p ↔ f = p ∨ f ∈ ipr.p := by
  rw [ReassData.insert_p, h]
  simp only [List.mem_append, List.mem_cons]
  exact or_left_comm

/-! ## Runs -/

theorem ReassData.Sound.timer {r : ReassData} (h : r.Sound) (t : Nat) :
    ({ r with timer := t } : ReassData).Sound := ⟨h.ordered, h.last, h.short, h.seen, h.mine⟩

/-- One datagram after the other; `l` are those that the timer has not looked at yet. -/
theorem foldlM_tmrStep_inv {l : List ReassData} {s : Reass}
    (hcount : s.pbufcount = clenOf (s.reassdatagrams ++ l)) (hmax : s.pbufcount ≤ ipReassMaxPbufs)
    (hd : Distinct (s.reassdatagrams ++ l))
    (hs : ∀ r ∈ s.reassdatagrams ++ l, r.Sound ∧ r.p ≠ []) :
    ∃ s', l.foldlM Reass.tmrStep s = some s' ∧ s'.Inv := by
  induction l generalizing s with
  | nil =>
    rw [List.append_nil] at hcount hd hs
    exact ⟨s, rfl, hcount, hmax, hd, hs⟩
  | cons r l ih =>
    obtain ⟨hr, hp⟩ := hs r (by simp)
    rw [List.foldlM_cons, Reass.tmrStep]
    split
    · rw [Option.bind_eq_bind, Option.bind_some]
      apply ih
      · rw [hcount]
        show _ = clenOf ((s.reassdatagrams ++ [_]) ++ l)
        simp only [clenOf_append, clenOf_cons, clenOf_nil]
        show _ = _ + (r.clen + 0) + _
        omega
      · exact hmax
      · show Distinct ((s.reassdatagrams ++ [_]) ++ l)
        rw [List.append_assoc]
        exact hd.replace fun _ => rfl
      · intro x hx
        rw [List.append_assoc] at hx
        rcases List.mem_append.1 hx with hx | hx
        · exact hs x (List.mem_append_left _ hx)
        · rcases List.mem_cons.1 hx with rfl | hx
          · exact ⟨hr.timer _, hp⟩
          · exact hs x (List.mem_append_right _ (List.mem_cons_of_mem _ hx))
    · rw [clenOf_append, clenOf_cons] at hcount
      obtain ⟨s1, h1, hl1, hc1⟩ := freeCompleteDatagram_spec (by omega) hmax hp s.reassdatagrams
      rw [h1, Option.bind_eq_bind, Option.bind_some]
      apply ih
      · rw [hc1, hl1, clenOf_append]
        omega
      · omega
      · rw [hl1]
        exact hd.remove
      · rw [hl1]
        exact fun x hx => hs x (mem_of_remove hx)

theorem ipReassTmr_inv {s : Reass} (h : s.Inv) : ∃ s', s.ipReassTmr = some s' ∧ s'.Inv := by
  rw [Reass.ipReassTmr]
  exact foldlM_tmrStep_inv h.count h.max h.distinct h.sound

theorem reass_step {s : Reass} (h : s.Inv) (a : Reass.Act) : ∃ s', s.step a = some s' ∧ s'.Inv := by
  cases a with
  | frag mem p =>
    obtain ⟨s', out, hr, hi, -⟩ := ip4Reass_spec h mem p
    rw [Reass.step, hr]
    exact ⟨s', rfl, hi⟩
  | tmr => exact ipReassTmr_inv h

theorem Reass.start_inv : ({} : Reass).Inv where
  count := rfl
  max := Nat.zero_le _
  distinct := List.Pairwise.nil
  sound _ hr := by cases hr

theorem reass_run {tr : List (Reass × Reass.Act)} {s : Reass} (h : Run Reass.step {} tr s) : s.Inv := by
  refine h.inv' Reass.start_inv fun s a s' hi hs => ?_
  obtain ⟨t, ht, hi'⟩ := reass_step hi a
  cases hs.symm.trans ht
  exact hi'

/-- In every run, whatever fragments come in: no assertion fails in the next step, the queued pbufs are
counted right and are at most `IP_REASS_MAX_PBUFS`, no two datagrams have the same addresses and id, and
the fragments of each one are its own, in order, without an overlap, and there are some. -/
theorem reass_inv {tr : List (Reass × Reass.Act)} {s : Reass} (h : Run Reass.step {} tr s) :
    (∀ a, (s.step a).isSome = true) ∧ s.pbufcount = clenOf s.reassdatagrams ∧
      s.pbufcount ≤ ipReassMaxPbufs ∧ Distinct s.reassdatagrams ∧
      ∀ r ∈ s.reassdatagrams, r.p ≠ [] ∧ Ordered 0 r.p ∧ ∀ f ∈ r.p, r.iphdr.matches_ f.hdr = true := by
  have hi := reass_run h
  refine ⟨fun a => ?_, hi.count, hi.max, hi.distinct, fun r hr => ?_⟩
  · obtain ⟨s', hs, -⟩ := reass_step hi a
    rw [hs]
    rfl
  · obtain ⟨hs, hp⟩ := hi.sound r hr
    exact ⟨hp, hs.ordered, hs.mine⟩

/-- Two fragments of a datagram with 20 bytes. -/
def tailFrag : Frag where
  hdr := { len := 24, id := 7, off := 2, src := 1, dest := 2 }
  data := [17, 18, 19, 20]
  len_eq := rfl
  len_lt := by decide
  off_lt := by decide
  clen_pos := by decide
  isFrag := .inl (by decide)

def headFrag : Frag where
  hdr := { len := 36, id := 7, mf := true, src := 1, dest := 2 }
  data := [1, 2, 3, 4, 5, 6, 7, 8, 9, 10, 11, 12, 13, 14, 15, 16]
  len_eq := rfl
  len_lt := by decide
  off_lt := by decide
  clen_pos := by decide
  isFrag := .inr rfl

theorem reass_inv_tail : ∃ tr s, Run Reass.step {} tr s ∧ s.queued headFrag.hdr = [tailFrag] ∧
    (s.step (.frag {} headFrag)).isSome = true ∧ s.pbufcount = clenOf s.reassdatagrams := by
  obtain ⟨s, hrun, hs⟩ := exists_run Reass.step {} [.frag {} tailFrag]
    (fun s => s.queued headFrag.hdr == [tailFrag]) (by decide)
  obtain ⟨hsome, hcount, -⟩ := reass_inv hrun
  exact ⟨_, s, hrun, by simpa using hs, hsome _, hcount⟩

/-- In every run: if the queued fragments of a datagram and the one that comes are fragments of `B`, a
datagram that is returned has the data `B`, with a header of its own. -/
theorem ip4Reass_sound {tr : List (Reass × Reass.Act)} {s s' : Reass} {mem : Reass.Malloc} {p : Frag}
    {d : Datagram} {B : Bytes} (h : Run Reass.step {} tr s) (hp : FragOf B p)
    (hq : ∀ f ∈ s.queued p.hdr, FragOf B f) (hr : s.ip4Reass mem p = some (s', some d)) :
    d.data = B ∧ d.hdr.matches_ p.hdr = true ∧ d.hdr.len = B.length + ipHlen ∧ d.hdr.off = 0 ∧
      d.hdr.mf = false := by
  obtain ⟨t, out, ht, -, ⟨hno, -⟩ | ⟨a, b, ipr, harr, ho⟩⟩ := ip4Reass_spec (reass_run h) mem p
  · cases hr.symm.trans ht
    cases hno
  · cases hr.symm.trans ht
    cases ho with
    | @finished pre post hsplit hsound hdone _ =>
      have hB : ∀ f ∈ (ipr.insert pre post p).p, FragOf B f := by
        intro f hf
        rcases (insert_mem hsplit).1 hf with rfl | hf
        · exact hp
        · exact hq f (harr.queue ▸ hf)
      have hne : (ipr.insert pre post p).p ≠ [] :=
        List.ne_nil_of_mem ((insert_mem hsplit).2 (.inl rfl))
      rw [ReassData.datagram_eq hsound hne hB hdone, ReassData.insert_iphdr]
      exact ⟨rfl, IpHdr.matches_iff.2 (IpHdr.matches_iff.1 harr.mine), rfl, rfl, rfl⟩

instance (B : Bytes) (f : Frag) : Decidable (FragOf B f) :=
  decidable_of_iff (f.piece.PartOf B ∧ (f.hdr.mf = false ↔ f.start + f.data.length = B.length))
    ⟨fun h => ⟨h.1, h.2⟩, fun h => ⟨h.part, h.last⟩⟩

instance (a b : Frag) : Decidable (a.Overlaps b) := inferInstanceAs (Decidable (_ ∨ _))

theorem ip4Reass_sound_head : ∃ tr s s' d, Run Reass.step {} tr s ∧
    s.ip4Reass {} headFrag = some (s', some d) ∧ d.data = headFrag.data ++ tailFrag.data := by
  obtain ⟨s, hrun, hs⟩ := exists_run Reass.step {} [.frag {} tailFrag]
    (fun s => s.queued headFrag.hdr == [tailFrag] &&
      (s.ip4Reass {} headFrag).any fun x => x.2.isSome) (by decide)
  simp only [Bool.and_eq_true, beq_iff_eq] at hs
  obtain ⟨hq, hs⟩ := hs
  obtain ⟨⟨s', out⟩, hr, hout⟩ := (Option.any_eq_true _ _).1 hs
  obtain ⟨d, rfl⟩ := Option.isSome_iff_exists.1 hout
  have htail : FragOf (headFrag.data ++ tailFrag.data) tailFrag := by decide
  refine ⟨_, s, s', d, hrun, hr, (ip4Reass_sound hrun (by decide) (fun f hf => ?_) hr).1⟩
  rw [hq, List.mem_singleton] at hf
  exact hf ▸ htail

/-- A fragment of `B` for which there is room and that overlaps none of the queued ones: it completes
the datagram, or it is queued. -/
theorem ip4Reass_taken {s : Reass} {mem : Reass.Malloc} {p : Frag} {B : Bytes} (hs : s.Inv)
    (hB : B.length ≤ 0xffff - ipHlen) (hp : FragOf B p) (hq : ∀ f ∈ s.queued p.hdr, FragOf B f)
    (hov : ∀ f ∈ s.queued p.hdr, ¬ p.Overlaps f) (hhl : p.hdr.hlBytes = ipHlen) (hroom : s.HasRoom mem p) :
    ∃ s' out a b ipr, s.ip4Reass mem p = some (s', out) ∧ s'.Inv ∧ Arrival s mem p a b ipr ∧
      ((bytesOf (s.queued p.hdr) + p.data.length = B.length ∧ s'.reassdatagrams = a ++ b ∧
          out = some ⟨ipr.iphdr.whole B.length, B⟩) ∨
        (bytesOf (s.queued p.hdr) + p.data.length ≠ B.length ∧ out = none ∧
          ∃ r, s'.reassdatagrams = a ++ r :: b ∧ r.iphdr = ipr.iphdr ∧ r.timer = ipr.timer ∧
            r.p.Perm (p :: s.queued p.hdr))) := by
  obtain ⟨s', out, hr, hi, ⟨-, hno, -⟩ | ⟨a, b, ipr, harr, ho⟩⟩ := ip4Reass_spec hs mem p
  · exact absurd ⟨hhl, hroom⟩ hno
  refine ⟨s', out, a, b, ipr, hr, hi, harr, ?_⟩
  have hlen := hp.stop_le
  have h20 : ipHlen = 20 := rfl
  have hfits : p.Fits := by
    unfold Frag.Fits
    omega
  have hne : ∀ {pre post : List Frag}, ipr.p = pre ++ post → (ipr.insert pre post p).p ≠ [] :=
    fun hsplit => List.ne_nil_of_mem ((insert_mem hsplit).2 (.inl rfl))
  have hall : ∀ {pre post : List Frag}, ipr.p = pre ++ post →
      ∀ f ∈ (ipr.insert pre post p).p, FragOf B f := by
    intro pre post hsplit f hf
    rcases (insert_mem hsplit).1 hf with rfl | hf
    · exact hp
    · exact hq f (harr.queue ▸ hf)
  have hiff : ∀ {pre post : List Frag}, ipr.p = pre ++ post → (ipr.insert pre post p).Sound →
      ((ipr.insert pre post p).complete = true ↔
        bytesOf (s.queued p.hdr) + p.data.length = B.length) := by
    intro pre post hsplit hsound
    rw [ReassData.complete_iff hsound (hne hsplit) (hall hsplit), ReassData.insert_p, bytesOf_insert hsplit,
      harr.queue]
  cases ho with
  | dropped why hs' =>
    rcases why with hf | ⟨-, hlong⟩ | ⟨f, hf, ho⟩
    · exact absurd hfits hf
    · rw [Frag.stop_eq hfits] at hlong
      omega
    · exact absurd ho (hov f (harr.queue ▸ hf))
  | @queued pre post hsplit hsound hopen hs' =>
    refine .inr ⟨fun hb => ?_, rfl, _, hs', ReassData.insert_iphdr .., ReassData.insert_timer .., ?_⟩
    · rw [← hiff hsplit hsound, hopen] at hb
      cases hb
    · rw [ReassData.insert_p, ← harr.queue, hsplit]
      exact List.perm_middle
  | finished hsplit hsound hdone hs' =>
    refine .inl ⟨(hiff hsplit hsound).1 hdone, hs', ?_⟩
    rw [ReassData.datagram_eq hsound (hne hsplit) (hall hsplit) hdone, ReassData.insert_iphdr]

/-- In every run: a fragment of `B` for which there is room and that overlaps none of the queued ones
completes the datagram exactly if all bytes are there then; otherwise it is queued with them. -/
theorem ip4Reass_exact {tr : List (Reass × Reass.Act)} {s : Reass} {mem : Reass.Malloc} {p : Frag}
    {B : Bytes} (h : Run Reass.step {} tr s) (hB : B.length ≤ 0xffff - ipHlen) (hp : FragOf B p)
    (hq : ∀ f ∈ s.queued p.hdr, FragOf B f) (hov : ∀ f ∈ s.queued p.hdr, ¬ p.Overlaps f)
    (hhl : p.hdr.hlBytes = ipHlen) (hroom : s.HasRoom mem p) :
    ∃ s' out, s.ip4Reass mem p = some (s', out) ∧
      (out.isSome = true ↔ bytesOf (s.queued p.hdr) + p.data.length = B.length) ∧
      (out = none → (s'.queued p.hdr).Perm (p :: s.queued p.hdr)) ∧
      (out.isSome = true → s'.queued p.hdr = []) := by
  obtain ⟨s', out, a, b, ipr, hr, -, harr, ⟨hall, hs', rfl⟩ | ⟨hpart, rfl, r, hs', hhdr, -, hperm⟩⟩ :=
    ip4Reass_taken (reass_run h) hB hp hq hov hhl hroom
  · refine ⟨s', _, hr, ⟨fun _ => hall, fun _ => rfl⟩, fun hb => ?_, fun _ => ?_⟩
    · cases hb
    · exact Reass.queued_nil (hs' ▸ harr.others)
  · refine ⟨s', none, hr, ⟨fun hb => ?_, fun hb => absurd hb hpart⟩, fun _ => ?_, fun hb => ?_⟩
    · cases hb
    · rwa [Reass.queued_eq hs' (hhdr ▸ harr.mine) harr.others]
    · cases hb

theorem ip4Reass_exact_head : ∃ tr s s' out, Run Reass.step {} tr s ∧
    s.ip4Reass {} headFrag = some (s', out) ∧ out.isSome = true := by
  obtain ⟨s, hrun, hs⟩ := exists_run Reass.step {} [.frag {} tailFrag]
    (fun s => s.queued headFrag.hdr == [tailFrag] && s.pbufcount == 1) (by decide)
  simp only [Bool.and_eq_true, beq_iff_eq] at hs
  obtain ⟨hq, hcount⟩ := hs
  have htail : FragOf (headFrag.data ++ tailFrag.data) tailFrag := by decide
  have hov : ¬ headFrag.Overlaps tailFrag := by decide
  have hroom : s.HasRoom {} headFrag := by
    rw [Reass.HasRoom, hcount]
    decide
  have hall : ∀ f ∈ s.queued headFrag.hdr, f = tailFrag := by
    intro f hf
    rwa [hq, List.mem_singleton] at hf
  obtain ⟨s', out, hr, hout, -⟩ := ip4Reass_exact hrun (by decide)
    (show FragOf (headFrag.data ++ tailFrag.data) headFrag by decide) (fun f hf => hall f hf ▸ htail)
    (fun f hf => hall f hf ▸ hov) rfl hroom
  refine ⟨_, s, s', out, hrun, hr, hout.2 ?_⟩
  rw [hq]
  rfl

end Lwip
