import Tun2Simple.Core.Deliver
import Tun2Simple.Core.Proof.UdpConn

/-!
# Each datagram reaches the handler once

`Books`: in the ledger of a connection every call is in one place, and the handler has got the
datagrams of those calls that are inside it or returned `nil`, except those in the queue; this holds
whatever is seen (`Books.see`), as long as it fits the ledger. `Linked` ties the ledger to the
state, so that what is seen does fit: a goroutine is at `enqueueEarlyPacket` or `checkState` exactly
if it has an early call, and the queue of the ledger is the content of `pending`.
-/

namespace Udp

open Trans Pool

/-! ## The books -/

theorem sum_apply_update {α : Type} (F : α → Nat) (a : Nat → α) {g n : Nat} (hg : g < n) (v : α) :
    ∑ i ∈ Finset.range n, F (Function.update a g v i) + F (a g) =
      ∑ i ∈ Finset.range n, F (a i) + F v := by
  have hmem : g ∈ Finset.range n := Finset.mem_range.2 hg
  have hrest : ∑ i ∈ (Finset.range n).erase g, F (Function.update a g v i) =
      ∑ i ∈ (Finset.range n).erase g, F (a i) := by
    refine Finset.sum_congr rfl fun i hi => ?_
    rw [Function.update_of_ne (Finset.ne_of_mem_erase hi)]
  rw [← Finset.add_sum_erase _ _ hmem, ← Finset.add_sum_erase _ (fun i => F (a i)) hmem,
    Function.update_self, hrest]
  omega

namespace Ledger

/-- Whether call `k` is the early call `o`. -/
def hits (k : Nat) (o : Option Nat) : Nat := if o = some k then 1 else 0

@[simp] theorem hits_none (k : Nat) : hits k none = 0 := rfl

@[simp] theorem hits_some (k j : Nat) : hits k (some j) = if j = k then 1 else 0 := by
  simp [hits]

/-- How many of `n` goroutines have the early call `k`. -/
def earlyCount (early : Gid → Option Nat) (n k : Nat) : Nat :=
  ∑ g ∈ Finset.range n, hits k (early g)

/-- How often they have call `k` inside the handler. -/
def insideCount (inside : Gid → List Nat) (n k : Nat) : Nat :=
  ∑ g ∈ Finset.range n, (inside g).count k

/-- How often the handler got the datagram of call `k`. -/
def receivedCount (l : Ledger) (k : Nat) : Nat := (l.received.map Prod.fst).count k

/-- Every call is in one place, and the handler got what is accounted for. -/
structure Books (l : Ledger) (n : Nat) : Prop where
  once : ∀ k, earlyCount l.early n k + insideCount l.inside n k + l.returned.count (k, false) +
    l.returned.count (k, true) = if k < l.calls.length then 1 else 0
  got : ∀ k, l.receivedCount k + l.pending.count k =
    insideCount l.inside n k + l.returned.count (k, false)
  order : l.queued = l.drained ++ l.pending
  data : ∀ k d, (k, d) ∈ l.received → l.calls[k]? = some d

/-- What is seen fits the ledger: the goroutine has a call where it needs one. -/
def Fits (l : Ledger) (n : Nat) : Seen → Prop
  | .call g _ => g < n ∧ l.early g = none
  | .queue g | .refuse g => g < n ∧ ∃ k, l.early g = some k
  | .hand g d => g < n ∧ ∃ k, l.early g = some k ∧ l.calls[k]? = some d
  | .return_ g err => g < n ∧ err = false ∧ ∃ k ks, l.inside g = k :: ks
  | .drain d => ∃ k ks, l.pending = k :: ks ∧ l.calls[k]? = some d
  | .ended => True

theorem count_snoc {α : Type} [BEq α] [LawfulBEq α] (xs : List α) (x y : α) [Decidable (x = y)] :
    (xs ++ [x]).count y = xs.count y + if x = y then 1 else 0 := by
  rw [List.count_append, List.count_singleton]
  simp only [beq_iff_eq]

variable {l : Ledger} {n : Nat}

/-! What is seen, where it fits. -/

section

variable {g : Gid} {k : Nat} {ks : List Nat}

theorem see_queue (hk : l.early g = some k) : l.see (.queue g) = { l with
    early := Function.update l.early g none
    pending := l.pending ++ [k]
    queued := l.queued ++ [k]
    returned := l.returned ++ [(k, false)] } := by
  simp only [see, hk]

theorem see_refuse (hk : l.early g = some k) : l.see (.refuse g) = { l with
    early := Function.update l.early g none
    returned := l.returned ++ [(k, true)] } := by
  simp only [see, hk]

theorem see_hand (hk : l.early g = some k) (d : Dgram) : l.see (.hand g d) = { l with
    early := Function.update l.early g none
    inside := Function.update l.inside g (k :: l.inside g)
    received := l.received ++ [(k, d)] } := by
  simp only [see, hk]

theorem see_return (hk : l.inside g = k :: ks) (err : Bool) : l.see (.return_ g err) = { l with
    inside := Function.update l.inside g ks
    returned := l.returned ++ [(k, err)] } := by
  simp only [see, hk]

theorem see_drain (hk : l.pending = k :: ks) (d : Dgram) : l.see (.drain d) = { l with
    pending := ks
    received := l.received ++ [(k, d)]
    drained := l.drained ++ [k] } := by
  simp only [see, hk]

end

theorem receivedCount_snoc (k j : Nat) (d : Dgram) :
    ((l.received ++ [(j, d)]).map Prod.fst).count k = l.receivedCount k + if j = k then 1 else 0 := by
  rw [List.map_append, List.map_singleton, count_snoc, receivedCount]

theorem data_snoc {j : Nat} {d : Dgram} (h : ∀ k x, (k, x) ∈ l.received → l.calls[k]? = some x)
    (hj : l.calls[j]? = some d) : ∀ k x, (k, x) ∈ l.received ++ [(j, d)] → l.calls[k]? = some x := by
  intro k x hx
  rcases List.mem_append.1 hx with hx | hx
  · exact h k x hx
  · cases List.mem_singleton.1 hx
    exact hj

theorem Books.see (h : l.Books n) {o : Seen} (hf : l.Fits n o) : (l.see o).Books n := by
  have early : ∀ {g : Nat} (_ : g < n) (v : Option Nat) (k : Nat),
      earlyCount (Function.update l.early g v) n k + hits k (l.early g) =
        earlyCount l.early n k + hits k v := fun hg v k => sum_apply_update (hits k) l.early hg v
  have inside : ∀ {g : Nat} (_ : g < n) (v : List Nat) (k : Nat),
      insideCount (Function.update l.inside g v) n k + (l.inside g).count k =
        insideCount l.inside n k + v.count k :=
    fun hg v k => sum_apply_update (List.count k) l.inside hg v
  obtain ⟨once, got, order, data⟩ := h
  cases o with
  | call g d =>
    obtain ⟨hg, hno⟩ := hf
    refine ⟨fun k => ?_, got, order, fun k x hx => ?_⟩
    · have he := early hg (some l.calls.length) k
      have ho := once k
      rw [hno, hits_none, hits_some] at he
      simp only [Ledger.see, List.length_append, List.length_singleton]
      split at he <;> split at ho <;> split <;> omega
    · have hd := data k x hx
      show (l.calls ++ [d])[k]? = some x
      rw [List.getElem?_append_left (List.getElem?_eq_some_iff.1 hd).1, hd]
  | queue g =>
    obtain ⟨hg, j, hj⟩ := hf
    rw [see_queue hj]
    refine ⟨fun k => ?_, fun k => ?_, by simp only [order, List.append_assoc], data⟩
    · have he := early hg none k
      have ho := once k
      rw [hj, hits_none, hits_some] at he
      simp only [count_snoc, Prod.mk.injEq, and_true, Bool.false_eq_true, and_false, if_false]
      omega
    · have hk := got k
      simp only [receivedCount, count_snoc, Prod.mk.injEq, and_true] at hk ⊢
      omega
  | refuse g =>
    obtain ⟨hg, j, hj⟩ := hf
    rw [see_refuse hj]
    refine ⟨fun k => ?_, fun k => ?_, order, data⟩
    · have he := early hg none k
      have ho := once k
      rw [hj, hits_none, hits_some] at he
      simp only [count_snoc, Prod.mk.injEq, and_true, Bool.true_eq_false, and_false, if_false]
      omega
    · have hk := got k
      simp only [receivedCount, count_snoc, Prod.mk.injEq, Bool.true_eq_false, and_false,
        if_false] at hk ⊢
      omega
  | hand g d =>
    obtain ⟨hg, j, hj, hd⟩ := hf
    rw [see_hand hj]
    refine ⟨fun k => ?_, fun k => ?_, order, data_snoc data hd⟩
    · have he := early hg none k
      have hi := inside hg (j :: l.inside g) k
      have ho := once k
      rw [hj, hits_none, hits_some] at he
      rw [List.count_cons] at hi
      simp only [beq_iff_eq] at hi ⊢
      omega
    · have hi := inside hg (j :: l.inside g) k
      have hk := got k
      rw [List.count_cons] at hi
      simp only [beq_iff_eq] at hi
      rw [receivedCount, receivedCount_snoc]
      simp only
      omega
  | return_ g err =>
    obtain ⟨hg, rfl, j, ks, hj⟩ := hf
    rw [see_return hj]
    refine ⟨fun k => ?_, fun k => ?_, order, data⟩
    · have hi := inside hg ks k
      have ho := once k
      rw [hj, List.count_cons] at hi
      simp only [beq_iff_eq] at hi
      simp only [count_snoc, Prod.mk.injEq, and_true, Bool.false_eq_true, and_false, if_false]
      omega
    · have hi := inside hg ks k
      have hk := got k
      rw [hj, List.count_cons] at hi
      simp only [beq_iff_eq] at hi
      simp only [receivedCount, count_snoc, Prod.mk.injEq, and_true] at hk ⊢
      omega
  | drain d =>
    obtain ⟨j, ks, hj, hd⟩ := hf
    rw [see_drain hj]
    refine ⟨once, fun k => ?_, by simp only [order, hj, List.append_assoc, List.singleton_append],
      data_snoc data hd⟩
    have hk := got k
    rw [hj, List.count_cons] at hk
    simp only [beq_iff_eq] at hk
    rw [receivedCount, receivedCount_snoc]
    simp only
    omega
  | ended => exact ⟨once, got, order, data⟩

/-- More goroutines without calls. -/
theorem Books.more (h : l.Books n) {m : Nat} (hm : n ≤ m)
    (hno : ∀ g, n ≤ g → l.early g = none ∧ l.inside g = []) : l.Books m := by
  have hsum : ∀ F : Nat → Nat, (∀ g, n ≤ g → F g = 0) →
      ∑ g ∈ Finset.range m, F g = ∑ g ∈ Finset.range n, F g := by
    intro F hF
    refine (Finset.sum_subset (Finset.range_mono hm) fun g _ hg => ?_).symm
    exact hF g (Nat.le_of_not_lt fun hlt => hg (Finset.mem_range.2 hlt))
  have he : ∀ k, earlyCount l.early m k = earlyCount l.early n k := fun k =>
    hsum _ fun g hg => by rw [(hno g hg).1, hits_none]
  have hi : ∀ k, insideCount l.inside m k = insideCount l.inside n k := fun k =>
    hsum _ fun g hg => by rw [(hno g hg).2, List.count_nil]
  refine ⟨fun k => ?_, fun k => ?_, h.order, h.data⟩
  · rw [he, hi]
    exact h.once k
  · rw [hi]
    exact h.got k

/-- With nothing in the queue, the handler got the datagram of a call that returned `nil` once, and
that of one that returned an error not at all. -/
theorem Books.receivedCount_eq (h : l.Books n) (hp : l.pending = []) (k : Nat) :
    ((k, false) ∈ l.returned → l.receivedCount k = 1) ∧
      ((k, true) ∈ l.returned → l.receivedCount k = 0) := by
  have ho := h.once k
  have hg := h.got k
  rw [hp, List.count_nil] at hg
  refine ⟨fun hk => ?_, fun hk => ?_⟩
  · have := List.count_pos_iff.2 hk
    split at ho <;> omega
  · have := List.count_pos_iff.2 hk
    split at ho <;> omega

end Ledger

/-! ## What a section shows -/

variable {H : Handler} {c : Nat}

/-- The datagram of a call that is early. -/
def Pc.early {P : Type} (c : Nat) : Pc P → Option Dgram
  | .receiveTo c' d _ | .receiveCheck c' d _ => if c' = c then some d else none
  | _ => none

theorem Pc.conn_of_early {P : Type} {pc : Pc P} {d : Dgram} (h : pc.early c = some d) :
    pc.conn = some c := by
  cases pc with
  | receiveTo c' d' late =>
    by_cases hc : c' = c
    · rw [← hc]
      rfl
    · simp [Pc.early, hc] at h
  | receiveCheck c' d' late =>
    by_cases hc : c' = c
    · rw [← hc]
      rfl
    · simp [Pc.early, hc] at h
  | _ => cases h

/-- A call of `ReceiveTo` of `c` that is inside the handler. -/
def Frame.isCall {P : Type} (c : Nat) : Frame P → Bool
  | .receiveTo c' _ => c' = c
  | _ => false

/-- The calls of a goroutine that are inside the handler. -/
def Go.calls {P : Type} (c : Nat) (x : Go P) : Nat := x.stack.countP (Frame.isCall c)

/-- The queue stays, or the connection is made. -/
def SameQueue (c : Nat) (s s' : Shared H) : Prop :=
  (s'.conn c).pending = (s.conn c).pending ∨ c = s.n ∧ (s'.conn c).pending = some []

/-- What is seen of a section, by what it does to its goroutine and to the queue. -/
inductive Shows (c : Nat) (s : Shared H) (g : Gid) (x : Go H.P) (s' : Shared H) (y : Go H.P) :
    Option Seen → Prop
  | quiet : y.pc.early c = x.pc.early c → y.calls c = x.calls c → SameQueue c s s' →
      Shows c s g x s' y none
  | call (d : Dgram) : x.pc.early c = none → y.pc.early c = some d → y.calls c = x.calls c →
      SameQueue c s s' → Shows c s g x s' y (some (.call g d))
  | queue (d : Dgram) (ds : List Dgram) : x.pc.early c = some d → y.pc.early c = none →
      y.calls c = x.calls c → (s.conn c).pending = some ds →
      (s'.conn c).pending = some (ds ++ [d]) → Shows c s g x s' y (some (.queue g))
  | refuse (d : Dgram) : x.pc.early c = some d → y.pc.early c = none → y.calls c = x.calls c →
      SameQueue c s s' → Shows c s g x s' y (some (.refuse g))
  | hand (d : Dgram) : x.pc.early c = some d → y.pc.early c = none → y.calls c = x.calls c + 1 →
      SameQueue c s s' → Shows c s g x s' y (some (.hand g d))
  | return_ (err : Bool) (late : Bool) (st : List (Frame H.P)) : x.pc = .ret err →
      x.stack = .receiveTo c late :: st → y.pc.early c = none → y.calls c + 1 = x.calls c →
      SameQueue c s s' → Shows c s g x s' y (some (.return_ g err))
  | drain (d : Dgram) (ds : List Dgram) : x.pc = .drain c → y.pc.early c = none →
      y.calls c = x.calls c → (s.conn c).pending = some (d :: ds) →
      (s'.conn c).pending = some ds → Shows c s g x s' y (some (.drain d))
  | ended : x.pc = .drain c → y.pc.early c = none → y.calls c = x.calls c →
      (∀ d ds, (s.conn c).pending ≠ some (d :: ds)) → (s'.conn c).pending = none →
      Shows c s g x s' y (some .ended)

theorem setConn_other {s : Shared H} {c' : Nat} {x : Conn} (h : c' ≠ c) :
    (s.setConn c' x).conn c = s.conn c := Function.update_of_ne (Ne.symm h) ..

theorem setConn_self {s : Shared H} {x : Conn} : (s.setConn c x).conn c = x :=
  Function.update_self ..

/-- A change of one connection that keeps its queue. -/
theorem sameQueue_setConn {s : Shared H} {c' : Nat} {x : Conn}
    (h : x.pending = (s.conn c').pending) : SameQueue c s (s.setConn c' x) := by
  left
  by_cases hc : c' = c
  · subst hc
    rw [setConn_self, h]
  · rw [setConn_other hc]

/-- `udpRecvFn` is at the bottom of the stack. -/
def Bottom {P : Type} (st : List (Frame P)) : Prop :=
  ∀ pre src post, st = pre ++ .recvFn src :: post → post = []

theorem Bottom.push {P : Type} {st : List (Frame P)} (h : Bottom st) {f : Frame P}
    (hf : ∀ src, f ≠ .recvFn src) : Bottom (f :: st) := by
  intro pre src post he
  cases pre with
  | nil => exact absurd (List.cons.inj he).1 (hf src)
  | cons f' pre => exact h pre src post (List.cons.inj he).2

theorem Bottom.pop {P : Type} {st : List (Frame P)} {f : Frame P} (h : Bottom (f :: st)) :
    Bottom st := fun pre src post he => h (f :: pre) src post (by rw [he]; rfl)

theorem bottom_nil {P : Type} : Bottom ([] : List (Frame P)) := by
  intro pre src post he
  cases pre <;> cases he

theorem Sec.bottom {s : Shared H} {x : Go H.P} {e : Env H.E} {o : Out H}
    (h : Sec s x.stack x.pc e o) (hb : Bottom x.stack) : Bottom o.2.1.stack := by
  obtain ⟨pc, st⟩ := x
  cases h with
  | handle c' d late => exact hb.push fun src => by simp
  | call p err e h c' m q => exact hb.push fun src => by simp
  | drain c' d ds => exact hb.push fun src => by simp
  | ret err f st' hst =>
    have hst : st = f :: st' := hst
    subst hst
    cases f with
    | recvFn src => exact bottom_nil
    | _ => exact hb.pop
  | end_ => exact bottom_nil
  | _ => exact hb

theorem bottom_step {s s' : Sys H} {a : Act H} (h : ∀ g < s.n, Bottom (s.thread g).stack)
    (hs : Udp.step H s a = some s') : ∀ g < s'.n, Bottom (s'.thread g).stack := by
  have hold : Holds (fun _ => True) (fun _ _ (x : Go H.P) => Bottom x.stack) s := ⟨trivial, h⟩
  refine (Holds.step hold hs ?_ ?_).thread
  · intro b y t _ hst
    refine ⟨trivial, ?_, fun _ _ hb => hb⟩
    obtain ⟨src, dst, data, -, -, -, rfl⟩ | ⟨c', -, -, -, rfl⟩ := start_spec hst
    · intro pre src' post he
      cases pre with
      | nil => exact (List.cons.inj he).2.symm
      | cons f pre =>
        have := (List.cons.inj he).2
        cases pre <;> cases this
    · exact bottom_nil
  · intro g e y t new _ hg hsec
    have hsp := sec_spec (g := g) hsec
    refine ⟨trivial, hsp.bottom (h g hg), fun u hu => ?_, fun _ _ _ hb => hb⟩
    obtain ⟨src, d, -, -, rfl⟩ | ⟨p, err, e, h', new, q, -, -, -, rfl⟩ := hsp.new_cases hu
    · exact bottom_nil.push fun src => by simp
    · exact bottom_nil

/-- A section of a method of another connection shows nothing. -/
theorem Sec.shows_other {s : Shared H} {pc : Pc H.P} {st : List (Frame H.P)} {e : Env H.E} {o : Out H}
    {g : Gid} (h : Sec s st pc e o) {c' : Nat} (hpc : pc.conn = some c') (hc : c' ≠ c) :
    Shows c s g ⟨pc, st⟩ o.1 o.2.1 (seenSec c s g ⟨pc, st⟩ e) := by
  have quiet : ∀ {y : Go H.P}, seenSec c s g ⟨pc, st⟩ e = none → y.pc.early c = pc.early c →
      y.calls c = Go.calls c (⟨pc, st⟩ : Go H.P) → SameQueue c s o.1 →
      Shows c s g ⟨pc, st⟩ o.1 y (seenSec c s g ⟨pc, st⟩ e) := by
    intro y hseen he hcalls hq
    rw [hseen]
    exact .quiet he hcalls hq
  cases h with
  | found | new | goto | call | spawn | return_ | end_ | ret => cases hpc
  | store =>
    cases hpc
    exact quiet (by simp [seenSec, hc]) (by simp [Pc.early, hc]) rfl (sameQueue_setConn rfl)
  | enqueue =>
    cases hpc
    exact quiet (by simp [seenSec, hc]) (by simp [Pc.early, hc]) rfl
      (.inl (by simp [Shared.emit, setConn_other hc]))
  | notEarly =>
    cases hpc
    exact quiet (by simp [seenSec, hc]) rfl rfl (.inl rfl)
  | refuse =>
    cases hpc
    exact quiet (by simp [seenSec, hc]) (by simp [Pc.early, hc]) rfl (.inl rfl)
  | handle =>
    cases hpc
    exact quiet (by simp [seenSec, hc]) (by simp [Pc.early, hc, Shared.receiveTo])
      (by simp [Go.calls, Frame.isCall, hc]) (.inl rfl)
  | drain =>
    cases hpc
    exact quiet (by simp [seenSec, hc]) rfl (by simp [Go.calls, Frame.isCall])
      (.inl (by simp [setConn_other hc]))
  | drained =>
    cases hpc
    exact quiet (by simp [seenSec, hc]) rfl rfl (.inl (by simp [setConn_other hc]))
  | setConnected | close => exact quiet rfl rfl rfl (sameQueue_setConn rfl)
  | writeNone | writeRefuse | write | sendto | badAddr | delete => exact quiet rfl rfl rfl (.inl rfl)

/-- The handler's step shows the call of `ReceiveTo` that it makes. -/
theorem Sec.shows_handler {s : Shared H} {st : List (Frame H.P)} {p : H.P} {err : Bool} {e : H.E}
    {h : H.S} {c' : Nat} {m : Method} {q : H.P} {g : Gid} (hs : H.step s.h p err e = some (h, .call c' m q)) :
    Shows c s g ⟨.handler p err, st⟩ { s with h } ⟨m.pc c' (s.conn c').wasClosed, .handler q :: st⟩
      (seenSec c s g ⟨.handler p err, st⟩ (.handler e)) := by
  have hcalls : Go.calls c ⟨m.pc c' (s.conn c').wasClosed, .handler q :: st⟩ =
      Go.calls c (⟨.handler p err, st⟩ : Go H.P) := by simp [Go.calls, Frame.isCall]
  have same : SameQueue c s { s with h } := .inl rfl
  cases m with
  | receiveTo d =>
    by_cases hc : c' = c
    · subst hc
      have hseen : seenSec c' s g ⟨.handler p err, st⟩ (.handler e) = some (.call g d) := by
        simp [seenSec, hs]
      rw [hseen]
      exact .call d rfl (by simp [Pc.early, Method.pc]) hcalls same
    · have hseen : seenSec c s g ⟨.handler p err, st⟩ (.handler e) = none := by simp [seenSec, hs, hc]
      rw [hseen]
      exact .quiet (by simp [Pc.early, Method.pc, hc]) hcalls same
  | close | writeFrom d =>
    have hseen : seenSec c s g ⟨.handler p err, st⟩ (.handler e) = none := by simp [seenSec, hs]
    rw [hseen]
    exact .quiet rfl hcalls same

/-- A return shows the end of a call of `ReceiveTo`. -/
theorem Sec.shows_return {s : Shared H} {err : Bool} {f : Frame H.P} {st : List (Frame H.P)} {g : Gid}
    (hb : Bottom (f :: st)) : Shows c s g ⟨.ret err, f :: st⟩ (s.return_ err f st).1
      (s.return_ err f st).2.1 (seenSec c s g ⟨.ret err, f :: st⟩ .none) := by
  have same : SameQueue c s (s.return_ err f st).1 := by
    cases f <;> exact .inl rfl
  cases f with
  | receiveTo c' late =>
    by_cases hc : c' = c
    · subst hc
      have hseen : seenSec c' s g ⟨.ret err, .receiveTo c' late :: st⟩ .none = some (.return_ g err) := by
        simp [seenSec]
      rw [hseen]
      exact .return_ err late st rfl rfl rfl (by simp [Go.calls, Frame.isCall, Shared.return_]) same
    · have hseen : seenSec c s g ⟨.ret err, .receiveTo c' late :: st⟩ .none = none := by
        simp [seenSec, hc]
      rw [hseen]
      exact .quiet rfl (by simp [Go.calls, Frame.isCall, Shared.return_, hc]) same
  | recvFn src =>
    have hst : st = [] := hb [] src st rfl
    subst hst
    exact .quiet rfl (by simp [Go.calls, Frame.isCall, Shared.return_]) same
  | connect c' | drain c' =>
    exact .quiet (by cases err <;> rfl) (by simp [Go.calls, Frame.isCall, Shared.return_]) same
  | handler p => exact .quiet rfl (by simp [Go.calls, Frame.isCall, Shared.return_]) same

theorem Sec.shows {s : Shared H} {x : Go H.P} {e : Env H.E} {o : Out H} {g : Gid}
    (h : Sec s x.stack x.pc e o) (hb : Bottom x.stack) :
    Shows c s g x o.1 o.2.1 (seenSec c s g x e) := by
  obtain ⟨pc, st⟩ := x
  by_cases hother : ∃ c', pc.conn = some c' ∧ c' ≠ c
  · obtain ⟨c', hpc, hc⟩ := hother
    exact h.shows_other hpc hc
  have own : ∀ {c'}, pc.conn = some c' → c' = c := fun hpc =>
    Classical.not_not.1 fun hc => hother ⟨_, hpc, hc⟩
  have same : SameQueue c s s := .inl rfl
  cases h with
  | found src d c' hu =>
    by_cases hc : c' = c
    · subst hc
      have hseen : seenSec c' s g ⟨.load src d, st⟩ .none = some (.call g d) := by simp [seenSec, hu]
      rw [hseen]
      exact .call d rfl (by simp [Pc.early]) rfl same
    · have hseen : seenSec c s g ⟨.load src d, st⟩ .none = none := by simp [seenSec, hu, hc]
      rw [hseen]
      exact .quiet (by simp [Pc.early, hc]) rfl same
  | new src d hu =>
    have hseen : seenSec c s g ⟨.load src d, st⟩ .none = none := by simp [seenSec, hu]
    rw [hseen]
    refine .quiet rfl rfl ?_
    by_cases hc : c = s.n
    · exact .inr ⟨hc, by simp [Shared.newUDPConn, hc]⟩
    · exact .inl (by simp [Shared.newUDPConn, hc])
  | store c' d =>
    obtain rfl : c' = c := own rfl
    have hseen : seenSec c' s g ⟨.store c' d, st⟩ .none = some (.call g d) := by simp [seenSec]
    rw [hseen]
    exact .call d rfl (by simp [Pc.early]) rfl (sameQueue_setConn rfl)
  | enqueue c' d late ds hst hp hlt =>
    obtain rfl : c' = c := own rfl
    have hseen : seenSec c' s g ⟨.receiveTo c' d late, st⟩ .none = some (.queue g) := by
      simp [seenSec, Conn.enqueueEarlyPacket, hst, hp, hlt]
    rw [hseen]
    exact .queue d ds (by simp [Pc.early]) rfl rfl hp (by simp [Shared.emit, setConn_self])
  | notEarly c' d late hno =>
    obtain rfl : c' = c := own rfl
    have hseen : seenSec c' s g ⟨.receiveTo c' d late, st⟩ .none = none := by simp [seenSec, hno]
    rw [hseen]
    exact .quiet rfl rfl same
  | refuse c' d late hck =>
    obtain rfl : c' = c := own rfl
    have hseen : seenSec c' s g ⟨.receiveCheck c' d late, st⟩ .none = some (.refuse g) := by
      simp [seenSec, hck]
    rw [hseen]
    exact .refuse d (by simp [Pc.early]) rfl rfl same
  | handle c' d late hck =>
    obtain rfl : c' = c := own rfl
    have hseen : seenSec c' s g ⟨.receiveCheck c' d late, st⟩ .none = some (.hand g d) := by
      simp [seenSec, hck]
    rw [hseen]
    exact .hand d (by simp [Pc.early]) rfl (by simp [Go.calls, Frame.isCall]) same
  | call p err e h c' m q hs => exact shows_handler hs
  | goto p err e h q hs =>
    have hseen : seenSec c s g ⟨.handler p err, st⟩ (.handler e) = none := by simp [seenSec, hs]
    rw [hseen]
    exact .quiet rfl rfl same
  | spawn p err e h new q hs =>
    have hseen : seenSec c s g ⟨.handler p err, st⟩ (.handler e) = none := by simp [seenSec, hs]
    rw [hseen]
    exact .quiet rfl rfl same
  | return_ p err e h r hs =>
    have hseen : seenSec c s g ⟨.handler p err, st⟩ (.handler e) = none := by simp [seenSec, hs]
    rw [hseen]
    exact .quiet rfl rfl same
  | drain c' d ds hp =>
    obtain rfl : c' = c := own rfl
    have hseen : seenSec c' s g ⟨.drain c', st⟩ .none = some (.drain d) := by simp [seenSec, hp]
    rw [hseen]
    exact .drain d ds rfl rfl (by simp [Go.calls, Frame.isCall]) hp (by simp [setConn_self])
  | drained c' hno =>
    obtain rfl : c' = c := own rfl
    have hseen : seenSec c' s g ⟨.drain c', st⟩ .none = some .ended := by
      simp only [seenSec, if_true]
    rw [hseen]
    exact .ended rfl rfl rfl hno (by simp [setConn_self])
  | setConnected c' | close c' => exact .quiet rfl rfl (sameQueue_setConn rfl)
  | ret err f st' hst =>
    obtain rfl : st = f :: st' := hst
    exact shows_return hb
  | end_ err hst =>
    obtain rfl : st = [] := hst
    exact .quiet rfl rfl same
  | _ => exact .quiet rfl rfl same

/-! ## The ledger and the state -/

/-- The datagrams of calls. -/
def Ledger.dgrams (l : Ledger) (ks : List Nat) : List (Option Dgram) := ks.map fun k => l.calls[k]?

/-- The ledger of connection `c` fits the state. -/
structure Linked (c : Nat) (l : Ledger) (s : Sys H) : Prop where
  early : ∀ g < s.n, (l.early g).map (l.calls[·]?) = ((s.thread g).pc.early c).map some
  inside : ∀ g < s.n, (l.inside g).length = (s.thread g).calls c
  idle : ∀ g, s.n ≤ g → l.early g = none ∧ l.inside g = []
  pending : l.dgrams l.pending = ((s.shared.conn c).pending.getD []).map some
  ended : l.ended = true → (s.shared.conn c).pending = none
  fresh : s.shared.n ≤ c → (s.shared.conn c).pending = some []
  books : l.Books s.n

theorem Linked.early_none {l : Ledger} {s : Sys H} (h : Linked c l s) {g : Gid} (hg : g < s.n)
    (hp : (s.thread g).pc.early c = none) : l.early g = none := by
  have := h.early g hg
  rw [hp, Option.map_none, Option.map_eq_none_iff] at this
  exact this

theorem Linked.early_some {l : Ledger} {s : Sys H} (h : Linked c l s) {g : Gid} (hg : g < s.n)
    {d : Dgram} (hp : (s.thread g).pc.early c = some d) :
    ∃ k, l.early g = some k ∧ l.calls[k]? = some d := by
  have := h.early g hg
  rw [hp, Option.map_some, Option.map_eq_some_iff] at this
  exact this

/-- What a section shows fits the ledger, unless the handler fails. -/
theorem Linked.fits {l : Ledger} {s : Sys H} (h : Linked c l s) {g : Gid} (hg : g < s.n)
    {s' : Shared H} {y : Go H.P} {o : Seen} {e : Env H.E}
    (hs : Shows c s.shared g (s.thread g) s' y (some o))
    (hf : receiveToFails c s (.sec g e) = false) : l.Fits s.n o := by
  cases hs with
  | call d hx => exact ⟨hg, h.early_none hg hx⟩
  | queue d ds hx =>
    obtain ⟨k, hk, -⟩ := h.early_some hg hx
    exact ⟨hg, k, hk⟩
  | refuse d hx =>
    obtain ⟨k, hk, -⟩ := h.early_some hg hx
    exact ⟨hg, k, hk⟩
  | hand d hx => exact ⟨hg, h.early_some hg hx⟩
  | return_ err late st hpc hst hy hcalls =>
    have hlen := h.inside g hg
    refine ⟨hg, ?_, List.exists_cons_of_length_pos (by omega)⟩
    cases err with
    | false => rfl
    | true => simp [receiveToFails, hpc, hst] at hf
  | drain d ds hpc hy hcalls hp =>
    have hq := h.pending
    rw [hp, Option.getD_some, List.map_cons, Ledger.dgrams] at hq
    obtain ⟨k, ks, hk, hd, -⟩ := List.map_eq_cons_iff.1 hq
    exact ⟨k, ks, hk, hd⟩
  | ended => trivial

section
variable {l l' : Ledger} {s : Sys H} {g : Gid}

theorem dgram_extend {calls calls' : List Dgram} (h : calls <+: calls') {k : Nat} {d : Dgram}
    (hk : calls[k]? = some d) : calls'[k]? = some d := by
  obtain ⟨more, rfl⟩ := h
  rw [List.getElem?_append_left (List.getElem?_eq_some_iff.1 hk).1, hk]

theorem dgrams_extend (h : l.calls <+: l'.calls) {ks : List Nat} {ds : List Dgram}
    (hk : l.dgrams ks = ds.map some) : l'.dgrams ks = ds.map some := by
  rw [← hk]
  refine List.map_congr_left fun k hmem => ?_
  have hin : l.calls[k]? ∈ ds.map some := hk ▸ List.mem_map_of_mem hmem
  obtain ⟨d, -, hd⟩ := List.mem_map.1 hin
  rw [dgram_extend h hd.symm, ← hd]

/-- The ledger after a section of `g` fits the state after it. -/
theorem Linked.sec (h : Linked c l s) (hg : g < s.n) {s' : Shared H} {y : Go H.P}
    {new : Option (Go H.P)} (hbooks : l'.Books s.n) (hcalls : l.calls <+: l'.calls)
    (hother : ∀ g', g' ≠ g → l'.early g' = l.early g' ∧ l'.inside g' = l.inside g')
    (hearly : (l'.early g).map (l'.calls[·]?) = (y.pc.early c).map some)
    (hinside : (l'.inside g).length = y.calls c)
    (hnew : ∀ u ∈ new, u.pc.early c = none ∧ u.calls c = 0)
    (hpending : l'.dgrams l'.pending = ((s'.conn c).pending.getD []).map some)
    (hended : l'.ended = true → (s'.conn c).pending = none)
    (hfresh : s'.n ≤ c → (s'.conn c).pending = some []) : Linked c l' (s.sec g s' y new) := by
  have hidle : ∀ g', s.n ≤ g' → l'.early g' = none ∧ l'.inside g' = [] := by
    intro g' hle
    obtain ⟨he, hi⟩ := hother g' (Nat.ne_of_gt (Nat.lt_of_lt_of_le hg hle))
    rw [he, hi]
    exact h.idle g' hle
  refine ⟨fun g' hg' => ?_, fun g' hg' => ?_, fun g' hle => hidle g' (Nat.le_trans (s.le_sec_n ..) hle),
    hpending, hended, hfresh, hbooks.more (s.le_sec_n ..) hidle⟩
  · by_cases hgg : g' = g
    · subst hgg
      rw [s.sec_thread_self]
      exact hearly
    · rcases s.sec_n_lt hg' with hlt | ⟨rfl, hsome⟩
      · rw [s.sec_thread_lt _ _ _ hgg hlt, (hother g' hgg).1]
        cases hp : (s.thread g').pc.early c with
        | none => rw [h.early_none hlt hp]; rfl
        | some d =>
          obtain ⟨k, hk, hd⟩ := h.early_some hlt hp
          rw [hk, Option.map_some, dgram_extend hcalls hd, Option.map_some]
      · obtain ⟨u, rfl⟩ := Option.isSome_iff_exists.1 hsome
        rw [s.sec_thread_new _ _ _ hg, (hidle _ (Nat.le_refl _)).1, (hnew u rfl).1]
        rfl
  · by_cases hgg : g' = g
    · subst hgg
      rw [s.sec_thread_self]
      exact hinside
    · rcases s.sec_n_lt hg' with hlt | ⟨rfl, hsome⟩
      · rw [s.sec_thread_lt _ _ _ hgg hlt, (hother g' hgg).2]
        exact h.inside g' hlt
      · obtain ⟨u, rfl⟩ := Option.isSome_iff_exists.1 hsome
        rw [s.sec_thread_new _ _ _ hg, (hidle _ (Nat.le_refl _)).2, (hnew u rfl).2]
        rfl

/-- The same, where the section leaves the queue. -/
theorem Linked.sec_same (h : Linked c l s) (hg : g < s.n) {s' : Shared H} {y : Go H.P}
    {new : Option (Go H.P)} (hbooks : l'.Books s.n) (hcalls : l.calls <+: l'.calls)
    (hother : ∀ g', g' ≠ g → l'.early g' = l.early g' ∧ l'.inside g' = l.inside g')
    (hearly : (l'.early g).map (l'.calls[·]?) = (y.pc.early c).map some)
    (hinside : (l'.inside g).length = y.calls c)
    (hnew : ∀ u ∈ new, u.pc.early c = none ∧ u.calls c = 0) (hq : SameQueue c s.shared s')
    (hn : s.shared.n ≤ s'.n) (hp : l'.pending = l.pending) (he : l'.ended = l.ended) :
    Linked c l' (s.sec g s' y new) := by
  have hsame : (s'.conn c).pending = (s.shared.conn c).pending := by
    rcases hq with hq | ⟨hc, hq⟩
    · exact hq
    · rw [hq, h.fresh (Nat.le_of_eq hc.symm)]
  refine h.sec hg hbooks hcalls hother hearly hinside hnew ?_ ?_ fun hle => ?_
  · rw [hsame, hp]
    exact dgrams_extend hcalls h.pending
  · rw [hsame, he]
    exact h.ended
  · rw [hsame]
    exact h.fresh (Nat.le_trans hn hle)

/-- What the ledger has of other goroutines stays. -/
theorem Ledger.see_other {o : Seen} {s' : Shared H} {x y : Go H.P}
    (hs : Shows c s.shared g x s' y (some o)) {g' : Gid} (hne : g' ≠ g) :
    (l.see o).early g' = l.early g' ∧ (l.see o).inside g' = l.inside g' := by
  have keep := fun {α : Type} (a : Gid → α) (v : α) => Function.update_of_ne hne v a
  cases hs with
  | call d => exact ⟨keep .., rfl⟩
  | queue d ds | refuse d | hand d => cases hk : l.early g <;> simp [Ledger.see, hk, keep]
  | return_ err late st => cases hk : l.inside g <;> simp [Ledger.see, hk, keep]
  | drain d ds => cases hk : l.pending <;> simp [Ledger.see, hk]
  | ended => exact ⟨rfl, rfl⟩

/-- The call of `g` queues its datagram. -/
theorem Linked.queue (h : Linked c l s) (hg : g < s.n) {s' : Shared H} {y : Go H.P}
    {new : Option (Go H.P)} {d : Dgram} {ds : List Dgram} (hbooks : (l.see (.queue g)).Books s.n)
    (hother : ∀ g', g' ≠ g → (l.see (.queue g)).early g' = l.early g' ∧
      (l.see (.queue g)).inside g' = l.inside g')
    (hx : (s.thread g).pc.early c = some d) (hy : y.pc.early c = none)
    (hc : y.calls c = (s.thread g).calls c) (hp : (s.shared.conn c).pending = some ds)
    (hp' : (s'.conn c).pending = some (ds ++ [d]))
    (hnew : ∀ u ∈ new, u.pc.early c = none ∧ u.calls c = 0) (hlt : ¬ s'.n ≤ c) :
    Linked c (l.see (.queue g)) (s.sec g s' y new) := by
  obtain ⟨k, hk, hd⟩ := h.early_some hg hx
  rw [Ledger.see_queue hk] at hbooks hother ⊢
  refine h.sec hg hbooks (List.prefix_refl _) hother ?_ ?_ hnew ?_ ?_ fun hle => absurd hle hlt
  · simp [hy]
  · exact (h.inside g hg).trans hc.symm
  · have hold := h.pending
    rw [hp, Option.getD_some] at hold
    rw [hp', Option.getD_some]
    show (l.pending ++ [k]).map _ = _
    rw [List.map_append, List.map_append, List.map_singleton, List.map_singleton, hd]
    congr 1
  · intro hend
    rw [h.ended hend] at hp
    cases hp

/-- The loop gives the first datagram of the queue to the handler. -/
theorem Linked.drain (h : Linked c l s) (hg : g < s.n) {s' : Shared H} {y : Go H.P}
    {new : Option (Go H.P)} {d : Dgram} {ds : List Dgram} (hbooks : (l.see (.drain d)).Books s.n)
    (hpc : (s.thread g).pc = .drain c) (hy : y.pc.early c = none)
    (hc : y.calls c = (s.thread g).calls c) (hp : (s.shared.conn c).pending = some (d :: ds))
    (hp' : (s'.conn c).pending = some ds)
    (hnew : ∀ u ∈ new, u.pc.early c = none ∧ u.calls c = 0) (hlt : ¬ s'.n ≤ c) :
    Linked c (l.see (.drain d)) (s.sec g s' y new) := by
  have hold := h.pending
  rw [hp, Option.getD_some, List.map_cons] at hold
  obtain ⟨k, ks, hk, -, hks⟩ := List.map_eq_cons_iff.1 hold
  rw [Ledger.see_drain hk] at hbooks ⊢
  have hno : l.early g = none := h.early_none hg (by rw [hpc]; rfl)
  refine h.sec hg hbooks (List.prefix_refl _) (fun _ _ => ⟨rfl, rfl⟩) ?_ ?_ hnew ?_ ?_
    fun hle => absurd hle hlt
  · rw [hy, hno]
    rfl
  · exact (h.inside g hg).trans hc.symm
  · rw [hp', Option.getD_some]
    exact hks
  · intro hend
    rw [h.ended hend] at hp
    cases hp

/-- The loop finds nothing more. -/
theorem Linked.drained (h : Linked c l s) (hg : g < s.n) {s' : Shared H} {y : Go H.P}
    {new : Option (Go H.P)} (hbooks : (l.see .ended).Books s.n) (hpc : (s.thread g).pc = .drain c)
    (hy : y.pc.early c = none) (hc : y.calls c = (s.thread g).calls c)
    (hp : ∀ d ds, (s.shared.conn c).pending ≠ some (d :: ds)) (hp' : (s'.conn c).pending = none)
    (hnew : ∀ u ∈ new, u.pc.early c = none ∧ u.calls c = 0) (hlt : ¬ s'.n ≤ c) :
    Linked c (l.see .ended) (s.sec g s' y new) := by
  have hno : l.early g = none := h.early_none hg (by rw [hpc]; rfl)
  have hnil : (s.shared.conn c).pending.getD [] = [] := by
    cases hq : (s.shared.conn c).pending with
    | none => rfl
    | some ds =>
      cases ds with
      | nil => rfl
      | cons d ds => exact absurd hq (hp d ds)
  refine h.sec hg hbooks (List.prefix_refl _) (fun _ _ => ⟨rfl, rfl⟩) ?_ ?_ hnew ?_ (fun _ => hp')
    fun hle => absurd hle hlt
  · show (l.early g).map _ = _
    rw [hy, hno]
    rfl
  · exact (h.inside g hg).trans hc.symm
  · have hold := h.pending
    rw [hnil] at hold
    rw [hp', Option.getD_none]
    exact hold

/-- The ledger after what a section shows. -/
theorem Linked.shows (h : Linked c l s) (hg : g < s.n) {s' : Shared H} {y : Go H.P}
    {new : Option (Go H.P)} {o : Option Seen} {e : Env H.E}
    (hs : Shows c s.shared g (s.thread g) s' y o) (hf : receiveToFails c s (.sec g e) = false)
    (hlt : (s.thread g).pc.conn = some c → c < s.shared.n) (hn : s.shared.n ≤ s'.n)
    (hnew : ∀ u ∈ new, u.pc.early c = none ∧ u.calls c = 0) :
    Linked c (o.elim l l.see) (s.sec g s' y new) := by
  have hie := h.inside g hg
  have hmade : (s.thread g).pc.conn = some c → ¬ s'.n ≤ c := fun hpc hle => by
    have := hlt hpc
    omega
  cases o with
  | none =>
    cases hs with
    | quiet he hc hq =>
      exact h.sec_same hg h.books (List.prefix_refl _) (fun _ _ => ⟨rfl, rfl⟩)
        (by rw [he]; exact h.early g hg) (hie.trans hc.symm) hnew hq hn rfl rfl
  | some o =>
    have hbooks : (l.see o).Books s.n := h.books.see (h.fits hg hs hf)
    have hother : ∀ g', g' ≠ g → (l.see o).early g' = l.early g' ∧ (l.see o).inside g' = l.inside g' :=
      fun _ hne => Ledger.see_other hs hne
    rw [Option.elim_some]
    cases hs with
    | call d hx hy hc hq =>
      refine h.sec_same hg hbooks (List.prefix_append ..) hother ?_ (hie.trans hc.symm) hnew hq hn rfl rfl
      show (Function.update l.early g _ g).map _ = _
      rw [Function.update_self, hy, Option.map_some]
      show some (l.calls ++ [d])[l.calls.length]? = _
      simp
    | queue d ds hx hy hc hp hp' =>
      exact h.queue hg hbooks hother hx hy hc hp hp' hnew (hmade (Pc.conn_of_early hx))
    | refuse d hx hy hc hq =>
      obtain ⟨k, hk, -⟩ := h.early_some hg hx
      rw [Ledger.see_refuse hk] at hbooks hother ⊢
      exact h.sec_same hg hbooks (List.prefix_refl _) hother (by simp [hy]) (hie.trans hc.symm) hnew hq hn
        rfl rfl
    | hand d hx hy hc hq =>
      obtain ⟨k, hk, -⟩ := h.early_some hg hx
      rw [Ledger.see_hand hk] at hbooks hother ⊢
      exact h.sec_same hg hbooks (List.prefix_refl _) hother (by simp [hy]) (by simp [hie, hc]) hnew hq hn
        rfl rfl
    | return_ err late st hpc hst hy hc hq =>
      obtain ⟨k, ks, hk⟩ : ∃ k ks, l.inside g = k :: ks := List.exists_cons_of_length_pos (by omega)
      have hno : l.early g = none := h.early_none hg (by rw [hpc]; rfl)
      rw [Ledger.see_return hk] at hbooks hother ⊢
      refine h.sec_same hg hbooks (List.prefix_refl _) hother ?_ ?_ hnew hq hn rfl rfl
      · rw [hy, hno]
        rfl
      · rw [hk, List.length_cons] at hie
        simp only [Function.update_self]
        omega
    | drain d ds hpc hy hc hp hp' =>
      exact h.drain hg hbooks hpc hy hc hp hp' hnew (hmade (by rw [hpc]; rfl))
    | ended hpc hy hc hp hp' =>
      exact h.drained hg hbooks hpc hy hc hp hp' hnew (hmade (by rw [hpc]; rfl))

end

/-! ## Runs -/

theorem ledger_snoc (c : Nat) (tr : List (Sys H × Act H)) (s : Sys H) (a : Act H) :
    ledger c (tr ++ [(s, a)]) = (seen c s a).elim (ledger c tr) (ledger c tr).see := by
  unfold ledger
  rw [List.filterMap_append, List.foldl_append]
  cases hs : seen c s a <;> simp [hs]

theorem linked_init (c : Nat) : Linked c {} (init H) where
  early g hg := absurd hg (Nat.not_lt_zero g)
  inside g hg := absurd hg (Nat.not_lt_zero g)
  idle _ _ := ⟨rfl, rfl⟩
  pending := rfl
  ended h := by cases h
  fresh _ := rfl
  books := by
    refine ⟨fun k => ?_, fun k => ?_, rfl, fun k d h => by cases h⟩
    · rfl
    · rfl

theorem linked_step {c : Nat} {l : Ledger} {s s' : Sys H} {a : Act H} (h : Linked c l s)
    (hb : Base s) (hbot : ∀ g < s.n, Bottom (s.thread g).stack) (hf : receiveToFails c s a = false)
    (hs : Udp.step H s a = some s') : Linked c ((seen c s a).elim l l.see) s' := by
  obtain ⟨b, x, t, rfl, hst, rfl⟩ | ⟨g, e, x, t, new, rfl, hg, hsec, rfl⟩ := step_cases hs
  · -- a goroutine that starts has no call yet
    have ht : t.pc.early c = none ∧ t.calls c = 0 ∧ x.n = s.shared.n ∧ x.conn = s.shared.conn := by
      obtain ⟨src, dst, data, rfl, -, rfl, rfl⟩ | ⟨c', -, rfl, rfl, rfl⟩ := start_spec hst
      · exact ⟨rfl, rfl, rfl, rfl⟩
      · exact ⟨rfl, rfl, rfl, rfl⟩
    obtain ⟨hte, htc, hn, hc⟩ := ht
    obtain ⟨he, hi⟩ := h.idle s.n (Nat.le_refl _)
    show Linked c l (s.start x t)
    refine ⟨fun g hg => ?_, fun g hg => ?_, fun g hle => h.idle g (Nat.le_of_succ_le hle), ?_, ?_, ?_,
      h.books.more (Nat.le_succ _) h.idle⟩
    · rcases Nat.lt_succ_iff_lt_or_eq.1 hg with hg | rfl
      · rw [s.start_thread_lt x t hg]
        exact h.early g hg
      · rw [s.start_thread_self, he, hte]
        rfl
    · rcases Nat.lt_succ_iff_lt_or_eq.1 hg with hg | rfl
      · rw [s.start_thread_lt x t hg]
        exact h.inside g hg
      · rw [s.start_thread_self, hi, htc]
        rfl
    · rw [s.start_shared, hc]
      exact h.pending
    · rw [s.start_shared, hc]
      exact h.ended
    · rw [s.start_shared, hn, hc]
      exact h.fresh
  · have hsp := sec_spec (g := g) hsec
    refine h.shows hg (hsp.shows (g := g) (hbot g hg)) hf (hb.thread g hg).pc_lt hsp.effect.grows.n ?_
    intro u hu
    obtain ⟨src, d, -, -, rfl⟩ | ⟨p, err, e, h', new, q, -, -, -, rfl⟩ := hsp.new_cases hu
    · exact ⟨rfl, rfl⟩
    · exact ⟨rfl, rfl⟩

theorem linked_run {c : Nat} {tr : List (Sys H × Act H)} {s : Sys H}
    (hr : Run (Udp.step H) (init H) tr s) (hf : Meets (fun s a => receiveToFails c s a = false) tr) :
    Linked c (ledger c tr) s ∧ ∀ g < s.n, Bottom (s.thread g).stack := by
  induction hr with
  | nil => exact ⟨linked_init c, fun g hg => absurd hg (Nat.not_lt_zero g)⟩
  | snoc hr hs ih =>
    obtain ⟨hl, hbot⟩ := ih (meets_snoc.1 hf).1
    rw [ledger_snoc]
    exact ⟨linked_step hl (base_run hr) hbot (meets_snoc.1 hf).2 hs, bottom_step hbot hs⟩

/-- **Early packets are delivered once.** In every interleaving in which `handler.ReceiveTo` does
not fail for connection `c`, once the loop of its connect goroutine has ended: the handler has got
the datagram of every call of `ReceiveTo` that returned `nil` once, and that of one that returned an
error not at all; those that were queued came in the order in which they were queued, and nothing is
left in the queue. -/
theorem early_delivered_once (H : Handler) {tr : List (Sys H × Act H)} {s : Sys H}
    (hr : Run (Udp.step H) (init H) tr s) {c : Nat}
    (hf : Meets (fun s a => receiveToFails c s a = false) tr) (he : (ledger c tr).ended = true) :
    (∀ k, (k, false) ∈ (ledger c tr).returned → (ledger c tr).receivedCount k = 1) ∧
      (∀ k, (k, true) ∈ (ledger c tr).returned → (ledger c tr).receivedCount k = 0) ∧
      (∀ k d, (k, d) ∈ (ledger c tr).received → (ledger c tr).calls[k]? = some d) ∧
      (ledger c tr).drained = (ledger c tr).queued ∧ (s.shared.conn c).pending = none := by
  obtain ⟨h, -⟩ := linked_run hr hf
  have hnone := h.ended he
  have hp : (ledger c tr).pending = [] := by
    have := h.pending
    rw [hnone] at this
    exact List.map_eq_nil_iff.1 this
  refine ⟨fun k => (h.books.receivedCount_eq hp k).1, fun k => (h.books.receivedCount_eq hp k).2,
    h.books.data, ?_, hnone⟩
  rw [h.books.order, hp, List.append_nil]

/-- A handler that takes everything. -/
def acceptAll : Handler where
  S := Unit
  P := Unit
  E := Unit
  init := ()
  connect _ _ _ := ()
  receiveTo _ _ _ := ()
  step _ _ _ _ := some ((), .return_ false)

/-- Two datagrams before the connection is up and one after it. -/
def threeDatagrams : List (Act acceptAll) :=
  [.start (.recv [1] [2] [10]), .sec 0 .none, .sec 0 .none, .sec 0 .none, .sec 0 .none,
    .start (.recv [1] [2] [11]), .sec 2 .none, .sec 2 .none, .sec 2 .none,
    .sec 1 (.handler ()), .sec 1 .none, .sec 1 .none, .sec 1 .none, .sec 1 (.handler ()), .sec 1 .none,
    .start (.recv [1] [2] [12]), .sec 3 .none, .sec 3 .none, .sec 3 .none, .sec 3 (.handler ()),
    .sec 3 .none, .sec 1 .none, .sec 1 (.handler ()), .sec 1 .none, .sec 1 .none]

theorem early_delivered_once_three :
    ∃ (tr : List (Sys acceptAll × Act acceptAll)) (s : Sys acceptAll),
      Run (Udp.step acceptAll) (init acceptAll) tr s ∧
      (ledger 0 tr).returned = [(0, false), (1, false), (2, false)] ∧
      (∀ k ∈ [0, 1, 2], (ledger 0 tr).receivedCount k = 1) ∧ (ledger 0 tr).drained = [0, 1] := by
  obtain ⟨s, hr, -⟩ := exists_run (Udp.step acceptAll) (init acceptAll) threeDatagrams (fun _ => true)
    (by decide +kernel)
  have hret : (ledger 0 (execTrace (Udp.step acceptAll) (init acceptAll) threeDatagrams)).returned =
      [(0, false), (1, false), (2, false)] := by decide +kernel
  obtain ⟨hnil, -, -, hq, -⟩ := early_delivered_once acceptAll hr (c := 0) (by decide +kernel)
    (by decide +kernel)
  refine ⟨_, s, hr, hret, fun k hk => hnil k ?_, ?_⟩
  · rw [hret]
    simp only [List.mem_cons, List.not_mem_nil, or_false] at hk ⊢
    rcases hk with rfl | rfl | rfl <;> simp
  · rw [hq]
    decide +kernel

end Udp
