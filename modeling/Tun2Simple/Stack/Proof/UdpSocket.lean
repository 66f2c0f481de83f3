import Tun2Simple.Stack.Proof.UdpPivot

/-!
# Who closes a relay's socket

`clearUdpRelay` closes whatever socket it finds under the relay's id, and deletes the id in a later
section. `sockets_owned`: as long as no two relays with one id overlap (`NoOverlap`), a socket is
closed only by the cleanup of its own reader or after a failed write on it, and it is closed once
its reader has returned. `cleanup_closes_other` is a run with an overlap, in which the cleanup of
the first relay closes the socket of the second and leaves its own open.

A goroutine is at no more than one place of `udpPivot` (`Go.place`, `Sec.leads`), and no two
goroutines are at places of the same socket's relay (`Pool.Unique`).
-/

namespace Udp

open Trans Pool Net

/-! ## Places -/

def Frame.place {P : Type} : Frame P → Option P
  | .handler p => some p
  | _ => none

/-- The place of `udpPivot` that a goroutine is at or returns to. -/
def Go.place {P : Type} (x : Go P) : Option P :=
  match x.pc with
  | .handler p _ => some p
  | _ => x.stack.head?.bind Frame.place

/-- The section belongs to a method that `udpPivot` calls. -/
def Pc.calls {P : Type} : Pc P → Bool
  | .writeFrom _ _ _ | .sendto _ _ _ | .close _ | .delete _ | .ret _ => true
  | _ => false

/-- Code of `udpPivot` waits for a method only on top of the stack. -/
def Flat {P : Type} (x : Go P) : Prop :=
  (∀ f ∈ x.stack.tail, f.place = none) ∧
    (x.pc.calls = false → ∀ f ∈ x.stack, f.place = none)

/-- Where a goroutine goes on. -/
@[simp] def Next.place {P : Type} : Next P → Option P
  | .goto p | .call _ _ p | .spawn _ p => some p
  | .return_ _ => none

/-- Where a goroutine starts. -/
@[simp] def Next.new {P : Type} : Next P → Option P
  | .spawn new _ => some new
  | _ => none

theorem Flat.of_none {P : Type} {x : Go P} (h : ∀ f ∈ x.stack, f.place = none) : Flat x :=
  ⟨fun f hf => h f (List.mem_of_mem_tail hf), fun _ => h⟩

theorem Go.place_of_none {P : Type} {x : Go P} (h : ∀ f ∈ x.stack, f.place = none) {p : P}
    (hp : x.place = some p) : ∃ err, x.pc = .handler p err := by
  unfold Go.place at hp
  split at hp
  · cases hp; exact ⟨_, ‹_›⟩
  · cases hst : x.stack with
    | nil => rw [hst] at hp; cases hp
    | cons f st =>
      rw [hst] at hp
      have hf := h f (by rw [hst]; exact .head _)
      simp [hf] at hp

section
variable {s : Shared udpPivot} {st : List (Frame udpPivot.P)} {pc : Pc udpPivot.P}
  {e : Env udpPivot.E} {o : Out udpPivot}

/-- `udpPivot` calls no `ReceiveTo`. -/
theorem Pivot.Sec.call_pc {h h' : Pivot.S} {p q : Pivot.P} {err : Bool} {e : Pivot.E} {c : Nat}
    {m : Method} (hs : Pivot.Sec h p err e (h', .call c m q)) (late : Bool) :
    (m.pc c late : Pc Pivot.P).calls = true := by
  cases hs <;> rfl

/-- Where a section leads: it is one of the core, which at most calls `ReceiveTo` or starts a
`Connect`, or it is one of `udpPivot`. -/
inductive Leads (s : Shared udpPivot) (x : Go udpPivot.P) (e : Env udpPivot.E) (o : Out udpPivot) :
    Prop
  | core : o.1.h = s.h →
      (∀ p, o.2.1.place = some p → x.place = some p ∨ ∃ c l d, p = Pivot.P.lookup c l d) →
      (∀ u, o.2.2 = some u → Flat u ∧ ∃ c l t, u.place = some (Pivot.P.dial c l t)) → Leads s x e o
  | pivot (p : Pivot.P) (err : Bool) (e' : Pivot.E) (nx : Next Pivot.P) : x.pc = .handler p err →
      e = .handler e' → Pivot.Sec s.h p err e' (o.1.h, nx) → o.2.1.place = nx.place →
      (∀ u, o.2.2 = some u → Flat u ∧ u.place = nx.new) → Leads s x e o

theorem Sec.leads (h : Sec s st pc e o) (hf : Flat (⟨pc, st⟩ : Go udpPivot.P)) :
    Flat o.2.1 ∧ Leads s ⟨pc, st⟩ e o := by
  -- a section of the core before which no code of `udpPivot` waits
  have away : pc.calls = false → ∀ {o : Out udpPivot}, o.1.h = s.h →
      (∀ f ∈ o.2.1.stack, f ∈ st ∨ f.place = none) →
      (∀ p err, o.2.1.pc = .handler p err → ∃ c l d, p = Pivot.P.lookup c l d) →
      (∀ u, o.2.2 = some u → Flat u ∧ ∃ c l t, u.place = some (Pivot.P.dial c l t)) →
      Flat o.2.1 ∧ Leads s ⟨pc, st⟩ e o := by
    intro hc o hh hst hpc hu
    have hnone : ∀ f ∈ o.2.1.stack, f.place = none := by
      intro f hf'
      rcases hst f hf' with hf' | hf'
      · exact hf.2 hc f hf'
      · exact hf'
    refine ⟨.of_none hnone, .core hh (fun p hp => .inr ?_) hu⟩
    obtain ⟨err, hp'⟩ := Go.place_of_none hnone hp
    exact hpc p err hp'
  -- a section of a method that `udpPivot` may have called, which goes on in that method
  have inside : ∀ {o : Out udpPivot}, o.1.h = s.h → o.2.1.stack = st → o.2.1.pc.calls = true →
      o.2.1.place = (⟨pc, st⟩ : Go udpPivot.P).place → o.2.2 = none →
      Flat o.2.1 ∧ Leads s ⟨pc, st⟩ e o := by
    intro o hh hst hc hpl hu
    refine ⟨⟨?_, fun hc' => ?_⟩, .core hh (fun p hp => .inl (hpl ▸ hp)) fun u hu' => ?_⟩
    · rw [hst]; exact hf.1
    · rw [hc] at hc'; cases hc'
    · rw [hu] at hu'; cases hu'
  have keep : ∀ f ∈ st, f ∈ st ∨ f.place = none := fun f hf => .inl hf
  cases h with
  | found => exact away rfl rfl keep (by simp) (by simp)
  | new src d =>
    refine away rfl rfl keep (by simp) fun u hu => ?_
    cases hu
    refine ⟨.of_none fun f hf => ?_, _, _, _, rfl⟩
    obtain rfl := List.mem_singleton.1 hf
    rfl
  | store => exact away rfl rfl keep (by simp) (by simp)
  | enqueue => exact away rfl rfl keep (by simp) (by simp)
  | notEarly => exact away rfl rfl keep (by simp) (by simp)
  | refuse => exact away rfl rfl keep (by simp) (by simp)
  | handle c d late =>
    refine away rfl rfl (fun f hf' => ?_) (fun p err hp => ?_) (by simp)
    · rcases List.mem_cons.1 hf' with rfl | hf'
      · exact .inr rfl
      · exact .inl hf'
    · cases hp; exact ⟨_, _, _, rfl⟩
  | goto p err e h' q hs =>
    exact ⟨.of_none (hf.2 rfl), .pivot p err e _ rfl rfl (Pivot.step_spec hs) rfl (by simp)⟩
  | call p err e h' c m q hs =>
    have hsp := Pivot.step_spec hs
    have hcalls := hsp.call_pc (s.conn c).wasClosed
    refine ⟨⟨fun f hf' => hf.2 rfl f hf', fun hc => ?_⟩,
      .pivot p err e _ rfl rfl hsp ?_ (by simp)⟩
    · exact absurd (hcalls.symm.trans hc) (by simp)
    · cases m <;> rfl
  | spawn p err e h' new q hs =>
    refine ⟨.of_none (hf.2 rfl), .pivot p err e _ rfl rfl (Pivot.step_spec hs) rfl ?_⟩
    intro u hu
    cases hu
    exact ⟨.of_none (by simp), rfl⟩
  | return_ p err e h' r hs =>
    refine ⟨.of_none (hf.2 rfl), .pivot p err e _ rfl rfl (Pivot.step_spec hs) ?_ (by simp)⟩
    show (⟨.ret r, st⟩ : Go udpPivot.P).place = none
    cases hq : (⟨.ret r, st⟩ : Go udpPivot.P).place with
    | none => rfl
    | some q =>
      obtain ⟨_, hq'⟩ := Go.place_of_none (x := ⟨.ret r, st⟩) (hf.2 rfl) hq
      cases hq'
  | setConnected => exact away rfl rfl keep (by simp) (by simp)
  | drain c d ds =>
    refine away rfl rfl (fun f hf' => ?_) (fun p err hp => ?_) (by simp)
    · rcases List.mem_cons.1 hf' with rfl | hf'
      · exact .inr rfl
      · exact .inl hf'
    · cases hp; exact ⟨_, _, _, rfl⟩
  | drained => exact away rfl rfl keep (by simp) (by simp)
  | writeNone => exact inside rfl rfl rfl rfl rfl
  | writeRefuse => exact inside rfl rfl rfl rfl rfl
  | write => exact inside rfl rfl rfl rfl rfl
  | sendto => exact inside rfl rfl rfl rfl rfl
  | badAddr => exact inside rfl rfl rfl rfl rfl
  | close => exact inside rfl rfl rfl rfl rfl
  | delete => exact inside rfl rfl rfl rfl rfl
  | end_ err hst => exact ⟨.of_none (by simp), .core rfl (by simp [Go.place]) (by simp)⟩
  | ret err f st' hst =>
    subst hst
    have hrest : ∀ f' ∈ st', f'.place = none := hf.1
    have none_of : ∀ pc' : Pc udpPivot.P, (∀ p err, pc' ≠ .handler p err) → ∀ p,
        (⟨pc', st'⟩ : Go udpPivot.P).place ≠ some p := by
      intro pc' hpc p hp
      obtain ⟨err', hp'⟩ := Go.place_of_none (x := ⟨pc', st'⟩) hrest hp
      exact hpc p err' hp'
    cases f with
    | recvFn src =>
      exact ⟨.of_none (by simp [Shared.return_]),
        .core rfl (by simp [Shared.return_, Go.place]) (by simp [Shared.return_])⟩
    | receiveTo c late =>
      exact ⟨.of_none hrest,
        .core rfl (fun p hp => absurd hp (none_of (.ret err) (by simp) p)) (by simp [Shared.return_])⟩
    | connect c =>
      refine ⟨.of_none hrest, .core rfl (fun p hp => absurd hp (none_of _ ?_ p)) (by simp [Shared.return_])⟩
      cases err <;> simp
    | drain c =>
      refine ⟨.of_none hrest, .core rfl (fun p hp => absurd hp (none_of _ ?_ p)) (by simp [Shared.return_])⟩
      cases err <;> simp
    | handler q => exact ⟨.of_none hrest, .core rfl (fun p hp => .inl hp) (by simp [Shared.return_])⟩

end

/-! ## Relays -/

/-- The socket whose relay it comes from. -/
def Cause.sock : Cause → Nat
  | .reader k | .write k => k

namespace Pivot

/-- The id of socket `k`. -/
def S.idOf (s : S) (k : Nat) : Bytes := udpID (s.sock k).localAddr (s.sock k).target

def Clear.sock : Clear → Nat
  | .reader r => r.sock
  | .write _ k => k

/-- Socket `k` was put into `redirectMap` under `id`. -/
structure Live (s : S) (k : Nat) (id : Bytes) : Prop where
  lt : k < s.n
  stored : (s.sock k).stored = true
  id : s.idOf k = id

/-- `redirectMap` has no socket but `k` under `id`. -/
def Alone (s : S) (id : Bytes) (k : Nat) : Prop :=
  s.redirectMap id = none ∨ s.redirectMap id = some k

instance (s : S) (id : Bytes) (k : Nat) : Decidable (Alone s id k) :=
  inferInstanceAs (Decidable (_ ∨ _))

/-- A relay whose reader is to be started or has not returned. -/
structure Active (s : S) (r : Relay) : Prop where
  live : Live s r.sock r.id
  running : (s.sock r.sock).readerDone = false
  alone : Alone s r.id r.sock

def ClearOk (s : S) (id : Bytes) : Clear → Prop
  | .reader r => id = r.id ∧ Active s r
  | .write _ k => Live s k id ∧ Alone s id k

/-- What is known at a place. -/
def Owned (s : S) : P → Prop
  | .store r => r.sock < s.n ∧ s.idOf r.sock = r.id ∧ (s.sock r.sock).stored = false ∧
      (s.sock r.sock).readerDone = false
  | .go r | .read r | .wrote r | .closed r => Active s r
  | .write _ l d k => Live s k (udpID l d.addr)
  | .clear id w => ClearOk s id w
  | .clearClose id k w => ClearOk s id w ∧ k = w.sock
  | .clearDelete id w => ClearOk s id w ∧ (s.sock w.sock).closed = true
  | .cleared (.reader r) => Active s r ∧ (s.sock r.sock).closed = true
  | _ => True

structure Sockets (s : S) : Prop where
  entry : ∀ id k, s.redirectMap id = some k → Live s k id
  /-- An open socket is still in `redirectMap`. -/
  open_ : ∀ k < s.n, (s.sock k).stored = true → (s.sock k).closed = false →
    s.redirectMap (s.idOf k) = some k
  done : ∀ k < s.n, (s.sock k).readerDone = true → (s.sock k).closed = true
  own : ∀ x ∈ s.closes, x.2.sock = x.1

/-- The socket whose relay the code at the place runs for. -/
def P.relay : P → Option Nat
  | .store r | .go r | .read r | .wrote r | .closed r => some r.sock
  | .clear _ (.reader r) | .clearClose _ _ (.reader r) | .clearDelete _ (.reader r)
  | .cleared (.reader r) => some r.sock
  | _ => none

/-- The id that a failed write is clearing. -/
def P.clearing : P → Option Bytes
  | .clear id (.write _ _) | .clearClose id _ (.write _ _) | .clearDelete id (.write _ _) => some id
  | _ => none

section
variable {s s' : S} {p q : P} {id : Bytes} {w : Clear}

theorem ClearOk.live (h : ClearOk s id w) : Live s w.sock id := by
  cases w with
  | reader r => obtain ⟨rfl, h⟩ := h; exact h.live
  | write c k => exact h.1

theorem ClearOk.alone (h : ClearOk s id w) : Alone s id w.sock := by
  cases w with
  | reader r => obtain ⟨rfl, h⟩ := h; exact h.alone
  | write c k => exact h.2

/-- Sockets keep their addresses, stay stored and stay closed. -/
structure Mono (s s' : S) : Prop where
  n : s.n ≤ s'.n
  id : ∀ k < s.n, s'.idOf k = s.idOf k
  stored : ∀ k < s.n, (s.sock k).stored = true → (s'.sock k).stored = true
  closed : ∀ k < s.n, (s.sock k).closed = true → (s'.sock k).closed = true

theorem Live.mono (h : Mono s s') {k : Nat} (hl : Live s k id) : Live s' k id :=
  ⟨Nat.lt_of_lt_of_le hl.lt h.n, h.stored k hl.lt hl.stored, (h.id k hl.lt).trans hl.id⟩

/-- A place of another goroutine: its own relay's socket is left alone and so is the entry of its
id. -/
theorem Owned.keep (h : Owned s q) (hm : Mono s s')
    (hdone : ∀ k < s.n, q.relay = some k → (s.sock k).readerDone = false →
      (s'.sock k).readerDone = false)
    (hsto : ∀ r, q = .store r → (s.sock r.sock).stored = false → (s'.sock r.sock).stored = false)
    (hal : ∀ id k, Live s k id → Alone s id k → (q.clearing = some id ∨
      q.relay = some k ∧ (s.sock k).readerDone = false) → Alone s' id k) : Owned s' q := by
  have active : ∀ {r : Relay}, q.relay = some r.sock → Active s r → Active s' r := by
    intro r hq ha
    exact ⟨ha.live.mono hm, hdone _ ha.live.lt hq ha.running,
      hal _ _ ha.live ha.alone (.inr ⟨hq, ha.running⟩)⟩
  have clear : ∀ {id : Bytes} {w : Clear}, (∀ r, w = .reader r → q.relay = some r.sock) →
      (∀ c k, w = .write c k → q.clearing = some id) → ClearOk s id w → ClearOk s' id w := by
    intro id w hr hw hc
    cases w with
    | reader r => exact ⟨hc.1, active (hr r rfl) hc.2⟩
    | write c k => exact ⟨hc.1.mono hm, hal _ _ hc.1 hc.2 (.inl (hw c k rfl))⟩
  cases q with
  | store r =>
    obtain ⟨hlt, hid, hst, hd⟩ := h
    exact ⟨Nat.lt_of_lt_of_le hlt hm.n, (hm.id _ hlt).trans hid, hsto r rfl hst,
      hdone _ hlt rfl hd⟩
  | go r => exact active rfl h
  | read r => exact active rfl h
  | wrote r => exact active rfl h
  | closed r => exact active rfl h
  | write c l d k => exact Live.mono hm h
  | clear id w => exact clear (by rintro r rfl; rfl) (by rintro c k rfl; rfl) h
  | clearClose id k w =>
    exact ⟨clear (by rintro r rfl; rfl) (by rintro c k rfl; rfl) h.1, h.2⟩
  | clearDelete id w =>
    exact ⟨clear (by rintro r rfl; rfl) (by rintro c k rfl; rfl) h.1,
      hm.closed _ h.1.live.lt h.2⟩
  | cleared w =>
    cases w with
    | reader r => exact ⟨active rfl h.1, hm.closed _ h.1.live.lt h.2⟩
    | write c k => trivial
  | _ => trivial

theorem Mono.refl_of (hn : s'.n = s.n) (hs : s'.sock = s.sock) : Mono s s' := by
  refine ⟨Nat.le_of_eq hn.symm, fun k _ => ?_, fun k _ => ?_, fun k _ => ?_⟩
  · rw [S.idOf, hs]; rfl
  · rw [hs]; exact fun h => h
  · rw [hs]; exact fun h => h

theorem Mono.of_update {k : Nat} {x : Sock} (hn : s'.n = s.n)
    (hs : s'.sock = Function.update s.sock k x)
    (hl : x.localAddr = (s.sock k).localAddr) (ht : x.target = (s.sock k).target)
    (hst : (s.sock k).stored = true → x.stored = true)
    (hcl : (s.sock k).closed = true → x.closed = true) : Mono s s' := by
  have split : ∀ k', s'.sock k' = s.sock k' ∨ k' = k ∧ s'.sock k' = x := by
    intro k'
    rw [hs]
    by_cases hk : k' = k
    · subst hk; exact .inr ⟨rfl, Function.update_self ..⟩
    · exact .inl (Function.update_of_ne hk ..)
  refine ⟨Nat.le_of_eq hn.symm, fun k' _ => ?_, fun k' _ h => ?_, fun k' _ h => ?_⟩ <;>
    rcases split k' with hk | ⟨rfl, hk⟩
  · rw [S.idOf, hk]; rfl
  · rw [S.idOf, hk, hl, ht]; rfl
  · rw [hk]; exact h
  · rw [hk]; exact hst h
  · rw [hk]; exact h
  · rw [hk]; exact hcl h

theorem Mono.dial (s : S) (l t : Addr) : Mono s (s.dial l t) := by
  have keep : ∀ k < s.n, (s.dial l t).sock k = s.sock k := fun k hk => by
    simp [S.dial, Nat.ne_of_lt hk]
  refine ⟨Nat.le_succ _, fun k hk => ?_, fun k hk h => ?_, fun k hk h => ?_⟩
  · rw [S.idOf, keep k hk]; rfl
  · rw [keep k hk]; exact h
  · rw [keep k hk]; exact h

theorem Mono.closeSock (s : S) (k : Nat) (c : Cause) : Mono s (s.closeSock k c) := by
  unfold S.closeSock
  split
  · exact .refl_of rfl rfl
  · exact .of_update (k := k) rfl rfl rfl rfl (fun h => h) fun _ => rfl

theorem Sec.mono {err : Bool} {e : E} {nx : Next P} (h : Sec s p err e (s', nx)) : Mono s s' := by
  cases h with
  | dial c l t => exact .dial s l t
  | store r => exact .of_update (k := r.sock) rfl rfl rfl rfl (fun _ => rfl) fun h => h
  | clearClose i k w => exact .closeSock s k w.cause
  | readerDone r => exact .of_update (k := r.sock) rfl rfl rfl rfl (fun h => h) fun h => h
  | _ => exact .refl_of rfl rfl

/-- A section that changes neither the sockets nor `redirectMap`. -/
theorem Sockets.same (h : Sockets s) (hn : s'.n = s.n) (hs : s'.sock = s.sock)
    (hr : s'.redirectMap = s.redirectMap) (hc : s'.closes = s.closes) : Sockets s' := by
  have hm := Mono.refl_of hn hs
  refine ⟨fun id k hk => ?_, fun k hk hst hcl => ?_, fun k hk hd => ?_, ?_⟩
  · rw [hr] at hk; exact (h.entry id k hk).mono hm
  · rw [hn] at hk
    rw [hs] at hst hcl
    rw [hr, hm.id k hk]
    exact h.open_ k hk hst hcl
  · rw [hn] at hk
    rw [hs] at hd ⊢
    exact h.done k hk hd
  · rw [hc]; exact h.own

theorem Sockets.dial (h : Sockets s) (l t : Addr) : Sockets (s.dial l t) := by
  have hm := Mono.dial s l t
  have split : ∀ k < s.n + 1, (k < s.n ∧ (s.dial l t).sock k = s.sock k) ∨
      (s.dial l t).sock k = { localAddr := l, target := t } := by
    intro k hk
    by_cases hkn : k = s.n
    · subst hkn; exact .inr (by simp [S.dial])
    · exact .inl ⟨by omega, by simp [S.dial, hkn]⟩
  refine ⟨fun id k hk => (h.entry id k hk).mono hm, fun k hk hst hcl => ?_, fun k hk hd => ?_, h.own⟩
  · rcases split k hk with ⟨hlt, hs⟩ | hs
    · rw [hs] at hst hcl
      rw [hm.id k hlt]
      exact h.open_ k hlt hst hcl
    · rw [hs] at hst; cases hst
  · rcases split k hk with ⟨hlt, hs⟩ | hs
    · rw [hs] at hd ⊢
      exact h.done k hlt hd
    · rw [hs] at hd; cases hd

/-- `Connect` puts its socket under an id whose earlier relays are over. -/
theorem Sockets.store (h : Sockets s) {r : Relay} (hp : Owned s (.store r))
    (hover : ∀ k < s.n, (s.sock k).stored = true → s.idOf k = r.id →
      (s.sock k).readerDone = true) :
    Sockets (s.store r.id r.sock) ∧ Active (s.store r.id r.sock) r := by
  obtain ⟨hlt, hid, hst, hd⟩ := hp
  have hm : Mono s (s.store r.id r.sock) :=
    .of_update (k := r.sock) rfl rfl rfl rfl (fun _ => rfl) fun h => h
  have self : (s.store r.id r.sock).sock r.sock = { s.sock r.sock with stored := true } := by
    simp [S.store, S.setSock]
  have other : ∀ k, k ≠ r.sock → (s.store r.id r.sock).sock k = s.sock k := fun k hk => by
    simp [S.store, S.setSock, hk]
  have map : ∀ id, (s.store r.id r.sock).redirectMap id =
      if id = r.id then some r.sock else s.redirectMap id := fun id => by
    simp [S.store, Function.update_apply]
  have live : Live (s.store r.id r.sock) r.sock r.id :=
    ⟨hlt, by rw [self], (hm.id _ hlt).trans hid⟩
  refine ⟨⟨fun id k hk => ?_, fun k hk hsto hcl => ?_, fun k hk hdn => ?_, h.own⟩,
    live, by rw [self]; exact hd, .inr (by rw [map, if_pos rfl])⟩
  · rw [map] at hk
    split at hk
    · rename_i hi
      cases hk
      rw [hi]
      exact live
    · exact (h.entry id k hk).mono hm
  · rw [hm.id k hk, map]
    by_cases hkr : k = r.sock
    · rw [hkr, hid, if_pos rfl]
    · rw [other k hkr] at hsto hcl
      rw [if_neg]
      · exact h.open_ k hk hsto hcl
      · -- an earlier relay with this id is over, so its socket is closed
        intro hi
        rw [h.done k hk (hover k hk hsto hi)] at hcl
        cases hcl
  · by_cases hkr : k = r.sock
    · rw [hkr, self] at hdn
      rw [hd] at hdn
      cases hdn
    · rw [other k hkr] at hdn ⊢
      exact h.done k hk hdn

theorem Sockets.closeSock (h : Sockets s) {k : Nat} {c : Cause} (hc : c.sock = k) :
    Sockets (s.closeSock k c) ∧ (k < s.n → ((s.closeSock k c).sock k).closed = true) := by
  have hm := Mono.closeSock s k c
  unfold S.closeSock at hm ⊢
  split
  case isTrue hcl => exact ⟨h, fun _ => hcl⟩
  case isFalse hcl =>
    rw [if_neg hcl] at hm
    have self : (Function.update s.sock k { s.sock k with closed := true }) k =
        { s.sock k with closed := true } := Function.update_self ..
    refine ⟨⟨fun id k' hk' => (h.entry id k' hk').mono hm, fun k' hk' hst hcl' => ?_,
      fun k' hk' hd => ?_, fun x hx => ?_⟩, fun _ => by simp [S.setSock]⟩
    · rw [hm.id k' hk']
      by_cases hkk : k' = k
      · subst hkk; simp [S.setSock] at hcl'
      · simp only [S.setSock, Function.update_of_ne hkk] at hst hcl'
        exact h.open_ k' hk' hst hcl'
    · by_cases hkk : k' = k
      · subst hkk; simp [S.setSock]
      · simp only [S.setSock, Function.update_of_ne hkk] at hd ⊢
        exact h.done k' hk' hd
    · rcases List.mem_append.1 hx with hx | hx
      · exact h.own x hx
      · obtain rfl := List.mem_singleton.1 hx
        exact hc

/-- The delete finds nothing but the socket that was closed. -/
theorem Sockets.delete (h : Sockets s) {id : Bytes} {k : Nat} (ha : Alone s id k)
    (hcl : (s.sock k).closed = true) : Sockets (s.delete id) := by
  have map : ∀ id', (s.delete id).redirectMap id' = if id' = id then none else s.redirectMap id' :=
    fun id' => by simp [S.delete, Function.update_apply]
  refine ⟨fun id' k' hk => ?_, fun k' hk hst hop => ?_, h.done, h.own⟩
  · rw [map] at hk
    split at hk
    · cases hk
    · have hl := h.entry id' k' hk
      exact ⟨hl.lt, hl.stored, hl.id⟩
  · have hreg := h.open_ k' hk hst hop
    show (s.delete id).redirectMap (s.idOf k') = some k'
    rw [map, if_neg]
    · exact hreg
    · intro hi
      rw [hi] at hreg
      rcases ha with ha | ha <;> rw [ha] at hreg <;> cases hreg
      exact absurd (hcl.symm.trans hop) (by simp)

theorem Sockets.readerDone (h : Sockets s) {k : Nat} (hcl : (s.sock k).closed = true) :
    Sockets (s.setSock k { s.sock k with readerDone := true }) := by
  have hm : Mono s (s.setSock k { s.sock k with readerDone := true }) :=
    .of_update (k := k) rfl rfl rfl rfl (fun h => h) fun h => h
  refine ⟨fun id k' hk => (h.entry id k' hk).mono hm, fun k' hk hst hop => ?_, fun k' hk hd => ?_,
    h.own⟩
  · rw [hm.id k' hk]
    by_cases hkk : k' = k
    · subst hkk
      simp [S.setSock, hcl] at hop
    · simp only [S.setSock, Function.update_of_ne hkk] at hst hop
      exact h.open_ k' hk hst hop
  · by_cases hkk : k' = k
    · subst hkk; simpa [S.setSock] using hcl
    · simp only [S.setSock, Function.update_of_ne hkk] at hd ⊢
      exact h.done k' hk hd

theorem closeSock_readerDone (s : S) (k : Nat) (c : Cause) (k' : Nat) :
    ((s.closeSock k c).sock k').readerDone = (s.sock k').readerDone := by
  unfold S.closeSock
  split
  · rfl
  · simp only [S.setSock, Function.update_apply]
    split
    · rename_i hk; rw [hk]
    · rfl

theorem closeSock_stored (s : S) (k : Nat) (c : Cause) (k' : Nat) :
    ((s.closeSock k c).sock k').stored = (s.sock k').stored := by
  unfold S.closeSock
  split
  · rfl
  · simp only [S.setSock, Function.update_apply]
    split
    · rename_i hk; rw [hk]
    · rfl

theorem closeSock_redirectMap (s : S) (k : Nat) (c : Cause) :
    (s.closeSock k c).redirectMap = s.redirectMap := by
  unfold S.closeSock
  split <;> rfl

theorem Owned.closeSock (h : Owned s q) (k : Nat) (c : Cause) : Owned (s.closeSock k c) q := by
  refine h.keep (.closeSock s k c) (fun k' _ _ hd => ?_) (fun r _ hst => ?_) fun id k' _ ha _ => ?_
  · rw [closeSock_readerDone]; exact hd
  · rw [closeSock_stored]; exact hst
  · rw [Alone, closeSock_redirectMap]; exact ha

theorem Owned.delete (h : Owned s q) (id : Bytes) : Owned (s.delete id) q := by
  refine h.keep (.refl_of rfl rfl) (fun _ _ _ hd => hd) (fun _ _ hst => hst) fun id' k _ ha _ => ?_
  simp only [Alone, S.delete, Function.update_apply]
  split
  · exact .inl rfl
  · exact ha

/-- Every earlier relay with the id of `r` is over. -/
def Over (s : S) (r : Relay) : Prop :=
  ∀ k < s.n, (s.sock k).stored = true → s.idOf k = r.id → (s.sock k).readerDone = true

instance (s : S) (r : Relay) : Decidable (Over s r) :=
  inferInstanceAs (Decidable (∀ k < s.n, _ → _ → _))

/-- A section keeps the invariant, and its goroutine or the one it starts is where it says. -/
theorem Sec.sockets {err : Bool} {e : E} {nx : Next P} (h : Sec s p err e (s', nx))
    (hs : Sockets s) (hp : Owned s p) (hstore : ∀ r, p = .store r → Over s r)
    (hwrite : ∀ c l d k, p = .write c l d k → e = .write false → Alone s (udpID l d.addr) k) :
    Sockets s' ∧ (∀ q, nx.place = some q → Owned s' q) ∧ ∀ q, nx.new = some q → Owned s' q := by
  cases h with
  | dial c l t =>
    refine ⟨hs.dial l t, fun q hq => ?_, by simp⟩
    cases hq
    refine ⟨Nat.lt_succ_self _, ?_, ?_, ?_⟩ <;> simp [S.idOf, Relay.id, S.dial]
  | dialFail => exact ⟨hs, fun q hq => by cases hq; trivial, by simp⟩
  | store r =>
    obtain ⟨h1, h2⟩ := hs.store hp (hstore r rfl)
    exact ⟨h1, fun q hq => by cases hq; exact h2, by simp⟩
  | go r =>
    exact ⟨hs, fun q hq => by cases hq; trivial, fun q hq => by cases hq; exact hp⟩
  | missing => exact ⟨hs, fun q hq => by cases hq; trivial, by simp⟩
  | found c l d err k hk =>
    exact ⟨hs, fun q hq => by cases hq; exact hs.entry _ k hk, by simp⟩
  | write => exact ⟨hs.same rfl rfl rfl rfl, by simp, by simp⟩
  | writeFail c l d k =>
    exact ⟨hs, fun q hq => by cases hq; exact ⟨hp, hwrite c l d k rfl rfl⟩, by simp⟩
  | read r err data =>
    refine ⟨hs.same rfl rfl rfl rfl, fun q hq => ?_, by simp⟩
    cases hq
    have ha : Active s r := hp
    exact ⟨⟨ha.live.lt, ha.live.stored, ha.live.id⟩, ha.running, ha.alone⟩
  | readFail r => exact ⟨hs, fun q hq => by cases hq; exact hp, by simp⟩
  | wrote r => exact ⟨hs, fun q hq => by cases hq; exact hp, by simp⟩
  | wroteFail r => exact ⟨hs, fun q hq => by cases hq; exact hp, by simp⟩
  | closed r => exact ⟨hs, fun q hq => by cases hq; exact ⟨rfl, hp⟩, by simp⟩
  | clearNone id w err hn =>
    refine ⟨hs, fun q hq => ?_, by simp⟩
    cases hq
    have hc : ClearOk s id w := hp
    cases w with
    | write => trivial
    | reader r =>
      -- nothing is left under the id, so the socket was closed
      obtain ⟨rfl, ha⟩ := hc
      refine ⟨ha, ?_⟩
      rw [← Bool.not_eq_false]
      intro hop
      have hreg := hs.open_ _ ha.live.lt ha.live.stored hop
      rw [ha.live.id, hn] at hreg
      cases hreg
  | clear id w err k hk =>
    refine ⟨hs, fun q hq => ?_, by simp⟩
    cases hq
    have hc : ClearOk s id w := hp
    refine ⟨hc, ?_⟩
    rcases hc.alone with ha | ha <;> rw [ha] at hk <;> cases hk
    rfl
  | clearClose id k w =>
    obtain ⟨hc, rfl⟩ := hp
    obtain ⟨h1, h2⟩ := hs.closeSock (k := w.sock) (c := w.cause) (by cases w <;> rfl)
    refine ⟨h1, fun q hq => ?_, by simp⟩
    cases hq
    exact ⟨Owned.closeSock (q := .clear id w) hc _ _, h2 hc.live.lt⟩
  | clearDelete id w =>
    obtain ⟨hc, hcl⟩ := hp
    refine ⟨hs.delete hc.alone hcl, fun q hq => ?_, by simp⟩
    cases hq
    cases w with
    | write => trivial
    | reader r => exact ⟨(Owned.delete (q := .clear id (.reader r)) hc id).2, hcl⟩
  | readerDone r => exact ⟨hs.readerDone hp.2, by simp, by simp⟩
  | writeCleared => exact ⟨hs, fun q hq => by cases hq; trivial, by simp⟩
  | return_ => exact ⟨hs, by simp, by simp⟩

/-- The places of other goroutines. -/
theorem Sec.owned_other {err : Bool} {e : E} {nx : Next P} (h : Sec s p err e (s', nx))
    (hq : Owned s q) (hu : ∀ k, p.relay = some k → q.relay ≠ some k)
    (hstore : ∀ r, p = .store r → Over s r ∧ q.clearing ≠ some r.id) : Owned s' q := by
  have same : ∀ {s' : S}, s'.n = s.n → s'.sock = s.sock → s'.redirectMap = s.redirectMap →
      Owned s' q := by
    intro s' hn hs hr
    refine hq.keep (.refl_of hn hs) (fun k _ _ hd => ?_) (fun r _ hst => ?_) fun id k _ ha _ => ?_
    · rw [hs]; exact hd
    · rw [hs]; exact hst
    · rw [Alone, hr]; exact ha
  cases h with
  | dial c l t =>
    refine hq.keep (.dial s l t) (fun k hk _ hd => ?_) (fun r hr hst => ?_) fun _ _ _ ha _ => ha
    · simpa [S.dial, Nat.ne_of_lt hk] using hd
    · subst hr
      simpa [S.dial, Nat.ne_of_lt hq.1] using hst
  | store r =>
    obtain ⟨hover, hclr⟩ := hstore r rfl
    have other : ∀ k, k ≠ r.sock → (s.store r.id r.sock).sock k = s.sock k := fun k hk => by
      simp [S.store, S.setSock, hk]
    refine hq.keep (Sec.store r err).mono (fun k _ hk hd => ?_) (fun r' hr hst => ?_)
      fun id k hl ha hw => ?_
    · rw [other k]
      · exact hd
      · rintro rfl; exact hu _ rfl hk
    · subst hr
      rw [other]
      · exact hst
      · intro hk; exact hu r.sock rfl (by rw [← hk]; rfl)
    · -- a place that relies on the entry of this id is one of an unfinished relay
      have hid : id ≠ r.id := by
        rintro rfl
        rcases hw with hw | ⟨-, hrun⟩
        · exact hclr hw
        · rw [hover k hl.lt hl.stored hl.id] at hrun
          cases hrun
      simpa [Alone, S.store, hid] using ha
  | clearClose id k w => exact hq.closeSock k w.cause
  | clearDelete id w => exact hq.delete id
  | readerDone r =>
    refine hq.keep (Sec.readerDone r err).mono (fun k _ hk hd => ?_) (fun r' _ hst => ?_)
      fun _ _ _ ha _ => ha
    · have hne : k ≠ r.sock := by rintro rfl; exact hu _ rfl hk
      simpa [S.setSock, hne] using hd
    · simp only [S.setSock, Function.update_apply]
      split
      · rename_i hk; rw [← hk]; exact hst
      · exact hst
  | _ => exact same rfl rfl rfl

theorem Owned.relay_lt {k : Nat} (h : Owned s q) (hq : q.relay = some k) : k < s.n := by
  cases q with
  | store r => cases hq; exact h.1
  | go r => cases hq; exact h.live.lt
  | read r => cases hq; exact h.live.lt
  | wrote r => cases hq; exact h.live.lt
  | closed r => cases hq; exact h.live.lt
  | clear id w => cases w <;> cases hq; exact h.2.live.lt
  | clearClose id k w => cases w <;> cases hq; exact h.1.live.lt
  | clearDelete id w => cases w <;> cases hq; exact h.1.live.lt
  | cleared w => cases w <;> cases hq; exact h.1.live.lt
  | _ => cases hq

/-- A relay passes from place to place; `Connect` makes one with a new socket. -/
theorem Sec.relay {err : Bool} {e : E} {nx : Next P} (h : Sec s p err e (s', nx)) :
    (∀ q k, nx.place = some q → q.relay = some k → p.relay = some k ∨ k = s.n) ∧
      ∀ q k, nx.new = some q → q.relay = some k →
        p.relay = some k ∧ ∀ q', nx.place = some q' → q'.relay ≠ some k := by
  have none_ : ∀ {q : P}, q.relay = none → ∀ q' k, some q = some q' → q'.relay = some k →
      p.relay = some k ∨ k = s.n := by
    intro q hq q' k he hk
    cases he
    rw [hq] at hk
    cases hk
  have keep : ∀ {q : P}, q.relay = p.relay → ∀ q' k, some q = some q' → q'.relay = some k →
      p.relay = some k ∨ k = s.n := by
    intro q hq q' k he hk
    cases he
    exact .inl (hq ▸ hk)
  cases h with
  | dial c l t =>
    refine ⟨fun q k hq hk => ?_, by simp⟩
    cases hq
    cases hk
    exact .inr rfl
  | dialFail => exact ⟨none_ rfl, by simp⟩
  | store r => exact ⟨keep rfl, by simp⟩
  | go r =>
    refine ⟨none_ rfl, fun q k hq hk => ?_⟩
    cases hq
    exact ⟨hk, fun q' hq' => by cases hq'; simp [P.relay]⟩
  | missing => exact ⟨none_ rfl, by simp⟩
  | found => exact ⟨none_ rfl, by simp⟩
  | write => exact ⟨by simp, by simp⟩
  | writeFail => exact ⟨none_ rfl, by simp⟩
  | read => exact ⟨keep rfl, by simp⟩
  | readFail => exact ⟨keep rfl, by simp⟩
  | wrote => exact ⟨keep rfl, by simp⟩
  | wroteFail => exact ⟨keep rfl, by simp⟩
  | closed => exact ⟨keep rfl, by simp⟩
  | clearNone id w => exact ⟨keep (by cases w <;> rfl), by simp⟩
  | clear id w => exact ⟨keep (by cases w <;> rfl), by simp⟩
  | clearClose id k w => exact ⟨keep (by cases w <;> rfl), by simp⟩
  | clearDelete id w => exact ⟨keep (by cases w <;> rfl), by simp⟩
  | readerDone => exact ⟨by simp, by simp⟩
  | writeCleared => exact ⟨none_ rfl, by simp⟩
  | return_ => exact ⟨by simp, by simp⟩

end

end Pivot

/-! ## Runs -/

/-- The relay that the next section puts into `redirectMap`. -/
def storing (x : Go udpPivot.P) : Option Pivot.Relay :=
  match x.pc with
  | .handler (.store r) _ => some r
  | _ => none

/-- The id and the socket of the write that fails in the next section. -/
def failing (x : Go udpPivot.P) (e : Env udpPivot.E) : Option (Bytes × Nat) :=
  match x.pc, e with
  | .handler (.write _ l d k) _, .handler (.write false) => some (udpID l d.addr, k)
  | _, _ => none

/-- No two relays with one id overlap: `Connect` puts a socket into `redirectMap` when the readers
of the earlier sockets with its id have returned and no failed write is clearing the id, and a write
fails while `redirectMap` has no other socket under its id. -/
def NoOverlap (s : Sys udpPivot) : Act udpPivot → Prop
  | .sec g e =>
    (∀ r ∈ storing (s.thread g), Pivot.Over s.shared.h r ∧
      ∀ g' < s.n, (s.thread g').place.bind Pivot.P.clearing ≠ some r.id) ∧
    ∀ x ∈ failing (s.thread g) e, Pivot.Alone s.shared.h x.1 x.2
  | .start _ => True

instance (s : Sys udpPivot) : (a : Act udpPivot) → Decidable (NoOverlap s a)
  | .sec g e => inferInstanceAs (Decidable
      ((∀ r ∈ storing (s.thread g), Pivot.Over s.shared.h r ∧ ∀ g' < s.n, _ ≠ _) ∧
        ∀ x ∈ failing (s.thread g) e, Pivot.Alone s.shared.h x.1 x.2))
  | .start _ => .isTrue trivial

/-- What is known of a goroutine. -/
structure SocketsLocal (s : Shared udpPivot) (_ : Gid) (x : Go udpPivot.P) : Prop where
  flat : Flat x
  owned : ∀ p, x.place = some p → Pivot.Owned s.h p

/-- The goroutine runs code for the relay of socket `k`. -/
def Owns (x : Go udpPivot.P) (k : Nat) : Prop := ∃ p, x.place = some p ∧ p.relay = some k

structure Owners (s : Sys udpPivot) : Prop extends
  Holds (fun s => Pivot.Sockets s.h) SocketsLocal s where
  unique : Unique Owns s

section
variable {s s' : Sys udpPivot} {a : Act udpPivot}

theorem Owners.start (h : Owners s) {b : Call} {x : Shared udpPivot} {t : Go udpPivot.P}
    (hst : start s.shared s.n b = some (x, t)) : Owners (s.start x t) := by
  have ht : Flat t ∧ t.place = none ∧ x.h = s.shared.h := by
    obtain ⟨src, dst, data, rfl, -, rfl, rfl⟩ | ⟨c, -, rfl, rfl, rfl⟩ := start_spec hst
    · refine ⟨.of_none fun f hf => ?_, rfl, rfl⟩
      obtain rfl := List.mem_singleton.1 hf
      rfl
    · exact ⟨.of_none (by simp), rfl, rfl⟩
  obtain ⟨hfl, hpl, hh⟩ := ht
  refine ⟨h.toHolds.start ?_ ⟨hfl, fun p hp => ?_⟩ fun g _ hg => ⟨hg.flat, fun p hp => ?_⟩,
    h.unique.start fun k => ?_⟩
  · rw [hh]; exact h.shared
  · rw [hpl] at hp; cases hp
  · rw [hh]; exact hg.owned p hp
  · rintro ⟨p, hp, -⟩
    rw [hpl] at hp
    cases hp

theorem Owners.sec (h : Owners s) {g : Gid} {e : Env udpPivot.E} {o : Out udpPivot} (hg : g < s.n)
    (hsp : Sec s.shared (s.thread g).stack (s.thread g).pc e o) (hc : NoOverlap s (.sec g e)) :
    Owners (s.sec g o.1 o.2.1 o.2.2) := by
  have hl := h.thread g hg
  obtain ⟨hflat, hlead⟩ := hsp.leads hl.flat
  cases hlead with
  | core hh hp hnew =>
    have entry : ∀ {p : Pivot.P}, (∃ c l d, p = .lookup c l d) ∨ (∃ c l t, p = .dial c l t) →
        Pivot.Owned o.1.h p ∧ p.relay = none := by
      rintro p (⟨c, l, d, rfl⟩ | ⟨c, l, t, rfl⟩) <;> exact ⟨trivial, rfl⟩
    refine ⟨h.toHolds.sec hg ?_ ⟨hflat, fun p hpl => ?_⟩ (fun u hu => ⟨(hnew u hu).1, fun p hpl => ?_⟩)
      fun g' _ _ hg' => ⟨hg'.flat, fun p hpl => ?_⟩, h.unique.sec hg (fun k ⟨p, hpl, hk⟩ => ?_)
      fun u hu k ⟨p, hpl, hk⟩ => ?_⟩
    · rw [hh]; exact h.shared
    · rcases hp p hpl with hp' | hp'
      · rw [hh]; exact hl.owned p hp'
      · exact (entry (.inl hp')).1
    · obtain ⟨c, l, t, hu'⟩ := (hnew u hu).2
      rw [hu'] at hpl
      cases hpl
      trivial
    · rw [hh]; exact hg'.owned p hpl
    · rcases hp p hpl with hp' | hp'
      · exact .inl ⟨p, hp', hk⟩
      · rw [(entry (.inl hp')).2] at hk; cases hk
    · obtain ⟨c, l, t, hu'⟩ := (hnew u hu).2
      rw [hu'] at hpl
      cases hpl
      cases hk
  | pivot p err e' nx hpc he hps hpl hnew =>
    subst he
    have hplace : (s.thread g).place = some p := by
      have : (s.thread g).pc = .handler p err := hpc
      simp [Go.place, this]
    have hp := hl.owned p hplace
    have hpc' : (s.thread g).pc = .handler p err := hpc
    have hstore : ∀ r, p = .store r → Pivot.Over s.shared.h r ∧
        ∀ g' < s.n, (s.thread g').place.bind Pivot.P.clearing ≠ some r.id := by
      rintro r rfl
      exact hc.1 r (by simp [storing, hpc'])
    have hwrite : ∀ c l d k, p = .write c l d k → e' = .write false →
        Pivot.Alone s.shared.h (udpID l d.addr) k := by
      rintro c l d k rfl rfl
      exact hc.2 (udpID l d.addr, k) (by simp [failing, hpc'])
    obtain ⟨hs', hown, hownNew⟩ := hps.sockets h.shared hp (fun r hr => (hstore r hr).1) hwrite
    obtain ⟨hrel, hrelNew⟩ := hps.relay
    refine ⟨h.toHolds.sec hg hs' ⟨hflat, fun q hq => hown q (hpl ▸ hq)⟩
      (fun u hu => ⟨(hnew u hu).1, fun q hq => hownNew q ((hnew u hu).2 ▸ hq)⟩)
      fun g' hlt hne hg' => ⟨hg'.flat, fun q hq => ?_⟩,
      h.unique.sec hg (fun k ⟨q, hq, hk⟩ => ?_) fun u hu k ⟨q, hq, hk⟩ => ?_⟩
    · refine hps.owned_other (hg'.owned q hq) (fun k hk hk' => ?_) fun r hr => ?_
      · exact hne (h.unique g' hlt g hg k ⟨q, hq, hk'⟩ ⟨p, hplace, hk⟩)
      · refine ⟨(hstore r hr).1, fun hcl => (hstore r hr).2 g' hlt ?_⟩
        rw [hq]
        exact hcl
    · rcases hrel q k (hpl ▸ hq) hk with hk' | rfl
      · exact .inl ⟨p, hplace, hk'⟩
      · right
        rintro g' hlt ⟨q', hq', hk'⟩
        exact absurd (((h.thread g' hlt).owned q' hq').relay_lt hk') (Nat.lt_irrefl _)
    · obtain ⟨hk', hno⟩ := hrelNew q k ((hnew u hu).2 ▸ hq) hk
      refine ⟨⟨p, hplace, hk'⟩, ?_⟩
      rintro ⟨q', hq', hkq⟩
      exact hno q' (hpl ▸ hq') hkq

theorem owners_run {tr : List (Sys udpPivot × Act udpPivot)}
    (hr : Run (step udpPivot) (init udpPivot) tr s) (hc : Meets NoOverlap tr) : Owners s := by
  induction hr with
  | nil =>
    refine ⟨⟨⟨by simp [init, udpPivot], ?_, ?_, by simp [init, udpPivot]⟩, ?_⟩, ?_⟩
    · exact fun k hk => absurd hk (Nat.not_lt_zero k)
    · exact fun k hk => absurd hk (Nat.not_lt_zero k)
    · exact fun g hg => absurd hg (Nat.not_lt_zero g)
    · exact fun g hg => absurd hg (Nat.not_lt_zero g)
  | snoc hr hs ih =>
    rw [meets_snoc] at hc
    obtain ⟨b, x, t, rfl, hst, rfl⟩ | ⟨g, e, x, t, new, rfl, hg, hsec, rfl⟩ := step_cases hs
    · exact (ih hc.1).start hst
    · exact (ih hc.1).sec hg (sec_spec (g := g) hsec) hc.2

/-- In every run in which no two relays with one id overlap, a socket is closed only by the cleanup
of its own relay, after its reader ended or a write on it failed, and once its reader has returned
it is closed. -/
theorem sockets_owned {tr : List (Sys udpPivot × Act udpPivot)}
    (hr : Run (step udpPivot) (init udpPivot) tr s) (hc : Meets NoOverlap tr) :
    ∀ t ∈ visited tr s,
      (∀ k w, (k, w) ∈ t.shared.h.closes → w = .reader k ∨ w = .write k) ∧
      ∀ k < t.shared.h.n, (t.shared.h.sock k).readerDone = true →
        (t.shared.h.sock k).closed = true := by
  refine hr.forall_visited hc fun tr t hr hc => ⟨fun k w hm => ?_, ?_⟩
  · have hk : w.sock = k := (owners_run hr hc).shared.own (k, w) hm
    subst hk
    cases w with
    | reader k => exact .inl rfl
    | write k => exact .inr rfl
  · exact (owners_run hr hc).shared.done

end

/-- The app sends to `[2]` and to `[3]`, which closes the connection, and to `[2]` again: the second
connection dials a second socket for the same id. -/
def againActs : List (Act udpPivot) :=
  firstActs ++ runs 0 [false, false, false] ++ [.sec 1 (.handler (.dial true))] ++
    runs 1 [true, true, true, false, false] ++ [.start (.recv [1] [3] [66])] ++
    runs 3 [false, false, false, true, false, false, false, true, false, false]

def redialActs (g : Gid) : List (Act udpPivot) :=
  [.start (.recv [1] [2] [67]), .sec g .none, .sec (g + 1) (.handler (.dial true)),
    .sec (g + 1) (.handler .none)]

/-- The reader of the first socket ends: its read fails, it closes the connection and clears. -/
def endActs : List (Act udpPivot) :=
  [.sec 2 (.handler (.read none))] ++
    runs 2 [false, false, false, true, true, true, true, true]

/-- The first relay is over before the second `Connect` stores its socket. -/
theorem sockets_owned_again :
    ∃ tr s, Run (step udpPivot) (init udpPivot) tr s ∧ Meets NoOverlap tr ∧
      (0, Cause.reader 0) ∈ s.shared.h.closes ∧ s.shared.h.redirectMap (udpID [1] [2]) = some 1 ∧
      ∀ t ∈ visited tr s,
        (∀ k w, (k, w) ∈ t.shared.h.closes → w = .reader k ∨ w = .write k) ∧
        ∀ k < t.shared.h.n, (t.shared.h.sock k).readerDone = true →
          (t.shared.h.sock k).closed = true := by
  let acts := againActs ++ endActs ++ redialActs 4
  obtain ⟨s, hr, hs⟩ := exists_run (step udpPivot) (init udpPivot) acts
    (fun s => decide ((0, Cause.reader 0) ∈ s.shared.h.closes ∧
      s.shared.h.redirectMap (udpID [1] [2]) = some 1)) (by decide)
  obtain ⟨hcl, hreg⟩ := of_decide_eq_true hs
  have hc : Meets NoOverlap (execTrace (step udpPivot) (init udpPivot) acts) := by decide
  exact ⟨_, s, hr, hc, hcl, hreg, sockets_owned hr hc⟩

/-- The reader of the first socket ends after the second `Connect`: its cleanup closes the second
socket and leaves the first open. -/
theorem cleanup_closes_other :
    ¬ ∀ tr s, Run (step udpPivot) (init udpPivot) tr s → ∀ t ∈ visited tr s,
      (∀ k w, (k, w) ∈ t.shared.h.closes → w = .reader k ∨ w = .write k) ∧
      ∀ k < t.shared.h.n, (t.shared.h.sock k).readerDone = true →
        (t.shared.h.sock k).closed = true := by
  intro h
  let acts := againActs ++ redialActs 4 ++ endActs
  obtain ⟨s, hr, hs⟩ := exists_run (step udpPivot) (init udpPivot) acts
    (fun s => decide (0 < s.shared.h.n ∧ (1, Cause.reader 0) ∈ s.shared.h.closes ∧
      (s.shared.h.sock 0).readerDone = true ∧ (s.shared.h.sock 0).closed = false)) (by decide)
  obtain ⟨hlt, -, hd, hop⟩ := of_decide_eq_true hs
  have hcl := (h _ s hr s (last_mem_visited _ s)).2 0 hlt hd
  rw [hop] at hcl
  cases hcl

end Udp
