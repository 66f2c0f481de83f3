import Tun2Simple.Core.Proof.UdpConn
import Tun2Simple.Stack.UdpPivot

/-!
# Whose datagrams go where

`Pivot.step_spec` lists the sections of `udpPivot` (`Pivot.Sec`). `relay_routes`: what the app at
`L` sends to `D` is written only to a socket dialed to `D` for a connection of `L`, and what goes to
the TUN from `T` to `L` was read from a socket dialed to `T` for a connection of `L`, whatever
entries of `redirectMap` are overwritten, deleted and used again. The invariant (`Routes`,
`RoutesLocal`): an entry of `redirectMap` is a socket of its id, and the id determines the two
addresses (`udpID_inj`) as long as no source contains the separator.
-/

namespace Udp

open Trans Pool Net

/-! ## `udpID` -/

/-- The text does not contain `->`. -/
def NoArrow (a : Bytes) : Prop := ¬ ascii "->" <:+: a

instance (a : Bytes) : Decidable (NoArrow a) := inferInstanceAs (Decidable (¬ _))

/-- A longer source would contain the separator of the shorter one. -/
theorem udpID_append_ne {a b d x : Bytes} (hc : NoArrow (a ++ x)) (hx : x ≠ []) :
    udpID a b ≠ udpID (a ++ x) d := by
  intro h
  have h' : 45 :: 62 :: b = x ++ 45 :: 62 :: d := by
    simpa [udpID, ascii, List.append_assoc] using h
  match x, hx with
  | [y], _ =>
    have h2 := (List.cons.inj (List.cons.inj h').2).1
    exact absurd h2 (by decide)
  | y :: z :: x, _ =>
    obtain ⟨rfl, h2⟩ := List.cons.inj h'
    obtain ⟨rfl, -⟩ := List.cons.inj h2
    exact hc ⟨a, x, by simp [ascii]⟩

theorem udpID_inj {a b c d : Bytes} (ha : NoArrow a) (hc : NoArrow c)
    (h : udpID a b = udpID c d) : a = c ∧ b = d := by
  have hac : a = c := by
    have h1 : a <+: udpID a b := ⟨ascii "->" ++ b, by simp [udpID]⟩
    have h2 : c <+: udpID a b := by rw [h]; exact ⟨ascii "->" ++ d, by simp [udpID]⟩
    rcases List.prefix_or_prefix_of_prefix h1 h2 with ⟨x, rfl⟩ | ⟨x, rfl⟩
    · by_cases hx : x = []
      · simp [hx]
      · exact absurd h (udpID_append_ne hc hx)
    · by_cases hx : x = []
      · simp [hx]
      · exact absurd h.symm (udpID_append_ne ha hx)
  subst hac
  exact ⟨rfl, List.append_cancel_left h⟩

/-! ## The sections of `udpPivot` -/

namespace Pivot

/-- The sections. -/
inductive Sec (s : S) : P → Bool → E → S × Next P → Prop
  | dial (c : Nat) (l t : Addr) (err : Bool) : Sec s (.dial c l t) err (.dial true)
      (s.dial l t, .goto (.store ⟨c, l, t, s.n⟩))
  | dialFail (c : Nat) (l t : Addr) (err : Bool) : Sec s (.dial c l t) err (.dial false)
      (s, .call c .close .dialFailed)
  | store (r : Relay) (err : Bool) : Sec s (.store r) err .none
      (s.store r.id r.sock, .goto (.go r))
  | go (r : Relay) (err : Bool) : Sec s (.go r) err .none (s, .spawn (.read r) .connected)
  | missing (c : Nat) (l : Addr) (d : Dgram) (err : Bool) :
      s.redirectMap (udpID l d.addr) = none →
      Sec s (.lookup c l d) err .none (s, .call c .close .failed)
  | found (c : Nat) (l : Addr) (d : Dgram) (err : Bool) (k : Nat) :
      s.redirectMap (udpID l d.addr) = some k →
      Sec s (.lookup c l d) err .none (s, .goto (.write c l d k))
  | write (c : Nat) (l : Addr) (d : Dgram) (k : Nat) (err : Bool) : (s.sock k).closed = false →
      Sec s (.write c l d k) err (.write true)
        ({ s with written := s.written ++ [(k, d)] }, .return_ false)
  | writeFail (c : Nat) (l : Addr) (d : Dgram) (k : Nat) (err : Bool) :
      Sec s (.write c l d k) err (.write false) (s, .goto (.clear (udpID l d.addr) (.write c k)))
  | read (r : Relay) (err : Bool) (data : Bytes) : (s.sock r.sock).closed = false →
      Sec s (.read r) err (.read (some data)) ({ s with read := s.read ++ [(r.sock, data)] },
        .call r.conn (.writeFrom ⟨r.sock, data, r.target⟩) (.wrote r))
  | readFail (r : Relay) (err : Bool) :
      Sec s (.read r) err (.read none) (s, .call r.conn .close (.closed r))
  | wrote (r : Relay) : Sec s (.wrote r) false .none (s, .goto (.read r))
  | wroteFail (r : Relay) : Sec s (.wrote r) true .none (s, .call r.conn .close (.closed r))
  | closed (r : Relay) (err : Bool) :
      Sec s (.closed r) err .none (s, .goto (.clear r.id (.reader r)))
  | clearNone (id : Bytes) (w : Clear) (err : Bool) : s.redirectMap id = none →
      Sec s (.clear id w) err .none (s, .goto (.cleared w))
  | clear (id : Bytes) (w : Clear) (err : Bool) (k : Nat) : s.redirectMap id = some k →
      Sec s (.clear id w) err .none (s, .goto (.clearClose id k w))
  | clearClose (id : Bytes) (k : Nat) (w : Clear) (err : Bool) :
      Sec s (.clearClose id k w) err .none (s.closeSock k w.cause, .goto (.clearDelete id w))
  | clearDelete (id : Bytes) (w : Clear) (err : Bool) :
      Sec s (.clearDelete id w) err .none (s.delete id, .goto (.cleared w))
  | readerDone (r : Relay) (err : Bool) : Sec s (.cleared (.reader r)) err .none
      (s.setSock r.sock { s.sock r.sock with readerDone := true }, .return_ false)
  | writeCleared (c k : Nat) (err : Bool) :
      Sec s (.cleared (.write c k)) err .none (s, .call c .close .failed)
  | return_ (p : P) (err r : Bool) : p = .dialFailed ∨ p = .failed ∨ p = .connected →
      Sec s p err .none (s, .return_ r)

theorem step_spec {s : S} {p : P} {err : Bool} {e : E} {o : S × Next P}
    (h : step s p err e = some o) : Sec s p err e o := by
  unfold step at h
  split at h
  case h_1 => cases h; exact .dial _ _ _ _
  case h_2 => cases h; exact .dialFail _ _ _ _
  case h_3 => cases h; exact .return_ _ _ _ (.inl rfl)
  case h_4 => cases h; exact .store _ _
  case h_5 => cases h; exact .go _ _
  case h_6 => cases h; exact .return_ _ _ _ (.inr (.inr rfl))
  case h_7 =>
    split at h <;> cases h
    · exact .missing _ _ _ _ ‹_›
    · exact .found _ _ _ _ _ ‹_›
  case h_8 => cases h; exact .return_ _ _ _ (.inr (.inl rfl))
  case h_9 => split at h <;> cases h; exact .write _ _ _ _ _ (Bool.eq_false_iff.2 ‹_›)
  case h_10 => cases h; exact .writeFail _ _ _ _ _
  case h_11 => split at h <;> cases h; exact .read _ _ _ (Bool.eq_false_iff.2 ‹_›)
  case h_12 => cases h; exact .readFail _ _
  case h_13 =>
    split at h
    · rename_i herr
      subst herr
      cases h
      exact .wroteFail _
    · rename_i herr
      rw [Bool.eq_false_iff.2 herr]
      cases h
      exact .wrote _
  case h_14 => cases h; exact .closed _ _
  case h_15 =>
    split at h <;> cases h
    · exact .clearNone _ _ _ ‹_›
    · exact .clear _ _ _ _ ‹_›
  case h_16 => cases h; exact .clearClose _ _ _ _
  case h_17 => cases h; exact .clearDelete _ _ _
  case h_18 => cases h; exact .readerDone _ _
  case h_19 => cases h; exact .writeCleared _ _ _
  case h_20 => cases h

end Pivot

/-! ## Routes -/

/-- Socket `k` was dialed to `t` for a connection of `l`. -/
def Dialed (s : Shared udpPivot) (k : Nat) (l t : Addr) : Prop :=
  k < s.h.n ∧ (s.h.sock k).localAddr = l ∧ (s.h.sock k).target = t

/-- Datagram `d` came from the app at the local address of connection `c`. -/
def FromApp (s : Shared udpPivot) (c : Nat) (l : Addr) (d : Dgram) : Prop :=
  c < s.n ∧ (s.conn c).localAddr = l ∧ (l, d) ∈ s.received

/-- Datagram `d` was read from a socket dialed to its source for the local address of `c`. -/
def FromPeer (s : Shared udpPivot) (c : Nat) (d : Dgram) : Prop :=
  c < s.n ∧ Dialed s d.tag (s.conn c).localAddr d.addr ∧ (d.tag, d.data) ∈ s.h.read

def RelayOk (s : Shared udpPivot) (r : Pivot.Relay) : Prop :=
  r.conn < s.n ∧ (s.conn r.conn).localAddr = r.localAddr ∧ Dialed s r.sock r.localAddr r.target

def PlaceOk (s : Shared udpPivot) : Pivot.P → Prop
  | .dial c l _ => c < s.n ∧ (s.conn c).localAddr = l
  | .store r | .go r | .read r | .wrote r => RelayOk s r
  | .lookup c l d => FromApp s c l d
  | .write c l d k =>
    FromApp s c l d ∧ ∃ l' t, Dialed s k l' t ∧ udpID l' t = udpID l d.addr
  | _ => True

def PcOk (s : Shared udpPivot) : Pc Pivot.P → Prop
  | .load src d => (src, d) ∈ s.received
  | .store c d | .receiveTo c d _ | .receiveCheck c d _ => FromApp s c (s.conn c).localAddr d
  | .handler p _ => PlaceOk s p
  | .writeFrom c d _ | .sendto c d _ => FromPeer s c d
  | _ => True

def FrameOk (s : Shared udpPivot) : Frame Pivot.P → Prop
  | .handler p => PlaceOk s p
  | _ => True

structure RoutesLocal (s : Shared udpPivot) (_ : Gid) (x : Go Pivot.P) : Prop where
  pc : PcOk s x.pc
  frame : ∀ f ∈ x.stack, FrameOk s f

structure Routes (s : Shared udpPivot) : Prop where
  entry : ∀ id k, s.h.redirectMap id = some k → ∃ l t, Dialed s k l t ∧ udpID l t = id
  tag : ∀ (i : Nat) (x : Addr × Dgram), s.received[i]? = some x → x.2.tag = i
  pending : ∀ c < s.n, ∀ ds, (s.conn c).pending = some ds →
    ∀ d ∈ ds, FromApp s c (s.conn c).localAddr d
  written : ∀ x ∈ s.h.written, ∃ l, (l, x.2) ∈ s.received ∧ Dialed s x.1 l x.2.addr
  tun : ∀ c d late, Ev.tun c d late ∈ s.log → FromPeer s c d
  clean : ∀ x ∈ s.received, NoArrow x.1
  cleanConn : ∀ c < s.n, NoArrow (s.conn c).localAddr
  cleanSock : ∀ k < s.h.n, NoArrow (s.h.sock k).localAddr

/-- What the invariant speaks of is never taken back. -/
structure Extends (s s' : Shared udpPivot) : Prop extends Grows s s' where
  received : ∀ x ∈ s.received, x ∈ s'.received
  socks : s.h.n ≤ s'.h.n
  sock : ∀ k < s.h.n, (s'.h.sock k).localAddr = (s.h.sock k).localAddr ∧
    (s'.h.sock k).target = (s.h.sock k).target
  read : ∀ x ∈ s.h.read, x ∈ s'.h.read

section
variable {s s' : Shared udpPivot} {g : Gid}

theorem Dialed.ext (h : Extends s s') {k : Nat} {l t : Addr} (hd : Dialed s k l t) :
    Dialed s' k l t :=
  ⟨Nat.lt_of_lt_of_le hd.1 h.socks, (h.sock k hd.1).1.trans hd.2.1,
    (h.sock k hd.1).2.trans hd.2.2⟩

theorem FromApp.ext (h : Extends s s') {c : Nat} {l : Addr} {d : Dgram} (hd : FromApp s c l d) :
    FromApp s' c l d :=
  ⟨Nat.lt_of_lt_of_le hd.1 h.n, (h.localAddr c hd.1).trans hd.2.1, h.received _ hd.2.2⟩

theorem FromPeer.ext (h : Extends s s') {c : Nat} {d : Dgram} (hd : FromPeer s c d) :
    FromPeer s' c d := by
  obtain ⟨hc, hk, hr⟩ := hd
  refine ⟨Nat.lt_of_lt_of_le hc h.n, ?_, h.read _ hr⟩
  rw [h.localAddr c hc]
  exact hk.ext h

theorem RelayOk.ext (h : Extends s s') {r : Pivot.Relay} (hr : RelayOk s r) : RelayOk s' r :=
  ⟨Nat.lt_of_lt_of_le hr.1 h.n, (h.localAddr _ hr.1).trans hr.2.1, hr.2.2.ext h⟩

theorem PlaceOk.ext (h : Extends s s') {p : Pivot.P} (hp : PlaceOk s p) : PlaceOk s' p := by
  cases p with
  | dial c l t => exact ⟨Nat.lt_of_lt_of_le hp.1 h.n, (h.localAddr c hp.1).trans hp.2⟩
  | store r => exact RelayOk.ext h hp
  | go r => exact RelayOk.ext h hp
  | read r => exact RelayOk.ext h hp
  | wrote r => exact RelayOk.ext h hp
  | lookup c l d => exact FromApp.ext h hp
  | write c l d k =>
    obtain ⟨ha, l', t, hk, hid⟩ := hp
    exact ⟨ha.ext h, l', t, hk.ext h, hid⟩
  | _ => trivial

theorem PcOk.ext (h : Extends s s') {pc : Pc Pivot.P} (hp : PcOk s pc) : PcOk s' pc := by
  have app : ∀ {c d}, FromApp s c (s.conn c).localAddr d →
      FromApp s' c (s'.conn c).localAddr d := by
    intro c d hd
    rw [h.localAddr c hd.1]
    exact hd.ext h
  cases pc with
  | load src d => exact h.received _ hp
  | store c d => exact app hp
  | receiveTo c d late => exact app hp
  | receiveCheck c d late => exact app hp
  | handler p err => exact PlaceOk.ext h hp
  | writeFrom c d late => exact FromPeer.ext h hp
  | sendto c d late => exact FromPeer.ext h hp
  | _ => trivial

theorem RoutesLocal.ext (h : Extends s s') {x : Go Pivot.P} (hx : RoutesLocal s g x) :
    RoutesLocal s' g x := by
  refine ⟨hx.pc.ext h, fun f hf => ?_⟩
  have hf' := hx.frame f hf
  cases f with
  | handler p => exact PlaceOk.ext h hf'
  | _ => trivial

theorem Extends.of_grows (hg : Grows s s') (hr : s'.received = s.received) (hh : s'.h = s.h) :
    Extends s s' :=
  ⟨hg, by rw [hr]; exact fun _ => id, Nat.le_of_eq (by rw [hh]),
    by rw [hh]; exact fun _ _ => ⟨rfl, rfl⟩, by rw [hh]; exact fun _ => id⟩

/-- What a section of the core, or the start of a goroutine, has to keep. -/
theorem Routes.core (h : Routes s) (hx : Extends s s') (hh : s'.h = s.h)
    (hr : s'.received = s.received) (hlog : ∀ c d late, Ev.tun c d late ∈ s'.log → FromPeer s' c d)
    (hp : ∀ c < s'.n, ∀ ds, (s'.conn c).pending = some ds →
      ∀ d ∈ ds, FromApp s' c (s'.conn c).localAddr d)
    (hc : ∀ c < s'.n, NoArrow (s'.conn c).localAddr) : Routes s' where
  entry id k hk := by
    rw [hh] at hk
    obtain ⟨l, t, hd, hid⟩ := h.entry id k hk
    exact ⟨l, t, hd.ext hx, hid⟩
  tag := by rw [hr]; exact h.tag
  pending := hp
  written x hxw := by
    rw [hh] at hxw
    obtain ⟨l, hl, hd⟩ := h.written x hxw
    exact ⟨l, by rw [hr]; exact hl, hd.ext hx⟩
  tun := hlog
  clean := by rw [hr]; exact h.clean
  cleanConn := hc
  cleanSock := by rw [hh]; exact h.cleanSock

/-- The same for a section that leaves the connections' `pending` alone or changes that of `c`. -/
theorem Routes.core_update (h : Routes s) (hg : Grows s s') (hn : s'.n = s.n) (hh : s'.h = s.h)
    (hr : s'.received = s.received)
    (hlog : ∀ c d late, Ev.tun c d late ∈ s'.log → Ev.tun c d late ∈ s.log ∨ FromPeer s' c d)
    {c : Nat} {x : Conn} (hconn : s'.conn = Function.update s.conn c x)
    (hp : c < s.n → ∀ ds, x.pending = some ds → ∀ d ∈ ds, FromApp s c (s.conn c).localAddr d) :
    Routes s' := by
  have hx := Extends.of_grows hg hr hh
  refine h.core hx hh hr (fun c d late hm => ?_) (fun c' hc' ds hds d hd => ?_) (fun c' hc' => ?_)
  · rcases hlog c d late hm with hm | hm
    · exact (h.tun c d late hm).ext hx
    · exact hm
  · rw [hn] at hc'
    rw [hg.localAddr c' hc']
    refine FromApp.ext hx ?_
    by_cases hcc : c' = c
    · subst hcc
      rw [hconn, Function.update_self] at hds
      exact hp hc' ds hds d hd
    · rw [hconn, Function.update_of_ne hcc] at hds
      exact h.pending c' hc' ds hds d hd
  · rw [hn] at hc'
    rw [hg.localAddr c' hc']
    exact h.cleanConn c' hc'

/-- The same for one that leaves the connections alone. -/
theorem Routes.core_same (h : Routes s) (hn : s'.n = s.n) (hconn : s'.conn = s.conn)
    (hh : s'.h = s.h) (hr : s'.received = s.received)
    (hlog : ∀ c d late, Ev.tun c d late ∈ s'.log → Ev.tun c d late ∈ s.log ∨ FromPeer s' c d) :
    Routes s' := by
  refine h.core_update (.of_conn hn hconn) hn hh hr hlog (c := 0) (x := s.conn 0) ?_ (h.pending 0)
  rw [hconn, Function.update_eq_self]

/-- An event that is not a datagram to the TUN. -/
theorem Routes.emit (h : Routes s) {e : Ev} (he : ∀ c d late, e ≠ .tun c d late) :
    Routes (s.emit e) := by
  refine h.core_same rfl rfl rfl rfl fun c d late hm => ?_
  rcases List.mem_append.1 hm with hm | hm
  · exact .inl hm
  · exact absurd (List.mem_singleton.1 hm).symm (he c d late)

/-- What the handler's section may go on with. -/
def NextOk (s : Shared udpPivot) : Next Pivot.P → Prop
  | .goto p => PlaceOk s p
  | .call c m p => PlaceOk s p ∧
    match m with
    | .close => True
    | .receiveTo _ => False
    | .writeFrom d => FromPeer s c d
  | .spawn new p => PlaceOk s new ∧ PlaceOk s p
  | .return_ _ => True

theorem Extends.of_socks {h' : Pivot.S} (hn : s.h.n ≤ h'.n)
    (hs : ∀ k < s.h.n, (h'.sock k).localAddr = (s.h.sock k).localAddr ∧
      (h'.sock k).target = (s.h.sock k).target)
    (hr : ∀ x ∈ s.h.read, x ∈ h'.read) : Extends s { s with h := h' } :=
  ⟨.of_conn rfl rfl, fun _ => id, hn, hs, hr⟩

/-- A change of one socket that keeps its addresses. -/
theorem setSock_addr (h : Pivot.S) {k : Nat} {x : Sock} (hl : x.localAddr = (h.sock k).localAddr)
    (ht : x.target = (h.sock k).target) (k' : Nat) :
    ((h.setSock k x).sock k').localAddr = (h.sock k').localAddr ∧
      ((h.setSock k x).sock k').target = (h.sock k').target := by
  by_cases hk : k' = k
  · subst hk
    simp only [Pivot.S.setSock, Function.update_self]
    exact ⟨hl, ht⟩
  · simp [Pivot.S.setSock, hk]

theorem closeSock_addr (h : Pivot.S) (k : Nat) (w : Cause) (k' : Nat) :
    ((h.closeSock k w).sock k').localAddr = (h.sock k').localAddr ∧
      ((h.closeSock k w).sock k').target = (h.sock k').target := by
  unfold Pivot.S.closeSock
  split
  · exact ⟨rfl, rfl⟩
  · exact setSock_addr h (x := { h.sock k with closed := true }) rfl rfl k'

theorem closeSock_n (h : Pivot.S) (k : Nat) (w : Cause) : (h.closeSock k w).n = h.n := by
  unfold Pivot.S.closeSock
  split <;> rfl

theorem closeSock_read (h : Pivot.S) (k : Nat) (w : Cause) :
    (h.closeSock k w).read = h.read := by
  unfold Pivot.S.closeSock
  split <;> rfl

theorem Pivot.Sec.extends {p : Pivot.P} {err : Bool} {e : Pivot.E} {h' : Pivot.S}
    {nx : Next Pivot.P} (h : Pivot.Sec s.h p err e (h', nx)) : Extends s { s with h := h' } := by
  cases h with
  | dial c l t =>
    refine .of_socks (Nat.le_succ _) (fun k hk => ?_) fun _ => id
    simp [Pivot.S.dial, Nat.ne_of_lt hk]
  | store r =>
    refine .of_socks (Nat.le_refl _) (fun k' _ => ?_) fun _ => id
    exact setSock_addr s.h (x := { s.h.sock r.sock with stored := true }) rfl rfl k'
  | read r err data =>
    exact .of_socks (Nat.le_refl _) (fun _ _ => ⟨rfl, rfl⟩) fun x hx => List.mem_append_left _ hx
  | clearClose i k w =>
    refine .of_socks ?_ (fun k' _ => closeSock_addr s.h k w.cause k') fun x hx => ?_
    · exact Nat.le_of_eq (closeSock_n s.h k w.cause).symm
    · rw [closeSock_read]; exact hx
  | readerDone r =>
    refine .of_socks (Nat.le_refl _) (fun k' _ => ?_) fun _ => id
    exact setSock_addr s.h (x := { s.h.sock r.sock with readerDone := true }) rfl rfl k'
  | _ => exact .of_socks (Nat.le_refl _) (fun _ _ => ⟨rfl, rfl⟩) fun _ => id

/-- A section of `udpPivot` that leaves `written` and the sockets' number as they are. -/
theorem Routes.pivot (h : Routes s) {h' : Pivot.S} (hx : Extends s { s with h := h' })
    (hn : h'.n = s.h.n) (hw : h'.written = s.h.written)
    (he : ∀ id k, h'.redirectMap id = some k → s.h.redirectMap id = some k ∨
      ∃ l t, Dialed s k l t ∧ udpID l t = id) : Routes { s with h := h' } where
  entry id k hk := by
    rcases he id k hk with hk | ⟨l, t, hd, hid⟩
    · obtain ⟨l, t, hd, hid⟩ := h.entry id k hk
      exact ⟨l, t, hd.ext hx, hid⟩
    · exact ⟨l, t, hd.ext hx, hid⟩
  tag := h.tag
  pending c hc ds hds d hd := (h.pending c hc ds hds d hd).ext hx
  written x hxw := by
    obtain ⟨l, hl, hd⟩ := h.written x (hw ▸ hxw)
    exact ⟨l, hl, hd.ext hx⟩
  tun c d late hm := (h.tun c d late hm).ext hx
  clean := h.clean
  cleanConn := h.cleanConn
  cleanSock k hk := by
    have hk' : k < s.h.n := hn ▸ hk
    rw [(hx.sock k hk').1]
    exact h.cleanSock k hk'

/-- What the lookup of an id finds was dialed for the addresses of the id. -/
theorem Routes.dialed (h : Routes s) {c k : Nat} {l : Addr} {d : Dgram} (ha : FromApp s c l d)
    {l' t : Addr} (hd : Dialed s k l' t) (hid : udpID l' t = udpID l d.addr) :
    Dialed s k l d.addr := by
  have hl' : NoArrow l' := by rw [← hd.2.1]; exact h.cleanSock k hd.1
  obtain ⟨rfl, rfl⟩ := udpID_inj hl' (h.clean _ ha.2.2) hid
  exact hd

theorem Pivot.Sec.routes {p : Pivot.P} {err : Bool} {e : Pivot.E} {h' : Pivot.S}
    {nx : Next Pivot.P} (h : Pivot.Sec s.h p err e (h', nx)) (hr : Routes s) (hp : PlaceOk s p) :
    Routes { s with h := h' } ∧ NextOk { s with h := h' } nx := by
  have hx := h.extends
  have same : Routes { s with h := s.h } := hr
  cases h with
  | dial c l t =>
    have hd : Dialed { s with h := s.h.dial l t } s.h.n l t := by
      simp [Dialed, Pivot.S.dial]
    refine ⟨⟨?_, hr.tag, ?_, ?_, ?_, hr.clean, hr.cleanConn, ?_⟩, ?_⟩
    · intro id k hk
      obtain ⟨l, t, hd, hid⟩ := hr.entry id k hk
      exact ⟨l, t, hd.ext hx, hid⟩
    · exact fun c hc ds hds d hd => (hr.pending c hc ds hds d hd).ext hx
    · intro x hxw
      obtain ⟨l, hl, hd⟩ := hr.written x hxw
      exact ⟨l, hl, hd.ext hx⟩
    · exact fun c d late hm => (hr.tun c d late hm).ext hx
    · intro k hk
      by_cases hk' : k = s.h.n
      · subst hk'
        rw [hd.2.1, ← hp.2]
        exact hr.cleanConn c hp.1
      · have hlt : k < s.h.n := by
          have : k < s.h.n + 1 := hk
          omega
        rw [(hx.sock k hlt).1]
        exact hr.cleanSock k hlt
    · exact ⟨hp.1, hp.2, hd⟩
  | dialFail => exact ⟨same, trivial, trivial⟩
  | store r =>
    have hro : RelayOk s r := hp
    refine ⟨hr.pivot hx rfl rfl fun id k hk => ?_, hro.ext hx⟩
    simp only [Pivot.S.store, Function.update_apply] at hk
    split at hk
    · rename_i hid
      cases hk
      exact .inr ⟨r.localAddr, r.target, hro.2.2, hid.symm⟩
    · exact .inl hk
  | go r => exact ⟨same, hp, trivial⟩
  | missing => exact ⟨same, trivial, trivial⟩
  | found c l d err k hk =>
    obtain ⟨l', t, hd, hid⟩ := hr.entry _ k hk
    exact ⟨same, hp, l', t, hd, hid⟩
  | write c l d k =>
    obtain ⟨ha, l', t, hd, hid⟩ := hp
    have hd' := hr.dialed ha hd hid
    refine ⟨⟨hr.entry, hr.tag, hr.pending, fun x hxw => ?_, hr.tun, hr.clean, hr.cleanConn,
      hr.cleanSock⟩, trivial⟩
    rcases List.mem_append.1 hxw with hxw | hxw
    · exact hr.written x hxw
    · obtain rfl := List.mem_singleton.1 hxw
      exact ⟨l, ha.2.2, hd'⟩
  | writeFail => exact ⟨same, trivial⟩
  | read r err data =>
    have hro : RelayOk s r := hp
    have hro' := hro.ext hx
    refine ⟨hr.pivot hx rfl rfl fun _ _ => .inl, hro', hro'.1, ?_, ?_⟩
    · rw [hro'.2.1]; exact hro'.2.2
    · exact List.mem_append_right _ (List.mem_singleton.2 rfl)
  | readFail r => exact ⟨same, trivial, trivial⟩
  | wrote r => exact ⟨same, hp⟩
  | wroteFail r => exact ⟨same, trivial, trivial⟩
  | closed r => exact ⟨same, trivial⟩
  | clearNone => exact ⟨same, trivial⟩
  | clear => exact ⟨same, trivial⟩
  | clearClose i k w =>
    refine ⟨hr.pivot hx (closeSock_n _ _ _) ?_ fun i' k' hk => .inl ?_, trivial⟩
    · unfold Pivot.S.closeSock; split <;> rfl
    · unfold Pivot.S.closeSock at hk; split at hk <;> exact hk
  | clearDelete i w =>
    refine ⟨hr.pivot hx rfl rfl fun i' k hk => .inl ?_, trivial⟩
    simp only [Pivot.S.delete, Function.update_apply] at hk
    split at hk
    · cases hk
    · exact hk
  | readerDone r => exact ⟨hr.pivot hx rfl rfl fun _ _ => .inl, trivial⟩
  | writeCleared => exact ⟨same, trivial, trivial⟩
  | return_ => exact ⟨same, trivial⟩

variable {st : List (Frame udpPivot.P)} {pc : Pc udpPivot.P} {e : Env udpPivot.E} {o : Out udpPivot}

theorem Sec.extends (h : Sec s st pc e o) : Extends s o.1 := by
  have hg := h.effect.grows
  cases h with
  | goto p err e h' q hs => exact (Pivot.step_spec hs).extends
  | call p err e h' c m q hs => exact (Pivot.step_spec hs).extends
  | spawn p err e h' new q hs => exact (Pivot.step_spec hs).extends
  | return_ p err e h' r hs => exact (Pivot.step_spec hs).extends
  | ret err f => cases f <;> exact .of_grows hg rfl rfl
  | _ => exact .of_grows hg rfl rfl

/-- A section keeps the routes. -/
theorem Sec.routes (h : Sec s st pc e o) (hr : Routes s) (hl : RoutesLocal s g ⟨pc, st⟩) :
    Routes o.1 := by
  have hg := h.effect.grows
  have hx := h.extends
  have hpc : PcOk s pc := hl.pc
  cases h with
  | found src d c => exact hr
  | new src d =>
    have hsrc : (src, d) ∈ s.received := hpc
    have keep : ∀ c < s.n + 1, (c = s.n ∧ (s.newUDPConn src).conn c = { localAddr := src }) ∨
        (c < s.n ∧ (s.newUDPConn src).conn c = s.conn c) := by
      intro c hc
      by_cases hcn : c = s.n
      · subst hcn; exact .inl ⟨rfl, by simp [Shared.newUDPConn]⟩
      · exact .inr ⟨by omega, by simp [Shared.newUDPConn, hcn]⟩
    refine hr.core hx rfl rfl (fun c d late hm => (hr.tun c d late hm).ext hx) ?_ ?_
    · intro c hc ds hds d' hd'
      rcases keep c hc with ⟨rfl, hk⟩ | ⟨hlt, hk⟩
      · rw [hk] at hds; cases hds; cases hd'
      · rw [hk] at hds ⊢
        exact (hr.pending c hlt ds hds d' hd').ext hx
    · intro c hc
      rcases keep c hc with ⟨rfl, hk⟩ | ⟨hlt, hk⟩
      · rw [hk]; exact hr.clean _ hsrc
      · rw [hk]; exact hr.cleanConn c hlt
  | store c d => exact hr.core_update hg rfl rfl rfl (fun _ _ _ => .inl) rfl (hr.pending c)
  | enqueue c d late ds _ hp =>
    refine hr.core_update hg rfl rfl rfl (fun c' d' late' hm => ?_) rfl fun hc ds' hds d' hd' => ?_
    · rcases List.mem_append.1 hm with hm | hm
      · exact .inl hm
      · cases List.mem_singleton.1 hm
    · cases hds
      rcases List.mem_append.1 hd' with hd' | hd'
      · exact hr.pending c hc ds hp d' hd'
      · obtain rfl := List.mem_singleton.1 hd'
        exact hpc
  | notEarly => exact hr
  | goto p err e h' q hs => exact ((Pivot.step_spec hs).routes hr hpc).1
  | call p err e h' c m q hs => exact ((Pivot.step_spec hs).routes hr hpc).1
  | spawn p err e h' new q hs => exact ((Pivot.step_spec hs).routes hr hpc).1
  | return_ p err e h' r hs => exact ((Pivot.step_spec hs).routes hr hpc).1
  | setConnected c =>
    exact hr.core_update hg rfl rfl rfl (fun _ _ _ => .inl) rfl (hr.pending c)
  | drain c d ds hp =>
    refine hr.core_update hg rfl rfl rfl (fun _ _ _ => .inl) rfl fun hc ds' hds d' hd' => ?_
    cases hds
    exact hr.pending c hc _ hp d' (.tail _ hd')
  | drained c =>
    exact hr.core_update hg rfl rfl rfl (fun _ _ _ => .inl) rfl fun _ _ hds => by cases hds
  | writeNone => exact hr
  | write => exact hr
  | close c => exact hr.core_update hg rfl rfl rfl (fun _ _ _ => .inl) rfl (hr.pending c)
  | delete c => exact hr.core_same rfl rfl rfl rfl fun _ _ _ => .inl
  | refuse => exact hr.emit (by simp)
  | handle => exact hr.emit (by simp)
  | writeRefuse => exact hr.emit (by simp)
  | badAddr => exact hr.emit (by simp)
  | sendto c d late =>
    refine Routes.emit (s := s.emit (.tun c d late)) ?_ (by simp)
    refine hr.core_same rfl rfl rfl rfl fun c' d' late' hm => ?_
    rcases List.mem_append.1 hm with hm | hm
    · exact .inl hm
    · cases List.mem_singleton.1 hm
      exact .inr hpc
  | end_ => exact hr
  | ret err f st' hst =>
    cases f with
    | recvFn src => exact hr.core_same rfl rfl rfl rfl fun _ _ _ => .inl
    | receiveTo c late => exact hr.emit (by simp)
    | _ => exact hr

/-- The goroutine that ran a section. -/
theorem Sec.routes_own (h : Sec s st pc e o) (hb : Local s g ⟨pc, st⟩) (hreg : Registry s)
    (hr : Routes s) (hl : RoutesLocal s g ⟨pc, st⟩) : RoutesLocal o.1 g o.2.1 := by
  have hx := h.extends
  have hpc : PcOk s pc := hl.pc
  have keep : ∀ {pc' : Pc Pivot.P}, PcOk o.1 pc' → RoutesLocal o.1 g ⟨pc', st⟩ :=
    fun hp => ⟨hp, (hl.ext hx).frame⟩
  have push : ∀ {pc' : Pc Pivot.P} {f : Frame Pivot.P}, PcOk o.1 pc' → FrameOk o.1 f →
      RoutesLocal o.1 g ⟨pc', f :: st⟩ := by
    intro pc' f hp hf
    refine ⟨hp, fun f' hf' => ?_⟩
    rcases List.mem_cons.1 hf' with rfl | hf'
    · exact hf
    · exact (hl.ext hx).frame f' hf'
  cases h with
  | found src d c hu =>
    refine keep ⟨hreg.lt hu, rfl, ?_⟩
    rw [hreg.src hu]
    exact hpc
  | new src d hu =>
    refine keep ⟨Nat.lt_succ_self _, rfl, ?_⟩
    have hsrc : (src, d) ∈ s.received := hpc
    simpa [Shared.newUDPConn] using hsrc
  | store c d =>
    have hpc' : PcOk s (.receiveTo c d (s.conn c).wasClosed) := hpc
    exact keep (hpc'.ext hx)
  | notEarly c d late => exact keep hpc
  | handle c d late => exact push (PlaceOk.ext hx (p := .lookup c _ d) hpc) trivial
  | goto p err e h' q hs => exact keep ((Pivot.step_spec hs).routes hr hpc).2
  | call p err e h' c m q hs =>
    obtain ⟨hq, hm⟩ := ((Pivot.step_spec hs).routes hr hpc).2
    cases m with
    | close => exact push trivial hq
    | receiveTo d => exact hm.elim
    | writeFrom d => exact push hm hq
  | spawn p err e h' new q hs => exact keep ((Pivot.step_spec hs).routes hr hpc).2.2
  | drain c d ds hp =>
    have hlt := hb.pc_lt (c := c) rfl
    exact push (PlaceOk.ext hx (p := .lookup c _ d) (hr.pending c hlt _ hp d (.head _))) trivial
  | write c d late => exact keep hpc
  | end_ => exact ⟨trivial, by simp⟩
  | ret err f st' hst =>
    subst hst
    have hf : FrameOk s f := hl.frame f (.head _)
    have rest : ∀ f' ∈ st', FrameOk s f' := fun f' hf' => hl.frame f' (.tail _ hf')
    cases f with
    | recvFn src => exact ⟨trivial, by simp [Shared.return_]⟩
    | receiveTo c late => exact ⟨trivial, fun f' hf' => ((hl.ext hx).frame f' (.tail _ hf'))⟩
    | connect c => exact ⟨by cases err <;> trivial, rest⟩
    | drain c => exact ⟨by cases err <;> trivial, rest⟩
    | handler p => exact ⟨hf, rest⟩
  | _ => exact keep trivial

/-- The goroutine that a section starts. -/
theorem Sec.routes_new (h : Sec s st pc e o) (hr : Routes s) (hl : RoutesLocal s g ⟨pc, st⟩)
    {x : Go udpPivot.P} (hx : o.2.2 = some x) (g' : Gid) : RoutesLocal o.1 g' x := by
  obtain ⟨src, d, -, ho, rfl⟩ | ⟨p, err, e, h', new, q, rfl, hs, ho, rfl⟩ := h.new_cases hx
  · rw [ho]
    refine ⟨⟨Nat.lt_succ_self _, ?_⟩, fun f hf => ?_⟩
    · simp [Shared.newUDPConn]
    · obtain rfl := List.mem_singleton.1 hf
      trivial
  · rw [ho]
    exact ⟨((Pivot.step_spec hs).routes hr hl.pc).2.1, by simp⟩

end

/-- No source address contains the separator of `udpID`. -/
def CleanSource (_ : Sys udpPivot) : Act udpPivot → Prop
  | .start (.recv src _ _) => NoArrow src
  | _ => True

instance (s : Sys udpPivot) : (a : Act udpPivot) → Decidable (CleanSource s a)
  | .start (.recv src _ _) => inferInstanceAs (Decidable (NoArrow src))
  | .start (.close _) | .sec _ _ => .isTrue trivial

section
variable {s s' : Sys udpPivot} {a : Act udpPivot}

theorem routes_start {s s' : Shared udpPivot} {g : Gid} {b : Call} {x : Go udpPivot.P}
    (h : start s g b = some (s', x)) (hr : Routes s)
    (hc : ∀ src dst data, b = .recv src dst data → NoArrow src) :
    Extends s s' ∧ Routes s' ∧ RoutesLocal s' g x := by
  obtain ⟨src, dst, data, rfl, -, rfl, rfl⟩ | ⟨c, hlt, rfl, rfl, rfl⟩ := start_spec h
  · have hx : Extends s { s with
        lock := some g, received := s.received ++ [(src, ⟨s.received.length, data, dst⟩)] } :=
      ⟨.of_conn rfl rfl, fun _ => List.mem_append_left _, Nat.le_refl _,
        fun _ _ => ⟨rfl, rfl⟩, fun _ => id⟩
    have last : (src, ⟨s.received.length, data, dst⟩) ∈
        s.received ++ [(src, ⟨s.received.length, data, dst⟩)] :=
      List.mem_append_right _ (List.mem_singleton.2 rfl)
    refine ⟨hx, ⟨?_, ?_, ?_, ?_, ?_, ?_, hr.cleanConn, hr.cleanSock⟩, last, fun f hf => ?_⟩
    · exact hr.entry
    · intro i y hi
      by_cases hlt : i < s.received.length
      · rw [List.getElem?_append_left hlt] at hi
        exact hr.tag i y hi
      · rw [List.getElem?_append_right (Nat.le_of_not_lt hlt), List.getElem?_singleton] at hi
        split at hi
        · cases hi
          show s.received.length = i
          omega
        · cases hi
    · exact fun c hc ds hds d hd => (hr.pending c hc ds hds d hd).ext hx
    · intro y hy
      obtain ⟨l, hl, hd⟩ := hr.written y hy
      exact ⟨l, List.mem_append_left _ hl, hd⟩
    · exact hr.tun
    · intro y hy
      rcases List.mem_append.1 hy with hy | hy
      · exact hr.clean y hy
      · obtain rfl := List.mem_singleton.1 hy
        exact hc src dst data rfl
    · obtain rfl := List.mem_singleton.1 hf
      trivial
  · exact ⟨.of_grows (.refl _) rfl rfl, hr, trivial, by simp⟩

theorem routes_step (hb : Base s) (h : Holds Routes RoutesLocal s) (hc : CleanSource s a)
    (hs : step udpPivot s a = some s') : Holds Routes RoutesLocal s' := by
  refine h.step hs ?_ ?_
  · intro b x t ha hst
    subst ha
    obtain ⟨hx, hr, hl⟩ := routes_start hst h.shared (by rintro src dst data rfl; exact hc)
    exact ⟨hr, hl, fun _ _ hu => hu.ext hx⟩
  · intro g e x t new _ hg hsec
    have hsp := sec_spec (g := g) hsec
    have hl := h.thread g hg
    exact ⟨hsp.routes h.shared hl, hsp.routes_own (hb.thread g hg) hb.shared h.shared hl,
      fun u hu => hsp.routes_new h.shared hl hu _, fun _ _ _ hu => hu.ext hsp.extends⟩

theorem routes_run {tr : List (Sys udpPivot × Act udpPivot)}
    (hr : Run (step udpPivot) (init udpPivot) tr s) (hc : Meets CleanSource tr) :
    Holds Routes RoutesLocal s := by
  induction hr with
  | nil =>
    refine ⟨⟨by simp [init], by simp [init], ?_, by simp [init], by simp [init], by simp [init], ?_, ?_⟩,
      fun g hg => ?_⟩
    · exact fun c hc => absurd hc (Nat.not_lt_zero c)
    · exact fun c hc => absurd hc (Nat.not_lt_zero c)
    · exact fun k hk => absurd hk (Nat.not_lt_zero k)
    · exact absurd hg (Nat.not_lt_zero g)
  | snoc hr hs ih =>
    rw [meets_snoc] at hc
    exact routes_step (base_run hr) (ih hc.1) hc.2 hs

/-- The relay misdelivers nothing, in every run: a datagram that the app at `L` sent to `D` is
written only to a socket dialed to `D` for a connection of `L`, and a datagram that goes to the TUN
from `T` to `L` was read from a socket dialed to `T` for a connection of `L`. -/
theorem relay_routes {tr : List (Sys udpPivot × Act udpPivot)}
    (hr : Run (step udpPivot) (init udpPivot) tr s) (hc : Meets CleanSource tr) :
    (∀ k d, (k, d) ∈ s.shared.h.written → (∃ l, (l, d) ∈ s.shared.received) ∧
      ∀ l, (l, d) ∈ s.shared.received → Dialed s.shared k l d.addr) ∧
    ∀ c d late, Ev.tun c d late ∈ s.shared.log →
      Dialed s.shared d.tag (s.shared.conn c).localAddr d.addr ∧
        (d.tag, d.data) ∈ s.shared.h.read := by
  have hi := (routes_run hr hc).shared
  refine ⟨fun k d hw => ?_, fun c d late hm => (hi.tun c d late hm).2⟩
  obtain ⟨l, hl, hd⟩ := hi.written (k, d) hw
  refine ⟨⟨l, hl⟩, fun l' hl' => ?_⟩
  -- the tag says which of the received datagrams it is
  obtain ⟨i, hi1⟩ := List.mem_iff_getElem?.1 hl
  obtain ⟨j, hj1⟩ := List.mem_iff_getElem?.1 hl'
  have hij : i = j := (hi.tag i (l, d) hi1).symm.trans (hi.tag j (l', d) hj1)
  rw [hij, hj1] at hi1
  cases hi1
  exact hd

end

/-- The acts of goroutine `g`: sections of the core, or of `udpPivot` where nothing comes from
outside. -/
def runs (g : Gid) : List Bool → List (Act udpPivot)
  | [] => []
  | false :: bs => .sec g .none :: runs g bs
  | true :: bs => .sec g (.handler .none) :: runs g bs

/-- A datagram from `[1]` to `[2]` comes in, and its connection's goroutine starts. -/
def firstActs : List (Act udpPivot) := [.start (.recv [1] [2] [65]), .sec 0 .none]

/-- The datagram is written to the socket, and a reply goes to the TUN. -/
theorem relay_routes_reply :
    ∃ tr s, Run (step udpPivot) (init udpPivot) tr s ∧ Meets CleanSource tr ∧
      (0, ⟨0, [65], [2]⟩) ∈ s.shared.h.written ∧ Dialed s.shared 0 [1] [2] ∧
      Ev.tun 0 ⟨0, [66], [2]⟩ false ∈ s.shared.log ∧ (0, [66]) ∈ s.shared.h.read := by
  let acts := firstActs ++ runs 0 [false, false, false] ++ [.sec 1 (.handler (.dial true))] ++
    runs 1 [true, true, true, false, false, false, true] ++ [.sec 1 (.handler (.write true)),
      .sec 2 (.handler (.read (some [66]))), .sec 2 .none, .sec 2 (.aton true)]
  obtain ⟨s, hr, hs⟩ := exists_run (step udpPivot) (init udpPivot) acts
    (fun s => decide ((0, ⟨0, [65], [2]⟩) ∈ s.shared.h.written ∧
      ([1], ⟨0, [65], [2]⟩) ∈ s.shared.received ∧ .tun 0 ⟨0, [66], [2]⟩ false ∈ s.shared.log))
    (by decide)
  obtain ⟨hw, hrec, ht⟩ := of_decide_eq_true hs
  have hc : Meets CleanSource (execTrace (step udpPivot) (init udpPivot) acts) := by decide
  have key := relay_routes hr hc
  exact ⟨_, s, hr, hc, hw, (key.1 0 _ hw).2 [1] hrec, ht, (key.2 0 _ false ht).2⟩

end Udp
