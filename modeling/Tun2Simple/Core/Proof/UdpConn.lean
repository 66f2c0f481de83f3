import Tun2Simple.Core.UdpConn

/-!
# What a section of the UDP core does

`sec_spec` lists the sections once (`Sec`), with their guards and results. From it: connections keep
their local address and are never un-closed in the record (`Grows`), and the invariant `Base` of
every run (`base_run`), for any handler: what is in `udpConns` was stored there under its own
source, and between `Load` and `Store` of `udpRecvFn`, which holds `lwipMutex`, nothing is stored.
-/

namespace Udp

open Trans Pool

variable {H : Handler}

/-- The sections. -/
inductive Sec (s : Shared H) (st : List (Frame H.P)) : Pc H.P → Env H.E → Out H → Prop
  | found (src : Addr) (d : Dgram) (c : Nat) : s.udpConns src = some c →
      Sec s st (.load src d) .none (s, ⟨.receiveTo c d (s.conn c).wasClosed, st⟩, none)
  | new (src : Addr) (d : Dgram) : s.udpConns src = none →
      Sec s st (.load src d) .none (s.newUDPConn src, ⟨.store s.n d, st⟩,
        some ⟨.handler (H.connect s.n src d.addr) false, [.connect s.n]⟩)
  | store (c : Nat) (d : Dgram) :
      Sec s st (.store c d) .none (s.store c, ⟨.receiveTo c d (s.conn c).wasClosed, st⟩, none)
  | enqueue (c : Nat) (d : Dgram) (late : Bool) (ds : List Dgram) :
      (s.conn c).state = .connecting → (s.conn c).pending = some ds → ds.length < pendingCap →
      Sec s st (.receiveTo c d late) .none
        ((s.setConn c { s.conn c with pending := some (ds ++ [d]) }).emit (.ret c false late),
          ⟨.ret false, st⟩, none)
  | notEarly (c : Nat) (d : Dgram) (late : Bool) : (s.conn c).enqueueEarlyPacket d = none →
      Sec s st (.receiveTo c d late) .none (s, ⟨.receiveCheck c d late, st⟩, none)
  | refuse (c : Nat) (d : Dgram) (late : Bool) : (s.conn c).checkState = true →
      Sec s st (.receiveCheck c d late) .none (s.emit (.ret c true late), ⟨.ret true, st⟩, none)
  | handle (c : Nat) (d : Dgram) (late : Bool) : (s.conn c).checkState = false →
      Sec s st (.receiveCheck c d late) .none
        (s.emit (.handled c d late), ⟨s.receiveTo c d, .receiveTo c late :: st⟩, none)
  | goto (p : H.P) (err : Bool) (e : H.E) (h : H.S) (q : H.P) :
      H.step s.h p err e = some (h, .goto q) →
      Sec s st (.handler p err) (.handler e) ({ s with h }, ⟨.handler q false, st⟩, none)
  | call (p : H.P) (err : Bool) (e : H.E) (h : H.S) (c : Nat) (m : Method) (q : H.P) :
      H.step s.h p err e = some (h, .call c m q) → c < s.n →
      Sec s st (.handler p err) (.handler e)
        ({ s with h }, ⟨m.pc c (s.conn c).wasClosed, .handler q :: st⟩, none)
  | spawn (p : H.P) (err : Bool) (e : H.E) (h : H.S) (new q : H.P) :
      H.step s.h p err e = some (h, .spawn new q) →
      Sec s st (.handler p err) (.handler e)
        ({ s with h }, ⟨.handler q false, st⟩, some ⟨.handler new false, []⟩)
  | return_ (p : H.P) (err : Bool) (e : H.E) (h : H.S) (r : Bool) :
      H.step s.h p err e = some (h, .return_ r) →
      Sec s st (.handler p err) (.handler e) ({ s with h }, ⟨.ret r, st⟩, none)
  | setConnected (c : Nat) :
      Sec s st (.setConnected c) .none
        (s.setConn c { s.conn c with state := .connected }, ⟨.drain c, st⟩, none)
  | drain (c : Nat) (d : Dgram) (ds : List Dgram) : (s.conn c).pending = some (d :: ds) →
      Sec s st (.drain c) .none (s.setConn c { s.conn c with pending := some ds },
        ⟨s.receiveTo c d, .drain c :: st⟩, none)
  | drained (c : Nat) : (∀ d ds, (s.conn c).pending ≠ some (d :: ds)) →
      Sec s st (.drain c) .none
        (s.setConn c { s.conn c with pending := none }, ⟨.ret false, st⟩, none)
  | writeNone (c : Nat) (d : Dgram) (late : Bool) : d.data = [] →
      Sec s st (.writeFrom c d late) .none (s, ⟨.ret false, st⟩, none)
  | writeRefuse (c : Nat) (d : Dgram) (late : Bool) : (s.conn c).checkState = true →
      Sec s st (.writeFrom c d late) .none (s.emit (.ret c true late), ⟨.ret true, st⟩, none)
  | write (c : Nat) (d : Dgram) (late : Bool) : (s.conn c).checkState = false →
      Sec s st (.writeFrom c d late) .none (s, ⟨.sendto c d late, st⟩, none)
  | sendto (c : Nat) (d : Dgram) (late : Bool) :
      Sec s st (.sendto c d late) (.aton true)
        ((s.emit (.tun c d late)).emit (.ret c false late), ⟨.ret false, st⟩, none)
  | badAddr (c : Nat) (d : Dgram) (late : Bool) :
      Sec s st (.sendto c d late) (.aton false)
        (s.emit (.ret c true late), ⟨.ret true, st⟩, none)
  | close (c : Nat) : Sec s st (.close c) .none (s.close c, ⟨.delete c, st⟩, none)
  | delete (c : Nat) : Sec s st (.delete c) .none (s.delete c, ⟨.ret false, st⟩, none)
  | end_ (err : Bool) : st = [] → Sec s st (.ret err) .none (s, ⟨.idle, []⟩, none)
  | ret (err : Bool) (f : Frame H.P) (st' : List (Frame H.P)) : st = f :: st' →
      Sec s st (.ret err) .none (s.return_ err f st')

theorem Conn.enqueueEarlyPacket_eq_some {x y : Conn} {d : Dgram}
    (h : x.enqueueEarlyPacket d = some y) :
    ∃ ds, x.state = .connecting ∧ x.pending = some ds ∧ ds.length < pendingCap ∧
      y = { x with pending := some (ds ++ [d]) } := by
  unfold Conn.enqueueEarlyPacket at h
  split at h
  · rename_i ds hst hp
    split at h <;> cases h
    exact ⟨ds, hst, hp, ‹_›, rfl⟩
  · cases h

theorem sec_spec {s : Shared H} {g : Gid} {x : Go H.P} {e : Env H.E} {o : Out H}
    (h : sec s g x e = some o) : Sec s x.stack x.pc e o := by
  obtain ⟨pc, st⟩ := x
  unfold sec at h
  simp only at h
  split at h
  case h_1 => split at h <;> cases h <;> first | exact .found _ _ _ ‹_› | exact .new _ _ ‹_›
  case h_2 => cases h; exact .store _ _
  case h_3 =>
    split at h <;> cases h
    · rename_i hy
      obtain ⟨ds, hst, hp, hlt, rfl⟩ := Conn.enqueueEarlyPacket_eq_some hy
      exact .enqueue _ _ _ ds hst hp hlt
    · exact .notEarly _ _ _ ‹_›
  case h_4 =>
    split at h <;> cases h
    · exact .refuse _ _ _ ‹_›
    · exact .handle _ _ _ (Bool.eq_false_iff.2 ‹_›)
  case h_5 p err e =>
    split at h
    · rename_i h' nx hs
      unfold Shared.next at h
      split at h
      · cases h; exact .goto p err e h' _ hs
      · split at h <;> cases h; exact .call p err e h' _ _ _ hs ‹_›
      · cases h; exact .spawn p err e h' _ _ hs
      · cases h; exact .return_ p err e h' _ hs
    · cases h
  case h_6 => cases h; exact .setConnected _
  case h_7 =>
    split at h <;> cases h
    · exact .drain _ _ _ ‹_›
    · exact .drained _ ‹_›
  case h_8 =>
    split at h
    · cases h; exact .writeNone _ _ _ ‹_›
    · split at h <;> cases h
      · exact .writeRefuse _ _ _ ‹_›
      · exact .write _ _ _ (Bool.eq_false_iff.2 ‹_›)
  case h_9 ok =>
    cases ok <;> simp only [Bool.false_eq_true, if_false, if_true] at h <;> cases h
    · exact .badAddr _ _ _
    · exact .sendto _ _ _
  case h_10 => cases h; exact .close _
  case h_11 => cases h; exact .delete _
  case h_12 => split at h <;> cases h <;> first | exact .end_ _ rfl | exact .ret _ _ _ rfl
  case h_13 => cases h

/-! ## Connections and the registry -/

/-- What a section does to the connections and to `udpConns`. -/
inductive Effect (s : Shared H) (pc : Pc H.P) (s' : Shared H) : Prop
  | quiet : s'.n = s.n → s'.conn = s.conn → s'.udpConns = s.udpConns → Effect s pc s'
  | new (src : Addr) (d : Dgram) : pc = .load src d → s.udpConns src = none →
      s'.n = s.n + 1 → s'.conn = Function.update s.conn s.n { localAddr := src } →
      s'.udpConns = s.udpConns → Effect s pc s'
  | store (c : Nat) (d : Dgram) : pc = .store c d → s' = s.store c → Effect s pc s'
  /-- The content of `pending` changes. -/
  | pending (c : Nat) (ds : Option (List Dgram)) : s'.n = s.n →
      s'.conn = Function.update s.conn c { s.conn c with pending := ds } →
      s'.udpConns = s.udpConns → Effect s pc s'
  | setConnected (c : Nat) : pc = .setConnected c →
      s' = s.setConn c { s.conn c with state := .connected } → Effect s pc s'
  | close (c : Nat) : pc = .close c → s' = s.close c → Effect s pc s'
  | delete (c : Nat) : pc = .delete c → s' = s.delete c → Effect s pc s'

theorem Sec.effect {s : Shared H} {st : List (Frame H.P)} {pc : Pc H.P} {e : Env H.E} {o : Out H}
    (h : Sec s st pc e o) : Effect s pc o.1 := by
  cases h with
  | new src d hu => exact .new src d rfl hu rfl rfl rfl
  | store c d => exact .store c d rfl rfl
  | enqueue c d late ds => exact .pending c _ rfl rfl rfl
  | setConnected c => exact .setConnected c rfl rfl
  | drain c d ds => exact .pending c _ rfl rfl rfl
  | drained c => exact .pending c _ rfl rfl rfl
  | close c => exact .close c rfl rfl
  | delete c => exact .delete c rfl rfl
  | ret err f => cases f <;> exact .quiet rfl rfl rfl
  | _ => exact .quiet rfl rfl rfl

/-- Connections are added only, keep their local address and are never un-closed in the record. -/
structure Grows (s s' : Shared H) : Prop where
  n : s.n ≤ s'.n
  localAddr : ∀ c < s.n, (s'.conn c).localAddr = (s.conn c).localAddr
  wasClosed : ∀ c < s.n, (s.conn c).wasClosed = true → (s'.conn c).wasClosed = true
  stored : ∀ c < s.n, (s.conn c).stored = true → (s'.conn c).stored = true

theorem Grows.refl (s : Shared H) : Grows s s :=
  ⟨Nat.le_refl _, fun _ _ => rfl, fun _ _ => id, fun _ _ => id⟩

theorem Grows.of_conn {s s' : Shared H} (hn : s'.n = s.n) (hc : s'.conn = s.conn) : Grows s s' :=
  ⟨Nat.le_of_eq hn.symm, fun c _ => by rw [hc], fun c _ => by rw [hc]; exact id,
    fun c _ => by rw [hc]; exact id⟩

theorem Grows.of_update {s s' : Shared H} {c : Nat} {x : Conn} (hn : s'.n = s.n)
    (hc : s'.conn = Function.update s.conn c x) (hl : x.localAddr = (s.conn c).localAddr)
    (hw : (s.conn c).wasClosed = true → x.wasClosed = true)
    (hst : (s.conn c).stored = true → x.stored = true) : Grows s s' := by
  have split : ∀ d, s'.conn d = s.conn d ∨ d = c ∧ s'.conn d = x := by
    intro d
    rw [hc]
    by_cases hd : d = c
    · subst hd; exact .inr ⟨rfl, Function.update_self ..⟩
    · exact .inl (Function.update_of_ne hd ..)
  refine ⟨Nat.le_of_eq hn.symm, fun d _ => ?_, fun d _ => ?_, fun d _ => ?_⟩ <;>
    rcases split d with hd | ⟨rfl, hd⟩ <;> rw [hd]
  · exact hl
  · exact id
  · exact hw
  · exact id
  · exact hst

theorem Effect.grows {s s' : Shared H} {pc : Pc H.P} (h : Effect s pc s') : Grows s s' := by
  cases h with
  | quiet hn hc => exact .of_conn hn hc
  | new src d _ _ hn hc =>
    have keep : ∀ c < s.n, s'.conn c = s.conn c := fun c hlt => by
      rw [hc, Function.update_of_ne (Nat.ne_of_lt hlt)]
    refine ⟨by omega, fun c hlt => ?_, fun c hlt => ?_, fun c hlt => ?_⟩ <;> rw [keep c hlt]
    · exact id
    · exact id
  | store c d _ hs => subst hs; exact .of_update (c := c) rfl rfl rfl id fun _ => rfl
  | pending c ds hn hc => exact .of_update hn hc rfl id id
  | setConnected c _ hs => subst hs; exact .of_update (c := c) rfl rfl rfl id id
  | close c _ hs => subst hs; exact .of_update (c := c) rfl rfl rfl (fun _ => rfl) id
  | delete c _ hs => subst hs; exact .of_conn rfl rfl

/-! ## The invariant of every run -/

/-- The connection of the section at `pc`. -/
def Pc.conn {P : Type} : Pc P → Option Nat
  | .store c _ | .receiveTo c _ _ | .receiveCheck c _ _ | .setConnected c | .drain c => some c
  | .writeFrom c _ _ | .sendto c _ _ | .close c | .delete c => some c
  | _ => none

def Frame.conn {P : Type} : Frame P → Option Nat
  | .receiveTo c _ | .connect c | .drain c => some c
  | _ => none

/-- The connection of a section that comes after a `Close` of it: in a call that began after the
`Close`, before its `checkState`, and in the `Close` itself. -/
def Pc.afterClose {P : Type} : Pc P → Option Nat
  | .receiveTo c _ true | .receiveCheck c _ true | .writeFrom c _ true | .delete c => some c
  | _ => none

/-- What is in `udpConns` was stored there under its own source. -/
structure Registry (s : Shared H) : Prop where
  lt : ∀ {src c}, s.udpConns src = some c → c < s.n
  src : ∀ {src c}, s.udpConns src = some c → (s.conn c).localAddr = src
  stored : ∀ {src c}, s.udpConns src = some c → (s.conn c).stored = true

structure Local (s : Shared H) (g : Gid) (x : Go H.P) : Prop where
  pc_lt : ∀ {c}, x.pc.conn = some c → c < s.n
  frame_lt : ∀ {f c}, f ∈ x.stack → f.conn = some c → c < s.n
  lock : ∀ {src}, .recvFn src ∈ x.stack → s.lock = some g
  load : ∀ {src d}, x.pc = .load src d → x.stack = [.recvFn src]
  store : ∀ {c d}, x.pc = .store c d → x.stack = [.recvFn (s.conn c).localAddr] ∧
    (s.conn c).stored = false ∧ s.udpConns (s.conn c).localAddr = none
  closed : ∀ {c}, x.pc.afterClose = some c → (s.conn c).wasClosed = true

theorem Pc.conn_of_afterClose {P : Type} {pc : Pc P} {c : Nat} (h : pc.afterClose = some c) :
    pc.conn = some c := by
  unfold Pc.afterClose at h
  split at h <;> first | exact h | cases h

abbrev Base (s : Sys H) : Prop := Holds Registry Local s

theorem Local.of_grows {s s' : Shared H} {g : Gid} {x : Go H.P} (h : Local s g x)
    (hg : Grows s s') (hl : ∀ {src}, .recvFn src ∈ x.stack → s'.lock = s.lock)
    (hs : ∀ {c d}, x.pc = .store c d → (s'.conn c).stored = (s.conn c).stored ∧
      (s.udpConns (s.conn c).localAddr = none → s'.udpConns (s.conn c).localAddr = none)) :
    Local s' g x where
  pc_lt hc := Nat.lt_of_lt_of_le (h.pc_lt hc) hg.n
  frame_lt hf hc := Nat.lt_of_lt_of_le (h.frame_lt hf hc) hg.n
  lock hf := by rw [hl hf]; exact h.lock hf
  load := h.load
  store {c d} hpc := by
    obtain ⟨hst, hsto, hu⟩ := h.store hpc
    have hlt := h.pc_lt (c := c) (by rw [hpc]; rfl)
    rw [hg.localAddr c hlt, (hs hpc).1]
    exact ⟨hst, hsto, (hs hpc).2 hu⟩
  closed hc := hg.wasClosed _ (h.pc_lt (Pc.conn_of_afterClose hc)) (h.closed hc)

/-- `udpRecvFn` between its start and its `Store`. -/
def Pc.looksUp {P : Type} : Pc P → Bool
  | .load _ _ | .store _ _ => true
  | _ => false

/-- A frame that `udpRecvFn` does not put on the stack, of a connection that exists. -/
def Frame.Ok {P : Type} (f : Frame P) (n : Nat) : Prop :=
  (∀ src, f ≠ .recvFn src) ∧ ∀ c, f.conn = some c → c < n

/-- A goroutine goes on at `y`, outside the lookup of `udpRecvFn`. -/
theorem Local.move {s s' : Shared H} {g : Gid} {x y : Go H.P} (h : Local s g x) (hg : Grows s s')
    (hl : ∀ {src}, .recvFn src ∈ y.stack → s'.lock = s.lock) (hp : y.pc.looksUp = false)
    (hc : ∀ {c}, y.pc.conn = some c → c < s'.n)
    (hst : ∀ f ∈ y.stack, f ∈ x.stack ∨ f.Ok s'.n)
    (hlate : ∀ {c}, y.pc.afterClose = some c → (s'.conn c).wasClosed = true) : Local s' g y where
  pc_lt := hc
  frame_lt {f c} hf hfc := by
    rcases hst f hf with hf | hok
    · exact Nat.lt_of_lt_of_le (h.frame_lt hf hfc) hg.n
    · exact hok.2 c hfc
  lock {src} hf := by
    rw [hl hf]
    rcases hst _ hf with hf | hok
    · exact h.lock hf
    · exact absurd rfl (hok.1 src)
  load hpc := by rw [hpc] at hp; cases hp
  store hpc := by rw [hpc] at hp; cases hp
  closed := hlate

section
variable {s : Shared H} {st : List (Frame H.P)} {pc : Pc H.P} {e : Env H.E} {o : Out H} {g : Gid}

theorem Sec.lock_eq (h : Sec s st pc e o) (hs : ∀ src, .recvFn src ∉ st) : o.1.lock = s.lock := by
  cases h with
  | ret err f st' hst =>
    subst hst
    cases f with
    | recvFn src => exact absurd (.head _) (hs src)
    | _ => rfl
  | _ => rfl

theorem Method.pc_conn {P : Type} (m : Method) (c : Nat) (late : Bool) :
    (m.pc c late : Pc P).conn = some c := by
  cases m <;> rfl

theorem Method.pc_afterClose {P : Type} {m : Method} {c d : Nat} {late : Bool}
    (h : (m.pc c late : Pc P).afterClose = some d) : d = c ∧ late = true := by
  cases m <;> cases late <;> cases h <;> exact ⟨rfl, rfl⟩

theorem Sec.own_ret {err : Bool} {f : Frame H.P} (hl : Local s g ⟨.ret err, f :: st⟩) :
    Local (s.return_ err f st).1 g (s.return_ err f st).2.1 := by
  have hf : ∀ {c}, f.conn = some c → c < s.n := hl.frame_lt (.head _)
  have keep : ∀ f' ∈ st, f' ∈ (⟨.ret err, f :: st⟩ : Go H.P).stack ∨ f'.Ok s.n :=
    fun f' hf' => .inl (.tail _ hf')
  cases f with
  | recvFn src =>
    refine hl.move (.of_conn rfl rfl) ?_ rfl (fun h => by cases h) ?_ (fun h => by cases h)
    · intro src hf; cases hf
    · intro f hf; cases hf
  | receiveTo c late =>
    exact hl.move (.of_conn rfl rfl) (fun _ => rfl) rfl (fun h => by cases h) keep
      (fun h => by cases h)
  | connect c =>
    refine hl.move (.refl s) (fun _ => rfl) ?_ ?_ keep ?_ <;> cases err
    · rfl
    · rfl
    · intro d hd; cases hd; exact hf rfl
    · intro d hd; cases hd; exact hf rfl
    · intro d hd; cases hd
    · intro d hd; cases hd
  | drain c =>
    refine hl.move (.refl s) (fun _ => rfl) ?_ ?_ keep ?_ <;> cases err
    · rfl
    · rfl
    · intro d hd; cases hd; exact hf rfl
    · intro d hd; cases hd
    · intro d hd; cases hd
    · intro d hd; cases hd
  | handler p =>
    exact hl.move (.refl s) (fun _ => rfl) rfl (fun h => by cases h) keep (fun h => by cases h)

/-- The goroutine that ran a section. -/
theorem Sec.own (h : Sec s st pc e o) (hr : Registry s) (hl : Local s g ⟨pc, st⟩) :
    Local o.1 g o.2.1 := by
  have hg := h.effect.grows
  have hc : ∀ {c}, pc.conn = some c → c < s.n := hl.pc_lt
  have keep : ∀ f ∈ st, f ∈ (⟨pc, st⟩ : Go H.P).stack ∨ f.Ok o.1.n := fun f hf => .inl hf
  have push : ∀ {f' : Frame H.P}, f'.Ok o.1.n →
      ∀ f ∈ f' :: st, f ∈ (⟨pc, st⟩ : Go H.P).stack ∨ f.Ok o.1.n := by
    intro f' hf' f hf
    rcases List.mem_cons.1 hf with rfl | hf
    · exact .inr hf'
    · exact .inl hf
  cases h with
  | found src d c hu =>
    refine hl.move hg (fun _ => rfl) rfl (fun h => by cases h; exact hr.lt hu) keep ?_
    intro c' hlate
    cases hw : (s.conn c).wasClosed <;> rw [hw] at hlate <;> cases hlate
    exact hw
  | new src d hu =>
    have hst := hl.load rfl
    refine ⟨?_, fun hf hfc => ?_, hl.lock, ?_, ?_, ?_⟩
    · intro c h; cases h; exact Nat.lt_succ_self _
    · exact Nat.lt_succ_of_lt (hl.frame_lt hf hfc)
    · intro _ _ h; cases h
    · intro _ _ h
      cases h
      have hconn : (s.newUDPConn src).conn s.n = { localAddr := src } := Function.update_self ..
      rw [hconn]
      exact ⟨hst, rfl, hu⟩
    · intro _ h; cases h
  | store c d =>
    refine hl.move hg (fun _ => rfl) rfl (fun h => by cases h; exact hc rfl) keep ?_
    intro c' hlate
    cases hw : (s.conn c).wasClosed <;> rw [hw] at hlate <;> cases hlate
    exact hg.wasClosed c (hc rfl) hw
  | notEarly c d late =>
    refine hl.move hg (fun _ => rfl) rfl (fun h => by cases h; exact hc rfl) keep ?_
    intro c' hlate
    cases late <;> cases hlate
    exact hl.closed rfl
  | handle c d late =>
    refine hl.move hg (fun _ => rfl) rfl (fun h => by cases h) (push ⟨?_, ?_⟩) (fun h => by cases h)
    · intro src hf; cases hf
    · intro c' hf; cases hf; exact hc rfl
  | call p err e h c m q _ hlt =>
    refine hl.move hg (fun _ => rfl) ?_ ?_ (push ⟨?_, ?_⟩) ?_
    · cases m <;> rfl
    · intro c' h; rw [Method.pc_conn] at h; cases h; exact hlt
    · intro src hf; cases hf
    · intro c' hf; cases hf
    · intro c' hlate
      obtain ⟨rfl, hw⟩ := Method.pc_afterClose hlate
      exact hw
  | close c =>
    refine hl.move hg (fun _ => rfl) rfl (fun h => by cases h; exact hc rfl) keep ?_
    intro c' hlate
    cases hlate
    simp [Shared.close, Shared.setConn]
  | drain c d ds =>
    refine hl.move hg (fun _ => rfl) rfl (fun h => by cases h) (push ⟨?_, ?_⟩) (fun h => by cases h)
    · intro src hf; cases hf
    · intro c' hf; cases hf; exact hc rfl
  | ret err f st' hst => subst hst; exact Sec.own_ret hl
  | end_ err hst =>
    refine hl.move hg (fun _ => rfl) rfl (fun h => by cases h) ?_ (fun h => by cases h)
    intro f hf; cases hf
  | _ =>
    refine hl.move hg (fun _ => rfl) rfl (fun h => ?_) keep (fun h => by cases h)
    cases h <;> exact hc rfl

/-- The goroutine that a section starts. -/
theorem Sec.new_cases (h : Sec s st pc e o) {x : Go H.P} (hx : o.2.2 = some x) :
    (∃ src d, pc = .load src d ∧ o.1 = s.newUDPConn src ∧
      x = ⟨.handler (H.connect s.n src d.addr) false, [.connect s.n]⟩) ∨
    ∃ p err e h new q, pc = .handler p err ∧ H.step s.h p err e = some (h, .spawn new q) ∧
      o.1 = { s with h } ∧ x = ⟨.handler new false, []⟩ := by
  cases h with
  | new src d => cases hx; exact .inl ⟨src, d, rfl, rfl, rfl⟩
  | spawn p err e h new q hst => cases hx; exact .inr ⟨p, err, e, h, new, q, rfl, hst, rfl, rfl⟩
  | ret err f => cases f <;> cases hx
  | _ => cases hx

theorem Sec.spawned (h : Sec s st pc e o) {x : Go H.P} (hx : o.2.2 = some x) (g' : Gid) :
    Local o.1 g' x := by
  obtain ⟨src, d, -, ho, rfl⟩ | ⟨p, err, e, h', new, q, -, -, ho, rfl⟩ := h.new_cases hx
  · rw [ho]
    refine ⟨by simp [Pc.conn], fun {f c} hf hc => ?_, fun hf => ?_, by simp, by simp,
      by simp [Pc.afterClose]⟩
    · obtain rfl := List.mem_singleton.1 hf
      cases hc
      exact Nat.lt_succ_self _
    · cases List.mem_singleton.1 hf
  · exact ⟨by simp [Pc.conn], by simp, by simp, by simp, by simp, by simp [Pc.afterClose]⟩

/-- The lookup of `udpRecvFn` is done with `lwipMutex` held. -/
theorem Local.lock_of_looksUp {x : Go H.P} (h : Local s g x) (hp : x.pc.looksUp = true) :
    s.lock = some g := by
  cases hpc : x.pc with
  | load src d =>
    have hmem : .recvFn src ∈ x.stack := by rw [h.load hpc]; exact .head _
    exact h.lock hmem
  | store c d => exact h.lock (by rw [(h.store hpc).1]; exact .head _)
  | _ => rw [hpc] at hp; cases hp

/-- The other goroutines. -/
theorem Sec.other (h : Sec s st pc e o) (hl : Local s g ⟨pc, st⟩) {g' : Gid} {y : Go H.P}
    (hne : g' ≠ g) (hy : Local s g' y) : Local o.1 g' y := by
  refine hy.of_grows h.effect.grows (fun hf => h.lock_eq fun src hs => ?_) fun {c d} hpc => ?_
  · have := (hl.lock hs).symm.trans (hy.lock hf)
    exact hne (Option.some.inj this).symm
  · -- `y` holds `lwipMutex`, so the section is not one of another `udpRecvFn`
    have hno : pc.looksUp = false := by
      rw [← Bool.not_eq_true]
      intro hp
      have hy' := hy.lock_of_looksUp (by rw [hpc]; rfl)
      have := (hl.lock_of_looksUp hp).symm.trans hy'
      exact hne (Option.some.inj this).symm
    have upd : ∀ {c' : Nat} {x : Conn}, x.stored = (s.conn c').stored →
        (Function.update s.conn c' x c).stored = (s.conn c).stored := by
      intro c' x hx
      by_cases hcc : c = c'
      · subst hcc; rw [Function.update_self]; exact hx
      · rw [Function.update_of_ne hcc]
    cases h.effect with
    | quiet _ hc hu => rw [hc, hu]; exact ⟨rfl, id⟩
    | new src d hp => rw [hp] at hno; cases hno
    | store c d hp => rw [hp] at hno; cases hno
    | pending c' ds _ hc hu => rw [hc, hu]; exact ⟨upd rfl, id⟩
    | setConnected c' _ hs => rw [hs]; exact ⟨upd rfl, id⟩
    | close c' _ hs => rw [hs]; exact ⟨upd rfl, id⟩
    | delete c' _ hs =>
      rw [hs]
      refine ⟨rfl, fun hn => ?_⟩
      simp only [Shared.delete, Function.update_apply]
      split
      · rfl
      · exact hn

theorem Registry.of_grows {s' : Shared H} (h : Registry s) (hg : Grows s s')
    (hu : ∀ {src c}, s'.udpConns src = some c → s.udpConns src = some c) : Registry s' where
  lt hc := Nat.lt_of_lt_of_le (h.lt (hu hc)) hg.n
  src hc := (hg.localAddr _ (h.lt (hu hc))).trans (h.src (hu hc))
  stored hc := hg.stored _ (h.lt (hu hc)) (h.stored (hu hc))

theorem Sec.registry (h : Sec s st pc e o) (hr : Registry s) (hl : Local s g ⟨pc, st⟩) :
    Registry o.1 := by
  have hg := h.effect.grows
  cases h.effect with
  | quiet _ _ hu => exact hr.of_grows hg fun hc => by rwa [hu] at hc
  | new _ _ _ _ _ _ hu => exact hr.of_grows hg fun hc => by rwa [hu] at hc
  | pending _ _ _ _ hu => exact hr.of_grows hg fun hc => by rwa [hu] at hc
  | setConnected _ _ hs => exact hr.of_grows hg fun hc => by rwa [hs] at hc
  | close _ _ hs => exact hr.of_grows hg fun hc => by rwa [hs] at hc
  | store c d hp hs =>
    have hlt := hl.pc_lt (c := c) (by rw [hp]; rfl)
    rw [hs] at hg ⊢
    have mem : ∀ {src c'}, (s.store c).udpConns src = some c' →
        (src = (s.conn c).localAddr ∧ c' = c) ∨ s.udpConns src = some c' := by
      intro src c' hc
      simp only [Shared.store, Function.update_apply] at hc
      split at hc
      · exact .inl ⟨‹_›, (Option.some.inj hc).symm⟩
      · exact .inr hc
    refine ⟨fun hc => ?_, fun hc => ?_, fun hc => ?_⟩ <;>
      rcases mem hc with ⟨rfl, rfl⟩ | hc'
    · exact hlt
    · exact hr.lt hc'
    · exact hg.localAddr _ hlt
    · exact (hg.localAddr _ (hr.lt hc')).trans (hr.src hc')
    · simp [Shared.store, Shared.setConn]
    · exact hg.stored _ (hr.lt hc') (hr.stored hc')
  | delete c _ hs =>
    refine hr.of_grows hg fun {src c'} hc => ?_
    rw [hs] at hc
    simp only [Shared.delete, Function.update_apply] at hc
    split at hc
    · cases hc
    · exact hc

end

theorem start_spec {s s' : Shared H} {g : Gid} {b : Call} {x : Go H.P}
    (h : start s g b = some (s', x)) :
    (∃ src dst data, b = .recv src dst data ∧ s.lock = none ∧
      s' = { s with lock := some g,
                    received := s.received ++ [(src, ⟨s.received.length, data, dst⟩)] } ∧
      x = ⟨.load src ⟨s.received.length, data, dst⟩, [.recvFn src]⟩) ∨
    ∃ c < s.n, b = .close c ∧ s' = s ∧ x = ⟨.close c, []⟩ := by
  cases b with
  | recv src dst data =>
    simp only [start] at h
    split at h <;> cases h
    exact .inl ⟨src, dst, data, rfl, ‹_›, rfl, rfl⟩
  | close c =>
    simp only [start] at h
    split at h <;> cases h
    exact .inr ⟨c, ‹_›, rfl, rfl, rfl⟩

theorem local_start {s s' : Shared H} {g : Gid} {b : Call} {x : Go H.P}
    (h : start s g b = some (s', x)) : Local s' g x := by
  obtain ⟨src, dst, data, rfl, -, rfl, rfl⟩ | ⟨c, hc, rfl, rfl, rfl⟩ := start_spec h
  · refine ⟨?_, ?_, fun _ => rfl, ?_, ?_, ?_⟩
    · intro c h; cases h
    · intro f c hf hfc
      obtain rfl := List.mem_singleton.1 hf
      cases hfc
    · intro _ _ h; cases h; rfl
    · intro _ _ h; cases h
    · intro _ h; cases h
  · refine ⟨?_, ?_, ?_, ?_, ?_, ?_⟩
    · intro c h; cases h; exact hc
    · intro f c hf; cases hf
    · intro src hf; cases hf
    · intro _ _ h; cases h
    · intro _ _ h; cases h
    · intro _ h; cases h

theorem local_start_other {s s' : Shared H} {g g' : Gid} {b : Call} {x y : Go H.P}
    (h : start s g b = some (s', x)) (hy : Local s g' y) : Local s' g' y := by
  obtain ⟨src, dst, data, rfl, hl, rfl, rfl⟩ | ⟨c, hc, rfl, rfl, rfl⟩ := start_spec h
  · refine hy.of_grows (.of_conn rfl rfl) (fun hf => ?_) fun _ => ⟨rfl, id⟩
    rw [hy.lock hf] at hl
    cases hl
  · exact hy

section
variable {s s' : Sys H} {a : Act H}

theorem Base.step (h : Base s) (hs : Udp.step H s a = some s') : Base s' := by
  refine Holds.step h hs ?_ ?_
  · intro b x t _ hst
    refine ⟨?_, local_start hst, fun g _ hu => local_start_other hst hu⟩
    obtain ⟨src, dst, data, rfl, -, rfl, rfl⟩ | ⟨c, -, rfl, rfl, rfl⟩ := start_spec hst
    · exact ⟨h.shared.lt, h.shared.src, h.shared.stored⟩
    · exact h.shared
  · intro g e x t new _ hg hsec
    have hsp := sec_spec (g := g) hsec
    have hl := h.thread g hg
    exact ⟨hsp.registry h.shared hl, hsp.own h.shared hl, fun u hu => hsp.spawned hu _,
      fun g' _ hne hu => hsp.other hl hne hu⟩

theorem base_init (H : Handler) : Base (init H) :=
  ⟨⟨by simp [init], by simp [init], by simp [init]⟩, fun g hg => absurd hg (Nat.not_lt_zero g)⟩

/-- Only a `Close` sets `udpClosed`. -/
theorem Effect.wasClosed {s s' : Shared H} {pc : Pc H.P} (h : Effect s pc s')
    (hw : ∀ c, (s.conn c).state = .closed → (s.conn c).wasClosed = true) :
    ∀ c, (s'.conn c).state = .closed → (s'.conn c).wasClosed = true := by
  have upd : ∀ {d : Nat} {x : Conn}, (x.state = .closed → x.wasClosed = true) → ∀ c,
      (Function.update s.conn d x c).state = .closed →
        (Function.update s.conn d x c).wasClosed = true := by
    intro d x hx c
    rw [Function.update_apply]
    split
    · exact hx
    · exact hw c
  cases h with
  | quiet _ hc => rw [hc]; exact hw
  | new src d _ _ _ hc => rw [hc]; exact upd (by simp)
  | store c d _ hs => rw [hs]; exact upd (hw c)
  | pending c ds _ hc => rw [hc]; exact upd (hw c)
  | setConnected c _ hs => rw [hs]; exact upd (by simp)
  | close c _ hs => rw [hs]; exact upd fun _ => rfl
  | delete c _ hs => rw [hs]; exact hw

/-- The part of a step that its section does. -/
theorem step_effect (hs : Udp.step H s a = some s') :
    (∃ g e, a = .sec g e ∧ Effect s.shared (s.thread g).pc s'.shared) ∨
      ∃ b, a = .start b ∧ s'.shared.n = s.shared.n ∧ s'.shared.conn = s.shared.conn ∧
        s'.shared.udpConns = s.shared.udpConns := by
  obtain ⟨b, x, t, rfl, hst, rfl⟩ | ⟨g, e, x, t, new, rfl, -, hsec, rfl⟩ := step_cases hs
  · refine .inr ⟨b, rfl, ?_⟩
    obtain ⟨src, dst, data, rfl, -, rfl, rfl⟩ | ⟨c, -, rfl, rfl, rfl⟩ := start_spec hst
    · exact ⟨rfl, rfl, rfl⟩
    · exact ⟨rfl, rfl, rfl⟩
  · exact .inl ⟨g, e, rfl, (sec_spec (g := g) hsec).effect⟩

theorem wasClosed_run {tr : List (Sys H × Act H)} (h : Run (Udp.step H) (init H) tr s) :
    ∀ c, (s.shared.conn c).state = .closed → (s.shared.conn c).wasClosed = true := by
  induction h with
  | nil => intro c hc; cases hc
  | snoc _ hs ih =>
    obtain ⟨g, e, -, heff⟩ | ⟨b, -, -, hc, -⟩ := step_effect hs
    · exact heff.wasClosed ih
    · rw [hc]; exact ih

theorem base_run {tr : List (Sys H × Act H)} (h : Run (Udp.step H) (init H) tr s) : Base s :=
  h.inv' (base_init H) fun _ _ _ hb hs => hb.step hs

end

end Udp
