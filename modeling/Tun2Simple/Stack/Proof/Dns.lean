import Tun2Simple.Stack.Dns

/-!
# Whom the replies go to

`sec_spec` lists the sections of `dnsHandler` (`Sec`). `reply_to_asker`: a reply goes to the
connection of the query that it answers as long as that connection was the last to use its ID
(`IdKept`). The invariant (`Owned`): an entry of `dnsMap` is the last one added under its ID, and an
ID whose last entry is gone was one of a connection that is closed.
-/

namespace Dns

open Trans Pool

/-! ## The sections -/

section
variable (unpack : Bytes → Option Msg)

/-- The sections. -/
inductive Sec (s : S) : P → E → S → P → Option P → Prop
  | receiveTo (c : Nat) (d : Bytes) : Sec s (.receiveTo c d) .none s (.write c d s.pivot) none
  | write (c : Nat) (d : Bytes) (k : Nat) : (s.sock k).closed = false →
      Sec s (.write c d k) (.write true) { s with queries := s.queries ++ [⟨c, d, k, s.now⟩] }
        (.unpack c d) none
  | writeFail (c : Nat) (d : Bytes) (k : Nat) :
      Sec s (.write c d k) (.write false) (s.fail k) (.writeFailed c) none
  | writeFailed (c : Nat) : Sec s (.writeFailed c) .none (s.closeConn c) .setupPivot none
  | setupPivot : Sec s .setupPivot .none s (.setupClose s.pivot) none
  | setupClose (k : Nat) : Sec s (.setupClose k) .none (s.closeSock k) .listen none
  | listen : Sec s .listen (.listen true) s.listen (.install s.socks) none
  | listenFail : Sec s .listen (.listen false) s .done none
  | install (k : Nat) : Sec s (.install k) .none (s.install k) .restart none
  | restart : Sec s .restart .none s .done (some .wait)
  | queryUnparsed (c : Nat) (d : Bytes) : unpack d = none → Sec s (.unpack c d) .none s .done none
  | queryParsed (c : Nat) (d : Bytes) (msg : Msg) : unpack d = some msg →
      Sec s (.unpack c d) .none s (.add c msg.ID) none
  | add (c : Nat) (ID : UInt16) : s.rLocked = false →
      Sec s (.add c ID) .none (s.add c ID) .done none
  | wait : Sec s .wait .none s (.read s.pivot) none
  | read (k : Nat) (r : Reply) : s.Arrives k r → Sec s (.read k) (.read (some r)) s (.reply r) none
  | readFail (k : Nat) : Sec s (.read k) (.read none) (s.fail k) (.close (.reader k)) none
  | unparsed (r : Reply) : unpack r.data = none →
      Sec s (.reply r) .none (s.handle r .unparsed s.now) .wait none
  | parsed (r : Reply) (msg : Msg) : unpack r.data = some msg →
      Sec s (.reply r) .none s (.lookup r msg) none
  | missing (r : Reply) (msg : Msg) : s.dnsMap.lookup msg.ID = none →
      Sec s (.lookup r msg) .none (s.handle r .missing s.now) .wait none
  | noAnswers (r : Reply) (msg : Msg) : msg.answers = 0 →
      Sec s (.lookup r msg) .none (s.handle r .noAnswers s.now) .wait none
  | found (r : Reply) (msg : Msg) (e : Nat) : s.dnsMap.lookup msg.ID = some e → msg.answers ≠ 0 →
      Sec s (.lookup r msg) .none s (.touch r e s.now) none
  | touch (r : Reply) (e t : Nat) : Sec s (.touch r e t) .none (s.touch e) (.writeFrom r e t) none
  | writeFrom (r : Reply) (e t : Nat) : s.closed (s.entry e).conn = false →
      Sec s (.writeFrom r e t) .none (s.handle r (.written (s.entry e).conn) t) .wait none
  | writeFromFail (r : Reply) (e t : Nat) : s.closed (s.entry e).conn = true →
      Sec s (.writeFrom r e t) .none (s.handle r .failed t) .wait none
  | close (w : Closer) : s.rLocked = false → Sec s (.close w) .none (s.drop w) (.closePivot w) none
  | closePivot (w : Closer) : Sec s (.closePivot w) .none s (.closeSock w s.pivot) none
  | closeSock (w : Closer) (k : Nat) : Sec s (.closeSock w k) .none
      ((s.closeSock k).emit (.closePivot w k)) (.stop w) none
  | stop (w : Closer) : Sec s (.stop w) .none
      ({ s with expireStopped := true }.emit (.stopTicker w)) .done none
  | ctxDone : s.ctxDone = true → Sec s .select .ctxDone s (.close .expireConn) none
  | tick (tim : Nat) : s.expire = some tim →
      Sec s .select .tick { s with expire := none } (.ticked tim) none
  | ticked (tim : Nat) : Sec s (.ticked tim) .none { s with rLocked := true }
      (.scan tim s.dnsMap.keys []) none
  | stillOk (tim : Nat) (todo toDelete : List UInt16) (ID : UInt16) :
      Sec s (.scan tim todo toDelete) (.range ID) s (.scan tim (todo.erase ID) toDelete) none
  | expired (tim : Nat) (todo toDelete : List UInt16) (ID : UInt16) (e : Nat) :
      s.dnsMap.lookup ID = some e → Sec s (.scan tim todo toDelete) (.range ID)
        (s.closeConn (s.entry e).conn) (.scan tim (todo.erase ID) (toDelete ++ [ID])) none
  | scanned (tim : Nat) (toDelete : List UInt16) : Sec s (.scan tim [] toDelete) .none
      { s with rLocked := false } (if toDelete = [] then .select else .delete toDelete) none
  | delete (toDelete : List UInt16) : s.rLocked = false →
      Sec s (.delete toDelete) .none (s.delete toDelete) .select none
  | advance (d : Nat) : Sec s .runtime (.advance d) { s with now := s.now + d } .runtime none
  | fire : Sec s .runtime .fire { s with expire := some (s.expire.getD s.now) } .runtime none
  | cancel : Sec s .runtime .cancel { s with ctxDone := true } .runtime none
  | closeConn (c : Nat) : Sec s .runtime (.closeConn c) (s.closeConn c) .runtime none

variable {unpack} {s s' : S} {p p' : P} {e : E} {new : Option P}

theorem receiveSec_spec (h : receiveSec unpack s p e = some (s', p', new)) :
    Sec unpack s p e s' p' new := by
  unfold receiveSec at h
  split at h
  case h_1 => cases h; exact .receiveTo _ _
  case h_2 => split at h <;> cases h; exact .write _ _ _ (Bool.eq_false_iff.2 ‹_›)
  case h_3 => cases h; exact .writeFail _ _ _
  case h_4 => cases h; exact .writeFailed _
  case h_5 => cases h; exact .setupPivot
  case h_6 => cases h; exact .setupClose _
  case h_7 => cases h; exact .listen
  case h_8 => cases h; exact .listenFail
  case h_9 => cases h; exact .install _
  case h_10 => cases h; exact .restart
  case h_11 =>
    split at h <;> cases h
    · exact .queryUnparsed _ _ ‹_›
    · exact .queryParsed _ _ _ ‹_›
  case h_12 => split at h <;> cases h; exact .add _ _ (Bool.eq_false_iff.2 ‹_›)
  case h_13 => cases h

theorem waitSec_spec (h : waitSec unpack s p e = some (s', p', new)) :
    Sec unpack s p e s' p' new := by
  unfold waitSec at h
  split at h
  case h_1 => cases h; exact .wait
  case h_2 => split at h <;> cases h; exact .read _ _ ‹_›
  case h_3 => cases h; exact .readFail _
  case h_4 =>
    split at h <;> cases h
    · exact .unparsed _ ‹_›
    · exact .parsed _ _ ‹_›
  case h_5 =>
    split at h
    · cases h; exact .missing _ _ ‹_›
    · split at h <;> cases h
      · exact .noAnswers _ _ ‹_›
      · exact .found _ _ _ ‹_› ‹_›
  case h_6 => cases h; exact .touch _ _ _
  case h_7 =>
    cases h
    split
    · exact .writeFromFail _ _ _ ‹_›
    · exact .writeFrom _ _ _ (Bool.eq_false_iff.2 ‹_›)
  case h_8 => cases h

theorem closeSec_spec (h : closeSec s p e = some (s', p', new)) : Sec unpack s p e s' p' new := by
  unfold closeSec at h
  split at h
  case h_1 => split at h <;> cases h; exact .close _ (Bool.eq_false_iff.2 ‹_›)
  case h_2 => cases h; exact .closePivot _
  case h_3 => cases h; exact .closeSock _ _
  case h_4 => cases h; exact .stop _
  case h_5 => cases h

theorem expireSec_spec (h : expireSec s p e = some (s', p', new)) : Sec unpack s p e s' p' new := by
  unfold expireSec at h
  split at h
  case h_1 => split at h <;> cases h; exact .ctxDone ‹_›
  case h_2 =>
    obtain ⟨tim, ht, h⟩ := Option.map_eq_some_iff.1 h
    cases h
    exact .tick _ ht
  case h_3 => cases h; exact .ticked _
  case h_4 =>
    split at h
    · obtain ⟨e, he, h⟩ := Option.map_eq_some_iff.1 h
      simp only at h
      split at h <;> cases h
      · exact .stillOk _ _ _ _
      · exact .expired _ _ _ _ _ he
    · cases h
  case h_5 => cases h; exact .scanned _ _
  case h_6 => split at h <;> cases h; exact .delete _ (Bool.eq_false_iff.2 ‹_›)
  case h_7 => cases h

theorem runtimeSec_spec (h : runtimeSec s e = some (s', p', new)) :
    Sec unpack s .runtime e s' p' new := by
  unfold runtimeSec at h
  split at h
  case h_1 => cases h; exact .advance _
  case h_2 => split at h <;> cases h; exact .fire
  case h_3 => cases h; exact .cancel
  case h_4 => cases h; exact .closeConn _
  case h_5 => cases h

/-- The only goroutine that is started is one more `dnsWaitResponse`. -/
theorem Sec.new_eq_wait (h : Sec unpack s p e s' p' new) : ∀ u ∈ new, u = .wait := by
  intro u hu
  cases h with
  | restart => exact (Option.some.inj hu).symm
  | _ => cases hu

theorem sec_spec (h : sec unpack s p e = some (s', p', new)) : Sec unpack s p e s' p' new := by
  cases p with
  | receiveTo | write | writeFailed | setupPivot | setupClose | listen | install | restart | unpack
  | add => exact receiveSec_spec h
  | wait | read | reply | lookup | touch | writeFrom => exact waitSec_spec h
  | close | closePivot | closeSock | stop => exact closeSec_spec h
  | select | ticked | scan | delete => exact expireSec_spec h
  | runtime => exact runtimeSec_spec h
  | done => cases h

end

/-! ## Queries and replies -/

/-- The query that the reply answers was sent. -/
def Known (s : S) (r : Reply) : Prop := ∀ i ∈ r.query, i < s.queries.length

/-- What the invariant speaks of is never taken back. -/
structure Extends (s s' : S) : Prop where
  queries : s.queries <+: s'.queries
  entries : s.entries ≤ s'.entries
  conn : ∀ e < s.entries, (s'.entry e).conn = (s.entry e).conn
  closed : ∀ c, s.closed c = true → s'.closed c = true

section
variable {unpack : Bytes → Option Msg} {s s' : S}

theorem Extends.refl (s : S) : Extends s s :=
  ⟨List.prefix_rfl, Nat.le_refl _, fun _ _ => rfl, fun _ => id⟩

theorem Known.ext (h : Extends s s') {r : Reply} (hr : Known s r) : Known s' r :=
  fun i hi => Nat.lt_of_lt_of_le (hr i hi) h.queries.length_le

theorem query_ext (h : Extends s s') {r : Reply} (hr : Known s r) : s'.query r = s.query r := by
  obtain ⟨l, hl⟩ := h.queries
  unfold S.query
  rw [← hl]
  cases hq : r.query with
  | none => rfl
  | some i => exact List.getElem?_append_left (hr i hq)

theorem known_of_arrives {k : Nat} {r : Reply} (h : s.Arrives k r) : Known s r := by
  intro i hi
  obtain ⟨q, hq, -⟩ := h.2 i hi
  exact (List.getElem?_eq_some_iff.1 hq).1

/-- The reply goes to the connection `q.conn` of its query and to no other: it is written there if
the connection is open, the reply parses and has answers, and `ExpireTime` is not over. -/
structure ToAsker (unpack : Bytes → Option Msg) (s : S) (h : Handled) (q : Query) : Prop where
  only : ∀ c, h.outcome = .written c → c = q.conn
  written : s.closed q.conn = false → (∃ msg, unpack h.reply.data = some msg ∧ msg.answers ≠ 0) →
    h.at_ ≤ q.sentAt + ExpireTime → h.outcome = .written q.conn

/-- What was done with a reply. -/
structure Answered (unpack : Bytes → Option Msg) (s : S) (h : Handled) : Prop where
  known : Known s h.reply
  toAsker : ∀ q, s.query h.reply = some q → ToAsker unpack s h q

theorem Answered.ext (hx : Extends s s') {h : Handled} (ha : Answered unpack s h) :
    Answered unpack s' h where
  known := ha.known.ext hx
  toAsker q hq := by
    rw [query_ext hx ha.known] at hq
    obtain ⟨only, written⟩ := ha.toAsker q hq
    refine ⟨only, fun hc => written ?_⟩
    rw [← Bool.not_eq_true] at hc ⊢
    exact fun hc' => hc (hx.closed _ hc')

/-! ## The invariant -/

/-- The connections of `dnsMap` (module doc). -/
structure Owned (unpack : Bytes → Option Msg) (s : S) : Prop where
  lt : ∀ {x e}, s.dnsMap.lookup x = some e → e < s.entries
  owner : ∀ {x e}, s.dnsMap.lookup x = some e → s.owner x = some (s.entry e).conn
  live : ∀ {x c}, s.owner x = some c → s.closed c = false → ∃ e, s.dnsMap.lookup x = some e
  handled : ∀ h ∈ s.handled, Answered unpack s h

/-- What a goroutine knows of the reply it has in hand. -/
def ReplyOk (unpack : Bytes → Option Msg) (s : S) (_ : Nat) : P → Prop
  | .reply r => Known s r
  | .lookup r msg => Known s r ∧ unpack r.data = some msg
  | .touch r e _ | .writeFrom r e _ =>
    Known s r ∧ e < s.entries ∧ ∀ q, s.query r = some q → (s.entry e).conn = q.conn
  | _ => True

/-- A reply with answers that is looked up is for the last connection that used its ID, unless it is
late and finds no entry; and `expireConn` deletes no entry of an open connection. -/
def IdKept (s : S) : P → Prop
  | .lookup r msg => msg.answers ≠ 0 → ∀ q ∈ s.query r, s.owner msg.ID = some q.conn ∨
      s.dnsMap.lookup msg.ID = none ∧ q.sentAt + ExpireTime < s.now
  | .delete toDelete => ∀ ID ∈ toDelete, ∀ e ∈ s.dnsMap.lookup ID, s.closed (s.entry e).conn = true
  | _ => True

theorem ReplyOk.ext (hx : Extends s s') {g : Nat} {p : P} (h : ReplyOk unpack s g p) :
    ReplyOk unpack s' g p := by
  cases p with
  | reply r => exact Known.ext hx h
  | lookup r msg => exact ⟨Known.ext hx h.1, h.2⟩
  | touch r e t | writeFrom r e t =>
    obtain ⟨hk, he, hq⟩ := h
    refine ⟨hk.ext hx, Nat.lt_of_lt_of_le he hx.entries, fun q hq' => ?_⟩
    rw [query_ext hx hk] at hq'
    rw [hx.conn e he]
    exact hq q hq'
  | _ => trivial

/-- A section that leaves `dnsMap` alone. -/
theorem Owned.same_map (h : Owned unpack s) (hx : Extends s s') (hmap : s'.dnsMap = s.dnsMap)
    (hown : s'.owner = s.owner)
    (hh : ∀ x ∈ s'.handled, x ∈ s.handled ∨ Answered unpack s' x) : Owned unpack s' where
  lt hl := by
    rw [hmap] at hl
    exact Nat.lt_of_lt_of_le (h.lt hl) hx.entries
  owner hl := by
    rw [hmap] at hl
    rw [hown, hx.conn _ (h.lt hl)]
    exact h.owner hl
  live ho hc := by
    rw [hown] at ho
    rw [hmap]
    refine h.live ho ?_
    rw [← Bool.not_eq_true] at hc ⊢
    exact fun hc' => hc (hx.closed _ hc')
  handled x hm := by
    rcases hh x hm with hm | ha
    · exact (h.handled x hm).ext hx
    · exact ha

theorem Extends.add (s : S) (c : Nat) (ID : UInt16) : Extends s (s.add c ID) where
  queries := List.prefix_rfl
  entries := Nat.le_succ _
  conn e he := by simp [S.add, Nat.ne_of_lt he]
  closed _ := id

/-- The new entry is the last one under its ID. -/
theorem Owned.add (h : Owned unpack s) (c : Nat) (ID : UInt16) : Owned unpack (s.add c ID) where
  lt {x e} hl := by
    by_cases hx : x = ID
    · subst hx
      simp only [S.add, AList.lookup_insert, Option.some.injEq] at hl
      rw [← hl]
      exact Nat.lt_succ_self _
    · simp only [S.add, AList.lookup_insert_ne hx] at hl
      exact Nat.lt_succ_of_lt (h.lt hl)
  owner {x e} hl := by
    by_cases hx : x = ID
    · subst hx
      simp only [S.add, AList.lookup_insert, Option.some.injEq] at hl
      rw [← hl]
      simp [S.add]
    · simp only [S.add, AList.lookup_insert_ne hx] at hl
      rw [(Extends.add s c ID).conn e (h.lt hl)]
      simp only [S.add, Function.update_of_ne hx]
      exact h.owner hl
  live {x d} ho hc := by
    by_cases hx : x = ID
    · subst hx
      exact ⟨s.entries, by simp [S.add]⟩
    · simp only [S.add, Function.update_of_ne hx] at ho
      simp only [S.add, AList.lookup_insert_ne hx]
      exact h.live ho hc
  handled x hm := (h.handled x hm).ext (.add s c ID)

theorem listed_of_lookup {x : UInt16} {e : Nat} (h : s.dnsMap.lookup x = some e) :
    s.listed (s.entry e).conn = true := by
  refine List.any_eq_true.2 ⟨⟨x, e⟩, AList.mem_lookup_iff.1 h, ?_⟩
  simp

theorem Extends.drop (s : S) (w : Closer) : Extends s (s.drop w) where
  queries := List.prefix_rfl
  entries := Nat.le_refl _
  conn _ _ := rfl
  closed c hc := by simp [S.drop, hc]

/-- `close` closes the connections whose entries it takes out. -/
theorem Owned.drop (h : Owned unpack s) (w : Closer) : Owned unpack (s.drop w) where
  lt hl := by simp [S.drop] at hl
  owner hl := by simp [S.drop] at hl
  live {x c} ho hc := by
    have hc' : s.closed c = false ∧ s.listed c = false := by simpa [S.drop] using hc
    obtain ⟨e, he⟩ := h.live ho hc'.1
    have howner : some c = some (s.entry e).conn := ho.symm.trans (h.owner he)
    rw [Option.some.inj howner, listed_of_lookup he] at hc'
    cases hc'.2
  handled x hm := (h.handled x hm).ext (.drop s w)

theorem lookup_foldl_erase (m : DnsMap) (ids : List UInt16) (x : UInt16) :
    (ids.foldl (fun m ID => m.erase ID) m).lookup x = if x ∈ ids then none else m.lookup x := by
  induction ids generalizing m with
  | nil => simp
  | cons ID ids ih =>
    rw [List.foldl_cons, ih]
    by_cases hx : x = ID
    · subst hx
      simp
    · simp [hx, AList.lookup_erase_ne hx]

theorem Extends.delete (s : S) (ids : List UInt16) : Extends s (s.delete ids) :=
  ⟨List.prefix_rfl, Nat.le_refl _, fun _ _ => rfl, fun _ => id⟩

/-- The entries that `expireConn` deletes are of connections that it closed. -/
theorem Owned.delete (h : Owned unpack s) {ids : List UInt16} (hc : IdKept s (.delete ids)) :
    Owned unpack (s.delete ids) where
  lt hl := by
    simp only [S.delete, lookup_foldl_erase] at hl
    split at hl
    · cases hl
    · exact h.lt hl
  owner hl := by
    simp only [S.delete, lookup_foldl_erase] at hl
    split at hl
    · cases hl
    · exact h.owner hl
  live {x c} ho hcl := by
    obtain ⟨e, he⟩ := h.live ho hcl
    refine ⟨e, ?_⟩
    simp only [S.delete, lookup_foldl_erase]
    split
    · rename_i hx
      have hclosed := hc x hx e he
      have howner : some c = some (s.entry e).conn := ho.symm.trans (h.owner he)
      rw [← Option.some.inj howner] at hclosed
      exact absurd (hclosed.symm.trans hcl) (by simp)
    · exact he
  handled x hm := (h.handled x hm).ext (.delete s ids)

end

/-! ## Sections keep it -/

section
variable {unpack : Bytes → Option Msg} {s s' : S}

/-- The fields that the invariant is about are left alone. -/
theorem Extends.of_eq (hq : s'.queries = s.queries) (hn : s'.entries = s.entries)
    (he : s'.entry = s.entry) (hc : s'.closed = s.closed) : Extends s s' where
  queries := by rw [hq]
  entries := Nat.le_of_eq hn.symm
  conn _ _ := by rw [he]
  closed _ := by rw [hc]; exact id

theorem Extends.closeConn (s : S) (c : Nat) : Extends s (s.closeConn c) where
  queries := List.prefix_rfl
  entries := Nat.le_refl _
  conn _ _ := rfl
  closed d hd := by
    by_cases hdc : d = c
    · subst hdc
      simp [S.closeConn]
    · simpa [S.closeConn, hdc] using hd

theorem Extends.touch (s : S) (e : Nat) : Extends s (s.touch e) where
  queries := List.prefix_rfl
  entries := Nat.le_refl _
  conn d _ := by
    by_cases hde : d = e
    · subst hde
      simp [S.touch]
    · simp [S.touch, hde]
  closed _ := id

theorem Extends.handle (s : S) (r : Reply) (o : Outcome) (t : Nat) : Extends s (s.handle r o t) :=
  .of_eq rfl rfl rfl rfl

theorem Owned.handle (h : Owned unpack s) {r : Reply} {o : Outcome} {t : Nat} (hk : Known s r)
    (ha : ∀ q, s.query r = some q → ToAsker unpack s ⟨r, o, t⟩ q) :
    Owned unpack (s.handle r o t) := by
  have hx := Extends.handle s r o t
  refine h.same_map hx rfl rfl fun x hm => ?_
  rcases List.mem_append.1 hm with hm | hm
  · exact .inl hm
  · rw [List.mem_singleton.1 hm]
    exact .inr (Answered.ext hx ⟨hk, ha⟩)

/-- A reply that is dropped was not to be written. -/
theorem ToAsker.dropped {r : Reply} {o : Outcome} {t : Nat} {q : Query} (ho : ∀ c, o ≠ .written c)
    (hn : (∃ msg, unpack r.data = some msg ∧ msg.answers ≠ 0) → t ≤ q.sentAt + ExpireTime →
      s.closed q.conn = true) : ToAsker unpack s ⟨r, o, t⟩ q where
  only c hc := absurd hc (ho c)
  written hc hm ht := by
    rw [hn hm ht] at hc
    cases hc

/-- What a section keeps and what it leaves to its goroutine. -/
theorem Owned.sec (h : Owned unpack s) {g : Nat} {p p' : P} {e : E} {new : Option P}
    (hp : ReplyOk unpack s g p) (hk : IdKept s p) (hs : Sec unpack s p e s' p' new) :
    Extends s s' ∧ Owned unpack s' ∧ ReplyOk unpack s' g p' := by
  have quiet : s'.queries = s.queries → s'.entries = s.entries → s'.entry = s.entry →
      s'.closed = s.closed → s'.dnsMap = s.dnsMap → s'.owner = s.owner → s'.handled = s.handled →
      ReplyOk unpack s' g p' → Extends s s' ∧ Owned unpack s' ∧ ReplyOk unpack s' g p' := by
    intro hq hn he hc hm ho hh hp'
    have hx := Extends.of_eq hq hn he hc
    exact ⟨hx, h.same_map hx hm ho fun x hxm => .inl (by rw [hh] at hxm; exact hxm), hp'⟩
  have closes : ∀ c, ReplyOk unpack (s.closeConn c) g p' → Extends s (s.closeConn c) ∧
      Owned unpack (s.closeConn c) ∧ ReplyOk unpack (s.closeConn c) g p' := fun c hp' =>
    ⟨.closeConn s c, h.same_map (.closeConn s c) rfl rfl fun _ => .inl, hp'⟩
  cases hs with
  | write c d k =>
    have hx : Extends s { s with queries := s.queries ++ [⟨c, d, k, s.now⟩] } :=
      ⟨List.prefix_append _ _, Nat.le_refl _, fun _ _ => rfl, fun _ => id⟩
    exact ⟨hx, h.same_map hx rfl rfl fun _ => .inl, trivial⟩
  | writeFailed c => exact closes c trivial
  | expired tim todo toDelete ID e => exact closes _ trivial
  | closeConn c => exact closes c trivial
  | add c ID => exact ⟨.add s c ID, h.add c ID, trivial⟩
  | close w => exact ⟨.drop s w, h.drop w, trivial⟩
  | delete ids => exact ⟨.delete s ids, h.delete hk, trivial⟩
  | read k r ha => exact quiet rfl rfl rfl rfl rfl rfl rfl (known_of_arrives ha)
  | parsed r msg hm => exact quiet rfl rfl rfl rfl rfl rfl rfl ⟨hp, hm⟩
  | unparsed r hm =>
    refine ⟨.handle s r _ _, h.handle hp fun q _ => .dropped (by simp) ?_, trivial⟩
    rintro ⟨msg, hmsg, -⟩
    rw [hm] at hmsg
    cases hmsg
  | noAnswers r msg hm =>
    refine ⟨.handle s r _ _, h.handle hp.1 fun q _ => .dropped (by simp) ?_, trivial⟩
    rintro ⟨msg', hmsg, ha⟩
    rw [hp.2] at hmsg
    cases hmsg
    exact absurd hm ha
  | missing r msg hm =>
    refine ⟨.handle s r _ _, h.handle hp.1 fun q hq => .dropped (by simp) ?_, trivial⟩
    rintro ⟨msg', hmsg, ha⟩ ht
    rw [hp.2] at hmsg
    cases hmsg
    rcases hk ha q hq with ho | ⟨-, hlate⟩
    · rw [← Bool.not_eq_false]
      intro hc
      obtain ⟨e, he⟩ := h.live ho hc
      rw [hm] at he
      cases he
    · exact absurd ht (Nat.not_le_of_lt hlate)
  | found r msg e hm ha =>
    refine quiet rfl rfl rfl rfl rfl rfl rfl ⟨hp.1, h.lt hm, fun q hq => ?_⟩
    rcases hk ha q hq with ho | ⟨hn, -⟩
    · exact Option.some.inj ((h.owner hm).symm.trans ho)
    · rw [hm] at hn
      cases hn
  | touch r e t =>
    exact ⟨.touch s e, h.same_map (.touch s e) rfl rfl fun _ => .inl,
      ReplyOk.ext (.touch s e) (p := .touch r e t) (g := g) hp⟩
  | writeFrom r e t hc =>
    obtain ⟨hkn, -, hq⟩ := hp
    refine ⟨.handle s r _ _, h.handle hkn fun q hq' => ?_, trivial⟩
    rw [hq q hq']
    exact ⟨fun c hc => (Outcome.written.inj hc).symm, fun _ _ _ => rfl⟩
  | writeFromFail r e t hc =>
    obtain ⟨hkn, -, hq⟩ := hp
    refine ⟨.handle s r _ _, h.handle hkn fun q hq' => .dropped (by simp) fun _ _ => ?_, trivial⟩
    rw [← hq q hq']
    exact hc
  | scanned tim toDelete =>
    refine quiet rfl rfl rfl rfl rfl rfl rfl ?_
    split <;> trivial
  | _ => exact quiet rfl rfl rfl rfl rfl rfl rfl trivial

end

/-! ## Replies in hand -/

/-- The reply that a `dnsWaitResponse` is working on. -/
def P.inHand : P → Option Reply
  | .reply r | .lookup r _ | .touch r _ _ | .writeFrom r _ _ => some r
  | _ => none

section
variable {unpack : Bytes → Option Msg} {s : State S P} {g : Nat}

/-- `dnsWaitResponse` is done with the reply. -/
def Done (r : Reply) (s : State S P) : Prop := ∃ x ∈ s.shared.handled, x.reply = r

/-- Left to itself, the goroutine `g` gets done with the reply. -/
abbrev Finishes (unpack : Bytes → Option Msg) (s : State S P) (g : Nat) (r : Reply) : Prop :=
  Alone (dnsHandler unpack) .none g (Done r) s

theorem done_handle (s : State S P) (g : Nat) (x : S) (r : Reply) (o : Outcome) (t : Nat) (p : P) :
    Done r (s.sec g (x.handle r o t) p none) :=
  ⟨⟨r, o, t⟩, List.mem_append_right _ (List.mem_singleton_self _), rfl⟩

theorem finishes_touch {r : Reply} {e t : Nat} (hg : g < s.n) (hp : s.thread g = .touch r e t) :
    Finishes unpack s g r := by
  refine .sec hg hp rfl fun hg' => ?_
  refine .sec hg' (s.sec_thread_self _ _ _ _) rfl fun _ => ?_
  exact .here (done_handle _ _ _ _ _ _ _)

theorem finishes_lookup {r : Reply} {msg : Msg} (hg : g < s.n)
    (hp : s.thread g = .lookup r msg) : Finishes unpack s g r := by
  cases hl : s.shared.dnsMap.lookup msg.ID with
  | none =>
    have hs : sec unpack s.shared (.lookup r msg) .none =
        some (s.shared.handle r .missing s.shared.now, .wait, none) := by
      simp [sec, waitSec, hl]
    exact .sec hg hp hs fun _ => .here (done_handle _ _ _ _ _ _ _)
  | some e =>
    by_cases ha : msg.answers = 0
    · have hs : sec unpack s.shared (.lookup r msg) .none =
          some (s.shared.handle r .noAnswers s.shared.now, .wait, none) := by
        simp [sec, waitSec, hl, ha]
      exact .sec hg hp hs fun _ => .here (done_handle _ _ _ _ _ _ _)
    · have hs : sec unpack s.shared (.lookup r msg) .none =
          some (s.shared, .touch r e s.shared.now, none) := by
        simp [sec, waitSec, hl, ha]
      exact .sec hg hp hs fun hg' => finishes_touch hg' (s.sec_thread_self _ _ _ _)

/-- Nothing can keep a `dnsWaitResponse` from getting done with the reply it has in hand. -/
theorem finishes_of_inHand {r : Reply} (hg : g < s.n) (hr : (s.thread g).inHand = some r) :
    Finishes unpack s g r := by
  cases hp : s.thread g with
  | reply r' =>
    rw [hp] at hr
    obtain rfl := Option.some.inj hr
    cases hm : unpack r'.data with
    | none =>
      have hs : sec unpack s.shared (.reply r') .none =
          some (s.shared.handle r' .unparsed s.shared.now, .wait, none) := by
        simp [sec, waitSec, hm]
      exact .sec hg hp hs fun _ => .here (done_handle _ _ _ _ _ _ _)
    | some msg =>
      have hs : sec unpack s.shared (.reply r') .none =
          some (s.shared, .lookup r' msg, none) := by
        simp [sec, waitSec, hm]
      exact .sec hg hp hs fun hg' => finishes_lookup hg' (s.sec_thread_self _ _ _ _)
  | lookup r' msg =>
    rw [hp] at hr
    obtain rfl := Option.some.inj hr
    exact finishes_lookup hg hp
  | touch r' e t =>
    rw [hp] at hr
    obtain rfl := Option.some.inj hr
    exact finishes_touch hg hp
  | writeFrom r' e t =>
    rw [hp] at hr
    obtain rfl := Option.some.inj hr
    exact .sec hg hp rfl fun _ => .here (done_handle _ _ _ _ _ _ _)
  | _ => rw [hp] at hr; cases hr

end

/-! ## Runs -/

section
variable {unpack : Bytes → Option Msg} {s s' : State S P} {tr : List (State S P × Act (Nat × Bytes) E)}

/-- `IdKept` for a step. -/
def IdKeptStep (s : State S P) : Act (Nat × Bytes) E → Prop
  | .start _ => True
  | .sec g _ => IdKept s.shared (s.thread g)

instance (s : S) : (p : P) → Decidable (IdKept s p)
  | .lookup r _ => inferInstanceAs (Decidable (_ → ∀ q ∈ s.query r, _ ∨ _ ∧ _))
  | .delete toDelete => inferInstanceAs (Decidable (∀ ID ∈ toDelete, ∀ e ∈ s.dnsMap.lookup ID, _))
  | .receiveTo _ _ | .write _ _ _ | .writeFailed _ | .setupPivot | .setupClose _ | .listen
  | .install _ | .restart | .unpack _ _ | .add _ _ | .wait | .read _ | .reply _ | .touch _ _ _
  | .writeFrom _ _ _ | .close _ | .closePivot _ | .closeSock _ _ | .stop _ | .select | .ticked _
  | .scan _ _ _ | .runtime | .done => .isTrue trivial

instance (s : State S P) : (a : Act (Nat × Bytes) E) → Decidable (IdKeptStep s a)
  | .start _ => .isTrue trivial
  | .sec g _ => inferInstanceAs (Decidable (IdKept s.shared (s.thread g)))

theorem owned_init : Holds (Owned unpack) (ReplyOk unpack) init where
  shared := ⟨by simp [init], by simp [init], by simp [init], by simp [init]⟩
  thread g hg := by
    have hg' : g < 3 := hg
    match g, hg' with
    | 0, _ | 1, _ | 2, _ => trivial

theorem owned_step {a : Act (Nat × Bytes) E} (h : Holds (Owned unpack) (ReplyOk unpack) s)
    (hk : IdKeptStep s a) (hs : Pool.step (dnsHandler unpack) s a = some s') :
    Holds (Owned unpack) (ReplyOk unpack) s' := by
  refine h.step hs (fun b x t _ hst => ?_) (fun g e x t new ha hg hsec => ?_)
  · cases hst
    exact ⟨h.shared, trivial, fun _ _ => id⟩
  · subst ha
    have hspec := sec_spec hsec
    obtain ⟨hx, ho, hp⟩ := h.shared.sec (h.thread g hg) hk hspec
    refine ⟨ho, hp, fun u hu => ?_, fun g' hg' _ hl => hl.ext hx⟩
    rw [hspec.new_eq_wait u hu]
    trivial

/-- A reply goes to the asker of its query and to no other connection, for every interleaving of
`ReceiveTo` calls, replies, expiry ticks and failures in which an asker keeps its ID until its reply
is looked up; and every reply that was read is dealt with. -/
theorem reply_to_asker (hr : Run (Pool.step (dnsHandler unpack)) init tr s)
    (hk : Meets IdKeptStep tr) :
    (∀ h ∈ s.shared.handled, ∀ q, s.shared.query h.reply = some q → ToAsker unpack s.shared h q) ∧
      ∀ g < s.n, ∀ r, (s.thread g).inHand = some r → Finishes unpack s g r := by
  have hi : Holds (Owned unpack) (ReplyOk unpack) s :=
    hr.inv hk owned_init fun _ _ _ h hc hs => owned_step h hc hs
  exact ⟨fun h hm => (hi.shared.handled h hm).toAsker, fun g hg r => finishes_of_inHand hg⟩

end

/-- `Unpack` on a well-formed message: the ID and the number of answers stand in its header. -/
def unpackHeader : Bytes → Option Msg
  | i1 :: i2 :: _ :: _ :: _ :: _ :: a1 :: a2 :: _ :: _ :: _ :: _ :: _ =>
    some ⟨i1.toUInt16 <<< 8 ||| i2.toUInt16, a1.toNat * 256 + a2.toNat⟩
  | _ => none

/-- A query without a question. -/
def queryOf (hi lo : UInt8) : Bytes := [hi, lo, 1, 0, 0, 0, 0, 0, 0, 0, 0, 0]

/-- A reply with one address for the root. -/
def replyOf (hi lo : UInt8) : Bytes :=
  [hi, lo, 129, 128, 0, 0, 0, 1, 0, 0, 0, 0, 0, 0, 1, 0, 1, 0, 0, 0, 60, 0, 4, 10, 0, 0, 1]

/-- A `ReceiveTo` that runs to its end as goroutine `g`. -/
def ask (g c : Nat) (data : Bytes) : List (Act (Nat × Bytes) E) :=
  [.start (c, data), .sec g .none, .sec g (.write true), .sec g .none, .sec g .none]

/-- The first `dnsWaitResponse` reads a reply and deals with it. -/
def answer (r : Reply) : List (Act (Nat × Bytes) E) :=
  [.sec 0 .none, .sec 0 (.read (some r)), .sec 0 .none, .sec 0 .none, .sec 0 .none, .sec 0 .none]

/-- Two connections ask under different IDs and are answered in the other order. -/
theorem reply_to_asker_two :
    ∃ tr s, Run (Pool.step (dnsHandler unpackHeader)) init tr s ∧ Meets IdKeptStep tr ∧
      s.shared.handled = [⟨⟨replyOf 3 4, some 1⟩, .written 11, 0⟩,
        ⟨⟨replyOf 1 2, some 0⟩, .written 10, 0⟩] ∧
      ∀ h ∈ s.shared.handled, ∀ q, s.shared.query h.reply = some q →
        ToAsker unpackHeader s.shared h q := by
  let acts := ask 3 10 (queryOf 1 2) ++ ask 4 11 (queryOf 3 4) ++ answer ⟨replyOf 3 4, some 1⟩ ++
    answer ⟨replyOf 1 2, some 0⟩
  obtain ⟨s, hr, hs⟩ := exists_run (Pool.step (dnsHandler unpackHeader)) init acts
    (fun s => decide (s.shared.handled = [⟨⟨replyOf 3 4, some 1⟩, .written 11, 0⟩,
      ⟨⟨replyOf 1 2, some 0⟩, .written 10, 0⟩])) (by decide +kernel)
  have hk : Meets IdKeptStep (execTrace (Pool.step (dnsHandler unpackHeader)) init acts) := by
    decide +kernel
  exact ⟨_, s, hr, hk, of_decide_eq_true hs, (reply_to_asker hr hk).1⟩

/-- Two connections ask under the same ID: the answer to the first goes to the second. -/
theorem same_id_misdelivers :
    ¬ ∀ tr s, Run (Pool.step (dnsHandler unpackHeader)) init tr s → ∀ h ∈ s.shared.handled, ∀ q,
      s.shared.query h.reply = some q → ToAsker unpackHeader s.shared h q := by
  intro h
  let acts := ask 3 10 (queryOf 1 2) ++ ask 4 11 (queryOf 1 2) ++ answer ⟨replyOf 1 2, some 0⟩
  obtain ⟨s, hr, hs⟩ := exists_run (Pool.step (dnsHandler unpackHeader)) init acts
    (fun s => decide (s.shared.handled = [⟨⟨replyOf 1 2, some 0⟩, .written 11, 0⟩] ∧
      s.shared.query ⟨replyOf 1 2, some 0⟩ = some ⟨10, queryOf 1 2, 0, 0⟩)) (by decide +kernel)
  obtain ⟨hh, hq⟩ := of_decide_eq_true hs
  have key := h _ s hr _ (by rw [hh]; exact List.mem_singleton_self _) _ hq
  exact absurd (key.only 11 rfl) (by decide)

end Dns
