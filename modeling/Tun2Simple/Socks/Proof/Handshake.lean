import Tun2Simple.Socks.Handshake
import Tun2Simple.Socks.Proof.ReadAddr

/-!
# Which streams the handshake accepts

A client that asks to connect sends a greeting, the header of a request and an address
(`ConnectStream`). `handshake_connect` follows `Handshake` through such a stream, `handshake_fails`
through every other one: it ends with an error at the first part that is missing.
-/

namespace Socks

open Net Go

section
variable (rw : ReadWriter) (buf : Slice UInt8)

theorem write_ok {b : Bytes} (h : rw.writeErrs = []) :
    rw.write b = (none, { rw with written := rw.written ++ [b] }) := by
  rw [ReadWriter.write, h]

/-- A read that is filled: its bytes are at the head of the buffer, of the same size. -/
theorem readFull_full {x t : Bytes} (hr : rw.r.left = x ++ t) (hb : x.length ≤ buf.len) :
    ∃ buf' r, rw.readFull buf x.length = some (none, buf', { rw with r }) ∧
      (∀ i, i < x.length → buf'.get i = x[i]?) ∧ buf'.len = buf.len ∧ r.left = t := by
  have hcap := buf.len_le_cap
  obtain ⟨buf', r, hread, hp, hlen, -, hleft⟩ :=
    readInto_full (p := []) List.nil_prefix hr (show 0 + x.length ≤ buf.cap by omega)
  rw [List.length_nil, Nat.zero_add] at hread
  refine ⟨buf', r, ?_, fun i hi => Slice.get_of_prefix hp hi (by omega), hlen, hleft⟩
  rw [ReadWriter.readFull, hread]
  rfl

/-- A read that the stream is too short for. -/
theorem readFull_short {n : Nat} (hr : rw.r.left.length < n) (hb : n ≤ buf.len) :
    ∃ err buf' r, rw.readFull buf n = some (some err, buf', { rw with r }) := by
  have hcap := buf.len_le_cap
  obtain ⟨err, buf', r, hread, herr, -⟩ :=
    readInto_spec (r := rw.r) (b := buf) (Nat.zero_le n) (by omega)
  cases err with
  | none =>
    have := herr.1 rfl
    omega
  | some e =>
    refine ⟨e, buf', r, ?_⟩
    rw [ReadWriter.readFull, hread]
    rfl

/-! ## The request -/

theorem request_connect {v rsv : UInt8} {a t : Bytes} (hr : rw.r.left = v :: cmdConnect :: rsv :: (a ++ t))
    (ha : IsAddr a) (hb : maxAddrLen ≤ buf.len) (hw : rw.writeErrs = []) :
    ∃ a' r, request false buf rw =
        some ⟨some a', none, { rw with r, written := rw.written ++ [successReply] }⟩ ∧
      a'.toList = a ∧ r.left = t := by
  have hmax : maxAddrLen = 259 := rfl
  obtain ⟨b1, r1, hread, hget, hlen, hleft⟩ :=
    readFull_full rw buf (x := [v, cmdConnect, rsv]) (t := a ++ t) hr
      (show 3 ≤ buf.len by omega)
  obtain ⟨a', b2, r2, haddr, hal, hleft2⟩ := readAddr_append ha hleft (b := b1) (by omega)
  have hcmd : b1.get 1 = some cmdConnect := hget 1 (by simp)
  refine ⟨a', r2, ?_, hal, hleft2⟩
  have hread : rw.readFull buf 3 = some (none, b1, { rw with r := r1 }) := hread
  rw [request, hread]
  simp only [Option.bind_eq_bind, Option.bind_some, hcmd, haddr, reply, ne_eq, not_true_eq_false,
    if_false, if_true]
  rw [write_ok _ (show ReadWriter.writeErrs { rw with r := r2 } = [] from hw)]
  rfl

/-- Without the request to connect and a whole address `Handshake` fails, and writes
nothing more. -/
theorem request_cases (hb : maxAddrLen ≤ buf.len) :
    (∃ v rsv a t, rw.r.left = v :: cmdConnect :: rsv :: (a ++ t) ∧ IsAddr a) ∨
      ∃ res, request false buf rw = some res ∧ res.err ≠ none ∧ res.rw.written = rw.written := by
  have hmax : maxAddrLen = 259 := rfl
  by_cases h3 : rw.r.left.length < 3
  · obtain ⟨err, b1, r1, hread⟩ := readFull_short rw buf h3 (by omega)
    refine .inr ⟨⟨none, some (.io err), { rw with r := r1 }⟩, ?_, by simp, rfl⟩
    rw [request, hread]
    rfl
  obtain ⟨x, z, hr, hx⟩ := split_prefix (Nat.not_lt.1 h3)
  obtain ⟨v, cmd, rsv, rfl⟩ := List.length_eq_three.1 hx
  obtain ⟨b1, r1, hread, hget, hlen, hleft⟩ := readFull_full rw buf hr (by omega)
  have hread : rw.readFull buf 3 = some (none, b1, { rw with r := r1 }) := hread
  have hcmd : b1.get 1 = some cmd := hget 1 (by simp)
  rcases addr_or_not z with ⟨a, t, ha, rfl⟩ | hno
  · by_cases hc : cmd = cmdConnect
    · subst hc
      exact .inl ⟨v, rsv, a, t, hr, ha⟩
    · obtain ⟨a', b2, r2, haddr, -⟩ := readAddr_append ha hleft (b := b1) (by omega)
      refine .inr ⟨⟨none, some errCommandNotSupported, { rw with r := r2 }⟩, ?_, by simp, rfl⟩
      rw [request, hread]
      simp only [Option.bind_eq_bind, Option.bind_some, hcmd, haddr, reply, if_neg hc, ne_eq,
        not_true_eq_false, if_false]
      split <;> rfl
  · obtain ⟨res, haddr, herr⟩ := readAddr_noAddr (hleft.symm ▸ hno) (b := b1) (by omega)
    refine .inr ⟨⟨none, res.err, { rw with r := res.r }⟩, ?_, herr, rfl⟩
    rw [request, hread]
    simp only [Option.bind_eq_bind, Option.bind_some, hcmd, haddr, ne_eq, herr, not_false_eq_true,
      if_true]
    rfl

/-! ## The greeting -/

/-- With a whole greeting `Handshake` answers it and comes to the request. -/
theorem handshake_greeting {v n : UInt8} {ms y : Bytes} (hr : rw.r.left = v :: n :: (ms ++ y))
    (hn : ms.length = n.toNat) (hw : rw.writeErrs = []) :
    ∃ buf r, maxAddrLen ≤ buf.len ∧ r.left = y ∧
      handshake false rw = request false buf { rw with r, written := rw.written ++ [methodReply] } := by
  have hmax : maxAddrLen = 259 := rfl
  have hlt := n.toNat_lt
  obtain ⟨b1, r1, hread, hget, hlen, hleft⟩ := readFull_full rw
    (Slice.ofList (List.replicate maxAddrLen 0) []) (x := [v, n]) (t := ms ++ y) hr (by simp)
  have hread : rw.readFull _ 2 = some (none, b1, { rw with r := r1 }) := hread
  have hn1 : b1.get 1 = some n := hget 1 (by simp)
  rw [Slice.ofList_len, List.length_replicate] at hlen
  obtain ⟨b2, r2, hread2, -, hlen2, hleft2⟩ :=
    readFull_full { rw with r := r1 } b1 hleft (by omega)
  rw [hn] at hread2
  refine ⟨b2, r2, by omega, hleft2, ?_⟩
  rw [handshake, hread]
  simp only [Option.bind_eq_bind, Option.bind_some, ne_eq, not_true_eq_false, if_false, hn1, hread2]
  rw [write_ok _ (show ReadWriter.writeErrs { rw with r := r2 } = [] from hw)]
  rfl

/-- Without one it fails, and writes nothing. -/
theorem greeting_cases :
    (∃ v n ms y, rw.r.left = v :: n :: (ms ++ y) ∧ ms.length = n.toNat) ∨
      ∃ res, handshake false rw = some res ∧ res.err ≠ none ∧ res.rw.written = rw.written := by
  have hmax : maxAddrLen = 259 := rfl
  by_cases h2 : rw.r.left.length < 2
  · obtain ⟨err, b1, r1, hread⟩ :=
      readFull_short rw (Slice.ofList (List.replicate maxAddrLen 0) []) h2 (by simp)
    refine .inr ⟨⟨none, some (.io err), { rw with r := r1 }⟩, ?_, by simp, rfl⟩
    rw [handshake, hread]
    rfl
  obtain ⟨x, z, hr, hx⟩ := split_prefix (Nat.not_lt.1 h2)
  obtain ⟨v, n, rfl⟩ := List.length_eq_two.1 hx
  by_cases hz : n.toNat ≤ z.length
  · obtain ⟨ms, y, rfl, hms⟩ := split_prefix hz
    exact .inl ⟨v, n, ms, y, hr, hms⟩
  have hlt := n.toNat_lt
  obtain ⟨b1, r1, hread, hget, hlen, hleft⟩ := readFull_full rw
    (Slice.ofList (List.replicate maxAddrLen 0) []) hr (by simp)
  have hread : rw.readFull _ 2 = some (none, b1, { rw with r := r1 }) := hread
  have hn1 : b1.get 1 = some n := hget 1 (by simp)
  rw [Slice.ofList_len, List.length_replicate] at hlen
  obtain ⟨err, b2, r2, hread2⟩ := readFull_short { rw with r := r1 } b1
    (n := n.toNat) (by rw [hleft]; omega) (by omega)
  refine .inr ⟨⟨none, some (.io err), { rw with r := r2 }⟩, ?_, by simp, rfl⟩
  rw [handshake, hread]
  simp only [Option.bind_eq_bind, Option.bind_some, ne_eq, not_true_eq_false, if_false, hn1, hread2]
  rfl

end

/-! ## The handshake -/

/-- An address that `SplitAddr` takes whole. -/
def Accepted (a : Bytes) : Prop :=
  ∃ a', splitAddr (Slice.ofList a []) = some (some a') ∧ a'.toList = a

theorem accepted_iff {a : Bytes} : Accepted a ↔ IsAddr a := by
  constructor
  · rintro ⟨a', hs, ha⟩
    rcases addr_or_not a with ⟨x, t, hx, rfl⟩ | hno
    · obtain ⟨x', hs', hx'⟩ := splitAddr_append hx t []
      cases hs.symm.trans hs'
      rw [← ha, hx']
      exact hx
    · rw [splitAddr_noAddr hno] at hs
      cases hs
  · intro h
    have := splitAddr_append h [] []
    rwa [List.append_nil] at this

/-- The bytes `s` are those of a client that asks to connect to `a`, with `t` behind them. -/
def ConnectStream (s a t : Bytes) : Prop :=
  ∃ (v1 n : UInt8) (ms : Bytes) (v2 rsv : UInt8),
    s = [v1, n] ++ ms ++ [v2, 1, rsv] ++ a ++ t ∧ ms.length = n.toNat ∧ Accepted a

section
variable {r : Reader} (localAddr : Option Bytes)

theorem handshake_connect {a t : Bytes} (h : ConnectStream r.left a t) :
    ∃ a' r', handshake false ⟨r, [], [], localAddr⟩ =
        some ⟨some a', none, ⟨r', [methodReply, successReply], [], localAddr⟩⟩ ∧
      a'.toList = a ∧ r'.left = t := by
  obtain ⟨v1, n, ms, v2, rsv, hs, hn, ha⟩ := h
  simp only [List.append_assoc, List.cons_append, List.nil_append] at hs
  obtain ⟨buf, r1, hb, hleft, heq⟩ := handshake_greeting ⟨r, [], [], localAddr⟩ hs hn rfl
  rw [heq]
  exact request_connect _ buf hleft (accepted_iff.1 ha) hb rfl

theorem handshake_fails (h : ¬ ∃ a t, ConnectStream r.left a t) :
    ∃ res, handshake false ⟨r, [], [], localAddr⟩ = some res ∧ res.err ≠ none ∧
      (res.rw.written = [] ∨ res.rw.written = [methodReply]) := by
  rcases greeting_cases ⟨r, [], [], localAddr⟩ with
    ⟨v1, n, ms, y, hs, hn⟩ | ⟨res, hres, herr, hw⟩
  · obtain ⟨buf, r1, hb, hleft, heq⟩ := handshake_greeting _ hs hn rfl
    rw [heq]
    rcases request_cases ⟨r1, [methodReply], [], localAddr⟩ buf hb with
      ⟨v2, rsv, a, t, hy, ha⟩ | ⟨res, hres, herr, hw⟩
    · refine absurd ⟨a, t, v1, n, ms, v2, rsv, ?_, hn, accepted_iff.2 ha⟩ h
      have hy : y = v2 :: cmdConnect :: rsv :: (a ++ t) := hleft.symm.trans hy
      rw [hs, hy]
      simp only [List.append_assoc, List.cons_append, List.nil_append]
      rfl
    · exact ⟨res, hres, herr, .inr hw⟩
  · exact ⟨res, hres, herr, .inl hw⟩

end

/-- **The handshake is exact.** For every stream, however it is cut into chunks, and with writes
that succeed, `Handshake` returns an address without an error exactly if the stream starts with a
request to connect to it; it then takes this start and no more and writes the two replies. Otherwise
it returns an error, and the second reply is not written. -/
theorem handshake_exact (r : Reader) (localAddr : Option Bytes) :
    ∃ res, handshake false ⟨r, [], [], localAddr⟩ = some res ∧
      (∀ a, (res.err = none ∧ res.addr.map Slice.toList = some a) ↔ ∃ t, ConnectStream r.left a t) ∧
      (∀ a t, ConnectStream r.left a t →
        res.rw.r.left = t ∧ res.rw.written = [methodReply, successReply]) ∧
      ((¬ ∃ a t, ConnectStream r.left a t) →
        res.err ≠ none ∧ successReply ∉ res.rw.written) := by
  by_cases h : ∃ a t, ConnectStream r.left a t
  · obtain ⟨a, t, hc⟩ := h
    obtain ⟨x, r', hres, hx, hleft⟩ := handshake_connect localAddr hc
    refine ⟨_, hres, fun c => ⟨?_, ?_⟩, ?_, fun hno => absurd ⟨a, t, hc⟩ hno⟩
    · rintro ⟨-, hc'⟩
      cases hc'
      exact ⟨t, hx.symm ▸ hc⟩
    · rintro ⟨t', hc'⟩
      obtain ⟨x', r'', hres', hx', -⟩ := handshake_connect localAddr hc'
      cases hres.symm.trans hres'
      exact ⟨rfl, congrArg some hx'⟩
    · intro a' t' hc'
      obtain ⟨x', r'', hres', -, hleft'⟩ := handshake_connect localAddr hc'
      cases hres.symm.trans hres'
      exact ⟨hleft', rfl⟩
  · obtain ⟨res, hres, herr, hw⟩ := handshake_fails localAddr h
    refine ⟨res, hres, fun a => ⟨fun hn => absurd hn.1 herr, fun hc => absurd ⟨a, hc⟩ h⟩,
      fun a t hc => absurd ⟨a, t, hc⟩ h, fun _ => ⟨herr, ?_⟩⟩
    rcases hw with hw | hw
    · rw [hw]
      simp
    · rw [hw]
      decide

end Socks
