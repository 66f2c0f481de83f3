import Tun2Simple.Socks.Proof.Addr

/-!
# The two decoders agree

A stream starts with an address or it does not (`NoAddr`: it is cut off in the address, or the type
is none of the three); `addr_or_not` says that there is no third case. On the first kind
`splitAddr_append` and `readAddr_append` give the address, on the second `splitAddr` gives `nil`
(`splitAddr_noAddr`) and `readAddr` an error (`readAddr_noAddr`), so that both come to the same
verdict (`readAddr_eq_splitAddr`).
-/

namespace Socks

open Net Go Stack

/-- Bytes that do not start with an address. -/
inductive NoAddr : Bytes → Prop
  | nil : NoAddr []
  | v4 {x : Bytes} (h : x.length < ipv4len + 2) : NoAddr (atypIPv4 :: x)
  | v6 {x : Bytes} (h : x.length < ipv6len + 2) : NoAddr (atypIPv6 :: x)
  | noLength : NoAddr [atypDomainName]
  | domain {n : UInt8} {x : Bytes} (h : x.length < n.toNat + 2) : NoAddr (atypDomainName :: n :: x)
  | other {c : UInt8} {x : Bytes} (h3 : c ≠ atypDomainName) (h4 : c ≠ atypIPv4) (h6 : c ≠ atypIPv6) :
    NoAddr (c :: x)

/-- The first `n` bytes of a stream that has so many. -/
theorem split_prefix {x : Bytes} {n : Nat} (h : n ≤ x.length) :
    ∃ y t, x = y ++ t ∧ y.length = n :=
  ⟨x.take n, x.drop n, (List.take_append_drop ..).symm, by rw [List.length_take, Nat.min_eq_left h]⟩

theorem addr_or_not (s : Bytes) : (∃ a t, IsAddr a ∧ s = a ++ t) ∨ NoAddr s := by
  cases s with
  | nil => exact .inr .nil
  | cons c x =>
    by_cases h4 : c = atypIPv4
    · subst h4
      by_cases hx : x.length < ipv4len + 2
      · exact .inr (.v4 hx)
      · obtain ⟨y, t, rfl, hy⟩ := split_prefix (Nat.not_lt.1 hx)
        exact .inl ⟨_, t, .v4 hy, rfl⟩
    by_cases h6 : c = atypIPv6
    · subst h6
      by_cases hx : x.length < ipv6len + 2
      · exact .inr (.v6 hx)
      · obtain ⟨y, t, rfl, hy⟩ := split_prefix (Nat.not_lt.1 hx)
        exact .inl ⟨_, t, .v6 hy, rfl⟩
    by_cases h3 : c = atypDomainName
    · subst h3
      cases x with
      | nil => exact .inr .noLength
      | cons n x =>
        by_cases hx : x.length < n.toNat + 2
        · exact .inr (.domain hx)
        · obtain ⟨y, t, rfl, hy⟩ := split_prefix (Nat.not_lt.1 hx)
          exact .inl ⟨_, t, .domain hy, rfl⟩
    exact .inr (.other h3 h4 h6)

/-! ## `SplitAddr` -/

theorem splitAt_short {b : Slice UInt8} {n : Nat} (h : b.len < n) : splitAt b n = some none := if_pos h

theorem splitAddr_noAddr {s : Bytes} (h : NoAddr s) (behind : Bytes) :
    splitAddr (Slice.ofList s behind) = some none := by
  have h4 : ipv4len = 4 := rfl
  have h6 : ipv6len = 16 := rfl
  rw [splitAddr]
  cases h with
  | nil => exact if_pos Nat.zero_lt_one
  | @v4 x hx =>
    rw [if_neg (by simp), Slice.ofList_get]
    exact splitAt_short (by simp only [Slice.ofList_len, List.length_cons]; omega)
  | @v6 x hx =>
    rw [if_neg (by simp), Slice.ofList_get]
    exact splitAt_short (by simp only [Slice.ofList_len, List.length_cons]; omega)
  | noLength =>
    rw [if_neg (by simp), Slice.ofList_get]
    rfl
  | @domain n x hx =>
    have h2 : ¬ (Slice.ofList (atypDomainName :: n :: x) behind).len < 2 := by simp
    rw [if_neg (by simp), Slice.ofList_get, Slice.ofList_get]
    simp only [List.getElem?_cons_zero, List.getElem?_cons_succ, Option.bind_eq_bind,
      Option.bind_some, if_true, if_neg h2]
    exact splitAt_short (by simp only [Slice.ofList_len, List.length_cons]; omega)
  | other h3 h4 h6 =>
    rw [if_neg (by simp), Slice.ofList_get]
    simp only [List.getElem?_cons_zero, Option.bind_eq_bind, Option.bind_some, if_neg h3, if_neg h4,
      if_neg h6]
    rfl

/-! ## `ReadAddr` -/

/-- The last read on a stream that ends before it. -/
theorem readTail_short {r : Reader} {b : Slice UInt8} {lo hi : Nat} (h : lo ≤ hi) (hc : hi ≤ b.cap)
    (hr : r.left.length < hi - lo) : ∃ res, readTail r b lo hi = some res ∧ res.err ≠ none := by
  obtain ⟨err, b', r', hread, herr, -, hcap⟩ := readInto_spec (r := r) h hc
  obtain ⟨a, ha, -⟩ := b'.slice_eq_some (Nat.zero_le hi) (by omega)
  refine ⟨⟨a, err.map .io, b', r'⟩, ?_, ?_⟩
  · rw [readTail, hread]
    simp only [Option.bind_eq_bind, Option.bind_some, ha]
    rfl
  · intro hn
    have := herr.1 (Option.map_eq_none_iff.1 hn)
    omega

theorem readAddr_noAddr {r : Reader} (h : NoAddr r.left) {b : Slice UInt8} (hb : maxAddrLen ≤ b.len) :
    ∃ res, readAddr r b = some res ∧ res.err ≠ none := by
  have hcap := b.len_le_cap
  have hmax : maxAddrLen = 259 := rfl
  have h4 : ipv4len = 4 := rfl
  have h6 : ipv6len = 16 := rfl
  rw [readAddr, if_neg (by omega)]
  generalize hr : r.left = s at h
  cases h with
  | nil =>
    obtain ⟨err, b1, r1, hread, herr, -⟩ :=
      readInto_spec (r := r) (b := b) (Nat.zero_le 1) (by omega)
    have hne : err ≠ none := by
      rw [ne_eq, herr, hr]
      simp
    simp only [hread, Option.bind_eq_bind, Option.bind_some, if_pos hne]
    exact ⟨_, rfl, fun h => hne (Option.map_eq_none_iff.1 h)⟩
  | @v4 x hx =>
    obtain ⟨b1, r1, hread, -, -, hcap1, hleft, hget⟩ := readInto_type hb hr
    simp only [hread, hget, Option.bind_eq_bind, Option.bind_some]
    exact readTail_short (by omega) (by omega) (by rw [hleft]; omega)
  | @v6 x hx =>
    obtain ⟨b1, r1, hread, -, -, hcap1, hleft, hget⟩ := readInto_type hb hr
    simp only [hread, hget, Option.bind_eq_bind, Option.bind_some]
    exact readTail_short (by omega) (by omega) (by rw [hleft]; omega)
  | noLength =>
    obtain ⟨b1, r1, hread, -, -, hcap1, hleft, hget⟩ := readInto_type hb hr
    obtain ⟨err, b2, r2, hread2, herr, -⟩ :=
      readInto_spec (r := r1) (b := b1) (Nat.le_succ 1) (by omega)
    have hne : err ≠ none := by
      rw [ne_eq, herr, hleft]
      simp
    simp only [hread, hget, hread2, Option.bind_eq_bind, Option.bind_some, if_true, if_pos hne]
    exact ⟨_, rfl, fun h => hne (Option.map_eq_none_iff.1 h)⟩
  | @domain n x hx =>
    obtain ⟨b1, r1, hread, hp, hlen1, hcap1, hleft, hget⟩ := readInto_type hb hr
    have hn := n.toNat_lt
    obtain ⟨b2, r2, hread2, -, -, hcap2, hleft2, hget2⟩ :=
      readInto_byte hp hleft (by simp only [List.length_singleton]; omega)
    rw [List.length_singleton] at hread2 hget2
    simp only [hread, hget, hread2, hget2, Option.bind_eq_bind, Option.bind_some, if_true]
    exact readTail_short (by omega) (by omega) (by rw [hleft2]; omega)
  | other h3 h4 h6 =>
    obtain ⟨b1, r1, hread, -, -, -, -, hget⟩ := readInto_type hb hr
    simp only [hread, hget, Option.bind_eq_bind, Option.bind_some, if_neg h3, if_neg h4, if_neg h6]
    exact ⟨_, rfl, by simp⟩

/-! ## `String` -/

theorem split_port {x : Bytes} {n : Nat} (h : x.length = n + 2) :
    ∃ (host : Bytes) (hi lo : UInt8), x = host ++ [hi, lo] ∧ host.length = n := by
  obtain ⟨host, port, rfl, hn⟩ := split_prefix (x := x) (n := n) (by omega)
  obtain ⟨hi, lo, rfl⟩ := List.length_eq_two.1 (show port.length = 2 by
    rw [List.length_append] at h
    omega)
  exact ⟨host, hi, lo, rfl, hn⟩

/-- The text of an address does not depend on what lies behind its bytes. -/
theorem string_isAddr {a : Bytes} (h : IsAddr a) :
    ∃ text, ∀ behind, Addr.string (Slice.ofList a behind) = some text := by
  cases h with
  | v4 hx =>
    obtain ⟨host, hi, lo, rfl, hn⟩ := split_port hx
    exact ⟨_, string_ipv4 hn hi lo⟩
  | v6 hx =>
    obtain ⟨host, hi, lo, rfl, hn⟩ := split_port hx
    exact ⟨_, string_ipv6 hn hi lo⟩
  | domain hx =>
    obtain ⟨host, hi, lo, rfl, hn⟩ := split_port hx
    exact ⟨_, string_domain hn hi lo⟩

/-- `String` of a slice, of any capacity, that shows the bytes of an address. -/
theorem string_slice {a : Addr} (h : IsAddr a.toList) :
    ∃ text, a.string = some text ∧ ∀ behind, Addr.string (Slice.ofList a.toList behind) = some text := by
  obtain ⟨text, ht⟩ := string_isAddr h
  refine ⟨text, ?_, ht⟩
  rw [← ht (a.mem.drop a.len), Slice.ofList_toList]

/-! ## Agreement -/

/-- **The decoders agree.** On the bytes of every stream, however it is cut into chunks, and with
anything behind the slice that `SplitAddr` is given, neither decoder panics; `ReadAddr` returns an
address without an error exactly if `SplitAddr` returns the same one, and then takes its bytes from
the stream and no more; the text of that address is made of its bytes alone. -/
theorem readAddr_eq_splitAddr (r : Reader) (behind : Bytes) :
    ∃ res s, readAddrNew r = some res ∧ splitAddr (Slice.ofList r.left behind) = some s ∧
      (∀ a : Bytes, (res.err = none ∧ res.addr.map Slice.toList = some a) ↔
        s.map Slice.toList = some a) ∧
      ∀ a : Addr, (res.err = none ∧ res.addr = some a) ∨ s = some a →
        r.left = a.toList ++ res.r.left ∧
        ∃ text, a.string = some text ∧
          ∀ behind', Addr.string (Slice.ofList a.toList behind') = some text := by
  have hb : maxAddrLen ≤ (Slice.ofList (List.replicate maxAddrLen (0 : UInt8)) []).len := by simp
  rcases addr_or_not r.left with ⟨a, t, ha, hr⟩ | hno
  · obtain ⟨x, buf, r', hread, hx, hleft⟩ := readAddr_append ha hr hb
    obtain ⟨y, hsplit, hy⟩ := splitAddr_append ha t behind
    rw [← hr] at hsplit
    refine ⟨_, _, hread, hsplit, fun c => ?_, ?_⟩
    · simp only [true_and, Option.map_some, hx, hy]
    · rintro z (⟨-, hz⟩ | hz)
      · cases hz
        exact ⟨by rw [hr, hx, hleft], string_slice (hx.symm ▸ ha)⟩
      · cases hz
        exact ⟨by rw [hr, hy, hleft], string_slice (hy.symm ▸ ha)⟩
  · obtain ⟨res, hread, herr⟩ := readAddr_noAddr hno hb
    refine ⟨res, none, hread, splitAddr_noAddr hno behind, fun c => ?_, ?_⟩
    · exact ⟨fun h => absurd h.1 herr, fun h => by cases h⟩
    · rintro z (⟨hz, -⟩ | hz)
      · exact absurd hz herr
      · cases hz

end Socks
