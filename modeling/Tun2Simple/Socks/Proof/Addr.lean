import Tun2Simple.Socks.Addr
import Tun2Simple.Stack.Proof.Target

/-!
# The round trip of SOCKS addresses

The bytes of an address say how long it is (`IsAddr`), so both decoders stop at its end, whatever
comes after it (`splitAddr_append`, `readAddr_append`). `parseAddr_round_trip` adds that its text is
read back: `String` prints the host as `JoinHostPort` does, and `ParseAddr` finds in that text a
host of the same kind.
-/

namespace Socks

open Net Go Stack

/-- The bytes of an address. -/
inductive IsAddr : Bytes → Prop
  | v4 {x : Bytes} (h : x.length = ipv4len + 2) : IsAddr (atypIPv4 :: x)
  | v6 {x : Bytes} (h : x.length = ipv6len + 2) : IsAddr (atypIPv6 :: x)
  | domain {n : UInt8} {x : Bytes} (h : x.length = n.toNat + 2) : IsAddr (atypDomainName :: n :: x)

/-! ## `SplitAddr` -/

theorem splitAt_append (a t behind : Bytes) :
    ∃ a', splitAt (Slice.ofList (a ++ t) behind) a.length = some (some a') ∧ a'.toList = a := by
  obtain ⟨a', ha, hl⟩ := Slice.ofList_slice (a ++ t) behind (Nat.zero_le a.length) (by simp)
  refine ⟨a', ?_, ?_⟩
  · rw [splitAt, if_neg (by simp), ha]
    rfl
  · rw [hl, List.drop_zero, Nat.sub_zero, List.take_left]

theorem splitAddr_append {a : Bytes} (h : IsAddr a) (t behind : Bytes) :
    ∃ a', splitAddr (Slice.ofList (a ++ t) behind) = some (some a') ∧ a'.toList = a := by
  obtain ⟨a', hs, hl⟩ := splitAt_append a t behind
  refine ⟨a', ?_, hl⟩
  rw [splitAddr]
  cases h with
  | v4 hx =>
    rw [List.length_cons, hx, Nat.add_comm] at hs
    rw [if_neg (by simp), Slice.ofList_get]
    exact hs
  | v6 hx =>
    rw [List.length_cons, hx, Nat.add_comm] at hs
    rw [if_neg (by simp), Slice.ofList_get]
    exact hs
  | @domain n x hx =>
    have hn : (atypDomainName :: n :: x).length = 1 + 1 + n.toNat + 2 := by
      simp only [List.length_cons, hx]
      omega
    have h2 : ¬ (Slice.ofList (atypDomainName :: n :: x ++ t) behind).len < 2 := by simp
    rw [hn] at hs
    rw [if_neg (by simp), Slice.ofList_get, Slice.ofList_get]
    simp only [List.cons_append, List.getElem?_cons_zero, List.getElem?_cons_succ, Option.bind_eq_bind,
      Option.bind_some, if_true] at h2 ⊢
    rw [if_neg h2]
    exact hs

/-! ## `ReadAddr` -/

/-- The last read, of an address's bytes behind those that the buffer holds. -/
theorem readTail_full {r : Reader} {b : Slice UInt8} {p x t : Bytes} (hp : p <+: b.mem)
    (hr : r.left = x ++ t) (hc : p.length + x.length ≤ b.cap) :
    ∃ a' b' r', readTail r b p.length (p.length + x.length) = some ⟨some a', none, b', r'⟩ ∧
      a'.toList = p ++ x ∧ r'.left = t := by
  obtain ⟨b', r', hread, hpx, -, -, hleft⟩ := readInto_full hp hr hc
  obtain ⟨a', ha, hl⟩ := Slice.slice_of_prefix hpx
  rw [List.length_append] at ha
  refine ⟨a', b', r', ?_, hl, hleft⟩
  rw [readTail, hread]
  simp only [Option.bind_eq_bind, Option.bind_some, ha]
  rfl

/-- The first read of `readAddr`, of the type of the address. -/
theorem readInto_type {r : Reader} {b : Slice UInt8} {c : UInt8} {t : Bytes}
    (hb : maxAddrLen ≤ b.len) (hr : r.left = c :: t) :
    ∃ b' r', readInto r b 0 1 = some (none, b', r') ∧ [c] <+: b'.mem ∧ b'.len = b.len ∧
      b'.cap = b.cap ∧ r'.left = t ∧ b'.get 0 = some c := by
  have hmax : maxAddrLen = 259 := rfl
  exact readInto_byte (p := []) List.nil_prefix hr (by simp only [List.length_nil]; omega)

theorem readAddr_append {a : Bytes} (h : IsAddr a) {t : Bytes} {r : Reader} (hr : r.left = a ++ t)
    {b : Slice UInt8} (hb : maxAddrLen ≤ b.len) :
    ∃ a' b' r', readAddr r b = some ⟨some a', none, b', r'⟩ ∧ a'.toList = a ∧ r'.left = t := by
  have hcap := b.len_le_cap
  have hmax : maxAddrLen = 259 := rfl
  have h4 : ipv4len = 4 := rfl
  have h6 : ipv6len = 16 := rfl
  rw [readAddr, if_neg (by omega)]
  cases h with
  | @v4 x hx =>
    obtain ⟨b1, r1, hread, hp, -, hcap1, hleft, hget⟩ := readInto_type hb hr
    have hlast := readTail_full hp hleft (by simp only [List.length_singleton]; omega)
    rw [List.length_singleton, hx] at hlast
    simp only [hread, hget, Option.bind_eq_bind, Option.bind_some]
    exact hlast
  | @v6 x hx =>
    obtain ⟨b1, r1, hread, hp, -, hcap1, hleft, hget⟩ := readInto_type hb hr
    have hlast := readTail_full hp hleft (by simp only [List.length_singleton]; omega)
    rw [List.length_singleton, hx] at hlast
    simp only [hread, hget, Option.bind_eq_bind, Option.bind_some]
    exact hlast
  | @domain n x hx =>
    obtain ⟨b1, r1, hread, hp, hlen1, hcap1, hleft, hget⟩ := readInto_type hb hr
    have hn := n.toNat_lt
    obtain ⟨b2, r2, hread2, hp2, hlen2, hcap2, hleft2, hget2⟩ :=
      readInto_byte hp hleft (by simp only [List.length_singleton]; omega)
    have hlast := readTail_full hp2 hleft2
      (by simp only [List.length_append, List.length_singleton]; omega)
    rw [List.length_append, List.length_singleton, List.length_singleton, hx, ← Nat.add_assoc] at hlast
    rw [List.length_singleton] at hread2 hget2
    simp only [hread, hget, hread2, hget2, Option.bind_eq_bind, Option.bind_some, if_true]
    exact hlast

/-! ## Ports -/

theorem itoa_nat (n : Nat) : itoa n = (Nat.toDigits 10 n).map fun c => UInt8.ofNat c.toNat := by
  show ascii n.repr = _
  rw [ascii, Nat.toList_repr]

theorem undigit_ofNat {c : Char} (h : c.isDigit = true) : undigit (UInt8.ofNat c.toNat) = c.toNat - 48 := by
  rw [Char.isDigit_iff_toNat] at h
  have h2 : c.toNat ≤ 57 := h.2
  rw [undigit, UInt8.toNat_ofNat', Nat.mod_eq_of_lt (by omega)]

/-- The digits as bytes stand for the number that they stand for as characters. -/
theorem number_digits {ds : List Char} (h : ∀ c ∈ ds, c.isDigit = true) (n : Nat) :
    number 10 undigit n (ds.map fun c => UInt8.ofNat c.toNat) = Nat.ofDigitChars 10 ds n := by
  induction ds generalizing n with
  | nil => rfl
  | cons c ds ih =>
    have ih := ih (fun c hc => h c (List.mem_cons_of_mem _ hc)) (n * 10 + (c.toNat - 48))
    rw [Nat.ofDigitChars_cons, Nat.mul_comm]
    simp only [number, List.map_cons, List.foldl_cons,
      undigit_ofNat (h c (List.mem_cons_self ..))] at ih ⊢
    exact ih

theorem parseUint_itoa {n : Nat} (h : n < 65536) : parseUint (itoa n) 16 = some n := by
  have hdig : ∀ c ∈ Nat.toDigits 10 n, c.isDigit = true := fun c hc =>
    Nat.isDigit_of_mem_toDigits (by decide) (by decide) hc
  have hnum := number_digits hdig 0
  rw [Nat.ofDigitChars_ten_toDigits, ← itoa_nat] at hnum
  have hne : itoa n ≠ [] := by
    rw [itoa_nat]
    simp
  have hbytes : ∀ c ∈ itoa n, digit c = some (undigit c) := by
    intro c hc
    rw [itoa_nat, List.mem_map] at hc
    obtain ⟨d, hd, rfl⟩ := hc
    exact digit_of_le (digit_byte (hdig d hd))
  rw [parseUint, if_neg hne, parseUintLoop_eq hbytes (by rw [hnum]; omega), hnum]

theorem portText_eq {n : Nat} (h : n < 65536) :
    portText (UInt8.ofNat (n >>> 8)) (UInt8.ofNat n) = itoa n := by
  have hn : n >>> 8 <<< 8 ||| n % 256 = n := by
    rw [Nat.shiftRight_eq_div_pow, ← Nat.shiftLeft_add_eq_or_of_lt (Nat.mod_lt _ (by decide)),
      Nat.shiftLeft_eq]
    omega
  have hhi : (UInt8.ofNat (n >>> 8)).toNat = n >>> 8 := by
    rw [UInt8.toNat_ofNat', Nat.mod_eq_of_lt]
    rw [Nat.shiftRight_eq_div_pow]
    omega
  rw [portText, hhi, UInt8.toNat_ofNat', hn]

/-! ## Hosts -/

theorem split_joinHostPort {host port : Bytes} (h91 : 91 ∉ host) (h93 : 93 ∉ host) (hp : Plain port) :
    splitHostPort (joinHostPort host port) = .ok (host, port) := by
  unfold joinHostPort
  split
  · have := splitHostPort_brackets h91 h93 hp
    simpa using this
  · rename_i h58
    have := splitHostPort_plain ⟨h58, h91, h93⟩ hp
    simpa using this

theorem brackets_not_mem_dotted (a : IP) : 91 ∉ dotted a ∧ 93 ∉ dotted a := by
  have : ∀ c : UInt8, digit c = none → c ≠ 46 → c ∉ dotted a := by
    intro c hc hne
    refine not_mem_intercalate hne fun p hp hmem => ?_
    obtain ⟨v, -, rfl⟩ := List.mem_map.1 hp
    have := (ubtoa_spec v).1 c hmem
    rw [hc] at this
    cases this
  exact ⟨this 91 rfl (by decide), this 93 rfl (by decide)⟩

theorem brackets_not_mem_string6 (fs : List Nat) : 91 ∉ string6 fs ∧ 93 ∉ string6 fs := by
  have : ∀ c : UInt8, xdigit c = none → c ≠ 58 → c ∉ string6 fs := by
    intro c hc hne
    rw [string6_eq]
    refine not_mem_intercalate hne (forall_parts (by simp) (fun f hmem => ?_) fs)
    have := xdigit_appendHex f c hmem
    rw [hc] at this
    cases this
  exact ⟨this 91 rfl (by decide), this 93 rfl (by decide)⟩

/-! ## Texts of addresses -/

/-- The host and the port behind the bytes `p`. -/
theorem ofList_fields (p host : Bytes) (hi lo : UInt8) (behind : Bytes) :
    ∃ t, (Slice.ofList (p ++ (host ++ [hi, lo])) behind).slice p.length (p.length + host.length) =
        some t ∧ t.toList = host ∧
      (Slice.ofList (p ++ (host ++ [hi, lo])) behind).get (p.length + host.length) = some hi ∧
      (Slice.ofList (p ++ (host ++ [hi, lo])) behind).get (p.length + host.length + 1) = some lo := by
  obtain ⟨t, ht, htl⟩ := Slice.ofList_slice (p ++ (host ++ [hi, lo])) behind
    (Nat.le_add_right p.length host.length) (by simp)
  refine ⟨t, ht, ?_, ?_, ?_⟩
  · rw [htl, List.drop_left, Nat.add_sub_cancel_left, List.take_left]
  · rw [Slice.ofList_get, ← List.append_assoc, List.getElem?_append_right (by simp), List.length_append,
      Nat.sub_self]
    rfl
  · rw [Slice.ofList_get, ← List.append_assoc, List.getElem?_append_right (by simp),
      List.length_append, Nat.add_sub_cancel_left]
    rfl

theorem string_ipv4 {ip : IP} (h : ip.length = ipv4len) (hi lo : UInt8) (behind : Bytes) :
    Addr.string (Slice.ofList (atypIPv4 :: (ip ++ [hi, lo])) behind) =
      some (joinHostPort (Net.string ip) (portText hi lo)) := by
  obtain ⟨t, ht, htl, hhi, hlo⟩ := ofList_fields [atypIPv4] ip hi lo behind
  rw [h] at ht hhi hlo
  have h0 : (Slice.ofList (atypIPv4 :: (ip ++ [hi, lo])) behind).get 0 = some atypIPv4 :=
    Slice.ofList_get ..
  simp only [List.singleton_append, List.length_singleton] at ht hhi hlo
  rw [Addr.string, h0]
  simp only [Option.bind_eq_bind, Option.bind_some, ht, htl, hhi, hlo]
  rfl

theorem string_ipv6 {ip : IP} (h : ip.length = ipv6len) (hi lo : UInt8) (behind : Bytes) :
    Addr.string (Slice.ofList (atypIPv6 :: (ip ++ [hi, lo])) behind) =
      some (joinHostPort (Net.string ip) (portText hi lo)) := by
  obtain ⟨t, ht, htl, hhi, hlo⟩ := ofList_fields [atypIPv6] ip hi lo behind
  rw [h] at ht hhi hlo
  have h0 : (Slice.ofList (atypIPv6 :: (ip ++ [hi, lo])) behind).get 0 = some atypIPv6 :=
    Slice.ofList_get ..
  simp only [List.singleton_append, List.length_singleton] at ht hhi hlo
  rw [Addr.string, h0]
  simp only [Option.bind_eq_bind, Option.bind_some, ht, htl, hhi, hlo]
  rfl

theorem string_domain {host : Bytes} {n : UInt8} (h : host.length = n.toNat) (hi lo : UInt8)
    (behind : Bytes) :
    Addr.string (Slice.ofList (atypDomainName :: n :: (host ++ [hi, lo])) behind) =
      some (joinHostPort host (portText hi lo)) := by
  obtain ⟨t, ht, htl, hhi, hlo⟩ := ofList_fields [atypDomainName, n] host hi lo behind
  rw [h] at ht hhi hlo
  have h0 : (Slice.ofList (atypDomainName :: n :: (host ++ [hi, lo])) behind).get 0 =
      some atypDomainName := Slice.ofList_get ..
  have h1 : (Slice.ofList (atypDomainName :: n :: (host ++ [hi, lo])) behind).get 1 = some n :=
    Slice.ofList_get ..
  simp only [List.cons_append, List.nil_append, List.length_cons, List.length_nil, Nat.zero_add]
    at ht hhi hlo
  rw [Addr.string, h0]
  simp only [Option.bind_eq_bind, Option.bind_some, if_true, h1, ht, htl, hhi, hlo]
  rfl

/-! ## The round trip -/

/-- The host that `String` prints for an address that `ParseAddr` made: it is parsed to the same
bytes. -/
theorem parseHead_printed {host head : Bytes} (h : parseHead host = some head) (h91 : 91 ∉ host)
    (h93 : 93 ∉ host) :
    ∃ printed, 91 ∉ printed ∧ 93 ∉ printed ∧ parseHead printed = some head ∧
      ∀ hi lo : UInt8, IsAddr (head ++ [hi, lo]) ∧
        Addr.string (Slice.ofList (head ++ [hi, lo]) []) =
          some (joinHostPort printed (portText hi lo)) := by
  have h' := h
  unfold parseHead at h
  split at h
  · rename_i ip hip
    have h16 := parseIP_length hip
    split at h
    · rename_i ip4 h4
      cases h
      have hl := (to4_eq_some h4).1
      have hs : Net.string ip4 = dotted ip4 := by
        rw [Net.string, if_neg (by omega), to4_of_length hl]
      obtain ⟨d91, d93⟩ := brackets_not_mem_dotted ip4
      refine ⟨dotted ip4, d91, d93, ?_, fun hi lo => ⟨.v4 (by simp [hl]), ?_⟩⟩
      · rw [parseHead, parseIP_dotted hl]
        simp only [to4_mapped hl]
      · rw [← hs]
        exact string_ipv4 hl hi lo []
    · rename_i h4
      cases h
      have hs : Net.string ip = string6 (fields ip) := by
        rw [Net.string, if_neg (by omega), h4]
        simp only [h16, ne_eq, not_true_eq_false, if_false]
      obtain ⟨s91, s93⟩ := brackets_not_mem_string6 (fields ip)
      refine ⟨Net.string ip, hs ▸ s91, hs ▸ s93, ?_, fun hi lo => ⟨.v6 (by simp [h16]), ?_⟩⟩
      · rw [parseHead, parseIP_string h16]
        simp only [h4]
      · exact string_ipv6 h16 hi lo []
  · -- a domain is printed as it is
    split at h
    · cases h
    · rename_i hle
      cases h
      have hn : host.length = (UInt8.ofNat host.length).toNat := by
        rw [UInt8.toNat_ofNat', Nat.mod_eq_of_lt (by omega)]
      refine ⟨host, h91, h93, h', fun hi lo => ⟨.domain (by simp [← hn]), ?_⟩⟩
      exact string_domain hn hi lo []

theorem parseAddr_eq_some {s : Bytes} {a : Addr} (h : parseAddr s = some a) :
    ∃ host head n, 91 ∉ host ∧ 93 ∉ host ∧ parseHead host = some head ∧ n < 65536 ∧
      a = Slice.ofList (head ++ [UInt8.ofNat (n >>> 8), UInt8.ofNat n]) [] := by
  unfold parseAddr at h
  split at h
  · cases h
  · rename_i host port hsplit
    obtain ⟨h91, h93, -⟩ := splitHostPort_spec hsplit
    obtain ⟨head, hhead, h⟩ := Option.bind_eq_some_iff.1 h
    obtain ⟨n, hn, h⟩ := Option.bind_eq_some_iff.1 h
    have hle := parseUint_le hn
    exact ⟨host, head, n, h91, h93, hhead, by omega, (Option.some.inj h).symm⟩

/-- **The round trip of an address.** An address that `ParseAddr` makes is printed to a text that
`ParseAddr` reads as the same address; `SplitAddr` finds it at the head of every slice that starts
with it, and `ReadAddr` at the head of every stream, of which it takes nothing more. -/
theorem parseAddr_round_trip {s : Bytes} {a : Addr} (h : parseAddr s = some a) :
    (∃ text, a.string = some text ∧ parseAddr text = some a) ∧
      ∀ t : Bytes,
        (∀ behind, ∃ a', splitAddr (Slice.ofList (a.toList ++ t) behind) = some (some a') ∧
          a'.toList = a.toList) ∧
        ∀ r : Reader, r.left = a.toList ++ t →
          ∃ a' buf r', readAddrNew r = some ⟨some a', none, buf, r'⟩ ∧ a'.toList = a.toList ∧
            r.left = a.toList ++ r'.left := by
  obtain ⟨host, head, n, h91, h93, hhead, hn, rfl⟩ := parseAddr_eq_some h
  obtain ⟨printed, p91, p93, hparse, hform⟩ := parseHead_printed hhead h91 h93
  obtain ⟨haddr, hstring⟩ := hform (UInt8.ofNat (n >>> 8)) (UInt8.ofNat n)
  have hlist : (Slice.ofList (head ++ [UInt8.ofNat (n >>> 8), UInt8.ofNat n]) []).toList =
      head ++ [UInt8.ofNat (n >>> 8), UInt8.ofNat n] := List.take_left
  rw [hlist]
  refine ⟨⟨_, hstring, ?_⟩, fun t => ⟨fun behind => splitAddr_append haddr t behind, fun r hr => ?_⟩⟩
  · rw [portText_eq hn, parseAddr, split_joinHostPort p91 p93 (plain_itoa n)]
    simp only [hparse, parseUint_itoa hn, Option.bind_eq_bind, Option.bind_some]
    rfl
  · obtain ⟨a', buf, r', hread, hl, hleft⟩ :=
      readAddr_append haddr hr (b := Slice.ofList (List.replicate maxAddrLen 0) [])
        (by simp)
    exact ⟨a', buf, r', hread, hl, by rw [hr, hleft]⟩

/-- Port 80 of the IPv6 loopback address. -/
def loopback : Addr := Slice.ofList (atypIPv6 :: (List.replicate 15 0 ++ [1, 0, 80])) []

/-- A text of it that `String` does not print. -/
theorem parseAddr_round_trip_loopback :
    parseAddr (ascii "[0::0:1]:0080") = some loopback ∧
      (∃ text, loopback.string = some text ∧ parseAddr text = some loopback) ∧
      ∃ a', splitAddr (Slice.ofList (loopback.toList ++ ascii "GET") []) = some (some a') ∧
        a'.toList = loopback.toList := by
  have h : parseAddr (ascii "[0::0:1]:0080") = some loopback := by decide +kernel
  obtain ⟨htext, hrest⟩ := parseAddr_round_trip h
  exact ⟨h, htext, (hrest (ascii "GET")).1 []⟩

end Socks
