import Tun2Simple.Utils.HostNames
import Tun2Simple.Utils.Proof.Sni

/-!
# The server name is one of the hello

What `getSNI` reports it takes from where its walk by the low bytes of the lengths comes to a
host_name (`Stops`, `finds_iff`). That place is one of the hello's host names (`hostNames`) exactly
if an entry of a server name list starts there, its length is below 256 and the name ends inside the
list and the data (`HasEntry`, `getSNI_sound_iff`). That is so if the walk keeps in step: the
lengths on the way are below 256 and the host_name is the first entry of a list that lies where it
should (`InOrder`).
-/

namespace Utils

open Net Go

section
variable {d : Slice UInt8}

/-! ## Where the name is taken from -/

/-- The walk over the entries of the block that starts at `b`: it finds the one host_name that it
comes to, or returns no name. -/
theorem getSNIBlockLoop_cases {t : Slice UInt8} {b : Nat} (hm : t.mem = d.mem.drop b) (i : Nat) :
    (∃ k, NameWalk d (b + t.len) (b + i) (b + k) ∧ k + 4 < t.len ∧ byte d (b + k + 2) = 0 ∧
        getSNIBlockLoop t i = (t.slice (k + 5) (k + 5 + byte d (b + k + 4))).map .ok ∧
        ∀ j, NameWalk d (b + t.len) (b + i) j → j + 4 < b + t.len → byte d (j + 2) = 0 → j = b + k) ∨
      ((∀ sni, getSNIBlockLoop t i ≠ some (.ok sni)) ∧
        ∀ j, NameWalk d (b + t.len) (b + i) j → j + 4 < b + t.len → byte d (j + 2) ≠ 0) := by
  induction hn : t.len - i using Nat.strongRecOn generalizing i with
  | ind n ih =>
  by_cases hi : i < t.len
  case neg =>
    refine .inr ⟨fun sni h => ?_, fun j hw hj => ?_⟩
    · rw [getSNIBlockLoop_end (by omega)] at h
      cases h
    · have := hw.le
      omega
  rw [getSNIBlockLoop_step hi, byte_drop hm, byte_drop hm, byte_drop hm]
  by_cases h2 : i + 2 < t.len
  case neg =>
    rw [if_neg h2]
    refine .inr ⟨fun sni h => (by cases h), fun j hw hj => ?_⟩
    have := hw.le
    omega
  rw [if_pos h2]
  by_cases h0 : byte d (b + (i + 2)) = 0
  · rw [if_pos h0]
    have only : ∀ j, NameWalk d (b + t.len) (b + i) j → j = b + i := by
      intro j hw
      cases hw with
      | refl => rfl
      | next _ hne => exact absurd h0 hne
    by_cases h4 : i + 4 < t.len
    · rw [if_pos h4]
      exact .inl ⟨i, .refl _, h4, h0, rfl, fun j hw _ _ => only j hw⟩
    · rw [if_neg h4]
      refine .inr ⟨fun sni h => (by cases h), fun j hw hj => ?_⟩
      have := only j hw
      omega
  · rw [if_neg h0]
    have e : b + (i + 2 + byte d (b + (i + 1))) = b + i + 2 + byte d (b + i + 1) := by
      rw [show b + (i + 1) = b + i + 1 by omega]
      omega
    have later : ∀ j, NameWalk d (b + t.len) (b + i) j → byte d (j + 2) = 0 →
        NameWalk d (b + t.len) (b + (i + 2 + byte d (b + (i + 1)))) j := by
      intro j hw hj
      cases hw with
      | refl => exact absurd hj h0
      | next _ _ hw =>
        rw [e]
        exact hw
    rcases ih (t.len - (i + 2 + byte d (b + (i + 1)))) (by omega) _ rfl with
      ⟨k, hw, hk, hz, heq, hu⟩ | ⟨hno, hnone⟩
    · refine .inl ⟨k, .next (by omega) h0 (e ▸ hw), hk, hz, heq, fun j hw hj hjz => ?_⟩
      exact hu j (later j hw hjz) hj hjz
    · exact .inr ⟨hno, fun j hw hj hjz => hnone j (later j hw hjz) hj hjz⟩

/-- The walk by low bytes comes to a host_name: in the server_name extension at `i`, with its type
at `j + 2`, its length before `j + 5` and its bytes from there on. -/
structure Stops (d : Slice UInt8) (i j : Nat) : Prop where
  handshake : byte d 0 = 0x16
  hello : HasExtensions d
  block : extensionsEnd d ≤ d.len
  walk : ExtWalk d (extensionsEnd d) (extensionsAt d + 2) i
  header : i + 3 < extensionsEnd d
  serverName : IsServerName d i
  ext : i + 4 + byte d (i + 3) ≤ d.cap
  names : NameWalk d (i + 4 + byte d (i + 3)) (i + 4) j
  entry : j + 4 < i + 4 + byte d (i + 3)
  host : byte d (j + 2) = 0
  name : j + 5 + byte d (j + 4) ≤ d.cap

/-- `getSNI` returns the bytes of `sni`. -/
structure Finds (d sni : Slice UInt8) : Prop where
  handshake : byte d 0 = 0x16
  blocks : ∃ extensions sn, getExtensionBlock d = some (.ok extensions) ∧
    getSNBlock extensions = some (.ok sn) ∧ getSNIBlock sn = some (.ok sni)

/-- A slice in range is the one that starts there and has that length. -/
theorem slice_eq_iff {s t : Slice UInt8} {lo n : Nat} :
    s.slice lo (lo + n) = some t ↔ lo + n ≤ s.cap ∧ t.mem = s.mem.drop lo ∧ t.len = n := by
  constructor
  · intro h
    obtain ⟨-, hc, hm, hl, -⟩ := Slice.slice_spec h
    exact ⟨hc, hm, by omega⟩
  · rintro ⟨hc, hm, hl⟩
    obtain ⟨t', ht, hm', hl'⟩ := s.slice_eq_some (Nat.le_add_right lo n) hc
    have : t = t' := Slice.ext (hm.trans hm'.symm) (by omega)
    rw [this]
    exact ht

theorem getSNBlock_ok {t sn : Slice UInt8} (ht : d.slice (extensionsAt d) d.len = some t) :
    getSNBlock t = some (.ok sn) ↔ extensionsEnd d ≤ d.len ∧
      ∃ i, ExtWalk d (extensionsEnd d) (extensionsAt d + 2) i ∧ i + 3 < extensionsEnd d ∧
        IsServerName d i ∧ i + 4 + byte d (i + 3) ≤ d.cap ∧ sn.mem = d.mem.drop (i + 4) ∧
        sn.len = byte d (i + 3) := by
  rcases getSNBlock_eq ht with ⟨hlt, e, he⟩ | ⟨hle, u, hm, hcap, hlen, heq⟩
  · rw [he]
    exact ⟨fun h => (by cases h), fun h => absurd h.1 (by omega)⟩
  rw [heq]
  have hcases := getSNBlockLoop_cases hm 0
  rw [hlen, Nat.add_zero] at hcases
  rcases hcases with ⟨k, hw, hk, hs, hloop, hu⟩ | ⟨hloop, hnone⟩
  · rw [hloop, Option.map_eq_some_iff]
    have hdrop : u.mem.drop (k + 4) = d.mem.drop (extensionsAt d + 2 + k + 4) := by
      rw [hm, List.drop_drop, ← Nat.add_assoc]
    constructor
    · rintro ⟨t', ht', h⟩
      cases h
      obtain ⟨hc, hm', hl'⟩ := slice_eq_iff.1 ht'
      exact ⟨hle, _, hw, by omega, hs, by omega, hm'.trans hdrop, hl'⟩
    · rintro ⟨-, i, hwi, hi, hsi, hc, hm', hl'⟩
      obtain rfl := hu i hwi (by omega) hsi
      exact ⟨sn, slice_eq_iff.2 ⟨by omega, hm'.trans hdrop.symm, hl'⟩, rfl⟩
  · rw [hloop]
    refine ⟨fun h => (by cases h), ?_⟩
    rintro ⟨-, i, hwi, hi, hsi, -⟩
    exact absurd hsi (hnone i hwi (by omega))

theorem getSNIBlock_ok {sn sni : Slice UInt8} {b n : Nat} (hc : b + n ≤ d.cap)
    (hm : sn.mem = d.mem.drop b) (hl : sn.len = n) :
    getSNIBlock sn = some (.ok sni) ↔
      ∃ j, NameWalk d (b + n) b j ∧ j + 4 < b + n ∧ byte d (j + 2) = 0 ∧
        j + 5 + byte d (j + 4) ≤ d.cap ∧ sni.mem = d.mem.drop (j + 5) ∧ sni.len = byte d (j + 4) := by
  have hcap : sn.cap + b = d.cap := by
    unfold Slice.cap at hc ⊢
    rw [hm, List.length_drop]
    omega
  unfold getSNIBlock
  by_cases h4 : sn.len < 4
  · rw [if_pos h4]
    refine ⟨fun h => (by cases h), ?_⟩
    rintro ⟨j, hw, hj, -⟩
    have := hw.le
    omega
  rw [if_neg h4]
  have hcases := getSNIBlockLoop_cases hm 0
  rw [hl, Nat.add_zero] at hcases
  rcases hcases with ⟨k, hw, hk, hz, hloop, hu⟩ | ⟨hno, hnone⟩
  · rw [hloop, Option.map_eq_some_iff]
    have hdrop : sn.mem.drop (k + 5) = d.mem.drop (b + k + 5) := by
      rw [hm, List.drop_drop, ← Nat.add_assoc]
    constructor
    · rintro ⟨t', ht', h⟩
      cases h
      obtain ⟨hc', hm', hl'⟩ := slice_eq_iff.1 ht'
      exact ⟨_, hw, by omega, hz, by omega, hm'.trans hdrop, hl'⟩
    · rintro ⟨j, hwj, hj, hjz, hc', hm', hl'⟩
      obtain rfl := hu j hwj hj hjz
      exact ⟨sni, slice_eq_iff.2 ⟨by omega, hm'.trans hdrop.symm, hl'⟩, rfl⟩
  · refine ⟨fun h => absurd h (hno sni), ?_⟩
    rintro ⟨j, hwj, hj, hjz, -⟩
    exact absurd hjz (hnone j hwj hj)

theorem finds_iff {sni : Slice UInt8} :
    Finds d sni ↔ ∃ i j, Stops d i j ∧ sni.mem = d.mem.drop (j + 5) ∧ sni.len = byte d (j + 4) := by
  constructor
  · rintro ⟨h16, t, sn, ht, hsn, hsni⟩
    obtain ⟨hext, ht⟩ := getExtensionBlock_ok.1 ht
    obtain ⟨hend, i, hw, hi, hs, hc, hm, hl⟩ := (getSNBlock_ok ht).1 hsn
    obtain ⟨j, hwj, hj, hz, hcj, hmj, hlj⟩ := (getSNIBlock_ok hc hm hl).1 hsni
    exact ⟨i, j, ⟨h16, hext, hend, hw, hi, hs, hc, hwj, hj, hz, hcj⟩, hmj, hlj⟩
  · rintro ⟨i, j, h, hm, hl⟩
    obtain ⟨t, ht, -⟩ := d.slice_eq_some (Nat.le_of_lt h.hello.extensions) d.len_le_cap
    obtain ⟨sn, -, hsm, hsl⟩ := d.slice_eq_some (Nat.le_add_right (i + 4) (byte d (i + 3))) h.ext
    rw [Nat.add_sub_cancel_left] at hsl
    refine ⟨h.handshake, t, sn, getExtensionBlock_ok.2 ⟨h.hello, ht⟩, ?_, ?_⟩
    · exact (getSNBlock_ok ht).2 ⟨h.block, i, h.walk, h.header, h.serverName, h.ext, hsm, hsl⟩
    · exact (getSNIBlock_ok h.ext hsm hsl).2 ⟨j, h.names, h.entry, h.host, h.name, hm, hl⟩

theorem orEmpty_eq_some {r : Option Block} {f : Slice UInt8 → Option Bytes} {s : Bytes} (hs : s ≠ []) :
    orEmpty r f = some s ↔ ∃ t, r = some (.ok t) ∧ f t = some s := by
  cases r with
  | none => exact ⟨fun h => (by cases h), fun ⟨_, h, _⟩ => (by cases h)⟩
  | some b =>
    cases b with
    | error e => exact ⟨fun h => absurd (Option.some.inj h).symm hs, fun ⟨_, h, _⟩ => (by cases h)⟩
    | ok t =>
      refine ⟨fun h => ⟨t, rfl, h⟩, fun ⟨_, h, hf⟩ => ?_⟩
      cases h
      exact hf

/-- The text that `getSNI` returns is that of the slice that it finds. -/
theorem getSNI_eq_some {s : Bytes} (hs : s ≠ []) :
    getSNI d = some s ↔ ∃ sni, Finds d sni ∧ sni.toList = s := by
  by_cases h0 : 0 < d.len
  case neg =>
    constructor
    · intro h
      rw [getSNI, if_pos (by omega)] at h
      exact absurd (Option.some.inj h).symm hs
    · rintro ⟨sni, hf, -⟩
      obtain ⟨i, j, h, -⟩ := finds_iff.1 hf
      have := h.hello.hello
      omega
  rw [getSNI_eq h0]
  by_cases h16 : byte d 0 = 0x16
  case neg =>
    rw [if_neg h16]
    exact ⟨fun h => absurd (Option.some.inj h).symm hs, fun ⟨_, hf, _⟩ => absurd hf.handshake h16⟩
  rw [if_pos h16, orEmpty_eq_some hs]
  constructor
  · rintro ⟨t, ht, hsn⟩
    obtain ⟨sn, hsn, hsni⟩ := (orEmpty_eq_some hs).1 hsn
    obtain ⟨sni, hsni, hlist⟩ := (orEmpty_eq_some hs).1 hsni
    exact ⟨sni, ⟨h16, t, sn, ht, hsn, hsni⟩, Option.some.inj hlist⟩
  · rintro ⟨sni, ⟨-, t, sn, ht, hsn, hsni⟩, rfl⟩
    exact ⟨t, ht, (orEmpty_eq_some hs).2 ⟨sn, hsn, (orEmpty_eq_some hs).2 ⟨sni, hsni, rfl⟩⟩⟩

/-! ## Bytes of the data -/

theorem toList_byte {i : Nat} (h : i < d.len) : ∃ x, d.toList[i]? = some x ∧ x.toNat = byte d i := by
  obtain ⟨x, hx, hm⟩ := d.get_eq_some h
  refine ⟨x, ?_, by rw [byte, hm, Option.getD_some]⟩
  rw [Slice.toList, List.getElem?_take_of_lt h, hm]

theorem length_toList : d.toList.length = d.len := by
  rw [Slice.toList, List.length_take, Nat.min_eq_left d.le]

/-- A number of 16 bits of the data. -/
theorem read16_eq {i : Nat} (h : i + 1 < d.len) :
    read16 d.toList i = some (256 * byte d i + byte d (i + 1)) := by
  obtain ⟨x, hx, hxb⟩ := toList_byte (d := d) (i := i) (by omega)
  obtain ⟨y, hy, hyb⟩ := toList_byte h
  rw [read16, hx, hy, ← hxb, ← hyb]
  rfl

theorem read16_eq_some {i n : Nat} (h : read16 d.toList i = some n) :
    i + 1 < d.len ∧ n = 256 * byte d i + byte d (i + 1) := by
  have hlt : i + 1 < d.len := by
    rw [← length_toList]
    obtain ⟨x, hx, h⟩ := Option.bind_eq_some_iff.1 h
    obtain ⟨y, hy, -⟩ := Option.bind_eq_some_iff.1 h
    exact (List.getElem?_eq_some_iff.1 hy).1
  rw [read16_eq hlt] at h
  exact ⟨hlt, (Option.some.inj h).symm⟩

/-- The bytes of a name that ends inside the data. -/
theorem toList_drop_take {p n : Nat} (h : p + n ≤ d.len) :
    (d.toList.drop p).take n = (d.mem.drop p).take n := by
  rw [Slice.toList, List.drop_take, List.take_take, Nat.min_eq_left (by omega)]

/-- The place and the bytes of a host_name. -/
theorem hostAt_eq_some {q stop : Nat} {x : Nat × Bytes} :
    hostAt d.toList q stop = some x ↔ q + 2 < d.len ∧ byte d q = 0 ∧
      q + 3 + (256 * byte d (q + 1) + byte d (q + 2)) ≤ min stop d.len ∧
      x = (q + 3, (d.mem.drop (q + 3)).take (256 * byte d (q + 1) + byte d (q + 2))) := by
  have hlen := length_toList (d := d)
  by_cases h2 : q + 2 < d.len
  case neg =>
    refine ⟨fun h => ?_, fun h => absurd h.1 h2⟩
    obtain ⟨c, -, h⟩ := Option.bind_eq_some_iff.1 h
    obtain ⟨n, hn, -⟩ := Option.bind_eq_some_iff.1 h
    have := (read16_eq_some hn).1
    omega
  obtain ⟨c, hc, hcb⟩ := toList_byte (d := d) (i := q) (by omega)
  have h16 := read16_eq (d := d) (i := q + 1) (by omega)
  rw [hostAt, hc, h16, hlen]
  simp only [Option.bind_eq_bind, Option.bind_some, toNat_eq_zero, hcb]
  by_cases hz : byte d q = 0 ∧
      q + 3 + (256 * byte d (q + 1) + byte d (q + 2)) ≤ stop ∧
      q + 3 + (256 * byte d (q + 1) + byte d (q + 2)) ≤ d.len
  · rw [if_pos hz, toList_drop_take hz.2.2]
    refine ⟨fun h => ⟨h2, hz.1, by omega, (Option.some.inj h).symm⟩, fun h => ?_⟩
    rw [h.2.2.2]
    rfl
  · rw [if_neg hz]
    exact ⟨fun h => (by cases h), fun h => absurd ⟨h.2.1, by omega, by omega⟩ hz⟩

/-! ## Soundness -/

/-- `getSNI` takes its text `s` from the place `p` of the data's array. -/
def TakenFrom (d : Slice UInt8) (p : Nat) (s : Bytes) : Prop :=
  ∃ sni, Finds d sni ∧ sni.toList = s ∧ sni.mem = d.mem.drop p ∧ p ≤ d.cap

/-- What `getSNI` reports is a host_name of the hello, taken from its place. -/
def SniSound (d : Slice UInt8) : Prop :=
  ∀ s, getSNI d = some s → s ≠ [] → ∃ p, TakenFrom d p s ∧ (p, s) ∈ hostNames d.toList

theorem Finds.unique {sni sni' : Slice UInt8} (h : Finds d sni) (h' : Finds d sni') : sni = sni' := by
  obtain ⟨-, t, sn, ht, hsn, hsni⟩ := h
  obtain ⟨-, t', sn', ht', hsn', hsni'⟩ := h'
  cases ht.symm.trans ht'
  cases hsn.symm.trans hsn'
  cases hsni.symm.trans hsni'
  rfl

/-- What it takes its text from where the walk stops at `j`. -/
theorem Stops.takenFrom {i j : Nat} (h : Stops d i j) {p : Nat} {s : Bytes} :
    TakenFrom d p s ↔ p = j + 5 ∧ s = (d.mem.drop (j + 5)).take (byte d (j + 4)) := by
  obtain ⟨sni, hslice, hm, hl⟩ :=
    d.slice_eq_some (Nat.le_add_right (j + 5) (byte d (j + 4))) h.name
  rw [Nat.add_sub_cancel_left] at hl
  have hf : Finds d sni := finds_iff.2 ⟨i, j, h, hm, hl⟩
  have hcap := h.name
  constructor
  · rintro ⟨sni', hf', rfl, hm', hp⟩
    obtain rfl := hf.unique hf'
    refine ⟨?_, by rw [Slice.toList, hm, hl]⟩
    have := congrArg List.length (hm.symm.trans hm')
    simp only [List.length_drop] at this
    unfold Slice.cap at hp hcap
    omega
  · rintro ⟨rfl, rfl⟩
    exact ⟨sni, hf, by rw [Slice.toList, hm, hl], hm, by omega⟩

theorem Stops.length_name {i j : Nat} (h : Stops d i j) :
    ((d.mem.drop (j + 5)).take (byte d (j + 4))).length = byte d (j + 4) := by
  have := h.name
  unfold Slice.cap at this
  rw [List.length_take, List.length_drop]
  omega

/-- An entry of the hello starts where the walk stops at `j`, and its name has the length that the
walk reads and ends inside the list and the data. -/
def HasEntry (d : Slice UInt8) (j : Nat) : Prop :=
  ∃ stop, (j + 2, stop) ∈ entries d.toList ∧ byte d (j + 3) = 0 ∧
    j + 5 + byte d (j + 4) ≤ min stop d.len

/-- Where the walk stops, the hello has a name of this place and length. -/
theorem Stops.mem_hostNames {i j : Nat} (h : Stops d i j) :
    (j + 5, (d.mem.drop (j + 5)).take (byte d (j + 4))) ∈ hostNames d.toList ↔
      HasEntry d j := by
  have hname := h.length_name
  rw [hostNames, List.mem_filterMap]
  constructor
  · rintro ⟨⟨q, stop⟩, hmem, hhost⟩
    have hhost : hostAt d.toList q stop = some _ := hhost
    obtain ⟨-, -, hin, hx⟩ := hostAt_eq_some.1 hhost
    obtain ⟨hq, hs⟩ := Prod.mk.inj hx
    obtain rfl : q = j + 2 := by omega
    -- the two lengths agree, so the high byte is 0
    have hin : j + 5 + (256 * byte d (j + 3) + byte d (j + 4)) ≤ min stop d.len := hin
    have hs : _ = (d.mem.drop (j + 5)).take (256 * byte d (j + 3) + byte d (j + 4)) := hs
    have hn := congrArg List.length hs
    rw [hname, List.length_take, List.length_drop] at hn
    have hcap := d.le
    exact ⟨stop, hmem, by omega, by omega⟩
  · rintro ⟨stop, hmem, hhigh, hin⟩
    have hz : byte d (j + 2 + 1) = 0 := hhigh
    refine ⟨(j + 2, stop), hmem, hostAt_eq_some.2 ⟨by omega, h.host, ?_, ?_⟩⟩
    · rw [hz]
      show j + 5 + (256 * 0 + byte d (j + 4)) ≤ _
      omega
    · rw [hz]
      show _ = (j + 5, (d.mem.drop (j + 5)).take (256 * 0 + byte d (j + 4)))
      rw [Nat.mul_zero, Nat.zero_add]

theorem sound_of_hasEntry (h : ∀ i j, Stops d i j → 0 < byte d (j + 4) → HasEntry d j) :
    SniSound d := by
  intro s hs hne
  obtain ⟨sni, hf, hlist⟩ := (getSNI_eq_some hne).1 hs
  obtain ⟨i, j, hstop, hm, hl⟩ := finds_iff.1 hf
  have hs : s = (d.mem.drop (j + 5)).take (byte d (j + 4)) := by rw [← hlist, Slice.toList, hm, hl]
  have hpos : 0 < byte d (j + 4) := by
    rw [← hstop.length_name, ← hs]
    exact List.length_pos_iff.2 hne
  refine ⟨j + 5, hstop.takenFrom.2 ⟨rfl, hs⟩, ?_⟩
  rw [hs]
  exact hstop.mem_hostNames.2 (h i j hstop hpos)

theorem SniSound.hasEntry (h : SniSound d) {i j : Nat} (hstop : Stops d i j)
    (hpos : 0 < byte d (j + 4)) : HasEntry d j := by
  have hne : (d.mem.drop (j + 5)).take (byte d (j + 4)) ≠ [] := by
    intro h0
    have := hstop.length_name
    rw [h0, List.length_nil] at this
    omega
  obtain ⟨sni, hf, hs, -⟩ := hstop.takenFrom.2 ⟨rfl, rfl⟩
  obtain ⟨p, hp, hmem⟩ := h _ ((getSNI_eq_some hne).2 ⟨sni, hf, hs⟩) hne
  obtain ⟨rfl, -⟩ := hstop.takenFrom.1 hp
  exact hstop.mem_hostNames.1 hmem

/-! ## Keeping in step -/

/-- The number of 16 bits at a place. -/
def word (d : Slice UInt8) (i : Nat) : Nat := 256 * byte d i + byte d (i + 1)

/-- On its way to the host_name at `j`, in the extension at `i`, the walk by low bytes goes by
lengths below 256, and to the first entry of a list; the name has such a length too, and name, list
and extension lie in what holds them. -/
structure InOrder (d : Slice UInt8) (i j : Nat) : Prop where
  cipher : byte d (cipherAt d) = 0
  passed : ∀ k, ExtWalk d (extensionsEnd d) (extensionsAt d + 2) k → k < i → byte d (k + 2) = 0
  first : j = i + 4
  list : i + 6 + word d (i + 4) ≤ i + 4 + word d (i + 2)
  ext : i + 4 + word d (i + 2) ≤ extensionsAt d + 2 + word d (extensionsAt d)
  short : byte d (j + 3) = 0
  name : j + 5 + byte d (j + 4) ≤ min (i + 6 + word d (i + 4)) d.len

theorem extensionsOf_eq (h : HasExtensions d) (hc : byte d (cipherAt d) = 0)
    (he : extensionsAt d + 1 < d.len) :
    extensionsOf d.toList =
      some (extensionsAt d + 2, extensionsAt d + 2 + word d (extensionsAt d)) := by
  have hlen := h.hello
  have hcipher := h.cipher
  have hcomp := h.compression
  obtain ⟨x, hx, hxb⟩ := toList_byte (d := d) (i := 43) (by omega)
  have h1 := read16_eq (d := d) (i := cipherAt d) (by omega)
  rw [hc, Nat.mul_zero, Nat.zero_add] at h1
  obtain ⟨y, hy, hyb⟩ := toList_byte (d := d) (i := compressionAt d) (by omega)
  have h2 := read16_eq he
  unfold extensionsOf
  simp only [hx, Option.bind_eq_bind, Option.bind_some, hxb]
  rw [show 44 + byte d 43 = cipherAt d from rfl, h1]
  simp only [Option.bind_some]
  rw [show cipherAt d + 2 + byte d (cipherAt d + 1) = compressionAt d from rfl, hy]
  simp only [Option.bind_some, hyb]
  rw [show compressionAt d + 1 + byte d (compressionAt d) = extensionsAt d from rfl, h2]
  rfl

/-- One extension of the hello. -/
theorem extEntries_step {stop i : Nat} (hi : i + 3 < d.len) (hs : i + 4 + word d (i + 2) ≤ stop) :
    extEntries d.toList stop i =
      (if word d i = 0 then entriesOf d.toList (i + 4 + word d (i + 2)) (i + 4) else []) ++
        extEntries d.toList stop (i + 4 + word d (i + 2)) := by
  have h0 : read16 d.toList i = some (word d i) := read16_eq (by omega)
  have h2 : read16 d.toList (i + 2) = some (word d (i + 2)) := read16_eq hi
  rw [extEntries, h0, h2]
  simp only
  rw [if_pos hs]

/-- Past extensions with lengths below 256 both walks come to the same one. -/
theorem ExtWalk.extEntries {stop stop' k i : Nat} (hw : ExtWalk d stop k i)
    (hshort : ∀ m, ExtWalk d stop k m → m < i → byte d (m + 2) = 0) (hi : i + 3 < stop)
    (hle : stop ≤ d.len) (hle' : stop ≤ stop') {e : Nat × Nat}
    (he : e ∈ extEntries d.toList stop' i) : e ∈ extEntries d.toList stop' k := by
  induction hw with
  | refl => exact he
  | @next k i hk hn hw ih =>
    have hlt := hw.le
    have hz := hshort k (.refl k) (by omega)
    have hword : word d (k + 2) = byte d (k + 3) := by
      rw [word, hz, Nat.mul_zero, Nat.zero_add]
    rw [extEntries_step (by omega) (by omega), hword]
    exact List.mem_append_right _ (ih (fun m hm => hshort m (.next hk hn hm)) hi he)

/-- In step, the walk stops where an entry starts. -/
theorem Stops.hasEntry {i j : Nat} (h : Stops d i j) (ho : InOrder d i j) : HasEntry d j := by
  refine ⟨i + 6 + word d (i + 4), ?_, ho.short, ho.name⟩
  have hlen := ho.name
  obtain rfl := ho.first
  have hend := h.block
  have hi := h.header
  have hle := h.walk.le
  have hword := ho.ext
  have hlist := ho.list
  have hext := extensionsOf_eq h.hello ho.cipher (by omega)
  have hlow : extensionsEnd d ≤ extensionsAt d + 2 + word d (extensionsAt d) := by
    unfold extensionsEnd word
    omega
  rw [entries, hext]
  simp only
  refine h.walk.extEntries ho.passed hi hend hlow ?_
  have hname : word d i = 0 := by rw [word, h.serverName.1, h.serverName.2]
  have h4 : read16 d.toList (i + 4) = some (word d (i + 4)) := read16_eq (by omega)
  rw [extEntries_step (by omega) hword, if_pos hname, entriesOf, h4]
  simp only
  rw [if_pos (by omega), entriesFrom, if_pos (by omega)]
  have h7 : read16 d.toList (i + 4 + 2 + 1) = some (word d (i + 7)) := read16_eq (by omega)
  rw [h7]
  exact List.mem_append_left _ (List.mem_cons_self ..)

end

/-- **Soundness of the server name.** What `getSNI` reports is a host_name of the hello, taken from
its place, exactly if, where the walk by low bytes comes to a host_name with a length above 0, an
entry of the hello's server name lists starts, the high byte of the name's length is 0, and the name
ends inside its list and the data. It is if the walk keeps in step with the hello; else it may come
back to an entry by chance. -/
theorem getSNI_sound_iff (d : Slice UInt8) :
    (SniSound d ↔ ∀ i j, Stops d i j → 0 < byte d (j + 4) → HasEntry d j) ∧
      ((∀ i j, Stops d i j → 0 < byte d (j + 4) → InOrder d i j) → SniSound d) := by
  refine ⟨⟨fun h i j hstop hpos => h.hasEntry hstop hpos, sound_of_hasEntry⟩, fun h => ?_⟩
  exact sound_of_hasEntry fun i j hstop hpos => hstop.hasEntry (h i j hstop hpos)

/-- A session ticket of 256 bytes, which starts like a server_name extension. -/
def fakeTicket : Bytes :=
  (Extension.serverName [⟨0, ascii "www.attacker.com"⟩]).bytes ++ List.replicate 231 0

def ticketHello : ClientHello :=
  smallHello [.other 35 fakeTicket, .serverName [⟨0, ascii "www.example.com"⟩]]
    (by decide +kernel) (by decide) (by decide)

/-- The low byte of the ticket's length is 0, so the walk goes on at its first byte. -/
theorem ticket_taken_for_name :
    ticketHello.OneRecord ∧
      getSNI (Slice.ofList ticketHello.record []) = some (ascii "www.attacker.com") ∧
      ¬ SniSound (Slice.ofList ticketHello.record []) := by
  have hget : getSNI (Slice.ofList ticketHello.record []) = some (ascii "www.attacker.com") := by
    decide +kernel
  have hnames : hostNames ticketHello.record = [(321, ascii "www.example.com")] := by decide +kernel
  refine ⟨by decide +kernel, hget, fun h => ?_⟩
  obtain ⟨p, -, hmem⟩ := h _ hget (by decide)
  rw [show (Slice.ofList ticketHello.record []).toList = ticketHello.record from List.take_left,
    hnames, List.mem_singleton] at hmem
  exact absurd (Prod.mk.inj hmem).2 (by decide)

end Utils
