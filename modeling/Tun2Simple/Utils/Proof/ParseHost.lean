import Mathlib.Tactic.Common
import Tun2Simple.Utils.ParseHost

/-!
# When `ParseHost` panics

`getSNIBlockLoop_step` and `getSNBlockLoop_step` say what one round of the two loops does;
`getExtensionBlock_spec` says where the walk finds the extensions, or that it gives up: it never
panics. `parseHost_returns_iff` puts them together: on data of more than ten bytes `ParseHost`
returns exactly if the server_name extension that the walk finds, if it finds one, ends within the
capacity and the headers in it are complete (`SniSafe`).
-/

namespace Utils

open Net Go

/-- The byte at a place of a slice's array. -/
def byte (d : Slice UInt8) (i : Nat) : Nat := ((d.mem[i]?).getD 0).toNat

theorem length16_eq (hi lo : UInt8) : length16 hi lo = lo.toNat := by
  have h : shl hi 8 = 0 := by
    unfold shl
    apply UInt8.toNat_inj.1
    rw [UInt8.toNat_ofNat']
    exact Nat.mul_mod_left _ _
  rw [length16, h, UInt8.zero_add]

section
variable {d : Slice UInt8}

theorem get_eq {i : Nat} (h : i < d.len) : ∃ x, d.get i = some x ∧ x.toNat = byte d i := by
  obtain ⟨x, hx, hm⟩ := d.get_eq_some h
  exact ⟨x, hx, by rw [byte, hm, Option.getD_some]⟩

theorem toNat_eq_zero {x : UInt8} : x = 0 ↔ x.toNat = 0 := by
  rw [← UInt8.toNat_inj]
  rfl

/-- The bytes of a slice of a slice. -/
theorem byte_drop {t : Slice UInt8} {b : Nat} (h : t.mem = d.mem.drop b) (i : Nat) :
    byte t i = byte d (b + i) := by
  rw [byte, byte, h, List.getElem?_drop]

/-! ## The two loops -/

/-- One round of `GetSNIBlock`'s loop. -/
theorem getSNIBlockLoop_step {i : Nat} (h : i < d.len) :
    getSNIBlockLoop d i =
      if i + 2 < d.len then
        if byte d (i + 2) = 0 then
          if i + 4 < d.len then (d.slice (i + 5) (i + 5 + byte d (i + 4))).map .ok else none
        else getSNIBlockLoop d (i + 2 + byte d (i + 1))
      else none := by
  rw [getSNIBlockLoop, if_neg (Nat.not_le.2 h)]
  obtain ⟨x, hx, -⟩ := get_eq h
  by_cases h1 : i + 1 < d.len
  case neg =>
    have hn := d.get_of_le (i := i + 1) (by omega)
    simp [hx, hn, if_neg (show ¬ i + 2 < d.len by omega)]
  obtain ⟨y, hy, hyb⟩ := get_eq h1
  by_cases h2 : i + 2 < d.len
  case neg =>
    have hn := d.get_of_le (i := i + 2) (by omega)
    simp [hx, hy, hn, if_neg h2]
  obtain ⟨z, hz, hzb⟩ := get_eq h2
  simp only [hx, hy, hz, Option.bind_eq_bind, Option.bind_some, toNat_eq_zero, hzb, if_pos h2,
    length16_eq, hyb]
  by_cases h0 : byte d (i + 2) = 0
  case neg => simp only [if_neg h0]
  simp only [if_pos h0]
  -- the host name: its length is read through the slice that starts after the type
  obtain ⟨sni, hs, hm, hl⟩ := d.slice_eq_some (i := i + 3) (j := d.len) (by omega) d.len_le_cap
  have hf : d.from_ (i + 3) = some sni := hs
  simp only [hf, Option.bind_some]
  by_cases h4 : i + 4 < d.len
  · obtain ⟨u, hu, -⟩ := get_eq (d := sni) (i := 0) (by omega)
    obtain ⟨v, hv, hvb⟩ := get_eq (d := sni) (i := 1) (by omega)
    have hvb' : v.toNat = byte d (i + 4) := by rw [hvb, byte_drop hm]
    simp only [hu, hv, Option.bind_some, hvb', if_pos h4]
    rw [Slice.slice_slice hs, show i + 3 + (byte d (i + 4) + 2) = i + 5 + byte d (i + 4) by omega]
    cases d.slice (i + 5) (i + 5 + byte d (i + 4)) <;> rfl
  · rw [if_neg h4]
    by_cases h3 : i + 3 < d.len
    · obtain ⟨u, hu, -⟩ := get_eq (d := sni) (i := 0) (by omega)
      rw [hu, sni.get_of_le (i := 1) (by omega)]
      rfl
    · rw [sni.get_of_le (i := 0) (by omega)]
      rfl

/-- One round of `GetSNBlock`'s loop. -/
theorem getSNBlockLoop_step {i : Nat} (h : i + 3 < d.len) :
    getSNBlockLoop d i =
      if byte d i = 0 ∧ byte d (i + 1) = 0 then
        (d.slice (i + 4) (i + 4 + byte d (i + 3))).map .ok
      else getSNBlockLoop d (i + 4 + byte d (i + 3)) := by
  rw [getSNBlockLoop, if_neg (Nat.not_le.2 h)]
  obtain ⟨x, hx, hxb⟩ := get_eq (d := d) (i := i) (by omega)
  obtain ⟨y, hy, hyb⟩ := get_eq (d := d) (i := i + 1) (by omega)
  obtain ⟨z, hz, -⟩ := get_eq (d := d) (i := i + 2) (by omega)
  obtain ⟨w, hw, hwb⟩ := get_eq h
  simp only [hx, hy, hz, hw, Option.bind_eq_bind, Option.bind_some, toNat_eq_zero, hxb, hyb,
    length16_eq, hwb]
  split
  · cases d.slice (i + 4) (i + 4 + byte d (i + 3)) <;> rfl
  · rfl

theorem getSNIBlockLoop_end {i : Nat} (h : d.len ≤ i) :
    getSNIBlockLoop d i = some (.error .noSNI) := by
  rw [getSNIBlockLoop, if_pos h]

theorem getSNBlockLoop_end {i : Nat} (h : d.len ≤ i + 3) :
    getSNBlockLoop d i = some (.error .noSNBlock) := by
  rw [getSNBlockLoop, if_pos h]

/-! ## The way to the extensions -/

/-- Where the walk looks for the cipher list, the compression list and the extensions. -/
def cipherAt (d : Slice UInt8) : Nat := 44 + byte d 43

def compressionAt (d : Slice UInt8) : Nat := cipherAt d + 2 + byte d (cipherAt d + 1)

def extensionsAt (d : Slice UInt8) : Nat := compressionAt d + 1 + byte d (compressionAt d)

/-- Where it takes the extensions to end. -/
def extensionsEnd (d : Slice UInt8) : Nat := extensionsAt d + 2 + byte d (extensionsAt d + 1)

/-- The fields before the extensions lie in the data. -/
structure HasExtensions (d : Slice UInt8) : Prop where
  hello : 44 < d.len
  cipher : cipherAt d + 2 < d.len
  compression : compressionAt d + 1 < d.len
  extensions : extensionsAt d < d.len

theorem getExtensionBlock_spec :
    (HasExtensions d ∧ ∃ t, d.slice (extensionsAt d) d.len = some t ∧
        getExtensionBlock d = some (.ok t)) ∨
      (¬ HasExtensions d ∧ ∃ e, getExtensionBlock d = some (.error e)) := by
  generalize hr : getExtensionBlock d = r
  unfold getExtensionBlock at hr
  simp only [tlsHeaderLength, Nat.reduceAdd] at hr
  by_cases h1 : 44 < d.len
  case neg =>
    rw [if_pos (by omega)] at hr
    exact .inr ⟨fun h => h1 h.hello, _, hr.symm⟩
  rw [if_neg (by omega)] at hr
  obtain ⟨x, hx, hxb⟩ := get_eq (d := d) (i := 43) (by omega)
  simp only [hx, Option.bind_eq_bind, Option.bind_some, hxb] at hr
  rw [show 44 + byte d 43 = cipherAt d from rfl] at hr
  by_cases h2 : cipherAt d + 2 < d.len
  case neg =>
    rw [if_pos h2] at hr
    exact .inr ⟨fun h => h2 h.cipher, _, hr.symm⟩
  rw [if_neg (not_not_intro h2)] at hr
  obtain ⟨y, hy, -⟩ := get_eq (d := d) (i := cipherAt d) (by omega)
  obtain ⟨z, hz, hzb⟩ := get_eq (d := d) (i := cipherAt d + 1) (by omega)
  simp only [hy, hz, Option.bind_some, length16_eq, hzb] at hr
  rw [show cipherAt d + 2 + byte d (cipherAt d + 1) = compressionAt d from rfl] at hr
  by_cases h3 : compressionAt d + 1 < d.len
  case neg =>
    rw [if_pos h3] at hr
    exact .inr ⟨fun h => h3 h.compression, _, hr.symm⟩
  rw [if_neg (not_not_intro h3)] at hr
  obtain ⟨w, hw, hwb⟩ := get_eq (d := d) (i := compressionAt d) (by omega)
  simp only [hw, Option.bind_some, hwb] at hr
  rw [show compressionAt d + 1 + byte d (compressionAt d) = extensionsAt d from rfl] at hr
  by_cases h4 : extensionsAt d < d.len
  case neg =>
    rw [if_pos h4] at hr
    exact .inr ⟨fun h => h4 h.extensions, _, hr.symm⟩
  rw [if_neg (not_not_intro h4)] at hr
  obtain ⟨t, ht, -, hl⟩ := d.slice_eq_some (i := extensionsAt d) (Nat.le_of_lt h4) d.len_le_cap
  have hf : d.from_ (extensionsAt d) = some t := ht
  rw [hf, Option.bind_some, if_neg (by omega)] at hr
  exact .inl ⟨⟨h1, h2, h3, h4⟩, t, ht, hr.symm⟩

/-- The extensions that `GetSNBlock` is given. -/
theorem getExtensionBlock_ok {t : Slice UInt8} :
    getExtensionBlock d = some (.ok t) ↔
      HasExtensions d ∧ d.slice (extensionsAt d) d.len = some t := by
  rcases getExtensionBlock_spec (d := d) with ⟨hext, t', ht, heq⟩ | ⟨hno, e, heq⟩
  · rw [heq, ht]
    constructor
    · intro h
      cases h
      exact ⟨hext, rfl⟩
    · rintro ⟨-, h⟩
      cases h
      rfl
  · rw [heq]
    refine ⟨fun h => (by cases h), fun h => absurd h.1 hno⟩

/-! ## The walk -/

/-- The header at `i` is that of a server_name extension. -/
def IsServerName (d : Slice UInt8) (i : Nat) : Prop := byte d i = 0 ∧ byte d (i + 1) = 0

/-- From the extension at `i` the walk, which stops at a server_name and at `stop`, comes to `j`. -/
inductive ExtWalk (d : Slice UInt8) (stop : Nat) : Nat → Nat → Prop
  | refl (i : Nat) : ExtWalk d stop i i
  | next {i j : Nat} (hi : i + 3 < stop) (hn : ¬ IsServerName d i)
      (h : ExtWalk d stop (i + 4 + byte d (i + 3)) j) : ExtWalk d stop i j

/-- From the entry at `i` of a server name list the walk, which stops at a host_name and at `stop`,
comes to `j`. -/
inductive NameWalk (d : Slice UInt8) (stop : Nat) : Nat → Nat → Prop
  | refl (i : Nat) : NameWalk d stop i i
  | next {i j : Nat} (hi : i < stop) (hn : byte d (i + 2) ≠ 0)
      (h : NameWalk d stop (i + 2 + byte d (i + 1)) j) : NameWalk d stop i j

theorem ExtWalk.le {stop i j : Nat} (h : ExtWalk d stop i j) : i ≤ j := by
  induction h with
  | refl => exact Nat.le_refl _
  | next _ _ _ ih => omega

theorem NameWalk.le {stop i j : Nat} (h : NameWalk d stop i j) : i ≤ j := by
  induction h with
  | refl => exact Nat.le_refl _
  | next _ _ _ ih => omega

/-- The entry at `j` has the three bytes that are read of it; a host_name also those of its length,
and the name ends within the capacity. -/
structure NameFits (d : Slice UInt8) (stop j : Nat) : Prop where
  header : j + 2 < stop
  name : byte d (j + 2) = 0 → j + 4 < stop ∧ j + 5 + byte d (j + 4) ≤ d.cap

/-- The server_name extension at `i` ends within the capacity, and the entries that the walk comes
to, if it looks at them, are complete. -/
structure BlockFits (d : Slice UInt8) (i : Nat) : Prop where
  block : i + 4 + byte d (i + 3) ≤ d.cap
  names : 4 ≤ byte d (i + 3) → ∀ j, NameWalk d (i + 4 + byte d (i + 3)) (i + 4) j →
    j < i + 4 + byte d (i + 3) → NameFits d (i + 4 + byte d (i + 3)) j

/-- If the walk finds a server_name extension, it fits. -/
def SniSafe (d : Slice UInt8) : Prop :=
  byte d 0 = 0x16 → HasExtensions d → extensionsEnd d ≤ d.len →
    ∀ i, ExtWalk d (extensionsEnd d) (extensionsAt d + 2) i → i + 3 < extensionsEnd d →
      IsServerName d i → BlockFits d i

theorem slice_ne_none {lo hi : Nat} (h : lo ≤ hi) : d.slice lo hi ≠ none ↔ hi ≤ d.cap := by
  constructor
  · intro hs
    by_contra hc
    exact hs (d.slice_eq_none fun h => hc h.2)
  · intro hc
    obtain ⟨t, ht, -⟩ := d.slice_eq_some h hc
    rw [ht]
    simp

/-- The walk over the entries of the block that starts at `b`. -/
theorem getSNIBlockLoop_returns {t : Slice UInt8} {b : Nat} (hm : t.mem = d.mem.drop b)
    (hb : t.cap + b = d.cap) (i : Nat) :
    getSNIBlockLoop t i ≠ none ↔
      ∀ j, NameWalk d (b + t.len) (b + i) j → j < b + t.len → NameFits d (b + t.len) j := by
  induction hn : t.len - i using Nat.strongRecOn generalizing i with
  | ind n ih =>
  by_cases hi : i < t.len
  case neg =>
    rw [getSNIBlockLoop_end (by omega)]
    refine ⟨fun _ j hw hj => ?_, fun _ => by simp⟩
    have := hw.le
    omega
  rw [getSNIBlockLoop_step hi, byte_drop hm, byte_drop hm, byte_drop hm]
  by_cases h2 : i + 2 < t.len
  case neg =>
    rw [if_neg h2]
    refine ⟨fun h => absurd rfl h, fun h => ?_⟩
    have := (h _ (.refl _) (by omega)).header
    omega
  rw [if_pos h2]
  by_cases h0 : byte d (b + (i + 2)) = 0
  · rw [if_pos h0]
    have only : ∀ j, NameWalk d (b + t.len) (b + i) j → j = b + i := by
      intro j hw
      cases hw with
      | refl => rfl
      | next _ hne => exact absurd h0 hne
    constructor
    · intro h j hw hj
      obtain rfl := only j hw
      refine ⟨by omega, fun _ => ?_⟩
      by_cases h4 : i + 4 < t.len
      · rw [if_pos h4, ne_eq, Option.map_eq_none_iff, ← ne_eq, slice_ne_none (by omega)] at h
        exact ⟨by omega, by rw [show b + i + 4 = b + (i + 4) by omega]; omega⟩
      · rw [if_neg h4] at h
        exact absurd rfl h
    · intro h
      obtain ⟨h4, hc⟩ := (h _ (.refl _) (by omega)).name h0
      rw [if_pos (by omega), ne_eq, Option.map_eq_none_iff, ← ne_eq, slice_ne_none (by omega)]
      rw [show b + i + 4 = b + (i + 4) by omega] at hc
      omega
  · rw [if_neg h0]
    have hstep := ih (t.len - (i + 2 + byte d (b + (i + 1)))) (by omega) _ rfl
    rw [hstep, show b + (i + 2 + byte d (b + (i + 1))) = b + i + 2 + byte d (b + i + 1) by
      rw [show b + (i + 1) = b + i + 1 by omega]; omega]
    constructor
    · intro h j hw hj
      cases hw with
      | refl => exact ⟨by omega, fun h' => absurd h' h0⟩
      | next _ _ hw => exact h j hw hj
    · exact fun h j hw hj => h j (.next (by omega) h0 hw) hj

/-- The walk over the extensions, which start at `b`: it finds the one server_name that it comes to,
or there is none. -/
theorem getSNBlockLoop_cases {t : Slice UInt8} {b : Nat} (hm : t.mem = d.mem.drop b) (i : Nat) :
    (∃ k, ExtWalk d (b + t.len) (b + i) (b + k) ∧ k + 3 < t.len ∧ IsServerName d (b + k) ∧
        getSNBlockLoop t i = (t.slice (k + 4) (k + 4 + byte d (b + k + 3))).map .ok ∧
        ∀ j, ExtWalk d (b + t.len) (b + i) j → j + 3 < b + t.len → IsServerName d j → j = b + k) ∨
      (getSNBlockLoop t i = some (.error .noSNBlock) ∧
        ∀ j, ExtWalk d (b + t.len) (b + i) j → j + 3 < b + t.len → ¬ IsServerName d j) := by
  induction hn : t.len - i using Nat.strongRecOn generalizing i with
  | ind n ih =>
  by_cases hi : i + 3 < t.len
  case neg =>
    refine .inr ⟨getSNBlockLoop_end (by omega), fun j hw hj => ?_⟩
    have := hw.le
    omega
  rw [getSNBlockLoop_step hi, byte_drop hm, byte_drop hm, byte_drop hm]
  by_cases hs : IsServerName d (b + i)
  · refine .inl ⟨i, .refl _, hi, hs, if_pos hs, fun j hw _ _ => ?_⟩
    cases hw with
    | refl => rfl
    | next _ hne => exact absurd hs hne
  · have hs' : ¬ (byte d (b + i) = 0 ∧ byte d (b + (i + 1)) = 0) := hs
    rw [if_neg hs']
    have e : b + (i + 4 + byte d (b + (i + 3))) = b + i + 4 + byte d (b + i + 3) := by
      rw [show b + (i + 3) = b + i + 3 by omega]
      omega
    -- what the walk comes to from here is this extension or comes after it
    have later : ∀ j, ExtWalk d (b + t.len) (b + i) j → IsServerName d j →
        ExtWalk d (b + t.len) (b + (i + 4 + byte d (b + (i + 3)))) j := by
      intro j hw hj
      cases hw with
      | refl => exact absurd hj hs
      | next _ _ hw => rw [e]; exact hw
    rcases ih (t.len - (i + 4 + byte d (b + (i + 3)))) (by omega) _ rfl with
      ⟨k, hw, hk, hsk, heq, hu⟩ | ⟨heq, hno⟩
    · refine .inl ⟨k, .next (by omega) hs (e ▸ hw), hk, hsk, heq, fun j hw hj hsj => ?_⟩
      exact hu j (later j hw hsj) hj hsj
    · exact .inr ⟨heq, fun j hw hj hsj => hno j (later j hw hsj) hj hsj⟩

theorem getSNIBlock_returns {t : Slice UInt8} {b : Nat} (hm : t.mem = d.mem.drop b)
    (hb : t.cap + b = d.cap) :
    getSNIBlock t ≠ none ↔
      (4 ≤ t.len → ∀ j, NameWalk d (b + t.len) b j → j < b + t.len → NameFits d (b + t.len) j) := by
  unfold getSNIBlock
  by_cases h4 : t.len < 4
  · rw [if_pos h4]
    exact ⟨fun _ h => absurd h4 (by omega), fun _ => by simp⟩
  · rw [if_neg h4, getSNIBlockLoop_returns hm hb]
    exact ⟨fun h _ => h, fun h => h (by omega)⟩

/-- An error ends in the empty text. -/
def orEmpty (r : Option Block) (f : Slice UInt8 → Option Bytes) : Option Bytes :=
  r.bind fun
    | .error _ => some []
    | .ok t => f t

@[simp] theorem orEmpty_error {e : SniError} {f : Slice UInt8 → Option Bytes} :
    orEmpty (some (.error e)) f = some [] := rfl

@[simp] theorem orEmpty_ok {t : Slice UInt8} {f : Slice UInt8 → Option Bytes} :
    orEmpty (some (.ok t)) f = f t := rfl

@[simp] theorem orEmpty_none {f : Slice UInt8 → Option Bytes} : orEmpty none f = none := rfl

/-- What `getSNI` does with the extensions. -/
def sniOf (extensions : Slice UInt8) : Option Bytes :=
  orEmpty (getSNBlock extensions) fun sn => orEmpty (getSNIBlock sn) fun sni => some sni.toList

theorem getSNI_eq (h0 : 0 < d.len) :
    getSNI d = if byte d 0 = 0x16 then orEmpty (getExtensionBlock d) sniOf else some [] := by
  obtain ⟨x, hx, hxb⟩ := get_eq h0
  have h16 : x = 0x16 ↔ byte d 0 = 0x16 := by
    rw [← hxb, ← UInt8.toNat_inj]
    rfl
  unfold getSNI
  rw [if_neg (by omega)]
  simp only [hx, Option.bind_eq_bind, Option.bind_some, ne_eq, h16]
  by_cases h : byte d 0 = 0x16
  · rw [if_neg (not_not_intro h), if_pos h]
    rfl
  · rw [if_pos h, if_neg h]
    rfl

/-- The extensions are given up, or looked at up to the end that their length field says. -/
theorem getSNBlock_eq {t : Slice UInt8} (ht : d.slice (extensionsAt d) d.len = some t) :
    (d.len < extensionsEnd d ∧ ∃ e, getSNBlock t = some (.error e)) ∨
      (extensionsEnd d ≤ d.len ∧ ∃ u, u.mem = d.mem.drop (extensionsAt d + 2) ∧
        u.cap + (extensionsAt d + 2) = d.cap ∧ extensionsAt d + 2 + u.len = extensionsEnd d ∧
        getSNBlock t = getSNBlockLoop u 0) := by
  obtain ⟨hle, hcap, hm, hl, htc⟩ := Slice.slice_spec ht
  have hend : extensionsEnd d = extensionsAt d + 2 + byte d (extensionsAt d + 1) := rfl
  unfold getSNBlock
  by_cases h2 : t.len < 2
  · refine .inl ⟨by omega, .notSNBlock, ?_⟩
    rw [if_pos h2]
  obtain ⟨x, hx, -⟩ := get_eq (d := t) (i := 0) (by omega)
  obtain ⟨y, hy, hyb⟩ := get_eq (d := t) (i := 1) (by omega)
  rw [byte_drop hm] at hyb
  simp only [if_neg h2, hx, hy, Option.bind_eq_bind, Option.bind_some, length16_eq, hyb]
  by_cases he : byte d (extensionsAt d + 1) + 2 > t.len
  · refine .inl ⟨by omega, .extensionLength, ?_⟩
    rw [if_pos he]
    rfl
  · obtain ⟨u, hu, hum, hul⟩ := t.slice_eq_some (i := 2) (j := byte d (extensionsAt d + 1) + 2)
      (by omega) (by have := t.len_le_cap; omega)
    obtain ⟨-, -, -, -, huc⟩ := Slice.slice_spec hu
    refine .inr ⟨by omega, u, by rw [hum, hm, List.drop_drop], ?_, by omega, ?_⟩
    · have := t.len_le_cap
      omega
    · rw [if_neg he, hu]
      rfl

theorem sniOf_eq {t : Slice UInt8} (ht : d.slice (extensionsAt d) d.len = some t) :
    (d.len < extensionsEnd d ∧ sniOf t = some []) ∨
      (extensionsEnd d ≤ d.len ∧ ∃ u, u.mem = d.mem.drop (extensionsAt d + 2) ∧
        u.cap + (extensionsAt d + 2) = d.cap ∧ extensionsAt d + 2 + u.len = extensionsEnd d ∧
        sniOf t = orEmpty (getSNBlockLoop u 0) fun sn =>
          orEmpty (getSNIBlock sn) fun sni => some sni.toList) := by
  rcases getSNBlock_eq ht with ⟨hlt, e, he⟩ | ⟨hle, u, hm, hcap, hlen, hu⟩
  · exact .inl ⟨hlt, by rw [sniOf, he, orEmpty_error]⟩
  · exact .inr ⟨hle, u, hm, hcap, hlen, by rw [sniOf, hu]⟩

theorem getSNI_returns_iff (h0 : 0 < d.len) : getSNI d ≠ none ↔ SniSafe d := by
  rw [getSNI_eq h0]
  by_cases h16 : byte d 0 = 0x16
  case neg => exact ⟨fun _ h => absurd h h16, fun _ => by simp [h16]⟩
  rw [if_pos h16]
  rcases getExtensionBlock_spec (d := d) with ⟨hext, t, ht, heq⟩ | ⟨hno, e, heq⟩
  case inr =>
    rw [heq]
    exact ⟨fun _ _ h => absurd h hno, fun _ => by simp⟩
  rw [heq, orEmpty_ok]
  rcases sniOf_eq ht with ⟨hlt, hs⟩ | ⟨hle, u, hm, hcap, hlen, hs⟩
  · rw [hs]
    exact ⟨fun _ _ _ h => absurd h (by omega), fun _ => by simp⟩
  rw [hs]
  have hcases := getSNBlockLoop_cases hm 0
  rw [hlen, Nat.add_zero] at hcases
  rcases hcases with ⟨k, hw, hk, hsk, hloop, hu⟩ | ⟨hloop, hnone⟩
  · -- the one server_name extension, at `extensionsAt d + 2 + k`
    have hb : extensionsAt d + 2 + k + 4 + byte d (extensionsAt d + 2 + k + 3) ≤ d.cap ↔
        k + 4 + byte d (extensionsAt d + 2 + k + 3) ≤ u.cap := by omega
    have hfits : SniSafe d ↔ BlockFits d (extensionsAt d + 2 + k) := by
      constructor
      · intro h
        exact h h16 hext hle _ hw (by omega) hsk
      · intro h _ _ _ i hwi hi hsi
        rw [hu i hwi hi hsi]
        exact h
    rw [hfits, hloop]
    by_cases hc : k + 4 + byte d (extensionsAt d + 2 + k + 3) ≤ u.cap
    · obtain ⟨sn, hsn, hsm, hsl⟩ := u.slice_eq_some (i := k + 4) (by omega) hc
      obtain ⟨-, -, -, -, hsc⟩ := Slice.slice_spec hsn
      have hsm' : sn.mem = d.mem.drop (extensionsAt d + 2 + k + 4) := by
        rw [hsm, hm, List.drop_drop, ← Nat.add_assoc]
      have hret := getSNIBlock_returns hsm' (by omega)
      rw [hsl, show k + 4 + byte d (extensionsAt d + 2 + k + 3) - (k + 4) =
        byte d (extensionsAt d + 2 + k + 3) by omega] at hret
      have hbind : (orEmpty (getSNIBlock sn) fun sni => some sni.toList) ≠ none ↔
          getSNIBlock sn ≠ none := by
        cases getSNIBlock sn with
        | none => simp
        | some r => cases r <;> simp
      rw [hsn, Option.map_some, orEmpty_ok, hbind, hret]
      exact ⟨fun h => ⟨hb.2 hc, h⟩, fun h => h.names⟩
    · rw [u.slice_eq_none (fun h => hc h.2)]
      exact ⟨fun h => absurd rfl h, fun h => absurd (hb.1 h.block) hc⟩
  · rw [hloop]
    refine ⟨fun _ _ _ _ i hw hi hsi => absurd hsi (hnone i hw hi), fun _ => by simp⟩

theorem parseHost_eq (readRequest : Bytes → Option Bytes) (h0 : 0 < d.len) :
    parseHost readRequest d = if byte d 0 = 0x16 then getSNI d
      else if ∃ c ∈ ascii "GHPDOTC", byte d 0 = c.toNat then
        some ((readRequest d.toList).getD [])
      else some [] := by
  obtain ⟨x, hx, hxb⟩ := get_eq h0
  have hmem : x ∈ ascii "GHPDOTC" ↔ ∃ c ∈ ascii "GHPDOTC", byte d 0 = c.toNat := by
    rw [← hxb]
    exact ⟨fun h => ⟨x, h, rfl⟩, fun ⟨c, hc, he⟩ => UInt8.toNat_inj.1 he ▸ hc⟩
  have h16 : x = 0x16 ↔ byte d 0 = 0x16 := by
    rw [← hxb, ← UInt8.toNat_inj]
    rfl
  unfold parseHost
  simp only [hx, Option.bind_eq_bind, Option.bind_some, hmem, h16]
  by_cases h : byte d 0 = 0x16
  · -- the handshake type is no letter
    have hno : ¬ ∃ c ∈ ascii "GHPDOTC", byte d 0 = c.toNat := by rw [h]; decide
    rw [if_neg hno, if_pos h, if_pos h]
  · rw [if_neg h, if_neg h]
    rfl

end

/-- **When `ParseHost` returns.** On data of more than ten bytes, of any capacity, it does unless
the server_name extension that its walk finds does not fit. -/
theorem parseHost_returns_iff (readRequest : Bytes → Option Bytes) (d : Slice UInt8) (h : 10 < d.len) :
    (∃ host, parseHost readRequest d = some host) ↔ SniSafe d := by
  rw [← Option.ne_none_iff_exists', parseHost_eq readRequest (by omega)]
  by_cases h16 : byte d 0 = 0x16
  · rw [if_pos h16]
    exact getSNI_returns_iff (by omega)
  · rw [if_neg h16]
    refine ⟨fun _ h => absurd h h16, fun _ => ?_⟩
    split <;> simp

/-- A ClientHello in one segment; before its server_name there is an empty extension. -/
def wholeHello : Slice UInt8 :=
  Slice.ofList ([0x16, 3, 1, 0, 75, 1, 0, 0, 71, 3, 3] ++ List.replicate 32 7 ++
    [0, 0, 2, 0x13, 1, 1, 0, 0, 28, 0, 23, 0, 0, 0, 0, 0, 20, 0, 18, 0, 0, 15] ++
    ascii "www.example.com") []

theorem parseHost_returns_iff_whole :
    10 < wholeHello.len ∧ parseHost (fun _ => none) wholeHello = some (ascii "www.example.com") ∧
      SniSafe wholeHello := by
  have hp : parseHost (fun _ => none) wholeHello = some (ascii "www.example.com") := by
    decide +kernel
  exact ⟨by decide, hp, (parseHost_returns_iff (fun _ => none) _ (by decide)).1 ⟨_, hp⟩⟩

/-- A segment with the first 75 bytes of a ClientHello: its extensions have 279 bytes, the first one
is a server_name of 32 bytes, of which 19 are in the segment. -/
def truncatedHello : Slice UInt8 :=
  Slice.ofList ([0x16, 3, 1, 1, 0x46, 1, 0, 1, 0x42, 3, 3] ++ List.replicate 32 7 ++
    [0, 0, 2, 0x13, 1, 1, 0, 1, 0x17, 0, 0, 0, 32, 0, 30, 0, 0, 27] ++ ascii "www.example.co") []

theorem truncated_hello_panics :
    10 < truncatedHello.len ∧ ∀ readRequest, parseHost readRequest truncatedHello = none := by
  refine ⟨by decide, fun readRequest => ?_⟩
  have h : getSNI truncatedHello = none := by decide +kernel
  rw [parseHost_eq readRequest (by decide), if_pos (by decide), h]

end Utils
