import Mathlib.Algebra.Group.Nat.Defs
import Tun2Simple.Lib.Cidr

/-!
# Reading texts back (`net.ParseIP`, `strconv.ParseUint`)

`parseIP_string`: the text of an address is read back as the address, in 16 bytes. The text of an
IPv6 address may leave a run of zeros out, so its fields are read from both sides of the gap
(`parseIPv6Loop_colons`, `parseIPv6Loop_gap`).
-/

namespace Net

/-- `ParseIP`: the first dot or colon decides what the text is read as. -/
def parseIP (s : Bytes) : Option IP :=
  match s.find? fun c => c = 46 ∨ c = 58 with
  | none => none
  | some c => if c = 46 then parseIPv4 s else parseIPv6 s

example : parseIP (ascii "::ffff:10.0.0.1") = some (v4InV6Prefix ++ [10, 0, 0, 1]) := by decide

example : parseIP (ascii "fe80::1%eth0") = none := by decide

/-- The loop of `strconv.ParseUint` in base 10, after digits that stand for `n`. -/
def parseUintLoop (maxVal n : Nat) : Bytes → Option Nat
  | [] => some n
  | c :: s =>
    match digit c with
    | none => none
    | some d => if n * 10 + d > maxVal then none else parseUintLoop maxVal (n * 10 + d) s

def parseUint (s : Bytes) (bitSize : Nat) : Option Nat :=
  if s = [] then none else parseUintLoop (2 ^ bitSize - 1) 0 s

/-! ## Numbers -/

/-- The number that digits with the values `value` stand for, after `n`. -/
def number (base : Nat) (value : UInt8 → Nat) (n : Nat) (ds : Bytes) : Nat :=
  ds.foldl (fun n c => n * base + value c) n

section
variable {base : Nat} {value : UInt8 → Nat}

theorem le_number (value : UInt8 → Nat) (hb : 0 < base) (n : Nat) (ds : Bytes) :
    n ≤ number base value n ds := by
  induction ds generalizing n with
  | nil => exact Nat.le_refl n
  | cons c ds ih =>
    have h1 : n ≤ n * base := Nat.le_mul_of_pos_right n hb
    have h2 := ih (n * base + value c)
    show n ≤ number base value (n * base + value c) ds
    omega

/-- The digits up to something else are read as the number they stand for. -/
theorem toi_append {dig : UInt8 → Option Nat} {n i : Nat} {ds rest : Bytes} (hb : 0 < base)
    (hd : ∀ c ∈ ds, dig c = some (value c)) (hlt : number base value n ds < big)
    (hr : rest.head?.bind dig = none) (hi : ds ≠ [] ∨ i ≠ 0) :
    toi base dig n i (ds ++ rest) = some (number base value n ds, i + ds.length) := by
  induction ds generalizing n i with
  | nil =>
    have hi : i ≠ 0 := hi.resolve_left (fun h => h rfl)
    cases rest with
    | nil => simp [toi, hi, number]
    | cons c rest =>
      have hc : dig c = none := hr
      simp [toi, hi, hc, number]
  | cons c ds ih =>
    have hc := hd c (List.mem_cons_self ..)
    have hle := le_number value hb (n * base + value c) ds
    have hlt' : number base value (n * base + value c) ds < big := hlt
    have := ih (n := n * base + value c) (i := i + 1) (fun c hc => hd c (List.mem_cons_of_mem _ hc))
      hlt' (.inr (Nat.succ_ne_zero i))
    rw [List.cons_append, toi, hc]
    simp only
    rw [if_neg (by omega), this, List.length_cons]
    show _ = some (number base value (n * base + value c) ds, _)
    congr 2
    omega

end

/-- The value of a decimal digit. -/
def undigit (c : UInt8) : Nat := c.toNat - 48

theorem undecimal_eq (s : Bytes) : undecimal s = number 10 undigit 0 s := by
  unfold undecimal number undigit
  simp only [Nat.mul_comm]

theorem unhex_eq (s : Bytes) : unhex s = number 16 unhexDigit 0 s := by
  unfold unhex number
  simp only [Nat.mul_comm]

theorem parseUintLoop_eq {maxVal n : Nat} {ds : Bytes} (hd : ∀ c ∈ ds, digit c = some (undigit c))
    (hle : number 10 undigit n ds ≤ maxVal) :
    parseUintLoop maxVal n ds = some (number 10 undigit n ds) := by
  induction ds generalizing n with
  | nil => rfl
  | cons c ds ih =>
    have hmono := le_number undigit (show 0 < 10 by decide) (n * 10 + undigit c) ds
    have hle' : number 10 undigit (n * 10 + undigit c) ds ≤ maxVal := hle
    rw [parseUintLoop, hd c (List.mem_cons_self ..)]
    simp only
    rw [if_neg (by omega)]
    exact ih (fun c hc => hd c (List.mem_cons_of_mem _ hc)) hle'

theorem parseUintLoop_le {maxVal n m : Nat} {s : Bytes} (hn : n ≤ maxVal)
    (h : parseUintLoop maxVal n s = some m) : m ≤ maxVal := by
  induction s generalizing n with
  | nil => cases h; exact hn
  | cons c s ih =>
    rw [parseUintLoop] at h
    split at h
    · cases h
    · split at h
      · cases h
      · exact ih (by omega) h

theorem parseUint_le {s : Bytes} {bitSize m : Nat} (h : parseUint s bitSize = some m) :
    m ≤ 2 ^ bitSize - 1 := by
  unfold parseUint at h
  split at h
  · cases h
  · exact parseUintLoop_le (Nat.zero_le _) h

theorem digit_of_le {c : UInt8} (h : 48 ≤ c ∧ c ≤ 57) : digit c = some (undigit c) := if_pos h

/-! ## IPv4 -/

theorem ubtoa_spec (v : UInt8) :
    (∀ c ∈ ubtoa v, digit c = some (undigit c)) ∧ ubtoa v ≠ [] ∧
      ((ubtoa v).length > 1 → (ubtoa v).head? ≠ some 48) := by
  have h : ∀ n : Fin 256, (ubtoa (UInt8.ofNat n)).all (fun c => 48 ≤ c && c ≤ 57) = true ∧
      ubtoa (UInt8.ofNat n) ≠ [] ∧
      ((ubtoa (UInt8.ofNat n)).length > 1 → (ubtoa (UInt8.ofNat n)).head? ≠ some 48) := by
    decide +kernel
  obtain ⟨hd, hrest⟩ := h ⟨v.toNat, v.toNat_lt⟩
  rw [UInt8.ofNat_toNat] at hd hrest
  refine ⟨fun c hc => digit_of_le ?_, hrest⟩
  simpa using List.all_eq_true.1 hd c hc

theorem octet_ubtoa (v : UInt8) (rest : Bytes) (hr : rest.head?.bind digit = none) :
    octet (ubtoa v ++ rest) = some (v, rest) := by
  obtain ⟨hd, hne, hz⟩ := ubtoa_spec v
  have hv := undecimal_ubtoa v
  rw [undecimal_eq] at hv
  have hlt := v.toNat_lt
  have hn := toi_append (n := 0) (i := 0) (show 0 < 10 by decide) hd
    (show _ < big by rw [hv, big]; omega) hr (.inl hne)
  rw [hv, Nat.zero_add] at hn
  have hhead : (ubtoa v ++ rest).head? = (ubtoa v).head? := by
    obtain ⟨c, cs, hc⟩ := List.exists_cons_of_ne_nil hne
    rw [hc]
    rfl
  unfold octet dtoi
  rw [hn]
  simp only
  rw [if_neg (by omega), hhead, if_neg (fun h => hz h.1 h.2), List.drop_left, UInt8.ofNat_toNat]

theorem dotOctet_ubtoa (v : UInt8) (rest : Bytes) (hr : rest.head?.bind digit = none) :
    dotOctet (46 :: (ubtoa v ++ rest)) = some (v, rest) := by
  rw [dotOctet, List.head?_cons, if_pos rfl, List.drop_succ_cons, List.drop_zero, octet_ubtoa v rest hr]

theorem parseIPv4_dotted (a b c d : UInt8) :
    parseIPv4 (dotted [a, b, c, d]) = some (v4InV6Prefix ++ [a, b, c, d]) := by
  have hs : dotted [a, b, c, d] =
      ubtoa a ++ 46 :: (ubtoa b ++ 46 :: (ubtoa c ++ 46 :: (ubtoa d ++ []))) := by
    simp [dotted, List.intercalate_cons_cons]
  have hdot : ∀ s : Bytes, (46 :: s).head?.bind digit = none := fun _ => rfl
  rw [hs, parseIPv4, octet_ubtoa a _ (hdot _)]
  simp only [Option.bind_eq_bind, Option.bind_some, dotOctet_ubtoa b _ (hdot _),
    dotOctet_ubtoa c _ (hdot _), dotOctet_ubtoa d [] rfl]
  rfl

/-! ## IPv6 -/

/-- The bytes of 16-bit fields. -/
def fieldBytes (fs : List Nat) : IP := fs.flatMap fun f => [UInt8.ofNat (f / 256), UInt8.ofNat f]

theorem length_fieldBytes (fs : List Nat) : (fieldBytes fs).length = 2 * fs.length := by
  induction fs with
  | nil => rfl
  | cons f fs ih =>
    simp only [fieldBytes, List.flatMap_cons, List.length_append, List.length_cons,
      List.length_nil] at ih ⊢
    omega

theorem fieldBytes_append (fs gs : List Nat) :
    fieldBytes (fs ++ gs) = fieldBytes fs ++ fieldBytes gs := List.flatMap_append

theorem fieldBytes_zeros (n : Nat) : fieldBytes (List.replicate n 0) = List.replicate (2 * n) 0 := by
  induction n with
  | zero => rfl
  | succ n ih =>
    rw [List.replicate_succ, Nat.mul_succ, List.replicate_succ, List.replicate_succ, ← ih]
    rfl

theorem fieldBytes_fields : ∀ {ip : IP} {n : Nat}, ip.length = 2 * n → fieldBytes (fields ip) = ip
  | [], _, _ => rfl
  | [_], n, h => by simp at h; omega
  | a :: b :: ip, n, h => by
    have hip : ip.length = 2 * (n - 1) := by simp at h; omega
    have ha : UInt8.ofNat ((a.toNat * 256 + b.toNat) / 256) = a := by
      have := b.toNat_lt
      rw [show (a.toNat * 256 + b.toNat) / 256 = a.toNat by omega, UInt8.ofNat_toNat]
    have hb : UInt8.ofNat (a.toNat * 256 + b.toNat) = b := by
      apply UInt8.toNat_inj.1
      have := b.toNat_lt
      rw [UInt8.toNat_ofNat']
      omega
    have ih := fieldBytes_fields hip
    unfold fieldBytes at ih
    simp only [fields, fieldBytes, List.flatMap_cons, ih, ha, hb]
    rfl

theorem xdigit_hexDigit {v : Nat} (h : v < 16) : xdigit (hexDigit v) = some (unhexDigit (hexDigit v)) := by
  have : ∀ v : Fin 16, xdigit (hexDigit v) = some (unhexDigit (hexDigit v)) := by decide
  exact this ⟨v, h⟩

theorem xdigit_appendHex (i : Nat) : ∀ c ∈ appendHex i, xdigit c = some (unhexDigit c) := by
  intro c hc
  unfold appendHex at hc
  split at hc
  · rw [List.mem_singleton] at hc
    subst hc
    rfl
  · obtain ⟨j, -, rfl⟩ := List.mem_map.1 hc
    exact xdigit_hexDigit (Nat.mod_lt _ (by decide))

theorem xtoi_appendHex {i : Nat} (h : i < 65536) (rest : Bytes) (hr : rest.head?.bind xdigit = none) :
    xtoi (appendHex i ++ rest) = some (i, (appendHex i).length) := by
  have hv := unhex_appendHex h
  rw [unhex_eq] at hv
  have := toi_append (n := 0) (i := 0) (show 0 < 16 by decide) (xdigit_appendHex i)
    (show _ < big by rw [hv, big]; omega) hr (.inl (appendHex_ne_nil h))
  rwa [hv, Nat.zero_add] at this

/-- The fields of a text up to its end or to a colon. -/
theorem parseIPv6Loop_field (fuel : Nat) (ip : IP) (e : Option Nat) {i : Nat} (h : i < 65536)
    (rest : Bytes) (hr : rest = [] ∨ rest.head? = some 58) :
    parseIPv6Loop (fuel + 1) ip e (appendHex i ++ rest) =
      let ip := ip ++ [UInt8.ofNat (i / 256), UInt8.ofNat i]
      if rest.length = 0 then some (ip, e)
      else if rest.length = 1 then none
      else
        let s := rest.drop 1
        if s.head? = some 58 then
          if e ≠ none then none
          else if (s.drop 1).length = 0 then some (ip, some ip.length)
          else parseIPv6Loop fuel ip (some ip.length) (s.drop 1)
        else parseIPv6Loop fuel ip e s := by
  have hx : rest.head?.bind xdigit = none := by
    rcases hr with rfl | hr
    · rfl
    · rw [hr]
      rfl
  have hdot : rest.head? ≠ some 46 := by
    rcases hr with rfl | hr
    · simp
    · rw [hr]
      decide
  rw [parseIPv6Loop, xtoi_appendHex h rest hx]
  simp only [List.drop_left]
  rw [if_neg (by omega), if_neg hdot]
  rcases hr with rfl | hr
  · rfl
  · simp only [hr, ne_eq, not_true_eq_false, false_or]

theorem colons_cons_cons (f g : Nat) (fs : List Nat) :
    colons (f :: g :: fs) = appendHex f ++ 58 :: colons (g :: fs) := by
  simp [colons, List.intercalate_cons_cons]

theorem colons_head {f : Nat} (h : f < 65536) (fs : List Nat) :
    ∃ c s, colons (f :: fs) = c :: s ∧ c ≠ 58 := by
  obtain ⟨c, s, hc⟩ := List.exists_cons_of_ne_nil (appendHex_ne_nil h)
  have hne : c ≠ 58 := by
    rintro rfl
    exact (sep_not_mem_appendHex f).2 (by rw [hc]; exact List.mem_cons_self ..)
  cases fs with
  | nil => exact ⟨c, s, by simp [colons, hc], hne⟩
  | cons g fs => exact ⟨c, _, by rw [colons_cons_cons, hc, List.cons_append], hne⟩

/-- The fields up to the end of the text. -/
theorem parseIPv6Loop_colons {fuel : Nat} {ip : IP} {e : Option Nat} {f : Nat} {fs : List Nat}
    (hb : ∀ x ∈ f :: fs, x < 65536) (hl : fs.length < fuel) :
    parseIPv6Loop fuel ip e (colons (f :: fs)) = some (ip ++ fieldBytes (f :: fs), e) := by
  induction fs generalizing fuel ip f with
  | nil =>
    obtain ⟨fuel, rfl⟩ : ∃ k, fuel = k + 1 := ⟨fuel - 1, by simp at hl; omega⟩
    have := parseIPv6Loop_field fuel ip e (hb f (List.mem_cons_self ..)) [] (.inl rfl)
    simpa [colons, fieldBytes] using this
  | cons g fs ih =>
    obtain ⟨fuel, rfl⟩ : ∃ k, fuel = k + 1 := ⟨fuel - 1, by simp at hl; omega⟩
    obtain ⟨c, s, hs, hc⟩ := colons_head (hb g (by simp)) fs
    have ih : parseIPv6Loop fuel (ip ++ [UInt8.ofNat (f / 256), UInt8.ofNat f]) e (colons (g :: fs)) =
        some (ip ++ [UInt8.ofNat (f / 256), UInt8.ofNat f] ++ fieldBytes (g :: fs), e) :=
      ih (fun x hx => hb x (List.mem_cons_of_mem _ hx)) (by simp at hl; omega)
    rw [colons_cons_cons, parseIPv6Loop_field fuel ip _ (hb f (List.mem_cons_self ..)) _ (.inr rfl)]
    simp only [hs, List.length_cons, List.drop_succ_cons, List.drop_zero, List.head?_cons,
      Option.some.injEq] at ih ⊢
    rw [if_neg (by omega), if_neg (by omega), if_neg hc, ih]
    simp [fieldBytes]

/-- The fields up to the gap. -/
theorem parseIPv6Loop_gap {fuel : Nat} {ip : IP} {f : Nat} {fs : List Nat} (rest : Bytes)
    (hb : ∀ x ∈ f :: fs, x < 65536) (hl : fs.length < fuel) :
    parseIPv6Loop fuel ip none (colons (f :: fs) ++ 58 :: 58 :: rest) =
      if rest = [] then some (ip ++ fieldBytes (f :: fs), some (ip ++ fieldBytes (f :: fs)).length)
      else parseIPv6Loop (fuel - (fs.length + 1)) (ip ++ fieldBytes (f :: fs))
        (some (ip ++ fieldBytes (f :: fs)).length) rest := by
  induction fs generalizing fuel ip f with
  | nil =>
    obtain ⟨fuel, rfl⟩ : ∃ k, fuel = k + 1 := ⟨fuel - 1, by simp at hl; omega⟩
    have hcolons : colons [f] = appendHex f := by simp [colons]
    rw [hcolons, parseIPv6Loop_field fuel ip _ (hb f (List.mem_cons_self ..)) _ (.inr rfl)]
    simp [fieldBytes]
  | cons g fs ih =>
    obtain ⟨fuel, rfl⟩ : ∃ k, fuel = k + 1 := ⟨fuel - 1, by simp at hl; omega⟩
    obtain ⟨c, s, hs, hc⟩ := colons_head (hb g (by simp)) fs
    have hbytes : ip ++ [UInt8.ofNat (f / 256), UInt8.ofNat f] ++ fieldBytes (g :: fs) =
        ip ++ fieldBytes (f :: g :: fs) := by simp [fieldBytes]
    have ih : parseIPv6Loop fuel (ip ++ [UInt8.ofNat (f / 256), UInt8.ofNat f]) none
        (colons (g :: fs) ++ 58 :: 58 :: rest) = _ :=
      ih (fun x hx => hb x (List.mem_cons_of_mem _ hx)) (by simp at hl; omega)
    rw [hbytes] at ih
    rw [colons_cons_cons, List.append_assoc, List.cons_append,
      parseIPv6Loop_field fuel ip _ (hb f (List.mem_cons_self ..)) _ (.inr rfl)]
    simp only [hs, List.cons_append, List.length_cons, List.drop_succ_cons, List.drop_zero,
      List.head?_cons, Option.some.injEq] at ih ⊢
    rw [if_neg (by omega), if_neg (by omega), if_neg hc, ih]
    simp

theorem take_two_colons {f : Nat} (h : f < 65536) (fs : List Nat) (rest : Bytes) :
    (colons (f :: fs) ++ rest).take 2 ≠ [58, 58] := by
  obtain ⟨c, s, hs, hc⟩ := colons_head h fs
  rw [hs]
  intro he
  simp only [List.cons_append, List.take_succ_cons, List.cons.injEq] at he
  exact hc he.1

/-- Fields that need no gap. -/
theorem parseIPv6_colons {fs : List Nat} (hl : fs.length = 8) (hb : ∀ x ∈ fs, x < 65536) :
    parseIPv6 (colons fs) = some (fieldBytes fs) := by
  obtain ⟨f, fs, rfl⟩ := List.exists_cons_of_length_pos (l := fs) (by omega)
  have htake := take_two_colons (hb f (List.mem_cons_self ..)) fs []
  rw [List.append_nil] at htake
  have hlen := length_fieldBytes (f :: fs)
  rw [parseIPv6, if_neg htake, parseIPv6Loop_colons hb (by simp at hl; omega)]
  simp only [Option.bind_some, List.nil_append, expand]
  rw [if_neg (by omega)]

/-- Fields on both sides of a gap of `n` fields. -/
theorem parseIPv6_gap {l r : List Nat} {n : Nat} (hl : l.length + n + r.length = 8) (hn : 0 < n)
    (hbl : ∀ x ∈ l, x < 65536) (hbr : ∀ x ∈ r, x < 65536) :
    parseIPv6 (colons l ++ [58, 58] ++ colons r) =
      some (fieldBytes l ++ (List.replicate (2 * n) 0 ++ fieldBytes r)) := by
  have hll := length_fieldBytes l
  have hlr := length_fieldBytes r
  have hexp : ∀ m, m = (fieldBytes l).length →
      expand (fieldBytes l ++ fieldBytes r) (some m) =
        some (fieldBytes l ++ (List.replicate (2 * n) 0 ++ fieldBytes r)) := by
    rintro m rfl
    simp only [expand, List.length_append, List.take_left, List.drop_left]
    rw [if_pos (by omega), show 16 - ((fieldBytes l).length + (fieldBytes r).length) = 2 * n by omega]
  cases l with
  | nil =>
    cases r with
    | nil =>
      obtain rfl : n = 8 := by simpa using hl
      rfl
    | cons g r =>
      obtain ⟨c, s, hs, -⟩ := colons_head (hbr g (List.mem_cons_self ..)) r
      have hloop : parseIPv6Loop 8 [] (some 0) (colons (g :: r)) = _ :=
        parseIPv6Loop_colons hbr (by simp at hl; omega)
      have htext : colons [] ++ [58, 58] ++ colons (g :: r) = 58 :: 58 :: colons (g :: r) := rfl
      have htake : (58 :: 58 :: colons (g :: r)).take 2 = [58, 58] := rfl
      rw [parseIPv6, htext, if_pos htake]
      simp only [List.length_cons, List.drop_succ_cons, List.drop_zero, hloop, Option.bind_some]
      rw [if_neg (by rw [hs]; simp)]
      exact hexp 0 rfl
  | cons f l =>
    have htext : colons (f :: l) ++ [58, 58] ++ colons r = colons (f :: l) ++ 58 :: 58 :: colons r := by
      simp
    rw [parseIPv6, htext, if_neg (take_two_colons (hbl f (List.mem_cons_self ..)) l _),
      parseIPv6Loop_gap _ hbl (by simp at hl; omega)]
    cases r with
    | nil =>
      have := hexp _ rfl
      simp only [fieldBytes, List.flatMap_nil, List.append_nil] at this
      simpa [colons, fieldBytes] using this
    | cons g r =>
      obtain ⟨c, s, hs, -⟩ := colons_head (hbr g (List.mem_cons_self ..)) r
      rw [if_neg (by rw [hs]; simp), parseIPv6Loop_colons hbr (by simp at hl; omega)]
      exact hexp _ rfl

theorem parseIPv6_string6 {fs : List Nat} (hl : fs.length = 8) (hb : ∀ x ∈ fs, x < 65536) :
    parseIPv6 (string6 fs) = some (fieldBytes fs) := by
  unfold string6
  simp only
  split
  · exact parseIPv6_colons hl hb
  · have hspec := longestZeros_spec fs
    have hlen := congrArg List.length hspec
    simp only [List.length_append, List.length_replicate] at hlen
    have hbytes := congrArg fieldBytes hspec
    rw [fieldBytes_append, fieldBytes_append, fieldBytes_zeros] at hbytes
    rw [parseIPv6_gap (n := (longestZeros fs).2), ← hbytes]
    · omega
    · omega
    · exact fun x hx => hb x (List.mem_of_mem_take hx)
    · exact fun x hx => hb x (List.mem_of_mem_drop hx)

/-! ## Addresses -/

theorem parseIP_length {s : Bytes} {ip : IP} (h : parseIP s = some ip) : ip.length = 16 := by
  unfold parseIP at h
  split at h
  · cases h
  · split at h
    · obtain ⟨b, hb, rfl⟩ := parseIPv4_spec h
      simp [v4InV6Prefix, hb]
    · exact parseIPv6_length h

/-- The text of an address of 4 bytes is read as the address in 16 bytes. -/
theorem parseIP_dotted {a : IP} (h : a.length = 4) : parseIP (dotted a) = some (v4InV6Prefix ++ a) := by
  have hfind : (dotted a).find? (fun c => c = 46 ∨ c = 58) = some 46 := by
    cases hf : (dotted a).find? (fun c => c = 46 ∨ c = 58) with
    | none =>
      have := List.find?_eq_none.1 hf 46 (dot_mem_dotted h)
      simp at this
    | some c =>
      have hc := List.find?_some hf
      simp only [decide_eq_true_eq] at hc
      rcases hc with rfl | rfl
      · rfl
      · exact absurd (List.mem_of_find?_eq_some hf) (colon_not_mem_dotted a)
  obtain ⟨x, y, z, w, rfl⟩ : ∃ x y z w, a = [x, y, z, w] := by
    match a, h with
    | [x, y, z, w], _ => exact ⟨x, y, z, w, rfl⟩
  rw [parseIP, hfind]
  exact parseIPv4_dotted x y z w

theorem dot_not_mem_string6 (fs : List Nat) : 46 ∉ string6 fs := by
  rw [string6_eq]
  exact not_mem_intercalate (by decide) fun p hp => (colon_not_mem_parts fs p hp).1

/-- So is the text of one of 16 bytes. -/
theorem parseIP_string {ip : IP} (h : ip.length = 16) : parseIP (string ip) = some ip := by
  have hne : ip.length ≠ 0 := by omega
  cases h4 : to4 ip with
  | some a =>
    obtain ⟨ha, rfl | rfl⟩ := to4_eq_some h4
    · omega
    · rw [string, if_neg hne, h4]
      exact parseIP_dotted ha
  | none =>
    have hl : (fields ip).length = 8 := length_fields h
    rw [string, if_neg hne, h4]
    simp only [h, ne_eq, not_true_eq_false, if_false]
    have hfind : (string6 (fields ip)).find? (fun c => c = 46 ∨ c = 58) = some 58 := by
      cases hf : (string6 (fields ip)).find? (fun c => c = 46 ∨ c = 58) with
      | none =>
        have := List.find?_eq_none.1 hf 58 (colon_mem_string6 hl)
        simp at this
      | some c =>
        have hc := List.find?_some hf
        simp only [decide_eq_true_eq] at hc
        rcases hc with rfl | rfl
        · exact absurd (List.mem_of_find?_eq_some hf) (dot_not_mem_string6 _)
        · rfl
    rw [parseIP, hfind]
    simp only [show ¬ (58 : UInt8) = 46 by decide, if_false]
    rw [parseIPv6_string6 hl fields_lt, fieldBytes_fields (n := 8) h]

end Net
