import Tun2Simple.Lib.Bytes

/-!
# IP addresses as Go's `net` package has them

An `IP` is a slice of 4 or 16 bytes, or none (`nil`); an IPv4 address may have either length. `mask`
and `string` are the methods of that name. `string_eq_iff` is what a program that uses an address's
text as a key relies on: two addresses have the same text iff they are the same address.
-/

namespace Net

abbrev IP := Bytes

abbrev IPMask := Bytes

def v4InV6Prefix : Bytes := List.replicate 10 0 ++ [0xff, 0xff]

/-- `To4`, `none` where it returns `nil`. -/
def to4 (ip : IP) : Option IP :=
  if ip.length = 4 then some ip
  else if ip.length = 16 ∧ ip.take 12 = v4InV6Prefix then some (ip.drop 12)
  else none

/-- The 16 bytes of an address, `To16`. -/
def to16 (ip : IP) : Option IP :=
  if ip.length = 4 then some (v4InV6Prefix ++ ip)
  else if ip.length = 16 then some ip
  else none

/-- Byte by byte. -/
def andBytes (a m : Bytes) : Bytes := List.zipWith (· &&& ·) a m

def mask (ip : IP) (m : IPMask) : IP :=
  let m := if m.length = 16 ∧ ip.length = 4 ∧ (m.take 12).all (· == 0xff) then m.drop 12 else m
  let ip := if m.length = 4 ∧ ip.length = 16 ∧ ip.take 12 = v4InV6Prefix then ip.drop 12 else ip
  if ip.length = m.length then andBytes ip m else []

/-- `CIDRMask` of `l` bytes. -/
def cidrMask : (l ones : Nat) → IPMask
  | 0, _ => []
  | l + 1, n => if 8 ≤ n then 0xff :: cidrMask l (n - 8) else ~~~(0xff >>> UInt8.ofNat n) :: cidrMask l 0

/-! ## Text -/

/-- A byte in decimal. -/
def ubtoa (v : UInt8) : Bytes :=
  if v < 10 then [v + 48]
  else if v < 100 then [v / 10 + 48, v % 10 + 48]
  else [v / 100 + 48, v / 10 % 10 + 48, v % 10 + 48]

def hexDigit (v : Nat) : UInt8 := UInt8.ofNat (if v < 10 then 48 + v else 87 + v)

/-- A number in hexadecimal without leading zeros. -/
def appendHex (i : Nat) : Bytes :=
  if i = 0 then [48]
  else ([7, 6, 5, 4, 3, 2, 1, 0].filter fun j => 0 < i >>> (4 * j)).map
    fun j => hexDigit (i >>> (4 * j) % 16)

/-- The 16-bit fields of an address. -/
def fields : IP → List Nat
  | a :: b :: ip => (a.toNat * 256 + b.toNat) :: fields ip
  | _ => []

/-- The length of the run of zeros at the head. -/
def zeros (fs : List Nat) : Nat := (fs.takeWhile (· = 0)).length

/-- The start and the length of the first longest run of zeros. -/
def longestZeros (fs : List Nat) : Nat × Nat :=
  (List.range fs.length).foldl
    (fun best i => if best.2 < zeros (fs.drop i) then (i, zeros (fs.drop i)) else best) (0, 0)

/-- Fields with colons between them. -/
def colons (fs : List Nat) : Bytes := List.intercalate [58] (fs.map appendHex)

/-- The text of an IPv6 address: the longest run of at least two zeros is left out. -/
def string6 (fs : List Nat) : Bytes :=
  let (e, n) := longestZeros fs
  if n ≤ 1 then colons fs else colons (fs.take e) ++ [58, 58] ++ colons (fs.drop (e + n))

def dotted (ip : IP) : Bytes := List.intercalate [46] (ip.map ubtoa)

def hexString (ip : IP) : Bytes := ip.flatMap fun b => [hexDigit (b.toNat / 16), hexDigit (b.toNat % 16)]

def string (ip : IP) : Bytes :=
  if ip.length = 0 then ascii "<nil>"
  else match to4 ip with
    | some ip4 => dotted ip4
    | none => if ip.length ≠ 16 then 63 :: hexString ip else string6 (fields ip)

example : string [0, 0, 0, 0, 0, 0, 0, 0, 0, 0, 255, 255, 10, 0, 0, 1] = ascii "10.0.0.1" := by decide

example : string [32, 1, 13, 184, 0, 0, 0, 0, 0, 1, 0, 0, 0, 0, 0, 1] = ascii "2001:db8::1:0:0:1" := by
  decide

/-! ## Reading the text back -/

/-- The number that a field of decimal digits stands for. -/
def undecimal (s : Bytes) : Nat := s.foldl (fun n c => 10 * n + (c.toNat - 48)) 0

theorem undecimal_ubtoa (v : UInt8) : undecimal (ubtoa v) = v.toNat := by
  have h : ∀ n : Fin 256, undecimal (ubtoa (UInt8.ofNat n)) = n := by decide +kernel
  have := h ⟨v.toNat, v.toNat_lt⟩
  rwa [UInt8.ofNat_toNat] at this

theorem ubtoa_inj {a b : UInt8} (h : ubtoa a = ubtoa b) : a = b := by
  have h' : a.toNat = b.toNat := by rw [← undecimal_ubtoa, ← undecimal_ubtoa, h]
  exact UInt8.toNat_inj.1 h'

theorem sep_not_mem_ubtoa (v : UInt8) : 46 ∉ ubtoa v ∧ 58 ∉ ubtoa v := by
  have h : ∀ n : Fin 256, 46 ∉ ubtoa (UInt8.ofNat n) ∧ 58 ∉ ubtoa (UInt8.ofNat n) := by
    decide +kernel
  have := h ⟨v.toNat, v.toNat_lt⟩
  rwa [UInt8.ofNat_toNat] at this

/-- The value of a lower-case hexadecimal digit. -/
def unhexDigit (c : UInt8) : Nat := if c < 58 then c.toNat - 48 else c.toNat - 87

def unhex (s : Bytes) : Nat := s.foldl (fun n c => 16 * n + unhexDigit c) 0

theorem unhexDigit_hexDigit {v : Nat} (h : v < 16) : unhexDigit (hexDigit v) = v := by
  have : ∀ v : Fin 16, unhexDigit (hexDigit v) = v := by decide
  exact this ⟨v, h⟩

/-- The digits of a number of 16 bits. -/
theorem appendHex_eq {i : Nat} (h : i < 65536) :
    appendHex i = if i < 16 then [hexDigit i]
      else if i < 256 then [hexDigit (i / 16), hexDigit (i % 16)]
      else if i < 4096 then [hexDigit (i / 256), hexDigit (i / 16 % 16), hexDigit (i % 16)]
      else [hexDigit (i / 4096), hexDigit (i / 256 % 16), hexDigit (i / 16 % 16), hexDigit (i % 16)] := by
  unfold appendHex
  rcases Nat.eq_zero_or_pos i with rfl | hi
  · rfl
  · have hz : ∀ j, 4 ≤ j → decide (0 < i >>> (4 * j)) = false := by
      intro j hj
      have : 2 ^ 16 ≤ 2 ^ (4 * j) := Nat.pow_le_pow_right (by decide) (by omega)
      rw [Nat.shiftRight_eq_div_pow, Nat.div_eq_of_lt (by omega)]
      rfl
    have h3 : i >>> 12 = i / 4096 := Nat.shiftRight_eq_div_pow i 12
    have h2 : i >>> 8 = i / 256 := Nat.shiftRight_eq_div_pow i 8
    have h1 : i >>> 4 = i / 16 := Nat.shiftRight_eq_div_pow i 4
    rw [if_neg (by omega)]
    simp only [List.filter_cons, hz 7 (by decide), hz 6 (by decide), hz 5 (by decide),
      hz 4 (by decide), List.filter_nil]
    simp only [Nat.reduceMul, h3, h2, h1, Nat.shiftRight_zero, decide_eq_true_eq]
    by_cases c1 : i < 16
    · have d3 : ¬ 0 < i / 4096 := by omega
      have d2 : ¬ 0 < i / 256 := by omega
      have d1 : ¬ 0 < i / 16 := by omega
      simp [c1, d1, d2, d3, hi, Nat.mod_eq_of_lt c1]
    · have d1 : 0 < i / 16 := by omega
      by_cases c2 : i < 256
      · have d3 : ¬ 0 < i / 4096 := by omega
        have d2 : ¬ 0 < i / 256 := by omega
        have e1 : i / 16 % 16 = i / 16 := by omega
        simp [c1, c2, d1, d2, d3, hi, h1, e1]
      · have d2 : 0 < i / 256 := by omega
        by_cases c3 : i < 4096
        · have d3 : ¬ 0 < i / 4096 := by omega
          have e2 : i / 256 % 16 = i / 256 := by omega
          simp [c1, c2, c3, d1, d2, d3, hi, h1, h2, e2]
        · have d3 : 0 < i / 4096 := by omega
          have e3 : i / 4096 % 16 = i / 4096 := by omega
          simp [c1, c2, c3, d1, d2, d3, hi, h1, h2, h3, e3]

theorem unhex_appendHex {i : Nat} (h : i < 65536) : unhex (appendHex i) = i := by
  rw [appendHex_eq h]
  split
  · simp only [unhex, List.foldl]
    rw [unhexDigit_hexDigit ‹_›]
    omega
  · split
    · simp only [unhex, List.foldl]
      rw [unhexDigit_hexDigit (by omega), unhexDigit_hexDigit (by omega)]
      omega
    · split
      · simp only [unhex, List.foldl]
        rw [unhexDigit_hexDigit (by omega), unhexDigit_hexDigit (by omega),
          unhexDigit_hexDigit (by omega)]
        omega
      · simp only [unhex, List.foldl]
        rw [unhexDigit_hexDigit (by omega), unhexDigit_hexDigit (by omega),
          unhexDigit_hexDigit (by omega), unhexDigit_hexDigit (by omega)]
        omega

theorem hexDigit_ne_sep {v : Nat} (h : v < 16) : hexDigit v ≠ 46 ∧ hexDigit v ≠ 58 := by
  have : ∀ v : Fin 16, hexDigit v ≠ 46 ∧ hexDigit v ≠ 58 := by decide
  exact this ⟨v, h⟩

theorem sep_not_mem_appendHex (i : Nat) : 46 ∉ appendHex i ∧ 58 ∉ appendHex i := by
  unfold appendHex
  split
  · decide
  · constructor <;> intro h <;> obtain ⟨j, -, hj⟩ := List.mem_map.1 h
    · exact (hexDigit_ne_sep (Nat.mod_lt _ (by decide))).1 hj
    · exact (hexDigit_ne_sep (Nat.mod_lt _ (by decide))).2 hj

theorem appendHex_ne_nil {i : Nat} (h : i < 65536) : appendHex i ≠ [] := by
  rw [appendHex_eq h]
  repeat' split
  all_goals simp

/-! ### The longest run of zeros -/

theorem zeros_spec (fs : List Nat) : List.replicate (zeros fs) 0 ++ fs.drop (zeros fs) = fs := by
  induction fs with
  | nil => rfl
  | cons x fs ih =>
    by_cases hx : x = 0
    · subst hx
      have : zeros (0 :: fs) = zeros fs + 1 := by simp [zeros]
      rw [this, List.replicate_succ, List.drop_succ_cons, List.cons_append, ih]
    · have : zeros (x :: fs) = 0 := by simp [zeros, hx]
      rw [this]
      rfl

theorem longestZeros_eq (fs : List Nat) :
    longestZeros fs = (0, 0) ∨ ∃ i, longestZeros fs = (i, zeros (fs.drop i)) := by
  refine List.foldlRecOn (motive := fun best => best = (0, 0) ∨ ∃ i, best = (i, zeros (fs.drop i)))
    _ _ (.inl rfl) fun best hb i _ => ?_
  split
  · exact .inr ⟨i, rfl⟩
  · exact hb

/-- What the text leaves out are zeros. -/
theorem longestZeros_spec (fs : List Nat) :
    fs = fs.take (longestZeros fs).1 ++ (List.replicate (longestZeros fs).2 0 ++
      fs.drop ((longestZeros fs).1 + (longestZeros fs).2)) := by
  rcases longestZeros_eq fs with h | ⟨i, h⟩ <;> rw [h]
  · simp
  · have := zeros_spec (fs.drop i)
    rw [List.drop_drop] at this
    simp only
    rw [this, List.take_append_drop]

/-! ### The fields of the text -/

/-- One side of the gap. -/
def side (fs : List Nat) : List Bytes := if fs = [] then [[]] else fs.map appendHex

/-- What stands between the colons of `string6`. -/
def parts (fs : List Nat) : List Bytes :=
  let (e, n) := longestZeros fs
  if n ≤ 1 then fs.map appendHex else side (fs.take e) ++ [] :: side (fs.drop (e + n))

theorem intercalate_append {sep : Bytes} {xs ys : List Bytes} (hx : xs ≠ []) (hy : ys ≠ []) :
    List.intercalate sep (xs ++ ys) =
      List.intercalate sep xs ++ (sep ++ List.intercalate sep ys) := by
  induction xs with
  | nil => exact absurd rfl hx
  | cons x xs ih =>
    cases xs with
    | nil =>
      obtain ⟨y, ys, rfl⟩ := List.exists_cons_of_ne_nil hy
      simp [List.intercalate_cons_cons]
    | cons x' xs =>
      have := ih (by simp)
      simp only [List.cons_append, List.intercalate_cons_cons, List.append_assoc] at this ⊢
      rw [this]

theorem side_ne_nil (fs : List Nat) : side fs ≠ [] := by
  unfold side
  split
  · simp
  · simpa using ‹_›

theorem intercalate_side (fs : List Nat) : List.intercalate [58] (side fs) = colons fs := by
  unfold side colons
  split
  · rename_i h; rw [h]; rfl
  · rfl

theorem string6_eq (fs : List Nat) : string6 fs = List.intercalate [58] (parts fs) := by
  unfold string6 parts
  simp only
  split
  · rfl
  · have hne : [] :: side (fs.drop ((longestZeros fs).1 + (longestZeros fs).2)) ≠ [] := by simp
    rw [intercalate_append (side_ne_nil _) hne, List.intercalate_cons_of_ne_nil (side_ne_nil _),
      intercalate_side, intercalate_side]
    simp

/-- The fields that `string6` was given. -/
def gap (ps : List Bytes) : List Nat :=
  let l := ps.takeWhile (· ≠ [])
  let r := (ps.reverse.takeWhile (· ≠ [])).reverse
  if l.length = ps.length then ps.map unhex
  else l.map unhex ++ (List.replicate (8 - l.length - r.length) 0 ++ r.map unhex)

section
variable {fs : List Nat}

theorem map_unhex (hb : ∀ f ∈ fs, f < 65536) : (fs.map appendHex).map unhex = fs := by
  rw [List.map_map]
  conv => rhs; rw [← List.map_id fs]
  exact List.map_congr_left fun f hf => unhex_appendHex (hb f hf)

theorem takeWhile_map (hb : ∀ f ∈ fs, f < 65536) (rest : List Bytes) :
    (fs.map appendHex ++ rest).takeWhile (· ≠ []) =
      fs.map appendHex ++ rest.takeWhile (· ≠ []) := by
  refine List.takeWhile_append_of_pos fun x hx => ?_
  obtain ⟨f, hf, rfl⟩ := List.mem_map.1 hx
  simpa using appendHex_ne_nil (hb f hf)

/-- The fields before the gap. -/
theorem takeWhile_side (hb : ∀ f ∈ fs, f < 65536) (rest : List Bytes) :
    (side fs ++ [] :: rest).takeWhile (· ≠ []) = fs.map appendHex := by
  unfold side
  split
  · rename_i h; rw [h]; rfl
  · rw [takeWhile_map hb]; simp

theorem side_reverse (fs : List Nat) : (side fs).reverse = side fs.reverse := by
  unfold side
  by_cases h : fs = []
  · simp [h]
  · simp [h]

theorem length_le_side (fs : List Nat) : fs.length ≤ (side fs).length := by
  unfold side
  split
  · rename_i h; simp [h]
  · simp

theorem gap_parts (hl : fs.length = 8) (hb : ∀ f ∈ fs, f < 65536) : gap (parts fs) = fs := by
  unfold parts
  simp only
  split
  · have := takeWhile_map hb []
    rw [List.append_nil] at this
    simp only [gap, this, List.takeWhile_nil, List.append_nil, if_true]
    exact map_unhex hb
  · have hspec := longestZeros_spec fs
    generalize hL : fs.take (longestZeros fs).1 = L at *
    generalize hR : fs.drop ((longestZeros fs).1 + (longestZeros fs).2) = R at *
    have hbL : ∀ f ∈ L, f < 65536 := fun f hf => hb f (by rw [← hL] at hf; exact List.mem_of_mem_take hf)
    have hbR : ∀ f ∈ R, f < 65536 := fun f hf => hb f (by rw [← hR] at hf; exact List.mem_of_mem_drop hf)
    have hleft := takeWhile_side hbL (side R)
    have hright : ((side L ++ [] :: side R).reverse.takeWhile (· ≠ [])).reverse = R.map appendHex := by
      have hrev : (side L ++ [] :: side R).reverse = side R.reverse ++ [] :: (side L).reverse := by
        simp [side_reverse]
      rw [hrev, takeWhile_side (fun f hf => hbR f (List.mem_reverse.1 hf))]
      simp
    have hne : L.length ≠ (side L ++ [] :: side R).length := by
      have := length_le_side L
      simp only [List.length_append, List.length_cons]
      omega
    have hn : 8 - L.length - R.length = (longestZeros fs).2 := by
      have := congrArg List.length hspec
      simp only [List.length_append, List.length_replicate, hl] at this
      omega
    simp only [gap, hleft, hright, List.length_map, if_neg hne, hn, map_unhex hbL, map_unhex hbR]
    exact hspec.symm

/-- What holds of nothing and of every field holds of the parts. -/
theorem forall_parts {P : Bytes → Prop} (hnil : P []) (hhex : ∀ f, P (appendHex f)) (fs : List Nat) :
    ∀ p ∈ parts fs, P p := by
  have hmap : ∀ (l : List Nat), ∀ p ∈ l.map appendHex, P p := by
    intro l p hp
    obtain ⟨f, -, rfl⟩ := List.mem_map.1 hp
    exact hhex f
  have hside : ∀ (l : List Nat), ∀ p ∈ side l, P p := by
    intro l p hp
    unfold side at hp
    split at hp
    · rw [List.mem_singleton] at hp
      rw [hp]
      exact hnil
    · exact hmap l p hp
  intro p hp
  unfold parts at hp
  simp only at hp
  split at hp
  · exact hmap fs p hp
  · rcases List.mem_append.1 hp with hp | hp
    · exact hside _ p hp
    · rcases List.mem_cons.1 hp with rfl | hp
      · exact hnil
      · exact hside _ p hp

theorem colon_not_mem_parts (fs : List Nat) : ∀ p ∈ parts fs, 46 ∉ p ∧ 58 ∉ p :=
  forall_parts (by simp) sep_not_mem_appendHex fs

theorem parts_ne_nil (hl : fs.length = 8) : parts fs ≠ [] := by
  unfold parts
  simp only
  split
  · intro h
    have := congrArg List.length h
    simp [hl] at this
  · simp

theorem string6_inj {fs' : List Nat} (hl : fs.length = 8) (hl' : fs'.length = 8)
    (hb : ∀ f ∈ fs, f < 65536) (hb' : ∀ f ∈ fs', f < 65536) (h : string6 fs = string6 fs') :
    fs = fs' := by
  rw [string6_eq, string6_eq] at h
  have hsplit := congrArg (List.splitOn 58) h
  rw [List.splitOn_intercalate 58 (fun p hp => (colon_not_mem_parts fs p hp).2) (parts_ne_nil hl),
    List.splitOn_intercalate 58 (fun p hp => (colon_not_mem_parts fs' p hp).2) (parts_ne_nil hl')]
    at hsplit
  rw [← gap_parts hl hb, hsplit, gap_parts hl' hb']

end

/-! ## Texts of addresses -/

theorem length_fields : ∀ {ip : IP} {n : Nat}, ip.length = 2 * n → (fields ip).length = n
  | [], n, h => by simp at h; simp [fields]; omega
  | [_], n, h => by simp at h; omega
  | _ :: _ :: ip, n, h => by
    have : ip.length = 2 * (n - 1) := by simp at h; omega
    simp only [fields, List.length_cons, length_fields this]
    simp at h
    omega

theorem fields_lt : ∀ {ip : IP}, ∀ f ∈ fields ip, f < 65536
  | [], f, h | [_], f, h => by simp [fields] at h
  | a :: b :: ip, f, h => by
    rcases List.mem_cons.1 h with rfl | h
    · have := a.toNat_lt
      have := b.toNat_lt
      omega
    · exact fields_lt f h

theorem fields_inj : ∀ {ip q : IP} {n : Nat}, ip.length = 2 * n → q.length = 2 * n →
    fields ip = fields q → ip = q
  | [], [], _, _, _, _ => rfl
  | [], _ :: _, n, h, h', _ => by simp at h h'; omega
  | [_], _, n, h, _, _ => by simp at h; omega
  | _ :: _ :: _, [], n, h, h', _ => by simp at h h'; omega
  | _ :: _ :: _, [_], n, _, h', _ => by simp at h'; omega
  | a :: b :: ip, c :: d :: q, n, h, h', he => by
    have hip : ip.length = 2 * (n - 1) := by simp at h; omega
    have hq : q.length = 2 * (n - 1) := by simp at h'; omega
    simp only [fields, List.cons.injEq] at he
    have hb := b.toNat_lt
    have hd := d.toNat_lt
    have hac : a.toNat = c.toNat := by omega
    have hbd : b.toNat = d.toNat := by omega
    rw [UInt8.toNat_inj.1 hac, UInt8.toNat_inj.1 hbd, fields_inj hip hq he.2]

theorem dotted_inj {a b : IP} (ha : a ≠ []) (hb : b ≠ []) (h : dotted a = dotted b) : a = b := by
  have hsep : ∀ (ip : IP), ∀ p ∈ ip.map ubtoa, 46 ∉ p := by
    intro ip p hp
    obtain ⟨v, -, rfl⟩ := List.mem_map.1 hp
    exact (sep_not_mem_ubtoa v).1
  have hsplit := congrArg (List.splitOn 46) h
  rw [dotted, dotted, List.splitOn_intercalate 46 (hsep a) (by simpa using ha),
    List.splitOn_intercalate 46 (hsep b) (by simpa using hb)] at hsplit
  exact List.map_injective_iff.2 (fun _ _ => ubtoa_inj) hsplit

theorem not_mem_intercalate {c s : UInt8} {ps : List Bytes} (hs : c ≠ s) (h : ∀ p ∈ ps, c ∉ p) :
    c ∉ List.intercalate [s] ps := by
  induction ps with
  | nil => simp
  | cons p ps ih =>
    have hp := h p (List.mem_cons_self ..)
    have ih := ih fun q hq => h q (List.mem_cons_of_mem _ hq)
    cases ps with
    | nil => simpa using hp
    | cons q ps =>
      rw [List.intercalate_cons_cons]
      simp only [List.append_assoc, List.mem_append, List.mem_singleton, not_or]
      exact ⟨hp, hs, ih⟩

theorem mem_intercalate {s : UInt8} {p q : Bytes} {ps : List Bytes} :
    s ∈ List.intercalate [s] (p :: q :: ps) := by
  rw [List.intercalate_cons_cons]
  simp

/-- A dotted text has no colon. -/
theorem colon_not_mem_dotted (ip : IP) : 58 ∉ dotted ip := by
  refine not_mem_intercalate (by decide) fun p hp => ?_
  obtain ⟨v, -, rfl⟩ := List.mem_map.1 hp
  exact (sep_not_mem_ubtoa v).2

theorem colon_mem_string6 {fs : List Nat} (hl : fs.length = 8) : 58 ∈ string6 fs := by
  unfold string6
  simp only
  split
  · obtain ⟨x, fs, rfl⟩ := List.exists_cons_of_length_pos (l := fs) (by omega)
    obtain ⟨y, fs, rfl⟩ := List.exists_cons_of_length_pos (l := fs) (by simp at hl; omega)
    exact mem_intercalate
  · simp

theorem dot_mem_dotted {a : IP} (h : a.length = 4) : 46 ∈ dotted a := by
  obtain ⟨x, a, rfl⟩ := List.exists_cons_of_length_pos (l := a) (by omega)
  obtain ⟨y, a, rfl⟩ := List.exists_cons_of_length_pos (l := a) (by simp at h; omega)
  exact mem_intercalate

/-! ## The canonical form of an address -/

/-- An address, in 4 bytes if it is an IPv4 one. -/
def canon (ip : IP) : IP := (to4 ip).getD ip

theorem to4_eq_some {ip a : IP} (h : to4 ip = some a) :
    a.length = 4 ∧ (ip = a ∨ ip = v4InV6Prefix ++ a) := by
  unfold to4 at h
  split at h
  · obtain rfl := Option.some.inj h
    exact ⟨‹_›, .inl rfl⟩
  · split at h
    · rename_i h16
      obtain rfl := Option.some.inj h
      refine ⟨by simp [h16.1], .inr ?_⟩
      rw [← h16.2, List.take_append_drop]
    · cases h

theorem to4_of_length {a : IP} (h : a.length = 4) : to4 a = some a := if_pos h

theorem to4_mapped {a : IP} (h : a.length = 4) : to4 (v4InV6Prefix ++ a) = some a := by
  have hp : v4InV6Prefix.length = 12 := rfl
  simp [to4, h, hp]

theorem to4_eq_none {ip : IP} (h : to4 ip = none) :
    ip.length ≠ 4 ∧ ∀ a, a.length = 4 → ip ≠ v4InV6Prefix ++ a := by
  constructor
  · intro hl
    rw [to4_of_length hl] at h
    cases h
  · rintro a ha rfl
    rw [to4_mapped ha] at h
    cases h

theorem canon_of_length {a : IP} (h : a.length = 4) : canon a = a := by
  rw [canon, to4_of_length h]
  rfl

theorem canon_mapped {a : IP} (h : a.length = 4) : canon (v4InV6Prefix ++ a) = a := by
  rw [canon, to4_mapped h]
  rfl

theorem canon_of_none {ip : IP} (h : to4 ip = none) : canon ip = ip := by
  rw [canon, h]
  rfl

theorem canon_nil : canon [] = [] := rfl

theorem canon_cases (ip : IP) : (canon ip).length = 4 ∨ to4 ip = none ∧ canon ip = ip := by
  cases h : to4 ip with
  | none => exact .inr ⟨rfl, canon_of_none h⟩
  | some a =>
    rw [canon, h]
    exact .inl (to4_eq_some h).1

/-- The canonical form tells the addresses of 16 bytes apart. -/
theorem canon_inj {p q : IP} (hp : p.length = 16) (hq : q.length = 16) (h : canon p = canon q) :
    p = q := by
  cases hp4 : to4 p with
  | some a =>
    obtain ⟨ha, rfl | rfl⟩ := to4_eq_some hp4
    · omega
    · cases hq4 : to4 q with
      | some b =>
        obtain ⟨hb, rfl | rfl⟩ := to4_eq_some hq4
        · omega
        · rw [canon_mapped ha, canon_mapped hb] at h
          rw [h]
      | none =>
        rw [canon_mapped ha, canon_of_none hq4] at h
        rw [h] at ha
        omega
  | none =>
    cases hq4 : to4 q with
    | some b =>
      obtain ⟨hb, -⟩ := to4_eq_some hq4
      rw [canon_of_none hp4, canon, hq4, Option.getD_some] at h
      rw [h] at hp
      omega
    | none => rwa [canon_of_none hp4, canon_of_none hq4] at h

/-- `To16` has the 16 bytes of an address. -/
theorem to16_eq_iff {p q : IP} (hp : p.length = 4 ∨ p.length = 16) (hq : q.length = 16) :
    to16 p = some q ↔ canon p = canon q := by
  rcases hp with hp | hp
  · have h16 : to16 p = some (v4InV6Prefix ++ p) := if_pos hp
    rw [h16, canon_of_length hp, Option.some.injEq]
    constructor
    · rintro rfl
      exact (canon_mapped hp).symm
    · intro h
      refine canon_inj (by simp [hp, v4InV6Prefix]) hq ?_
      rw [canon_mapped hp, h]
  · have h16 : to16 p = some p := by simp [to16, hp]
    rw [h16, Option.some.injEq]
    exact ⟨congrArg canon, canon_inj hp hq⟩

/-- The lengths of the addresses that `Mask` returns. -/
def Sized (ip : IP) : Prop := ip.length = 0 ∨ ip.length = 4 ∨ ip.length = 16

/-- The text of a canonical address: of none, of an IPv4 one, of an IPv6 one. -/
theorem string_eq {ip : IP} (h : Sized ip) :
    canon ip = [] ∧ string ip = ascii "<nil>" ∨
    (canon ip).length = 4 ∧ string ip = dotted (canon ip) ∨
    (canon ip).length = 16 ∧ string ip = string6 (fields (canon ip)) := by
  by_cases h0 : ip.length = 0
  · rw [List.length_eq_zero_iff.1 h0]
    exact .inl ⟨rfl, rfl⟩
  · cases h4 : to4 ip with
    | some a =>
      obtain ⟨ha, -⟩ := to4_eq_some h4
      have hc : canon ip = a := by rw [canon, h4]; rfl
      rw [hc]
      exact .inr (.inl ⟨ha, by simp only [string, if_neg h0, h4]⟩)
    | none =>
      have h16 : ip.length = 16 := by
        have := (to4_eq_none h4).1
        unfold Sized at h
        omega
      rw [canon_of_none h4]
      exact .inr (.inr ⟨h16, by simp [string, h16, h4]⟩)

theorem string_canon (ip : IP) : string (canon ip) = string ip := by
  cases h : to4 ip with
  | none => rw [canon_of_none h]
  | some a =>
    obtain ⟨ha, rfl | rfl⟩ := to4_eq_some h
    · rw [canon_of_length ha]
    · rw [canon_mapped ha]
      have hl : (v4InV6Prefix ++ a).length ≠ 0 := by simp [ha]
      simp only [string, h, to4_of_length ha, if_neg hl, ha]
      rfl

/-- Two addresses have the same text iff they are the same address. -/
theorem string_eq_iff {p q : IP} (hp : Sized p) (hq : Sized q) :
    string p = string q ↔ canon p = canon q := by
  constructor
  · -- the three kinds of text differ by their dots and colons
    intro h
    have hnil : 58 ∉ ascii "<nil>" ∧ 46 ∉ ascii "<nil>" := by decide
    rcases string_eq hp with ⟨cp, sp⟩ | ⟨cp, sp⟩ | ⟨cp, sp⟩ <;>
      rcases string_eq hq with ⟨cq, sq⟩ | ⟨cq, sq⟩ | ⟨cq, sq⟩ <;> rw [sp, sq] at h
    · rw [cp, cq]
    · exact absurd (h ▸ dot_mem_dotted cq) hnil.2
    · exact absurd (h ▸ colon_mem_string6 (length_fields cq)) hnil.1
    · exact absurd (h ▸ dot_mem_dotted cp) hnil.2
    · exact dotted_inj (List.ne_nil_of_length_pos (by omega)) (List.ne_nil_of_length_pos (by omega)) h
    · exact absurd (h ▸ colon_mem_string6 (length_fields cq)) (colon_not_mem_dotted _)
    · exact absurd (h ▸ colon_mem_string6 (length_fields cp)) hnil.1
    · exact absurd (h ▸ colon_mem_string6 (length_fields cp)) (colon_not_mem_dotted _)
    · exact fields_inj (n := 8) cp cq
        (string6_inj (length_fields cp) (length_fields cq) fields_lt fields_lt h)
  · intro h
    rw [← string_canon p, ← string_canon q, h]

end Net
