import Mathlib.Data.List.Induction
import Tun2Simple.Stack.Bypass

/-!
# What the lists of networks decide

`mem_loadMasks`: the map of a text has the masks of those lines whose address no later line repeats.
With `Net.string_mask_iff` a lookup finds exactly the effective lines (`hits_loadMasks`).
-/

namespace Stack

open Net

theorem loadMasks_eq (ips : Bytes) :
    loadMasks ips = (cidrs ips).foldl (fun masks l => masks.insert (string l.1) l.2.mask) ∅ := by
  rw [loadMasks, cidrs, List.foldl_filterMap]
  congr 1
  funext masks cidr
  cases parseCIDR cidr <;> rfl

/-- The last line with a key gives its mask. -/
theorem mem_foldl_insert (ls : List Cidr) (k : Bytes) (m : IPMask) :
    ⟨k, m⟩ ∈ (ls.foldl (fun (masks : StrMap IPMask) l => masks.insert (string l.1) l.2.mask) ∅).entries ↔
      ∃ before l after, ls = before ++ l :: after ∧ string l.1 = k ∧ l.2.mask = m ∧
        ∀ l' ∈ after, string l'.1 ≠ k := by
  rw [← AList.mem_lookup_iff, Option.mem_def]
  induction ls using List.reverseRecOn with
  | nil => simp
  | append_singleton ls l ih =>
    rw [List.foldl_append, List.foldl_cons, List.foldl_nil]
    by_cases hk : string l.1 = k
    · rw [← hk, AList.lookup_insert, Option.some.injEq]
      constructor
      · intro hm
        exact ⟨ls, l, [], rfl, rfl, hm, by simp⟩
      · rintro ⟨before, l', after, he, -, hm, hafter⟩
        rcases List.eq_nil_or_concat after with rfl | ⟨after, z, rfl⟩
        · obtain ⟨-, hl⟩ := List.append_inj' he rfl
          rwa [List.singleton_inj.1 hl]
        · rw [List.concat_eq_append, ← List.cons_append, ← List.append_assoc] at he
          obtain ⟨-, hl⟩ := List.append_inj' he rfl
          exact absurd (by rw [List.singleton_inj.1 hl]) (hafter z (by simp))
    · rw [AList.lookup_insert_ne (Ne.symm hk), ih]
      constructor
      · rintro ⟨before, l', after, rfl, hl, hm, hafter⟩
        refine ⟨before, l', after ++ [l], by simp, hl, hm, fun z hz => ?_⟩
        rcases List.mem_append.1 hz with hz | hz
        · exact hafter z hz
        · rwa [List.mem_singleton.1 hz]
      · rintro ⟨before, l', after, he, hl, hm, hafter⟩
        rcases List.eq_nil_or_concat after with rfl | ⟨after, z, rfl⟩
        · obtain ⟨-, hl'⟩ := List.append_inj' he rfl
          exact absurd (List.singleton_inj.1 hl' ▸ hl) hk
        · rw [List.concat_eq_append, ← List.cons_append, ← List.append_assoc] at he
          obtain ⟨he, -⟩ := List.append_inj' he rfl
          exact ⟨before, l', after, he, hl, hm, fun y hy => hafter y (by simp [hy])⟩

theorem cidrs_parsed {ips : Bytes} {l : Cidr} (h : l ∈ cidrs ips) : Parsed l.1 l.2 := by
  obtain ⟨line, -, h⟩ := List.mem_filterMap.1 h
  exact parseCIDR_spec h

/-- The addresses of the lines have the same text iff they are the same. -/
theorem string_line (ips : Bytes) {l l' : Cidr} (h : l ∈ cidrs ips) (h' : l' ∈ cidrs ips) :
    string l.1 = string l'.1 ↔ l.1 = l'.1 := by
  have hl := (cidrs_parsed h).length
  have hl' := (cidrs_parsed h').length
  rw [string_eq_iff (.inr (.inr hl)) (.inr (.inr hl'))]
  exact ⟨canon_inj hl hl', congrArg canon⟩

/-- The map of a text has the masks of the lines whose address is not repeated. -/
theorem mem_loadMasks {ips : Bytes} {k : Bytes} {m : IPMask} :
    ⟨k, m⟩ ∈ (loadMasks ips).entries ↔
      ∃ l, LastOf (cidrs ips) l ∧ string l.1 = k ∧ l.2.mask = m := by
  rw [loadMasks_eq, mem_foldl_insert]
  constructor
  · rintro ⟨before, l, after, he, rfl, hm, hafter⟩
    exact ⟨l, ⟨before, after, he, fun l' hl' hs => hafter l' hl' (by rw [hs])⟩, rfl, hm⟩
  · rintro ⟨l, ⟨before, after, he, hafter⟩, rfl, hm⟩
    refine ⟨before, l, after, he, rfl, hm, fun l' hl' hs => hafter l' hl' ?_⟩
    exact (string_line ips (by simp [he, hl']) (by simp [he])).1 hs

theorem LastOf.mem {ls : List Cidr} {l : Cidr} (h : LastOf ls l) : l ∈ ls := by
  obtain ⟨before, after, rfl, -⟩ := h
  simp

theorem loadMasks_empty_iff {ips : Bytes} : (loadMasks ips).entries.length = 0 ↔ cidrs ips = [] := by
  constructor
  · intro h
    rcases List.eq_nil_or_concat (cidrs ips) with h0 | ⟨before, l, he⟩
    · exact h0
    · rw [List.concat_eq_append] at he
      have : (⟨string l.1, l.2.mask⟩ : Sigma fun _ : Bytes => IPMask) ∈ (loadMasks ips).entries :=
        mem_loadMasks.2 ⟨l, ⟨before, [], he, by simp⟩, rfl, rfl⟩
      rw [List.length_eq_zero_iff.1 h] at this
      cases this
  · intro h
    rw [loadMasks_eq, h]
    rfl

/-- A lookup finds the effective lines. -/
theorem hits_loadMasks {ips : Bytes} {x a : IP} (hx : to4 x = some a) :
    hits (loadMasks ips) x = true ↔
      ∃ l, Effective ips l ∧ (l.2.contains x = true ∨ l.2.coversMapped x = true) := by
  simp only [hits, List.any_eq_true, decide_eq_true_eq]
  constructor
  · rintro ⟨⟨k, m⟩, he, h⟩
    obtain ⟨l, hl, rfl, rfl⟩ := mem_loadMasks.1 he
    obtain ⟨hb, h⟩ := (string_mask_iff (cidrs_parsed hl.mem) hx).1 h
    exact ⟨l, ⟨hl, hb⟩, h⟩
  · rintro ⟨l, ⟨hl, hb⟩, h⟩
    exact ⟨⟨string l.1, l.2.mask⟩, mem_loadMasks.2 ⟨l, hl, rfl, rfl⟩,
      (string_mask_iff (cidrs_parsed hl.mem) hx).2 ⟨hb, h⟩⟩

theorem hits_iff_listed {ips : Bytes} {x a : IP} (hx : to4 x = some a) :
    (hits (loadMasks ips) x = true ↔ Listed ips x) ↔ Decided ips x := by
  rw [hits_loadMasks hx]
  constructor
  · intro h
    exact ⟨h.2, fun l hl hc => h.1 ⟨l, hl, .inr hc⟩⟩
  · intro h
    refine ⟨?_, h.effective⟩
    rintro ⟨l, hl, hc | hc⟩
    · exact ⟨l, hl.1.mem, hc⟩
    · exact h.mapped l hl hc

/-- **The lists and the networks of their lines.** With global mode off and at least one valid line,
a list tells whether an IPv4 address is in the network of a line exactly for the addresses it
decides. -/
theorem list_exact (bp : IpRules) (ips : Bytes) (x : IP) (hg : bp.global = false)
    (hv : cidrs ips ≠ []) (hx : (to4 x).isSome) :
    (((bp.loadInners ips).isInnerIP x = true ↔ Listed ips x) ↔ Decided ips x) ∧
      (((bp.loadMustHits ips).isMustHits x = true ↔ Listed ips x) ↔ Decided ips x) := by
  obtain ⟨a, ha⟩ := Option.isSome_iff_exists.1 hx
  have hne : (loadMasks ips).entries.length ≠ 0 := fun h => hv (loadMasks_empty_iff.1 h)
  have hinner : (bp.loadInners ips).isInnerIP x = hits (loadMasks ips) x := by
    simp only [IpRules.isInnerIP, IpRules.loadInners, hne, hg, if_false, Bool.false_eq_true]
  have hmust : (bp.loadMustHits ips).isMustHits x = hits (loadMasks ips) x := by
    simp only [IpRules.isMustHits, IpRules.loadMustHits, hne, hg, if_false, Bool.false_eq_true]
  rw [hinner, hmust]
  exact ⟨hits_iff_listed ha, hits_iff_listed ha⟩

/-- Two lines, the first with host bits, and an address of both networks. -/
theorem list_exact_private :
    (newIpRules.loadInners (ascii "10.1.0.5/16\n10.0.0.0/8")).isInnerIP
        (v4InV6Prefix ++ [10, 1, 2, 3]) = true ↔
      Listed (ascii "10.1.0.5/16\n10.0.0.0/8") (v4InV6Prefix ++ [10, 1, 2, 3]) := by
  have hl : Listed (ascii "10.1.0.5/16\n10.0.0.0/8") (v4InV6Prefix ++ [10, 1, 2, 3]) :=
    ⟨(v4InV6Prefix ++ [10, 0, 0, 0], ⟨[10, 0, 0, 0], [255, 0, 0, 0]⟩), by decide, by decide⟩
  refine (list_exact newIpRules _ (v4InV6Prefix ++ [10, 1, 2, 3]) rfl (by decide) (by decide)).1.2
    ⟨fun _ => ?_, fun _ _ _ => hl⟩
  exact ⟨(v4InV6Prefix ++ [10, 0, 0, 0], ⟨[10, 0, 0, 0], [255, 0, 0, 0]⟩),
    ⟨⟨[(v4InV6Prefix ++ [10, 1, 0, 5], ⟨[10, 1, 0, 0], [255, 255, 0, 0]⟩)], [], by decide, by simp⟩,
      by rfl⟩, .inl (by decide)⟩

/-- An address with host bits, and a line that repeats the address of the one before with a longer
prefix: neither list finds an address of the first line's network. -/
theorem host_bits_missed :
    (Listed (ascii "10.0.0.5/8") (v4InV6Prefix ++ [10, 1, 2, 3]) ∧
      (newIpRules.loadInners (ascii "10.0.0.5/8")).isInnerIP
        (v4InV6Prefix ++ [10, 1, 2, 3]) = false ∧
      (newIpRules.loadMustHits (ascii "10.0.0.5/8")).isMustHits
        (v4InV6Prefix ++ [10, 1, 2, 3]) = false) ∧
    Listed (ascii "10.0.0.0/8\n10.0.0.0/16") (v4InV6Prefix ++ [10, 1, 2, 3]) ∧
      (newIpRules.loadInners (ascii "10.0.0.0/8\n10.0.0.0/16")).isInnerIP
        (v4InV6Prefix ++ [10, 1, 2, 3]) = false ∧
      (newIpRules.loadMustHits (ascii "10.0.0.0/8\n10.0.0.0/16")).isMustHits
        (v4InV6Prefix ++ [10, 1, 2, 3]) = false := by
  refine ⟨⟨?_, by decide, by decide⟩, ?_, by decide, by decide⟩
  · exact ⟨(v4InV6Prefix ++ [10, 0, 0, 5], ⟨[10, 0, 0, 0], [255, 0, 0, 0]⟩), by decide, by decide⟩
  · exact ⟨(v4InV6Prefix ++ [10, 0, 0, 0], ⟨[10, 0, 0, 0], [255, 0, 0, 0]⟩), by decide, by decide⟩

end Stack
