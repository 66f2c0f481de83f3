import Mathlib.Data.List.Basic

/-!
# Go slices

A slice shows `len` elements of an array that goes on to the slice's capacity. Indexing stops at the
length, but slicing may go up to the capacity and so show elements from beyond the length. An
operation is `none` where Go panics.
-/

namespace Go

@[ext] structure Slice (α : Type) where
  /-- The array from the slice's first element on. -/
  mem : List α
  len : Nat
  le : len ≤ mem.length
deriving DecidableEq

namespace Slice

variable {α : Type} (s : Slice α)

def cap : Nat := s.mem.length

/-- The elements. -/
def toList : List α := s.mem.take s.len

/-- `s[i]`. -/
def get (i : Nat) : Option α := if i < s.len then s.mem[i]? else none

/-- `s[lo:hi]`. -/
def slice (lo hi : Nat) : Option (Slice α) :=
  if h : lo ≤ hi ∧ hi ≤ s.cap then
    some ⟨s.mem.drop lo, hi - lo, by rw [List.length_drop]; exact Nat.sub_le_sub_right h.2 lo⟩
  else none

/-- `s[lo:]`. -/
def from_ (lo : Nat) : Option (Slice α) := s.slice lo s.len

theorem len_le_cap : s.len ≤ s.cap := s.le

/-- A slice of a list, with what lies behind it. -/
def ofList (xs tail : List α) : Slice α := ⟨xs ++ tail, xs.length, by simp⟩

theorem get_eq_some {i : Nat} (h : i < s.len) : ∃ x, s.get i = some x ∧ s.mem[i]? = some x := by
  have hi : i < s.mem.length := Nat.lt_of_lt_of_le h s.le
  exact ⟨s.mem[i], by simp [get, h, hi], by simp [hi]⟩

theorem get_of_le {i : Nat} (h : s.len ≤ i) : s.get i = none := if_neg (Nat.not_lt.2 h)

/-- A slicing in range: it starts `lo` further on in the same array. -/
theorem slice_eq_some {i j : Nat} (h : i ≤ j) (hc : j ≤ s.cap) :
    ∃ t, s.slice i j = some t ∧ t.mem = s.mem.drop i ∧ t.len = j - i :=
  ⟨_, dif_pos ⟨h, hc⟩, rfl, rfl⟩

theorem slice_eq_none {lo hi : Nat} (h : ¬ (lo ≤ hi ∧ hi ≤ s.cap)) : s.slice lo hi = none := dif_neg h

/-- What a slicing in range gives. -/
theorem slice_spec {s t : Slice α} {lo hi : Nat} (h : s.slice lo hi = some t) :
    lo ≤ hi ∧ hi ≤ s.cap ∧ t.mem = s.mem.drop lo ∧ t.len = hi - lo ∧ t.cap = s.cap - lo := by
  by_cases hr : lo ≤ hi ∧ hi ≤ s.cap
  · obtain ⟨t', ht, hm, hl⟩ := s.slice_eq_some hr.1 hr.2
    cases h.symm.trans ht
    exact ⟨hr.1, hr.2, hm, hl, by rw [cap, cap, hm, List.length_drop]⟩
  · rw [s.slice_eq_none hr] at h
    cases h

/-- A slice of a slice is a slice of the array. -/
theorem slice_slice {s t : Slice α} {lo hi : Nat} (h : s.slice lo hi = some t) (a b : Nat) :
    t.slice a b = s.slice (lo + a) (lo + b) := by
  obtain ⟨h1, h2, hm, -, hcap⟩ := slice_spec h
  by_cases hr : a ≤ b ∧ b ≤ t.cap
  · obtain ⟨x, hx, xm, xl⟩ := t.slice_eq_some hr.1 hr.2
    obtain ⟨y, hy, ym, yl⟩ := s.slice_eq_some (i := lo + a) (j := lo + b) (by omega) (by omega)
    have hxy : x = y := by
      apply Slice.ext
      · rw [xm, ym, hm, List.drop_drop]
      · omega
    rw [hx, hy, hxy]
  · rw [t.slice_eq_none hr, s.slice_eq_none (by omega)]

/-! ## Slices of lists -/

@[simp] theorem ofList_len (xs tail : List α) : (ofList xs tail).len = xs.length := rfl

theorem ofList_get (xs tail : List α) (i : Nat) : (ofList xs tail).get i = xs[i]? := by
  unfold get
  split
  · rename_i h
    exact List.getElem?_append_left h
  · rename_i h
    exact (List.getElem?_eq_none (Nat.not_lt.1 h)).symm

/-- Every slice is one of its elements, with the rest of its array behind them. -/
theorem ofList_toList : ofList s.toList (s.mem.drop s.len) = s := by
  apply Slice.ext
  · exact List.take_append_drop ..
  · show (s.mem.take s.len).length = s.len
    rw [List.length_take, Nat.min_eq_left s.le]

theorem ofList_slice (xs tail : List α) {lo hi : Nat} (h : lo ≤ hi) (hx : hi ≤ xs.length) :
    ∃ t, (ofList xs tail).slice lo hi = some t ∧ t.toList = (xs.drop lo).take (hi - lo) := by
  obtain ⟨t, ht, hm, hl⟩ := (ofList xs tail).slice_eq_some h (Nat.le_trans hx (ofList xs tail).le)
  refine ⟨t, ht, ?_⟩
  rw [toList, hm, hl]
  show ((xs ++ tail).drop lo).take (hi - lo) = _
  rw [List.drop_append_of_le_length (by omega), List.take_append_of_le_length]
  rw [List.length_drop]
  omega

end Slice

end Go
