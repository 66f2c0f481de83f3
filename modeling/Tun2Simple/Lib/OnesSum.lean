import Mathlib.Data.Nat.ModEq
import Tun2Simple.Lib.Bytes

/-!
# Sums of 16-bit words in one's complement

The sum of the 16-bit words of a list of bytes, least significant byte first, where an odd byte at the
end is a word of its own. In one's complement arithmetic 65535 is 0 with another sign, so a sum is known
modulo 65535, and 0 comes only from words that are all 0: `Rep w x` says that the word `w` stands for the
sum `x`. To exchange the bytes of a word is to multiply by 256 (`Rep.swap`), which is also what it means
for a list to start at an odd position (`sum_append`).
-/

namespace OnesSum

/-- The sum of the words. -/
def sum : Bytes → Nat
  | [] => 0
  | [a] => a.toNat
  | a :: b :: l => a.toNat + 256 * b.toNat + sum l

/-- The sum of the words, most significant byte first. -/
def netSum : Bytes → Nat
  | [] => 0
  | [a] => 256 * a.toNat
  | a :: b :: l => 256 * a.toNat + b.toNat + netSum l

/-- The word `w` stands for `x`. -/
structure Rep (w x : Nat) : Prop where
  lt : w < 65536
  mod : w % 65535 = x % 65535
  zero : w = 0 ↔ x = 0

/-- The word with its bytes exchanged. -/
def swap (w : Nat) : Nat := w % 256 * 256 + w / 256 % 256

/-- The upper half is added to the lower one. -/
def fold (u : Nat) : Nat := u / 65536 + u % 65536

namespace Rep

variable {w w' x y : Nat}

theorem unique (h : Rep w x) (h' : Rep w' x) : w = w' := by
  obtain ⟨h1, h2, h3⟩ := h
  obtain ⟨h1', h2', h3'⟩ := h'
  omega

theorem congr (h : Rep w x) (hm : x % 65535 = y % 65535) (hz : x = 0 ↔ y = 0) : Rep w y :=
  ⟨h.lt, h.mod.trans hm, h.zero.trans hz⟩

theorem swap (h : Rep w x) : Rep (swap w) (256 * x) := by
  have hlt := h.lt
  have hzero := h.zero
  have hmul : 256 * w % 65535 = 256 * x % 65535 := Nat.ModEq.mul_left 256 h.mod
  have hswap : 256 * w = OnesSum.swap w + 65535 * (w / 256) := by
    unfold OnesSum.swap
    omega
  refine ⟨?_, ?_, ?_⟩
  · unfold OnesSum.swap
    omega
  · rw [← hmul, hswap, Nat.add_mul_mod_self_left]
  · unfold OnesSum.swap
    omega

theorem add (h : Rep w x) (h' : Rep w' y) : Rep (fold (w + w')) (x + y) := by
  obtain ⟨h1, h2, h3⟩ := h
  obtain ⟨h1', h2', h3'⟩ := h'
  unfold fold
  exact ⟨by omega, by omega, by omega⟩

/-- Two folds are enough for 32 bits. -/
theorem fold_fold (h : x < 2 ^ 32) : Rep (fold (fold x)) x := by
  unfold fold
  exact ⟨by omega, by omega, by omega⟩

/-- The complement makes the sum 65535. -/
theorem compl_add (h : Rep w x) : (65535 - w + x) % 65535 = 0 ∧ 65535 - w + x ≠ 0 := by
  obtain ⟨h1, h2, h3⟩ := h
  exact ⟨by omega, by omega⟩

end Rep

/-! ## Sums of lists -/

theorem sum_cons_mod (a : UInt8) (l : Bytes) :
    sum (a :: l) % 65535 = (a.toNat + 256 * sum l) % 65535 := by
  induction l using sum.induct generalizing a with
  | case1 => rfl
  | case2 b => rfl
  | case3 b c l ih =>
    have hc := ih c
    rw [sum, sum]
    have hl := ih b
    omega

theorem sum_cons_eq_zero (a : UInt8) (l : Bytes) : sum (a :: l) = 0 ↔ a.toNat = 0 ∧ sum l = 0 := by
  induction l using sum.induct generalizing a with
  | case1 => simp [sum]
  | case2 b => simp [sum]
  | case3 b c l ih =>
    have hc := ih c
    rw [sum, sum]
    omega

/-- A list at an odd position has the bytes of its words exchanged. -/
theorem sum_append_mod (l l' : Bytes) :
    sum (l ++ l') % 65535 = (sum l + (if l.length % 2 = 0 then 1 else 256) * sum l') % 65535 := by
  induction l with
  | nil => simp [sum]
  | cons a l ih =>
    have h1 := sum_cons_mod a (l ++ l')
    have h2 := sum_cons_mod a l
    rw [List.cons_append, List.length_cons]
    rcases Nat.mod_two_eq_zero_or_one l.length with he | ho
    · rw [if_pos he] at ih
      rw [if_neg (by omega)]
      omega
    · rw [if_neg (by omega)] at ih
      rw [if_pos (by omega)]
      omega

theorem sum_append_eq_zero (l l' : Bytes) : sum (l ++ l') = 0 ↔ sum l = 0 ∧ sum l' = 0 := by
  induction l with
  | nil => simp [sum]
  | cons a l ih => rw [List.cons_append, sum_cons_eq_zero, sum_cons_eq_zero, ih, and_assoc]

theorem sum_le (l : Bytes) : sum l ≤ 65535 * ((l.length + 1) / 2) := by
  induction l using sum.induct with
  | case1 => exact Nat.zero_le _
  | case2 a =>
    have := a.toNat_lt
    rw [sum, List.length_singleton]
    omega
  | case3 a b l ih =>
    have := a.toNat_lt
    have := b.toNat_lt
    rw [sum, List.length_cons, List.length_cons]
    omega

/-- The order of the bytes in a word does not matter for a check. -/
theorem netSum_mod (l : Bytes) : netSum l % 65535 = 256 * sum l % 65535 := by
  induction l using sum.induct with
  | case1 => rfl
  | case2 a => rfl
  | case3 a b l ih =>
    rw [netSum, sum]
    omega

theorem netSum_eq_zero (l : Bytes) : netSum l = 0 ↔ sum l = 0 := by
  induction l using sum.induct with
  | case1 => exact Iff.rfl
  | case2 a =>
    rw [netSum, sum]
    omega
  | case3 a b l ih =>
    rw [netSum, sum]
    omega

end OnesSum
