import Mathlib.Data.BitVec
import Mathlib.Tactic.Abel

/-!
# Serial numbers

Numbers of `w` bits that count on beyond their range, like the sequence numbers of TCP or a clock of
milliseconds. Two of them are compared by the sign of their difference, which is right as long as
what they stand for is less than half the range apart. `at_ base x` is the number that stands for
position `x` of a count that starts at `base`; the lemmas turn comparisons of such numbers into
comparisons of positions.
-/

namespace Serial

variable {w : Nat}

/-- The difference is negative. -/
def lt (a b : BitVec w) : Bool := (a - b).toInt < 0

def le (a b : BitVec w) : Bool := (a - b).toInt ≤ 0

def gt (a b : BitVec w) : Bool := 0 < (a - b).toInt

def ge (a b : BitVec w) : Bool := 0 ≤ (a - b).toInt

/-- `b ≤ a ≤ c`. -/
def between (a b c : BitVec w) : Bool := ge a b && le a c

/-- The number of position `x`. -/
def at_ (base : BitVec w) (x : Nat) : BitVec w := base + BitVec.ofNat w x

theorem at_zero (base : BitVec w) : at_ base 0 = base := BitVec.add_zero base

theorem at_add (base : BitVec w) (x n : Nat) : at_ base x + BitVec.ofNat w n = at_ base (x + n) := by
  rw [at_, at_, BitVec.add_assoc, ← BitVec.ofNat_add]

/-- The difference of two positions. -/
theorem at_sub_at (base : BitVec w) {x y : Nat} (h : y ≤ x) :
    at_ base x - at_ base y = BitVec.ofNat w (x - y) := by
  have hx : at_ base x = at_ base y + BitVec.ofNat w (x - y) := by
    rw [at_add, Nat.add_sub_cancel' h]
  rw [hx, BitVec.add_comm]
  exact BitVec.add_sub_cancel _ _

theorem toNat_at_sub_at (base : BitVec w) {x y : Nat} (h : y ≤ x) (hlt : x < y + 2 ^ w) :
    (at_ base x - at_ base y).toNat = x - y := by
  rw [at_sub_at base h, BitVec.toNat_ofNat, Nat.mod_eq_of_lt (by omega)]

/-- The signed difference of two positions that are less than half the range apart. -/
theorem toInt_at_sub_at (base : BitVec w) {x y : Nat} (h1 : 2 * x < 2 * y + 2 ^ w)
    (h2 : 2 * y < 2 * x + 2 ^ w) : (at_ base x - at_ base y).toInt = (x : Int) - y := by
  rcases Nat.le_total y x with h | h
  · rw [at_sub_at base h, BitVec.toInt_ofNat', Int.bmod_eq_of_le_mul_two] <;> omega
  · have hneg : at_ base x - at_ base y = -(at_ base y - at_ base x) := by
      rw [BitVec.neg_sub, BitVec.add_comm, BitVec.sub_eq_add_neg]
    rw [hneg, at_sub_at base h, BitVec.toInt_neg, BitVec.toInt_ofNat', Int.bmod_neg_bmod,
      Int.bmod_eq_of_le_mul_two] <;> omega

section Compare

variable (base : BitVec w) {x y : Nat} (h1 : 2 * x < 2 * y + 2 ^ w) (h2 : 2 * y < 2 * x + 2 ^ w)
include h1 h2

theorem lt_at : lt (at_ base x) (at_ base y) = decide (x < y) := by
  rw [lt, toInt_at_sub_at base h1 h2, decide_eq_decide]
  omega

theorem le_at : le (at_ base x) (at_ base y) = decide (x ≤ y) := by
  rw [le, toInt_at_sub_at base h1 h2, decide_eq_decide]
  omega

theorem gt_at : gt (at_ base x) (at_ base y) = decide (y < x) := by
  rw [gt, toInt_at_sub_at base h1 h2, decide_eq_decide]
  omega

theorem ge_at : ge (at_ base x) (at_ base y) = decide (y ≤ x) := by
  rw [ge, toInt_at_sub_at base h1 h2, decide_eq_decide]
  omega

theorem at_inj : at_ base x = at_ base y ↔ x = y := by
  refine ⟨fun h => ?_, fun h => h ▸ rfl⟩
  have hd := toInt_at_sub_at base h1 h2
  rw [h, BitVec.sub_self, BitVec.toInt_zero] at hd
  omega

end Compare

/-- `x < y`, where the number before `y` is compared; there may be no position before `y`. -/
theorem le_at_sub_one (base : BitVec w) {x y : Nat} (h1 : 2 * (x + 1) < 2 * y + 2 ^ w)
    (h2 : 2 * y < 2 * (x + 1) + 2 ^ w) : le (at_ base x) (at_ base y - 1) = decide (x < y) := by
  have hd : at_ base x - (at_ base y - 1) = at_ base (x + 1) - at_ base y := by
    rw [← at_add, show BitVec.ofNat w 1 = 1 from rfl]
    abel
  rw [le, hd, toInt_at_sub_at base h1 h2, decide_eq_decide]
  omega

end Serial
