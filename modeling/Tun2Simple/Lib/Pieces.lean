import Mathlib.Algebra.Order.Ring.Nat
import Mathlib.Data.List.Basic

/-!
# Pieces of a list

A piece says from which position on its elements belong. Pieces that are parts of one list and follow
each other without a gap make up that list again (`glue_eq`); pieces in order that do not overlap
have no gap exactly if they have as many elements as there is room for (`gapless_of_total`).
-/

namespace Pieces

variable {α : Type}

structure Piece (α : Type) where
  start : Nat
  data : List α
  deriving DecidableEq, Repr

/-- The position after the last element. -/
def Piece.stop (p : Piece α) : Nat := p.start + p.data.length

/-- `p` is a part of `B`. -/
def Piece.PartOf (p : Piece α) (B : List α) : Prop :=
  p.data = (B.drop p.start).take p.data.length ∧ p.stop ≤ B.length

instance [DecidableEq α] (p : Piece α) (B : List α) : Decidable (p.PartOf B) :=
  inferInstanceAs (Decidable (_ ∧ _))

/-- In order from `lo` on, without an overlap. -/
def Ascending : Nat → List (Piece α) → Prop
  | _, [] => True
  | lo, p :: ps => lo ≤ p.start ∧ Ascending p.stop ps

/-- Each piece starts where the one before ends, the first one at `a`. -/
def gapless : Nat → List (Piece α) → Bool
  | _, [] => true
  | a, p :: ps => p.start == a && gapless p.stop ps

/-- Where the last piece ends. -/
def stopOf : Nat → List (Piece α) → Nat
  | a, [] => a
  | _, p :: ps => stopOf p.stop ps

def glue (ps : List (Piece α)) : List α := ps.flatMap Piece.data

def total (ps : List (Piece α)) : Nat := (ps.map fun p => p.data.length).sum

@[simp] theorem glue_nil : glue ([] : List (Piece α)) = [] := rfl

@[simp] theorem glue_cons (p : Piece α) (ps : List (Piece α)) : glue (p :: ps) = p.data ++ glue ps := rfl

@[simp] theorem total_nil : total ([] : List (Piece α)) = 0 := rfl

@[simp] theorem total_cons (p : Piece α) (ps : List (Piece α)) :
    total (p :: ps) = p.data.length + total ps := rfl

theorem Ascending.mono {lo lo' : Nat} {ps : List (Piece α)} (h : Ascending lo ps) (hle : lo' ≤ lo) :
    Ascending lo' ps := by
  cases ps with
  | nil => trivial
  | cons p ps => exact ⟨Nat.le_trans hle h.1, h.2⟩

/-- A last piece ends where all end. -/
theorem exists_stop_eq {ps : List (Piece α)} (h : ps ≠ []) (a : Nat) : ∃ p ∈ ps, p.stop = stopOf a ps := by
  induction ps generalizing a with
  | nil => exact absurd rfl h
  | cons p ps ih =>
    by_cases hps : ps = []
    · subst hps
      exact ⟨p, List.mem_cons_self .., rfl⟩
    · obtain ⟨q, hq, hs⟩ := ih hps p.stop
      exact ⟨q, List.mem_cons_of_mem _ hq, hs⟩

/-- Without a gap the pieces are as long as the way from the first to the last. -/
theorem stopOf_of_gapless {a : Nat} {ps : List (Piece α)} (h : gapless a ps = true) :
    stopOf a ps = a + total ps := by
  induction ps generalizing a with
  | nil => rfl
  | cons p ps ih =>
    simp only [gapless, Bool.and_eq_true, beq_iff_eq] at h
    rw [stopOf, ih h.2, total_cons, Piece.stop, h.1, Nat.add_assoc]

theorem stop_le_of_gapless {a : Nat} {ps : List (Piece α)} (h : gapless a ps = true) {p : Piece α}
    (hp : p ∈ ps) : p.stop ≤ a + total ps := by
  induction ps generalizing a with
  | nil => cases hp
  | cons q ps ih =>
    simp only [gapless, Bool.and_eq_true, beq_iff_eq] at h
    obtain ⟨rfl, h⟩ := h
    rw [total_cons, ← Nat.add_assoc]
    rcases List.mem_cons.1 hp with rfl | hp
    · exact Nat.le_add_right _ _
    · exact ih h hp

/-- Parts of `B` without a gap make up `B`. -/
theorem glue_eq {B : List α} {a : Nat} {ps : List (Piece α)} (hp : ∀ p ∈ ps, p.PartOf B)
    (h : gapless a ps = true) : glue ps = (B.drop a).take (total ps) := by
  induction ps generalizing a with
  | nil => simp
  | cons p ps ih =>
    simp only [gapless, Bool.and_eq_true, beq_iff_eq] at h
    obtain ⟨rfl, h⟩ := h
    obtain ⟨hdata, -⟩ := hp p (List.mem_cons_self ..)
    have hrest := ih (fun q hq => hp q (List.mem_cons_of_mem _ hq)) h
    have hdrop : B.drop p.stop = (B.drop p.start).drop p.data.length := by
      rw [List.drop_drop, Piece.stop]
    rw [glue_cons, total_cons, hrest, hdrop, List.take_add, ← hdata]

/-- What does not overlap fits. -/
theorem total_le {lo hi : Nat} {ps : List (Piece α)} (h : Ascending lo ps) (hlo : lo ≤ hi)
    (hhi : ∀ p ∈ ps, p.stop ≤ hi) : lo + total ps ≤ hi := by
  induction ps generalizing lo with
  | nil => exact hlo
  | cons p ps ih =>
    have hp := hhi p (List.mem_cons_self ..)
    have := ih h.2 hp fun q hq => hhi q (List.mem_cons_of_mem _ hq)
    have := h.1
    rw [total_cons]
    unfold Piece.stop at *
    omega

/-- Pieces that fill the room from `lo` to `hi` have no gap. -/
theorem gapless_of_total {lo hi : Nat} {ps : List (Piece α)} (h : Ascending lo ps) (hlo : lo ≤ hi)
    (hhi : ∀ p ∈ ps, p.stop ≤ hi) (ht : lo + total ps = hi) : gapless lo ps = true := by
  induction ps generalizing lo with
  | nil => rfl
  | cons p ps ih =>
    have hp := hhi p (List.mem_cons_self ..)
    have hps : ∀ q ∈ ps, q.stop ≤ hi := fun q hq => hhi q (List.mem_cons_of_mem _ hq)
    have hle := total_le h.2 hp hps
    have hstart := h.1
    rw [total_cons] at ht
    have heq : p.start = lo := by
      unfold Piece.stop at hle
      omega
    rw [gapless, heq, beq_self_eq_true, Bool.true_and]
    refine ih h.2 hp hps ?_
    rw [Piece.stop]
    omega

end Pieces
