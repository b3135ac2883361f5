import Mathlib.Algebra.Order.Group.Int
import Mathlib.Data.Option.Basic
import Mathlib.Tactic.Common

/-!
# Signed arithmetic that notices overflow

A small library on fixed-width signed integers as the C standard has them: an
operation whose exact result does not fit has no result. Nothing here knows the
program, or the width.

* `Width` — a range of integers around zero. `Width.add`, `Width.sub`,
  `Width.mul`, `Width.neg` — the operations; `none` is undefined behaviour.
* `Width.sumOverflows` — the usual test before an addition. It is safe itself, and
  it is exact: `sumOverflows_eq`.
* `mul_ten_add_fits` — the usual guard of a digit loop.
-/

namespace Checked

/-- A range of integers that contains zero. -/
structure Width where
  /-- the least value -/
  lo : ℤ
  /-- the greatest value -/
  hi : ℤ
  lo_le : lo ≤ 0
  le_hi : 0 ≤ hi

namespace Width

variable (w : Width)

/-- The value can be represented. -/
def Fits (z : ℤ) : Prop := w.lo ≤ z ∧ z ≤ w.hi

instance (z : ℤ) : Decidable (w.Fits z) := inferInstanceAs (Decidable (_ ∧ _))

/-- The exact result, if it fits. -/
def checked (z : ℤ) : Option ℤ := if w.Fits z then some z else none

def add (a b : ℤ) : Option ℤ := w.checked (a + b)
def sub (a b : ℤ) : Option ℤ := w.checked (a - b)
def mul (a b : ℤ) : Option ℤ := w.checked (a * b)
def neg (a : ℤ) : Option ℤ := w.checked (-a)

variable {w}

theorem checked_of_fits {z : ℤ} (h : w.Fits z) : w.checked z = some z := if_pos h

theorem add_of_fits {a b : ℤ} (h : w.Fits (a + b)) : w.add a b = some (a + b) := checked_of_fits h

theorem neg_of_fits {a : ℤ} (h : w.Fits (-a)) : w.neg a = some (-a) := checked_of_fits h

/-- The upper bound less something positive fits. -/
theorem sub_hi {d : ℤ} (hd : w.Fits d) (hpos : 0 < d) : w.sub w.hi d = some (w.hi - d) := by
  have hlo := w.lo_le
  apply checked_of_fits
  exact ⟨by have := hd.2; omega, by omega⟩

/-- The lower bound less something negative fits. -/
theorem sub_lo {d : ℤ} (hd : w.Fits d) (hneg : d < 0) : w.sub w.lo d = some (w.lo - d) := by
  have hhi := w.le_hi
  apply checked_of_fits
  exact ⟨by omega, by have := hd.1; omega⟩

variable (w) in
/-- `(d > 0 && x > MAX - d) || (d < 0 && x < MIN - d)`, with its subtractions
checked. -/
def sumOverflows (x d : ℤ) : Option Bool :=
  if d > 0 then (w.sub w.hi d).map fun bound => decide (x > bound)
  else if d < 0 then (w.sub w.lo d).map fun bound => decide (x < bound)
  else some false

/-- **The test before an addition** never overflows, and it tells exactly whether
the addition would. -/
theorem sumOverflows_eq {x d : ℤ} (hx : w.Fits x) (hd : w.Fits d) :
    w.sumOverflows x d = some (decide (¬ w.Fits (x + d))) := by
  obtain ⟨hlow, hhigh⟩ := hx
  rw [sumOverflows]
  rcases lt_trichotomy d 0 with hneg | rfl | hpos
  · rw [if_neg (by omega), if_pos hneg, sub_lo hd hneg, Option.map_some]
    congr 1
    apply decide_eq_decide.mpr
    rw [Fits]
    omega
  · rw [if_neg (by omega), if_neg (by omega), Int.add_zero]
    congr 1
    exact (decide_eq_false (not_not_intro ⟨hlow, hhigh⟩)).symm
  · rw [if_pos hpos, sub_hi hd hpos, Option.map_some]
    congr 1
    apply decide_eq_decide.mpr
    rw [Fits]
    omega

/-- **The guard of a digit loop**: below it, shifting a number by a digit fits. -/
theorem mul_ten_add_fits {v d : ℤ} (hv : 0 ≤ v) (hguard : v ≤ (w.hi - 9) / 10) (hd : 0 ≤ d)
    (hd' : d ≤ 9) : w.mul v 10 = some (v * 10) ∧ w.add (v * 10) d = some (v * 10 + d) := by
  have hlo := w.lo_le
  constructor
  · apply checked_of_fits
    exact ⟨by omega, by omega⟩
  · apply checked_of_fits
    exact ⟨by omega, by omega⟩

end Width

end Checked
