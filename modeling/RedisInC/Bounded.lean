import Mathlib.Data.List.TakeWhile
import Mathlib.Tactic.Common

/-!
# Array access that notices its bounds

A small library on arrays that are read by index, and on the unsigned arithmetic of
indices. What would leave an array or wrap around has no result, and neither has a
loop that is not done within the rounds it is given. Nothing here knows what the
arrays hold.

* `add`, `sub`, `mul` — unsigned arithmetic up to a greatest value.
* `slice`, `push` — a part of an array; one more entry in an array of fixed size.
* `scan` — `while (i < limit && p(xs[i])) i++`. It stops behind the run of entries
  with the property: `scan_eq`.
* `each` — `for (; i < n; i++) body(xs[i])`. It is a fold: `each_eq`.
* `Machine` — steps that can go wrong, and an invariant under which they do not.
  Then no run goes wrong: `Machine.run_valid`.
-/

namespace Bounded

universe u v

variable {α : Type u} {σ : Type v}

/-! ## Arithmetic -/

/-- The sum, if it is not beyond the greatest value. -/
def add (max a b : ℕ) : Option ℕ := if a + b ≤ max then some (a + b) else none

/-- The difference, unless it is negative. -/
def sub (a b : ℕ) : Option ℕ := if b ≤ a then some (a - b) else none

/-- The product, if it is not beyond the greatest value. -/
def mul (max a b : ℕ) : Option ℕ := if a * b ≤ max then some (a * b) else none

theorem add_of_le {max a b : ℕ} (h : a + b ≤ max) : add max a b = some (a + b) := if_pos h

theorem sub_of_le {a b : ℕ} (h : b ≤ a) : sub a b = some (a - b) := if_pos h

theorem mul_of_le {max a b : ℕ} (h : a * b ≤ max) : mul max a b = some (a * b) := if_pos h

/-! ## Parts and slots -/

/-- `len` entries from `start` on, if the array has them. -/
def slice (xs : List α) (start len : ℕ) : Option (List α) :=
  if start + len ≤ xs.length then some ((xs.drop start).take len) else none

theorem slice_of_le {xs : List α} {start len : ℕ} (h : start + len ≤ xs.length) :
    slice xs start len = some ((xs.drop start).take len) := if_pos h

/-- One more entry, if there is a free slot. -/
def push (slots : ℕ) (xs : List α) (x : α) : Option (List α) :=
  if xs.length < slots then some (xs ++ [x]) else none

theorem push_of_lt {slots : ℕ} {xs : List α} (x : α) (h : xs.length < slots) :
    push slots xs x = some (xs ++ [x]) := if_pos h

/-- What is read inside the array is the head of what is left there. -/
theorem drop_eq_cons {xs : List α} {i : ℕ} (h : i < xs.length) :
    ∃ x, xs[i]? = some x ∧ xs.drop i = x :: xs.drop (i + 1) :=
  ⟨xs[i], List.getElem?_eq_getElem h, List.drop_eq_getElem_cons h⟩

/-! ## Loops -/

/-- `while (i < limit && p(xs[i])) i++`: the index it stops at. -/
def scan (p : α → Bool) (xs : List α) (limit : ℕ) : ℕ → ℕ → Option ℕ
  | 0, _ => none
  | rounds + 1, i =>
    if i < limit then
      (xs[i]?).bind fun x => if p x then scan p xs limit rounds (i + 1) else some i
    else some i

/-- **A scan** reads inside the array, and stops behind the run of entries that have
the property. -/
theorem scan_eq {p : α → Bool} {xs : List α} {limit rounds i : ℕ} (hlimit : limit ≤ xs.length)
    (hi : i ≤ limit) (hrounds : limit < i + rounds) :
    scan p xs limit rounds i = some (i + (((xs.take limit).drop i).takeWhile p).length) := by
  induction rounds generalizing i with
  | zero => exact absurd hrounds (Nat.not_lt.mpr hi)
  | succ rounds ih =>
    rw [scan]
    by_cases hlt : i < limit
    · have hlen : i < (xs.take limit).length := by
        rw [List.length_take, Nat.min_eq_left hlimit]
        exact hlt
      obtain ⟨x, hx, hdrop⟩ := drop_eq_cons hlen
      rw [List.getElem?_take_of_lt hlt] at hx
      rw [if_pos hlt, hx, Option.bind_some, hdrop, List.takeWhile_cons]
      by_cases hp : p x = true
      · rw [if_pos hp, if_pos hp, ih hlt (by omega), List.length_cons, Nat.succ_eq_add_one]
        congr 1
        omega
      · rw [if_neg hp, if_neg hp]
        rfl
    · have hdone : (xs.take limit).drop i = [] := by
        rw [List.drop_eq_nil_iff, List.length_take]
        omega
      rw [if_neg hlt, hdone]
      rfl

/-- Behind a run of entries comes what is left without it. -/
theorem drop_length_takeWhile (p : α → Bool) (l : List α) :
    l.drop (l.takeWhile p).length = l.dropWhile p := by
  calc l.drop (l.takeWhile p).length
    _ = (l.takeWhile p ++ l.dropWhile p).drop (l.takeWhile p).length := by
      rw [List.takeWhile_append_dropWhile]
    _ = l.dropWhile p := List.drop_left

/-- A run of entries is the part of the array that it covers. -/
theorem take_length_takeWhile (p : α → Bool) (l : List α) :
    l.take (l.takeWhile p).length = l.takeWhile p :=
  (List.prefix_iff_eq_take.mp (List.takeWhile_prefix p)).symm

/-- Up to the first entry with a property, there is a run of entries without it. -/
theorem length_takeWhile_not (p : α → Bool) (l : List α) :
    (l.takeWhile fun x => !p x).length = l.findIdx p := by
  rw [List.takeWhile_eq_take_findIdx_not, List.length_take]
  simp only [Bool.not_not]
  exact Nat.min_eq_left List.findIdx_le_length

/-- `for (; i < n; i++) body(xs[i])` -/
def each (body : α → σ → σ) (xs : List α) (n : ℕ) : ℕ → ℕ → σ → Option σ
  | 0, _, _ => none
  | rounds + 1, i, s =>
    if i < n then (xs[i]?).bind fun x => each body xs n rounds (i + 1) (body x s) else some s

/-- **A loop over the entries** of an array reads inside it, and is a fold. -/
theorem each_eq {body : α → σ → σ} {xs : List α} {rounds i : ℕ} (hi : i ≤ xs.length)
    (hrounds : xs.length < i + rounds) (s : σ) :
    each body xs xs.length rounds i s = some ((xs.drop i).foldl (fun s x => body x s) s) := by
  induction rounds generalizing i s with
  | zero => exact absurd hrounds (Nat.not_lt.mpr hi)
  | succ rounds ih =>
    rw [each]
    by_cases hlt : i < xs.length
    · obtain ⟨x, hx, hdrop⟩ := drop_eq_cons hlt
      rw [if_pos hlt, hx, Option.bind_some, hdrop, List.foldl_cons, ih hlt (by omega)]
    · rw [if_neg hlt, List.drop_eq_nil_iff.mpr (Nat.not_lt.mp hlt), List.foldl_nil]

/-! ## Runs -/

/-- Steps that have no result when something goes wrong, and the states in which
nothing does. -/
structure Machine (σ : Type u) (ι : Type v) where
  /-- one step -/
  step : ι → σ → Option σ
  /-- the states that are in order -/
  Valid : σ → Prop
  step_valid : ∀ (i : ι) {s : σ}, Valid s → ∃ s', step i s = some s' ∧ Valid s'

namespace Machine

variable {ι : Type v} {σ : Type u} (M : Machine σ ι)

/-- One step after the other. -/
def run : List ι → σ → Option σ
  | [], s => some s
  | i :: is, s => (M.step i s).bind (run is)

variable {M}

/-- **No run goes wrong**, and it ends in a state that is in order. -/
theorem run_valid {s : σ} (hs : M.Valid s) (is : List ι) :
    ∃ s', M.run is s = some s' ∧ M.Valid s' := by
  induction is generalizing s with
  | nil => exact ⟨s, rfl, hs⟩
  | cons i is ih =>
    obtain ⟨s₁, hstep, hs₁⟩ := M.step_valid i hs
    obtain ⟨s', hrun, hs'⟩ := ih hs₁
    exact ⟨s', by rw [run, hstep, Option.bind_some, hrun], hs'⟩

end Machine

end Bounded
