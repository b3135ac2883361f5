import Mathlib.Data.List.Basic

/-!
# Queues and what implements them

A small library on first-in-first-out queues whose operations can fail. Nothing
here knows what the items are, or how an implementation keeps them.

* `Op`, `Op.apply` — the operations on a queue, as lists.
* `after` — the queue after a log of operations with their outcomes.
* `Machine` — an implementation: what its states hold, and that each operation
  does to the contents what it means.
* `Machine.contents_run` — so does every run.
-/

namespace Fifo

universe u v w

/-- An operation on a queue. -/
inductive Op (α : Type u)
  /-- add items at the back -/
  | enqueue (xs : List α)
  /-- take items off the front, as many as there are -/
  | dequeue (n : ℕ)
  /-- take off all -/
  | clear

variable {α : Type u}

/-- What an operation makes of the queue. One that failed leaves it as it is. -/
def Op.apply (q : List α) : Op α → Bool → List α
  | _, false => q
  | .enqueue xs, true => q ++ xs
  | .dequeue n, true => q.drop (min n q.length)
  | .clear, true => []

/-- The queue after operations, each with its outcome. -/
def after (q : List α) : List (Op α × Bool) → List α
  | [] => q
  | (op, done) :: log => after (op.apply q done) log

/-- Adding nothing changes nothing, done or not. -/
@[simp] theorem Op.apply_enqueue_nil (q : List α) (done : Bool) :
    (Op.enqueue []).apply q done = q := by
  cases done with
  | false => rfl
  | true => exact List.append_nil q

/-- What is taken off the front is at most all. -/
@[simp] theorem Op.apply_dequeue (q : List α) (n : ℕ) :
    (Op.dequeue n).apply q true = q.drop n := by
  change q.drop (min n q.length) = q.drop n
  rcases Nat.le_total n q.length with hle | hge
  · rw [Nat.min_eq_left hle]
  · rw [Nat.min_eq_right hge, List.drop_length, List.drop_of_length_le hge]

/-- An implementation of a queue. -/
structure Machine (σ : Type v) (ι : Type w) (α : Type u) where
  /-- the operations of the implementation, each with its outcome -/
  step : ι → σ → Bool × σ
  /-- what an operation is for -/
  means : ι → Op α
  /-- the states the implementation ever has -/
  Valid : σ → Prop
  /-- the queue a state holds -/
  contents : σ → List α
  valid_step : ∀ (i : ι) {s : σ}, Valid s → Valid (step i s).2
  contents_step : ∀ (i : ι) {s : σ}, Valid s →
    contents (step i s).2 = (means i).apply (contents s) (step i s).1

namespace Machine

variable {σ : Type v} {ι : Type w} (M : Machine σ ι α)

/-- A run: the log of its operations, and the state it ends in. -/
def run : List ι → σ → List (ι × Bool) × σ
  | [], s => ([], s)
  | i :: is, s => ((i, (M.step i s).1) :: (run is (M.step i s).2).1, (run is (M.step i s).2).2)

/-- The log as operations on the queue. -/
def log (is : List ι) (s : σ) : List (Op α × Bool) :=
  (M.run is s).1.map fun p => (M.means p.1, p.2)

variable {M}

theorem valid_run {s : σ} (hs : M.Valid s) (is : List ι) : M.Valid (M.run is s).2 := by
  induction is generalizing s with
  | nil => exact hs
  | cons i is ih => exact ih (M.valid_step i hs)

/-- **A run of the implementation** is a run of the queue. -/
theorem contents_run {s : σ} (hs : M.Valid s) (is : List ι) :
    M.contents (M.run is s).2 = after (M.contents s) (M.log is s) := by
  induction is generalizing s with
  | nil => rfl
  | cons i is ih =>
    have hrest := ih (M.valid_step i hs)
    rw [M.contents_step i hs] at hrest
    exact hrest

end Machine

end Fifo
