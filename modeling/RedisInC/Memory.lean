import Mathlib.Data.Int.Basic
import Mathlib.Data.List.Basic
import Mathlib.Tactic.Common
import Mathlib.Tactic.Ring

/-!
# Memory: byte strings and the allocator

Everything below is a pure function of byte strings; what C reaches through
pointers is passed by value, and what `malloc` may do is passed as a `Heap`.

* `Bytes` — a byte string with its length, the `(pointer, length)` pairs of the
  source. Bytes are arbitrary, NUL included.
* `Heap` — the allocator as one process run meets it: a stream of outcomes, one
  for each request, so that a theorem over all heaps is a theorem over every
  pattern of allocation successes and failures. `Heap.failed` is the ghost
  record that some request so far was refused; "no allocation failure" in a run
  is `failed = false` of the heap the run ends with.

A `size_t` is a `ℕ`. Lengths of objects stay below `PTRDIFF_MAX`, because
`malloc` refuses any larger request.
-/

namespace RedisInC

/-- A byte string: `unsigned char *` together with its `size_t` length. -/
abbrev Bytes : Type := List UInt8

/-- The bytes of a C string literal (without its NUL). -/
def ascii (s : String) : Bytes := s.toList.map fun c => c.toNat.toUInt8

/-- `'\r'` -/
abbrev CR : UInt8 := 13
/-- `'\n'` -/
abbrev LF : UInt8 := 10
/-- The two bytes that end every line of the protocol. -/
abbrev CRLF : Bytes := [CR, LF]

/-- `SIZE_MAX` on a 64-bit target. -/
def SIZE_MAX : ℕ := 2 ^ 64 - 1
/-- `PTRDIFF_MAX` on a 64-bit target, the largest size of an object. -/
def PTRDIFF_MAX : ℕ := 2 ^ 63 - 1
/-- `INT_MAX` -/
def INT_MAX : ℕ := 2 ^ 31 - 1
/-- `INT64_MAX` -/
def INT64_MAX : ℤ := 2 ^ 63 - 1
/-- `INT64_MIN` -/
def INT64_MIN : ℤ := -2 ^ 63

/-- `(INT64_MAX - 9) / 10`: the guard of the digit loops, beyond which no further
digit is taken. -/
def DIGIT_GUARD : ℕ := 922337203685477579

theorem digit_guard_eq : (INT64_MAX - 9) / 10 = (DIGIT_GUARD : ℤ) := by
  simp only [INT64_MAX, DIGIT_GUARD]
  omega

/-- Conversion to `int64_t`: the representative modulo `2^64` around zero. -/
def int64 (n : ℤ) : ℤ := n.bmod (2 ^ 64)

/-- Conversion to `size_t`. -/
def sizeT (n : ℕ) : ℕ := n % 2 ^ 64

theorem int64_bounds (n : ℤ) : INT64_MIN ≤ int64 n ∧ int64 n ≤ INT64_MAX := by
  have hlow : -((2 ^ 64 : ℕ) : ℤ) / 2 ≤ n.bmod (2 ^ 64) := Int.le_bmod (by decide)
  have hhigh : n.bmod (2 ^ 64) < (((2 ^ 64 : ℕ) : ℤ) + 1) / 2 := Int.bmod_lt (by decide)
  simp only [int64, INT64_MIN, INT64_MAX]
  omega

theorem int64_of_bounds {n : ℤ} (hlow : INT64_MIN ≤ n) (hhigh : n ≤ INT64_MAX) : int64 n = n := by
  simp only [INT64_MIN, INT64_MAX] at hlow hhigh
  exact Int.bmod_eq_of_le (by omega) (by omega)

theorem sizeT_le (n : ℕ) : sizeT n ≤ SIZE_MAX := by
  simp only [sizeT, SIZE_MAX]
  omega

theorem sizeT_of_le {n : ℕ} (h : n ≤ SIZE_MAX) : sizeT n = n := by
  simp only [sizeT, SIZE_MAX] at h ⊢
  exact Nat.mod_eq_of_lt (by omega)

/-- `memcpy(data + pos, src, |src|)`: overwrite part of an array. -/
def memcpy (data : Bytes) (pos : ℕ) (src : Bytes) : Bytes :=
  data.take pos ++ src ++ data.drop (pos + src.length)

theorem length_memcpy {data src : Bytes} {pos : ℕ} (h : pos + src.length ≤ data.length) :
    (memcpy data pos src).length = data.length := by
  simp only [memcpy, List.length_append, List.length_take, List.length_drop]
  omega

/-- The array up to some point in the copied bytes. -/
theorem take_memcpy_append {data src : Bytes} {pos : ℕ} (hpos : pos ≤ data.length) (extra : Bytes) :
    (memcpy data pos (src ++ extra)).take (pos + src.length) = data.take pos ++ src := by
  have hlen : (data.take pos ++ src).length = pos + src.length := by
    rw [List.length_append, List.length_take, Nat.min_eq_left hpos]
  rw [memcpy, ← List.append_assoc (data.take pos), List.append_assoc (data.take pos ++ src),
    List.take_append_of_le_length (Nat.le_of_eq hlen.symm), ← hlen, List.take_length]

/-! ## The allocator -/

/-- The allocator, as far as the program can tell. -/
structure Heap where
  /-- whether each request still to come is granted, as far as memory goes -/
  grants : ℕ → Bool
  /-- what freshly granted memory happens to hold -/
  fresh : ℕ → UInt8
  /-- ghost: some request so far was refused -/
  failed : Bool

namespace Heap

/-- One request for `size` bytes: whether it is granted, and the allocator
after it. No object exceeds `PTRDIFF_MAX` bytes. -/
def malloc (h : Heap) (size : ℕ) : Bool × Heap :=
  let ok := h.grants 0 && decide (size ≤ PTRDIFF_MAX)
  (ok, { h with grants := fun n => h.grants (n + 1), failed := h.failed || !ok })

/-- An allocator that has granted everything and will go on doing so, up to the
size limit. -/
def Ample (h : Heap) : Prop := (∀ n, h.grants n = true) ∧ h.failed = false

/-- An ample allocator with zeroed memory. -/
def ample : Heap := ⟨fun _ => true, fun _ => 0, false⟩

theorem ample_ample : ample.Ample := ⟨fun _ => rfl, rfl⟩

/-- A granted request leaves the record of failures alone. -/
theorem malloc_granted {h : Heap} {size : ℕ} (hok : (h.malloc size).1 = true) :
    (h.malloc size).2.failed = h.failed ∧ size ≤ PTRDIFF_MAX := by
  simp only [malloc, Bool.and_eq_true, decide_eq_true_eq] at hok ⊢
  simp [hok.1, hok.2]

/-- A refused request is recorded. -/
theorem malloc_refused {h : Heap} {size : ℕ} (hno : (h.malloc size).1 = false) :
    (h.malloc size).2.failed = true := by
  simp only [malloc] at hno ⊢
  simp [hno]

/-- An allocator with another record. -/
def recorded (h : Heap) (failed : Bool) : Heap := { h with failed := failed }

/-- No decision depends on the record. -/
theorem malloc_recorded (h : Heap) (failed : Bool) (size : ℕ) :
    ∃ failed', (h.recorded failed).malloc size =
      ((h.malloc size).1, (h.malloc size).2.recorded failed') := ⟨_, rfl⟩

/-- An ample allocator grants every request within the size limit. -/
theorem Ample.malloc {h : Heap} (ha : h.Ample) {size : ℕ} (hs : size ≤ PTRDIFF_MAX) :
    (h.malloc size).1 = true ∧ (h.malloc size).2.Ample := by
  have hok : (h.malloc size).1 = true := by simp [Heap.malloc, ha.1, hs]
  exact ⟨hok, fun n => ha.1 (n + 1), by rw [(malloc_granted hok).1, ha.2]⟩

end Heap

end RedisInC
