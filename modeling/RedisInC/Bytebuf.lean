import Mathlib.Tactic.Linarith
import Mathlib.Tactic.Ring
import RedisInC.Memory

/-!
# The growable byte buffer (`bytebuf.c`)

One array, three numbers: `off ≤ len ≤ cap`. The live bytes are those from
`off` to `len`; producers write behind `len`, the consumer moves `off`.

* `Bytebuf` and the functions of `bytebuf.c`, as the code computes them: head
  compaction before growth, doubling with a final jump to `BYTEBUF_MAX`, lazy
  compaction on consumption.
* `Bytebuf.Inv` — what holds of every buffer the server ever has.
* `Bytebuf.live` — what a buffer is for: a FIFO queue of bytes. Every operation
  gets one lemma that says what it does to the invariant and to the queue, and
  for the fallible ones when they refuse (`Refused`).
-/

namespace RedisInC

/-- Initial capacity on first growth. -/
def BYTEBUF_INIT_CAP : ℕ := 256
/-- Hard cap on any single buffer. -/
def BYTEBUF_MAX : ℕ := 16 * 1024 * 1024
/-- Below this much dead head, nothing is compacted on consumption. -/
def BYTEBUF_COMPACT_MIN : ℕ := 4096

/-- `bytebuf_t`. `data` is the whole allocated array, live or not. -/
structure Bytebuf where
  /-- the backing array -/
  data : Bytes
  /-- allocated capacity -/
  cap : ℕ
  /-- total bytes written -/
  len : ℕ
  /-- bytes consumed from the head -/
  off : ℕ

/-! ## The code -/

/-- Move the live bytes down to offset 0. -/
def compactInPlace (b : Bytebuf) : Bytebuf :=
  let live := b.len - b.off
  { b with
    data := if live > 0 ∧ b.off > 0 then memcpy b.data 0 ((b.data.drop b.off).take live) else b.data
    len := live
    off := 0 }

/-- The doubling loop of `ensure_tail_cap`; `none` is its `return -1`. From any
positive capacity the loop is done after fewer rounds than `growFuel`
(`growCap_spec`). -/
def growCap : ℕ → ℕ → ℕ → ℕ → Option ℕ
  | 0, _, _, _ => none
  | fuel + 1, newCap, len, need =>
    if newCap - len < need then
      if newCap ≥ BYTEBUF_MAX then none
      else if newCap > BYTEBUF_MAX / 2 then growCap fuel BYTEBUF_MAX len need
      else growCap fuel (newCap * 2) len need
    else some newCap

/-- Rounds allowed to the doubling loop. -/
def growFuel : ℕ := 32

/-- The part of `ensure_tail_cap` that asks for a bigger array. -/
def growTail (b : Bytebuf) (need : ℕ) (h : Heap) : Int × Bytebuf × Heap :=
  let newCap := if b.cap = 0 then BYTEBUF_INIT_CAP else b.cap
  match growCap growFuel newCap b.len need with
  | none => (-1, b, h)
  | some newCap =>
    let r := h.malloc newCap
    if r.1 then
      (0, { b with data := b.data ++ (List.range (newCap - b.cap)).map h.fresh, cap := newCap },
        r.2)
    else (-1, b, r.2)

/-- Make sure there is room for at least `need` more bytes after the tail. -/
def ensureTailCap (b : Bytebuf) (need : ℕ) (h : Heap) : Int × Bytebuf × Heap :=
  if b.cap - b.len ≥ need then (0, b, h)
  else if b.off > 0 then
    let b := compactInPlace b
    if b.cap - b.len ≥ need then (0, b, h) else growTail b need h
  else growTail b need h

def bytebufInit : Bytebuf := ⟨[], 0, 0, 0⟩

/-- Logically clear, keeping the array. -/
def bytebufReset (b : Bytebuf) : Bytebuf := { b with len := 0, off := 0 }

/-- Copy `src` to the tail. -/
def bytebufAppend (b : Bytebuf) (src : Bytes) (h : Heap) : Int × Bytebuf × Heap :=
  if src.length = 0 then (0, b, h)
  else
    let r := ensureTailCap b src.length h
    if r.1 < 0 then (-1, r.2)
    else
      let b := r.2.1
      (0, { b with data := memcpy b.data b.len src, len := b.len + src.length }, r.2.2)

/-- Append the text `vsnprintf` produces for the format and its arguments. Short
texts go through a stack buffer; longer ones are formatted in place, one byte
more being reserved (and written) for the terminating NUL. -/
def bytebufAppendf (b : Bytebuf) (text : Bytes) (h : Heap) : Int × Bytebuf × Heap :=
  if text.length < 128 then bytebufAppend b text h
  else
    let r := ensureTailCap b (text.length + 1) h
    if r.1 < 0 then (-1, r.2)
    else
      let b := r.2.1
      (0, { b with data := memcpy b.data b.len (text ++ [0]), len := b.len + text.length }, r.2.2)

/-- Reserve `n` bytes of tail space; the result is the offset of the tail the
caller may write to, or `none` for `NULL`. -/
def bytebufReserve (b : Bytebuf) (n : ℕ) (h : Heap) : Option ℕ × Bytebuf × Heap :=
  let r := ensureTailCap b n h
  if r.1 < 0 then (none, r.2) else (some r.2.1.len, r.2)

/-- The caller of `bytebuf_reserve` writes into the reserved tail. -/
def writeTail (b : Bytebuf) (tail : ℕ) (src : Bytes) : Bytebuf :=
  { b with data := memcpy b.data tail src }

def bytebufAdvance (b : Bytebuf) (n : ℕ) : Bytebuf :=
  let n := if n > b.cap - b.len then b.cap - b.len else n
  { b with len := b.len + n }

/-- The bytes from the first live one on. -/
def bytebufData (b : Bytebuf) : Bytes := b.data.drop b.off

/-- Number of live bytes. -/
def bytebufLen (b : Bytebuf) : ℕ := b.len - b.off

def bytebufConsume (b : Bytebuf) (n : ℕ) : Bytebuf :=
  let live := b.len - b.off
  let n := if n > live then live else n
  let b := { b with off := b.off + n }
  if b.off = b.len then { b with off := 0, len := 0 }
  else if b.off > BYTEBUF_COMPACT_MIN ∧ b.off > b.cap / 2 then compactInPlace b
  else b

/-! ## The invariant and the queue -/

namespace Bytebuf

/-- The live bytes: `bytebuf_len` bytes from `bytebuf_data` on. -/
def live (b : Bytebuf) : Bytes := (bytebufData b).take (bytebufLen b)

/-- The head, the tail and the array's end are in order, and the array is as
long as recorded. -/
structure Bounds (b : Bytebuf) : Prop where
  /-- the array has the recorded capacity -/
  length_data : b.data.length = b.cap
  /-- the tail lies in the array -/
  len_le : b.len ≤ b.cap
  /-- the head lies before the tail -/
  off_le_len : b.off ≤ b.len

/-- The representation invariant. -/
structure Inv (b : Bytebuf) : Prop extends Bounds b where
  /-- the array is capped -/
  cap_le : b.cap ≤ BYTEBUF_MAX
  /-- the array grows by doubling only -/
  cap_pow : b.cap = 0 ∨ ∃ k, b.cap = BYTEBUF_INIT_CAP * 2 ^ k
  /-- a drained buffer has no dead head -/
  off_lt : b.off = 0 ∨ b.off < b.len
  /-- the dead head is bounded -/
  off_le : b.off ≤ max BYTEBUF_COMPACT_MIN (b.cap / 2)

/-- The live bytes as a slice of the written ones. -/
theorem live_eq (b : Bytebuf) : b.live = (b.data.take b.len).drop b.off := by
  rw [live, bytebufData, bytebufLen, List.drop_take]

theorem Bounds.length_live {b : Bytebuf} (hb : b.Bounds) : b.live.length = b.len - b.off := by
  have := hb.length_data
  have := hb.len_le
  rw [live_eq, List.length_drop, List.length_take]
  omega

theorem Inv.bytebufLen_eq {b : Bytebuf} (hb : b.Inv) : bytebufLen b = b.live.length := by
  rw [hb.length_live, bytebufLen]

theorem Inv.length_live_le {b : Bytebuf} (hb : b.Inv) : b.live.length ≤ BYTEBUF_MAX := by
  have := hb.len_le
  have := hb.cap_le
  rw [hb.length_live]
  omega

theorem inv_init : bytebufInit.Inv where
  length_data := rfl
  len_le := Nat.le_refl 0
  off_le_len := Nat.le_refl 0
  cap_le := Nat.zero_le _
  cap_pow := Or.inl rfl
  off_lt := Or.inl rfl
  off_le := Nat.zero_le _

@[simp] theorem live_init : bytebufInit.live = [] := rfl

theorem Inv.reset {b : Bytebuf} (hb : b.Inv) : (bytebufReset b).Inv where
  length_data := hb.length_data
  len_le := Nat.zero_le _
  off_le_len := Nat.le_refl 0
  cap_le := hb.cap_le
  cap_pow := hb.cap_pow
  off_lt := Or.inl rfl
  off_le := Nat.zero_le _

@[simp] theorem live_reset (b : Bytebuf) : (bytebufReset b).live = [] := by
  simp [live, bytebufReset, bytebufLen]

/-! ### Compaction -/

theorem live_compact {b : Bytebuf} (hb : b.Bounds) : (compactInPlace b).live = b.live := by
  have hlen := hb.length_live
  simp only [live, bytebufData, bytebufLen] at hlen
  simp only [live, compactInPlace, bytebufData, bytebufLen, List.drop_zero, Nat.sub_zero]
  by_cases hc : b.len - b.off > 0 ∧ b.off > 0
  · rw [if_pos hc, memcpy, List.take_zero, List.nil_append,
      List.take_append_of_le_length (Nat.le_of_eq hlen.symm), List.take_take, Nat.min_self]
  · rw [if_neg hc]
    rcases Nat.eq_zero_or_pos b.off with h0 | hpos
    · rw [h0, List.drop_zero, Nat.sub_zero]
    · have hlive : b.len - b.off = 0 := by omega
      rw [hlive, List.take_zero, List.take_zero]

theorem length_data_compact {b : Bytebuf} (hb : b.Bounds) :
    (compactInPlace b).data.length = b.cap := by
  have hlen := hb.length_live
  have hle := hb.len_le
  simp only [live, bytebufData, bytebufLen] at hlen
  simp only [compactInPlace]
  split
  · rw [length_memcpy, hb.length_data]
    rw [hlen, hb.length_data]
    omega
  · exact hb.length_data

/-- Compaction restores the whole invariant from the bounds, whatever the dead
head was. -/
theorem Bounds.compact {b : Bytebuf} (hb : b.Bounds) (hcap : b.cap ≤ BYTEBUF_MAX)
    (hpow : b.cap = 0 ∨ ∃ k, b.cap = BYTEBUF_INIT_CAP * 2 ^ k) : (compactInPlace b).Inv where
  length_data := length_data_compact hb
  len_le := by
    have := hb.len_le
    simp only [compactInPlace]
    omega
  off_le_len := Nat.zero_le _
  cap_le := hcap
  cap_pow := hpow
  off_lt := Or.inl rfl
  off_le := Nat.zero_le _

theorem Inv.compact {b : Bytebuf} (hb : b.Inv) : (compactInPlace b).Inv :=
  hb.toBounds.compact hb.cap_le hb.cap_pow

/-! ### Growth -/

/-- The fuel of the doubling loop lasts for the final jump: at least one more round is
left. -/
theorem fuel_jump {c fuel : ℕ} (hf : 2 * BYTEBUF_MAX ≤ c * 2 ^ (fuel + 1)) (hc : c < BYTEBUF_MAX) :
    2 * BYTEBUF_MAX ≤ BYTEBUF_MAX * 2 ^ fuel := by
  cases fuel with
  | zero => omega
  | succ f =>
    have : 1 ≤ 2 ^ f := Nat.one_le_two_pow
    calc 2 * BYTEBUF_MAX = BYTEBUF_MAX * (1 * 2) := by ring
      _ ≤ BYTEBUF_MAX * (2 ^ f * 2) := by gcongr
      _ = BYTEBUF_MAX * 2 ^ (f + 1) := by rw [Nat.pow_succ]

/-- The fuel of the doubling loop lasts for every doubling. -/
theorem fuel_double {c fuel : ℕ} (hf : 2 * BYTEBUF_MAX ≤ c * 2 ^ (fuel + 1)) :
    2 * BYTEBUF_MAX ≤ c * 2 * 2 ^ fuel := by
  rw [Nat.pow_succ] at hf
  calc 2 * BYTEBUF_MAX ≤ c * (2 ^ fuel * 2) := hf
    _ = c * 2 * 2 ^ fuel := by ring

/-- **The doubling loop.** From a capacity of the doubling form the loop ends
within its fuel: it finds a capacity of the same form that is large enough, or
the request goes past the hard cap. -/
theorem growCap_spec (len need : ℕ) :
    ∀ (fuel c : ℕ), 2 * BYTEBUF_MAX ≤ c * 2 ^ fuel → len ≤ c → c ≤ BYTEBUF_MAX →
      (∃ k, c = BYTEBUF_INIT_CAP * 2 ^ k) →
      (∃ c', growCap fuel c len need = some c' ∧ c ≤ c' ∧ c' ≤ BYTEBUF_MAX ∧
        need ≤ c' - len ∧ ∃ k, c' = BYTEBUF_INIT_CAP * 2 ^ k) ∨
      (growCap fuel c len need = none ∧ BYTEBUF_MAX < len + need) := by
  intro fuel
  induction fuel with
  | zero =>
    intro c hf _ hc _
    have hpos : 0 < BYTEBUF_MAX := by decide
    omega
  | succ fuel ih =>
    intro c hf hlen hc hpow
    rw [growCap]
    by_cases hneed : c - len < need
    · rw [if_pos hneed]
      by_cases hmax : c ≥ BYTEBUF_MAX
      · rw [if_pos hmax]
        exact Or.inr ⟨rfl, by omega⟩
      · rw [if_neg hmax]
        by_cases hhalf : c > BYTEBUF_MAX / 2
        · -- the final jump
          rw [if_pos hhalf]
          have hjump := ih BYTEBUF_MAX (fuel_jump hf (Nat.not_le.mp hmax)) (by omega)
            (Nat.le_refl _) ⟨16, by decide⟩
          rcases hjump with ⟨c', he, hle, hrest⟩ | hnone
          · exact Or.inl ⟨c', he, by omega, hrest⟩
          · exact Or.inr hnone
        · rw [if_neg hhalf]
          have hpow' : ∃ k, c * 2 = BYTEBUF_INIT_CAP * 2 ^ k := by
            obtain ⟨k, hk⟩ := hpow
            exact ⟨k + 1, by rw [hk, Nat.pow_succ, Nat.mul_assoc]⟩
          have hdouble := ih (c * 2) (fuel_double hf) (by omega) (by omega) hpow'
          rcases hdouble with ⟨c', he, hle, hrest⟩ | hnone
          · exact Or.inl ⟨c', he, by omega, hrest⟩
          · exact Or.inr hnone
    · rw [if_neg hneed]
      exact Or.inl ⟨c, rfl, Nat.le_refl _, hc, by omega, hpow⟩

/-- The doubling loop starts from a capacity of the doubling form, and has fuel enough. -/
theorem Inv.start_cap {b : Bytebuf} (hb : b.Inv) :
    b.cap ≤ (if b.cap = 0 then BYTEBUF_INIT_CAP else b.cap) ∧
      (if b.cap = 0 then BYTEBUF_INIT_CAP else b.cap) ≤ BYTEBUF_MAX ∧
      2 * BYTEBUF_MAX ≤ (if b.cap = 0 then BYTEBUF_INIT_CAP else b.cap) * 2 ^ growFuel ∧
      ∃ k, (if b.cap = 0 then BYTEBUF_INIT_CAP else b.cap) = BYTEBUF_INIT_CAP * 2 ^ k := by
  have hcap := hb.cap_le
  by_cases h0 : b.cap = 0
  · rw [if_pos h0, h0]
    exact ⟨by decide, by decide, by decide, 0, rfl⟩
  · have hfuel : 2 * BYTEBUF_MAX ≤ b.cap * 2 ^ growFuel := by
      simp only [BYTEBUF_MAX, growFuel]
      omega
    rw [if_neg h0]
    exact ⟨Nat.le_refl _, hcap, hfuel, hb.cap_pow.resolve_left h0⟩

/-- Why a request for room for `n` more bytes was refused: the allocator failed,
or the live bytes and the new ones together exceed the hard cap. -/
def Refused (b : Bytebuf) (n : ℕ) (h h' : Heap) : Prop :=
  h'.failed = true ∨ (BYTEBUF_MAX < b.live.length + n ∧ h'.failed = h.failed)

/-- What a request for room comes to: the queue is the same either way; on
success the tail is long enough, on failure there is a reason. -/
structure Ensured (b : Bytebuf) (need : ℕ) (h : Heap) (r : Int × Bytebuf × Heap) : Prop where
  inv : r.2.1.Inv
  live_eq : r.2.1.live = b.live
  ample : h.Ample → r.2.2.Ample
  room : (r.1 = 0 ∧ need ≤ r.2.1.cap - r.2.1.len ∧ r.2.2.failed = h.failed) ∨
    (r.1 = -1 ∧ Refused b need h r.2.2)

/-- The two outcomes, by the test that callers make. -/
theorem Ensured.cases {b : Bytebuf} {need : ℕ} {h : Heap} {r : Int × Bytebuf × Heap}
    (hr : Ensured b need h r) :
    (¬ r.1 < 0 ∧ need ≤ r.2.1.cap - r.2.1.len ∧ r.2.2.failed = h.failed) ∨
      (r.1 < 0 ∧ Refused b need h r.2.2) := by
  rcases hr.room with ⟨hrc, hroom⟩ | ⟨hrc, hrefused⟩
  · exact Or.inl ⟨by simp [hrc], hroom⟩
  · exact Or.inr ⟨by simp [hrc], hrefused⟩

theorem growTail_spec {b : Bytebuf} (hb : b.Inv) (hoff : b.off = 0) (need : ℕ) (h : Heap) :
    Ensured b need h (growTail b need h) := by
  have hlive : b.live.length = b.len := by rw [hb.length_live, hoff, Nat.sub_zero]
  have hcap := hb.cap_le
  have hlen := hb.len_le
  set c := if b.cap = 0 then BYTEBUF_INIT_CAP else b.cap with hc
  obtain ⟨hle_start, hmax_start, hfuel, hpow⟩ := hb.start_cap
  rw [← hc] at hle_start hmax_start hfuel hpow
  rcases growCap_spec b.len need growFuel c hfuel (by omega) hmax_start hpow with
    ⟨c', he, hle, hmax, hneed, hpow'⟩ | ⟨he, hover⟩
  · simp only [growTail, ← hc, he]
    have hsize : c' ≤ PTRDIFF_MAX := by
      simp only [BYTEBUF_MAX, PTRDIFF_MAX] at hmax ⊢
      omega
    by_cases hok : (h.malloc c').1 = true
    · rw [if_pos hok]
      have hdata : (b.data ++ (List.range (c' - b.cap)).map h.fresh).length = c' := by
        rw [List.length_append, hb.length_data, List.length_map, List.length_range]
        omega
      refine ⟨⟨⟨hdata, ?_, hb.off_le_len⟩, hmax, Or.inr hpow', hb.off_lt, ?_⟩, ?_,
        fun ha => (ha.malloc hsize).2, Or.inl ⟨rfl, hneed, (Heap.malloc_granted hok).1⟩⟩
      · change b.len ≤ c'
        omega
      · change b.off ≤ _
        rw [hoff]
        exact Nat.zero_le _
      · have := hb.length_data
        simp only [Bytebuf.live_eq]
        rw [List.take_append_of_le_length (by omega)]
    · rw [if_neg hok]
      have hfail := Heap.malloc_refused (by simpa using hok)
      exact ⟨hb, rfl, fun ha => (ha.malloc hsize).2, Or.inr ⟨rfl, Or.inl hfail⟩⟩
  · simp only [growTail, ← hc, he]
    exact ⟨hb, rfl, fun ha => ha, Or.inr ⟨rfl, Or.inr ⟨by rw [hlive]; exact hover, rfl⟩⟩⟩

/-- **Room at the tail.** `ensure_tail_cap` keeps the queue, succeeds when the
live bytes and the new ones fit under the hard cap, and otherwise says why. -/
theorem ensureTailCap_spec {b : Bytebuf} (hb : b.Inv) (need : ℕ) (h : Heap) :
    Ensured b need h (ensureTailCap b need h) := by
  rw [ensureTailCap]
  by_cases hroom : b.cap - b.len ≥ need
  · rw [if_pos hroom]
    exact ⟨hb, rfl, fun ha => ha, Or.inl ⟨rfl, hroom, rfl⟩⟩
  · rw [if_neg hroom]
    by_cases hoff : b.off > 0
    · rw [if_pos hoff]
      by_cases hroom' : (compactInPlace b).cap - (compactInPlace b).len ≥ need
      · simp only [if_pos hroom']
        exact ⟨hb.compact, live_compact hb.toBounds, fun ha => ha, Or.inl ⟨rfl, hroom', rfl⟩⟩
      · simp only [if_neg hroom']
        have hgrow := growTail_spec hb.compact rfl need h
        refine ⟨hgrow.inv, hgrow.live_eq.trans (live_compact hb.toBounds), hgrow.ample, ?_⟩
        simpa only [Refused, live_compact hb.toBounds] using hgrow.room
    · rw [if_neg hoff]
      exact growTail_spec hb (by omega) need h

/-- The result of a request, with another record of failures. -/
def recorded (r : Int × Bytebuf × Heap) (failed : Bool) : Int × Bytebuf × Heap :=
  (r.1, r.2.1, r.2.2.recorded failed)

theorem growTail_recorded (b : Bytebuf) (need : ℕ) (h : Heap) (failed : Bool) :
    ∃ failed', growTail b need (h.recorded failed) = recorded (growTail b need h) failed' := by
  rw [growTail, growTail]
  generalize growCap growFuel _ b.len need = newCap
  cases newCap with
  | none => exact ⟨failed, rfl⟩
  | some newCap =>
    obtain ⟨failed', hmalloc⟩ := h.malloc_recorded failed newCap
    simp only [hmalloc]
    cases (h.malloc newCap).1 with
    | true => exact ⟨failed', rfl⟩
    | false => exact ⟨failed', rfl⟩

/-- What becomes of a request for room does not depend on what has failed before. -/
theorem ensureTailCap_recorded (b : Bytebuf) (need : ℕ) (h : Heap) (failed : Bool) :
    ∃ failed', ensureTailCap b need (h.recorded failed) =
      recorded (ensureTailCap b need h) failed' := by
  rw [ensureTailCap, ensureTailCap]
  dsimp only
  split
  · exact ⟨failed, rfl⟩
  · split
    · split
      · exact ⟨failed, rfl⟩
      · exact growTail_recorded _ need h failed
    · exact growTail_recorded b need h failed

theorem bytebufAppend_recorded (b : Bytebuf) (src : Bytes) (h : Heap) (failed : Bool) :
    ∃ failed', bytebufAppend b src (h.recorded failed) =
      recorded (bytebufAppend b src h) failed' := by
  rw [bytebufAppend, bytebufAppend]
  split
  · exact ⟨failed, rfl⟩
  · obtain ⟨failed', hroom⟩ := ensureTailCap_recorded b src.length h failed
    refine ⟨failed', ?_⟩
    rw [hroom]
    dsimp only [recorded]
    split
    · rfl
    · rfl

/-- **One request at most**: the next one, and if it is granted there is room, unless
it would go past the hard cap. -/
structure AsksOnce (b : Bytebuf) (need : ℕ) (h : Heap) (r : Int × Bytebuf × Heap) : Prop where
  refused : r.1 < 0 → BYTEBUF_MAX < b.live.length + need ∨ h.grants 0 = false
  used : ∃ k, k ≤ 1 ∧ ∀ n, r.2.2.grants n = h.grants (n + k)

theorem growTail_asksOnce {b : Bytebuf} (hb : b.Inv) (hoff : b.off = 0) (need : ℕ) (h : Heap) :
    AsksOnce b need h (growTail b need h) := by
  have hlive : b.live.length = b.len := by rw [hb.length_live, hoff, Nat.sub_zero]
  have hlen := hb.len_le
  obtain ⟨hle, hmax, hfuel, hpow⟩ := hb.start_cap
  have hgrow := growCap_spec b.len need growFuel _ hfuel (hlen.trans hle) hmax hpow
  rw [growTail]
  generalize growCap growFuel _ b.len need = newCap at hgrow
  rcases hgrow with ⟨c, rfl, -, hcap, -⟩ | ⟨rfl, hover⟩
  · have hsize : c ≤ PTRDIFF_MAX := hcap.trans (by decide)
    simp only [Heap.malloc, decide_eq_true hsize, Bool.and_true]
    split
    · exact ⟨fun hneg => absurd hneg (by simp), 1, Nat.le_refl _, fun n => rfl⟩
    · next hno => exact ⟨fun _ => Or.inr (Bool.eq_false_of_not_eq_true hno), 1, Nat.le_refl _,
        fun n => rfl⟩
  · exact ⟨fun _ => Or.inl (hlive ▸ hover), 0, Nat.zero_le _, fun n => rfl⟩

theorem ensureTailCap_asksOnce {b : Bytebuf} (hb : b.Inv) (need : ℕ) (h : Heap) :
    AsksOnce b need h (ensureTailCap b need h) := by
  have hnone : ∀ b' : Bytebuf, AsksOnce b need h (0, b', h) := fun b' =>
    ⟨fun hneg => absurd hneg (by simp), 0, Nat.zero_le _, fun n => rfl⟩
  rw [ensureTailCap]
  dsimp only
  split
  · exact hnone b
  · split
    · split
      · exact hnone _
      · obtain ⟨hrefused, hused⟩ := growTail_asksOnce hb.compact rfl need h
        rw [live_compact hb.toBounds] at hrefused
        exact ⟨hrefused, hused⟩
    · next hoff => exact growTail_asksOnce hb (Nat.eq_zero_of_not_pos hoff) need h

/-! ### The producer side -/

/-- Writing at the tail, within the capacity, appends to the queue what the tail is
moved over. More may have been written behind it. -/
theorem tail_written_extra {b : Bytebuf} (hb : b.Inv) {src : Bytes} (extra : Bytes)
    (hsrc : src.length + extra.length ≤ b.cap - b.len) :
    let b' : Bytebuf :=
      { b with data := memcpy b.data b.len (src ++ extra), len := b.len + src.length }
    b'.Inv ∧ b'.live = b.live ++ src := by
  have hlen := hb.len_le
  have hdata := hb.length_data
  have hoff := hb.off_le_len
  refine ⟨⟨⟨?_, ?_, ?_⟩, hb.cap_le, hb.cap_pow, ?_, hb.off_le⟩, ?_⟩
  · simp only
    rw [length_memcpy (by rw [List.length_append]; omega), hdata]
  · simp only
    omega
  · simp only
    omega
  · rcases hb.off_lt with h0 | hlt
    · exact Or.inl h0
    · exact Or.inr (Nat.lt_of_lt_of_le hlt (Nat.le_add_right _ _))
  · simp only [Bytebuf.live_eq]
    rw [take_memcpy_append (by omega), List.drop_append_of_le_length]
    rw [List.length_take]
    omega

theorem tail_written {b : Bytebuf} (hb : b.Inv) {src : Bytes} (hsrc : src.length ≤ b.cap - b.len) :
    let b' : Bytebuf := { b with data := memcpy b.data b.len src, len := b.len + src.length }
    b'.Inv ∧ b'.live = b.live ++ src := by
  have hwritten := tail_written_extra hb [] hsrc
  simpa only [List.append_nil] using hwritten

/-- What appending a text can come to: all of it is in the queue, or a part of
it (several appends may make up one text) and there is a reason. -/
inductive AppendOutcome (b : Bytebuf) (text : Bytes) (h : Heap) : Int × Bytebuf × Heap → Prop
  | done {b' : Bytebuf} {h' : Heap} (inv : b'.Inv) (live_eq : b'.live = b.live ++ text)
      (failed_eq : h'.failed = h.failed) (ample : h.Ample → h'.Ample) :
      AppendOutcome b text h (0, b', h')
  | short {b' : Bytebuf} {h' : Heap} {part : Bytes} (inv : b'.Inv) (is_part : part <+: text)
      (live_eq : b'.live = b.live ++ part) (refused : Refused b text.length h h')
      (ample : h.Ample → h'.Ample) :
      AppendOutcome b text h (-1, b', h')

theorem bytebufAppend_spec {b : Bytebuf} (hb : b.Inv) (src : Bytes) (h : Heap) :
    AppendOutcome b src h (bytebufAppend b src h) := by
  rw [bytebufAppend]
  by_cases h0 : src.length = 0
  · rw [if_pos h0]
    have hnil : src = [] := List.length_eq_zero_iff.mp h0
    exact .done hb (by rw [hnil, List.append_nil]) rfl fun ha => ha
  · rw [if_neg h0]
    have hens := ensureTailCap_spec hb src.length h
    rcases hens.cases with ⟨hrc, hneed, hfailed⟩ | ⟨hrc, href⟩
    · have hwritten := tail_written hens.inv hneed
      rw [if_neg hrc]
      exact .done hwritten.1 (by rw [hwritten.2, hens.live_eq]) hfailed hens.ample
    · rw [if_pos hrc]
      exact .short hens.inv (List.nil_prefix (l := src)) (by rw [hens.live_eq, List.append_nil])
        href hens.ample

/-- A text the stack buffer holds is appended like any other bytes. -/
theorem bytebufAppendf_spec {b : Bytebuf} (hb : b.Inv) {text : Bytes} (ht : text.length < 128)
    (h : Heap) : AppendOutcome b text h (bytebufAppendf b text h) := by
  rw [bytebufAppendf, if_pos ht]
  exact bytebufAppend_spec hb text h

/-- Within the capacity the clamp of `bytebuf_advance` does nothing. -/
theorem advance_of_le {b : Bytebuf} {n : ℕ} (hn : n ≤ b.cap - b.len) :
    bytebufAdvance b n = { b with len := b.len + n } := by
  simp only [bytebufAdvance]
  rw [if_neg (by omega)]

/-- A successful reservation followed by a write of at most the reserved size. -/
theorem reserve_write_advance {b b' : Bytebuf} (hb : b.Inv) {n tail : ℕ} {h h' : Heap}
    (hres : bytebufReserve b n h = (some tail, b', h')) {src : Bytes} (hsrc : src.length ≤ n) :
    (bytebufAdvance (writeTail b' tail src) src.length).Inv ∧
      (bytebufAdvance (writeTail b' tail src) src.length).live = b.live ++ src := by
  have hens := ensureTailCap_spec hb n h
  rw [bytebufReserve] at hres
  rcases hens.cases with ⟨hrc, hneed, -⟩ | ⟨hrc, -⟩
  · rw [if_neg hrc] at hres
    obtain ⟨rfl, hrest⟩ : (ensureTailCap b n h).2.1.len = tail ∧
        (ensureTailCap b n h).2 = (b', h') := by simpa using hres
    obtain rfl : (ensureTailCap b n h).2.1 = b' := congrArg Prod.fst hrest
    have hfits : src.length ≤ (ensureTailCap b n h).2.1.cap - (ensureTailCap b n h).2.1.len := by
      omega
    have hwritten := tail_written hens.inv hfits
    rw [advance_of_le (show src.length ≤ (writeTail _ _ src).cap - (writeTail _ _ src).len from
      hfits), ← hens.live_eq]
    exact hwritten
  · rw [if_pos hrc] at hres
    simp at hres

/-- A reservation keeps the queue; it fails for a reason only. -/
theorem bytebufReserve_spec {b : Bytebuf} (hb : b.Inv) (n : ℕ) (h : Heap) :
    (bytebufReserve b n h).2.1.Inv ∧ (bytebufReserve b n h).2.1.live = b.live ∧
      (h.Ample → (bytebufReserve b n h).2.2.Ample) ∧
      (((bytebufReserve b n h).1.isSome ∧ (bytebufReserve b n h).2.2.failed = h.failed) ∨
        ((bytebufReserve b n h).1 = none ∧ Refused b n h (bytebufReserve b n h).2.2)) := by
  have hens := ensureTailCap_spec hb n h
  rw [bytebufReserve]
  rcases hens.cases with ⟨hrc, -, hfailed⟩ | ⟨hrc, href⟩
  · rw [if_neg hrc]
    exact ⟨hens.inv, hens.live_eq, hens.ample, Or.inl ⟨rfl, hfailed⟩⟩
  · rw [if_pos hrc]
    exact ⟨hens.inv, hens.live_eq, hens.ample, Or.inr ⟨rfl, href⟩⟩

/-! ### The consumer side -/

/-- Consuming drops bytes from the front of the queue. -/
theorem bytebufConsume_spec {b : Bytebuf} (hb : b.Inv) (n : ℕ) :
    (bytebufConsume b n).Inv ∧ (bytebufConsume b n).live = b.live.drop n := by
  have hlen := hb.len_le
  have hoff := hb.off_le_len
  have hlive := hb.length_live
  set m := if n > b.len - b.off then b.len - b.off else n with hm
  have hm_le : m ≤ b.len - b.off := by
    rw [hm]
    split <;> omega
  -- the clamp makes no difference to the queue
  have hdrop : b.live.drop n = b.live.drop m := by
    rw [hm]
    split
    · rw [List.drop_of_length_le (by omega), List.drop_of_length_le (by omega)]
    · rfl
  rw [hdrop]
  have hmoved : (⟨b.data, b.cap, b.len, b.off + m⟩ : Bytebuf).live = b.live.drop m := by
    simp only [Bytebuf.live_eq, List.drop_drop]
  simp only [bytebufConsume, ← hm]
  by_cases hend : b.off + m = b.len
  · rw [if_pos hend]
    refine ⟨⟨⟨hb.length_data, Nat.zero_le _, Nat.le_refl 0⟩, hb.cap_le, hb.cap_pow, Or.inl rfl,
      Nat.zero_le _⟩, ?_⟩
    rw [List.drop_of_length_le (by omega)]
    rfl
  · rw [if_neg hend]
    have hlt : b.off + m < b.len := by omega
    have hbounds : (⟨b.data, b.cap, b.len, b.off + m⟩ : Bytebuf).Bounds :=
      ⟨hb.length_data, hlen, Nat.le_of_lt hlt⟩
    by_cases hwaste : b.off + m > BYTEBUF_COMPACT_MIN ∧ b.off + m > b.cap / 2
    · rw [if_pos hwaste]
      exact ⟨hbounds.compact hb.cap_le hb.cap_pow, (live_compact hbounds).trans hmoved⟩
    · rw [if_neg hwaste]
      refine ⟨⟨hbounds, hb.cap_le, hb.cap_pow, Or.inr hlt, ?_⟩, hmoved⟩
      change b.off + m ≤ max BYTEBUF_COMPACT_MIN (b.cap / 2)
      omega

end Bytebuf

end RedisInC
