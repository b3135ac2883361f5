import RedisInC.Bounded
import RedisInC.Reply

/-!
# The buffer keeps its bounds

The fields of a buffer are unsigned, so a difference of two of them that is taken in
the wrong order is a huge number, and the next write is far behind the array. The
functions of `bytebuf.c` are stated here a second time with all this checked.

* `checkedCompact` … `checkedConsume` — the code, with `none` where a size would
  wrap, a write would leave the array, or the growth loop would go on.
* `BufferCall` — everything callers can do to a buffer, with any sizes.
* `bufferMachine` — no call goes wrong on a buffer that satisfies `Bytebuf.Inv`, and
  the buffer satisfies it again.
* `bytebuf_invariant` — hence this holds after every sequence of calls, with any
  allocator.
-/

namespace RedisInC

open Bounded Bytebuf

/-- What a successful `vsnprintf` has formatted; its length is returned as an `int`. -/
structure Printed where
  /-- the whole text -/
  text : Bytes
  length_le : text.length ≤ INT_MAX

/-- `bytebuf_free` -/
def bytebufFree (_ : Bytebuf) : Bytebuf := ⟨[], 0, 0, 0⟩

/-! ## The code, checked -/

/-- `memcpy` or `memmove` into an array. -/
def checkedCopy (data : Bytes) (pos : ℕ) (src : Bytes) : Option Bytes :=
  if pos + src.length ≤ data.length then some (memcpy data pos src) else none

/-- `compact_in_place` -/
def checkedCompact (b : Bytebuf) : Option Bytebuf :=
  (sub b.len b.off).bind fun live =>
    if live > 0 ∧ b.off > 0 then
      (slice b.data b.off live).bind fun src =>
        (checkedCopy b.data 0 src).map fun data => ⟨data, b.cap, live, 0⟩
    else some ⟨b.data, b.cap, live, 0⟩

/-- The doubling loop of `ensure_tail_cap`; the inner `none` is its `return -1`. -/
def checkedGrowCap : ℕ → ℕ → ℕ → ℕ → Option (Option ℕ)
  | 0, _, _, _ => none
  | rounds + 1, newCap, len, need =>
    (sub newCap len).bind fun room =>
      if room < need then
        if newCap ≥ BYTEBUF_MAX then some none
        else if newCap > BYTEBUF_MAX / 2 then checkedGrowCap rounds BYTEBUF_MAX len need
        else (mul SIZE_MAX newCap 2).bind fun newCap => checkedGrowCap rounds newCap len need
      else some (some newCap)

/-- The part of `ensure_tail_cap` that asks for a bigger array. -/
def checkedGrowTail (b : Bytebuf) (need : ℕ) (h : Heap) : Option (Int × Bytebuf × Heap) :=
  let newCap := if b.cap = 0 then BYTEBUF_INIT_CAP else b.cap
  (checkedGrowCap growFuel newCap b.len need).map fun grown =>
    match grown with
    | none => (-1, b, h)
    | some newCap =>
      let r := h.malloc newCap
      if r.1 then
        (0, { b with data := b.data ++ (List.range (newCap - b.cap)).map h.fresh, cap := newCap },
          r.2)
      else (-1, b, r.2)

/-- `ensure_tail_cap` -/
def checkedEnsureTailCap (b : Bytebuf) (need : ℕ) (h : Heap) : Option (Int × Bytebuf × Heap) :=
  (sub b.cap b.len).bind fun room =>
    if room ≥ need then some (0, b, h)
    else if b.off > 0 then
      (checkedCompact b).bind fun b =>
        (sub b.cap b.len).bind fun room =>
          if room ≥ need then some (0, b, h) else checkedGrowTail b need h
    else checkedGrowTail b need h

/-- `bytebuf_append` -/
def checkedAppend (b : Bytebuf) (src : Bytes) (h : Heap) : Option (Int × Bytebuf × Heap) :=
  if src.length = 0 then some (0, b, h)
  else
    (checkedEnsureTailCap b src.length h).bind fun r =>
      if r.1 < 0 then some (-1, r.2)
      else
        let b := r.2.1
        (checkedCopy b.data b.len src).bind fun data =>
          (add SIZE_MAX b.len src.length).map fun len => (0, ⟨data, b.cap, len, b.off⟩, r.2.2)

/-- `bytebuf_appendf`, with what its two calls of `vsnprintf` format; `none` is a
negative result. The second call writes into the array, at most the room it is given
and a terminating NUL included. -/
def checkedAppendf (b : Bytebuf) (first again : Option Printed) (h : Heap) :
    Option (Int × Bytebuf × Heap) :=
  match first with
  | none => some (-1, b, h)
  | some first =>
    let n := first.text.length
    if n < 128 then checkedAppend b first.text h
    else
      (add SIZE_MAX n 1).bind fun need =>
        (checkedEnsureTailCap b need h).bind fun r =>
          if r.1 < 0 then some (-1, r.2)
          else
            let b := r.2.1
            match again with
            | none => some (-1, r.2)
            | some again =>
              (checkedCopy b.data b.len (again.text.take n ++ [0])).bind fun data =>
                if again.text.length ≠ n then some (-1, ⟨data, b.cap, b.len, b.off⟩, r.2.2)
                else (add SIZE_MAX b.len n).map fun len => (0, ⟨data, b.cap, len, b.off⟩, r.2.2)

/-- `bytebuf_advance` -/
def checkedAdvance (b : Bytebuf) (n : ℕ) : Option Bytebuf :=
  (sub b.cap b.len).bind fun room =>
    (add SIZE_MAX b.len (if n > room then room else n)).map fun len => ⟨b.data, b.cap, len, b.off⟩

/-- `bytebuf_len` -/
def checkedLen (b : Bytebuf) : Option ℕ := sub b.len b.off

/-- `bytebuf_consume` -/
def checkedConsume (b : Bytebuf) (n : ℕ) : Option Bytebuf :=
  (sub b.len b.off).bind fun live =>
    (add SIZE_MAX b.off (if n > live then live else n)).bind fun off =>
      if off = b.len then some ⟨b.data, b.cap, 0, 0⟩
      else if off > BYTEBUF_COMPACT_MIN ∧ off > b.cap / 2 then
        checkedCompact ⟨b.data, b.cap, b.len, off⟩
      else some ⟨b.data, b.cap, b.len, off⟩

/-! ## Under the invariant nothing goes wrong -/

theorem checkedCopy_of_le {data src : Bytes} {pos : ℕ} (h : pos + src.length ≤ data.length) :
    checkedCopy data pos src = some (memcpy data pos src) := if_pos h

/-- Sizes of a buffer are far from the limit. -/
theorem Bytebuf.Inv.fits {b : Bytebuf} (hb : b.Inv) {n : ℕ} (hn : n ≤ b.cap) : n ≤ SIZE_MAX := by
  have hmax : BYTEBUF_MAX ≤ SIZE_MAX := by decide
  exact Nat.le_trans hn (Nat.le_trans hb.cap_le hmax)

theorem checkedCompact_eq {b : Bytebuf} (hb : b.Bounds) :
    checkedCompact b = some (compactInPlace b) := by
  have hdata := hb.length_data
  have hlen := hb.len_le
  have hoff := hb.off_le_len
  rw [checkedCompact, compactInPlace, sub_of_le hoff, Option.bind_some]
  by_cases hmove : b.len - b.off > 0 ∧ b.off > 0
  · rw [if_pos hmove, slice_of_le (by omega), Option.bind_some, checkedCopy_of_le, Option.map_some]
    · simp only [if_pos hmove]
    · rw [List.length_take]
      omega
  · rw [if_neg hmove]
    simp only [if_neg hmove]

/-- **The growth loop ends**, for every need, and never takes a difference the wrong way
round. -/
theorem checkedGrowCap_eq {len need fuel c : ℕ} (hf : 2 * BYTEBUF_MAX ≤ c * 2 ^ fuel)
    (hlen : len ≤ c) (hc : c ≤ BYTEBUF_MAX) :
    checkedGrowCap fuel c len need = some (growCap fuel c len need) := by
  induction fuel generalizing c with
  | zero =>
    have hpos : 0 < BYTEBUF_MAX := by decide
    omega
  | succ fuel ih =>
    rw [checkedGrowCap, growCap, sub_of_le hlen, Option.bind_some]
    by_cases hneed : c - len < need
    · rw [if_pos hneed, if_pos hneed]
      by_cases hmax : c ≥ BYTEBUF_MAX
      · rw [if_pos hmax, if_pos hmax]
      · rw [if_neg hmax, if_neg hmax]
        by_cases hhalf : c > BYTEBUF_MAX / 2
        · rw [if_pos hhalf, if_pos hhalf]
          exact ih (fuel_jump hf (Nat.not_le.mp hmax)) (Nat.le_trans hlen hc) (Nat.le_refl _)
        · have hdouble : c * 2 ≤ BYTEBUF_MAX := by omega
          have hsize : BYTEBUF_MAX ≤ SIZE_MAX := by decide
          rw [if_neg hhalf, if_neg hhalf, mul_of_le (Nat.le_trans hdouble hsize), Option.bind_some]
          exact ih (fuel_double hf) (by omega) hdouble
    · rw [if_neg hneed, if_neg hneed]

theorem checkedGrowTail_eq {b : Bytebuf} (hb : b.Inv) (need : ℕ) (h : Heap) :
    checkedGrowTail b need h = some (growTail b need h) := by
  obtain ⟨hle, hmax, hfuel, -⟩ := hb.start_cap
  rw [checkedGrowTail, growTail, checkedGrowCap_eq hfuel (Nat.le_trans hb.len_le hle) hmax]
  rfl

theorem checkedEnsureTailCap_eq {b : Bytebuf} (hb : b.Inv) (need : ℕ) (h : Heap) :
    checkedEnsureTailCap b need h = some (ensureTailCap b need h) := by
  rw [checkedEnsureTailCap, ensureTailCap, sub_of_le hb.len_le, Option.bind_some]
  by_cases hroom : b.cap - b.len ≥ need
  · rw [if_pos hroom, if_pos hroom]
  · rw [if_neg hroom, if_neg hroom]
    by_cases hoff : b.off > 0
    · have hinv := hb.compact
      rw [if_pos hoff, if_pos hoff, checkedCompact_eq hb.toBounds, Option.bind_some,
        sub_of_le hinv.len_le, Option.bind_some, checkedGrowTail_eq hinv]
      split
      · next hroom' => simp only [if_pos hroom']
      · next hroom' => simp only [if_neg hroom']
    · rw [if_neg hoff, if_neg hoff, checkedGrowTail_eq hb]

/-- The array never shrinks. -/
theorem growTail_cap {b : Bytebuf} (hb : b.Inv) (need : ℕ) (h : Heap) :
    b.cap ≤ (growTail b need h).2.1.cap := by
  obtain ⟨hle, hmax, hfuel, hpow⟩ := hb.start_cap
  rw [growTail]
  simp only
  rcases growCap_spec b.len need growFuel _ hfuel (Nat.le_trans hb.len_le hle) hmax hpow with
    ⟨c, hgrown, hc, -⟩ | ⟨hgrown, -⟩
  · rw [hgrown]
    simp only
    split
    · exact Nat.le_trans hle hc
    · exact Nat.le_refl _
  · rw [hgrown]

theorem ensureTailCap_cap {b : Bytebuf} (hb : b.Inv) (need : ℕ) (h : Heap) :
    b.cap ≤ (ensureTailCap b need h).2.1.cap := by
  rw [ensureTailCap]
  split
  · exact Nat.le_refl _
  · split
    · simp only
      split
      · exact Nat.le_refl _
      · exact growTail_cap hb.compact need h
    · exact growTail_cap hb need h

theorem checkedAppend_eq {b : Bytebuf} (hb : b.Inv) (src : Bytes) (h : Heap) :
    checkedAppend b src h = some (bytebufAppend b src h) := by
  rw [checkedAppend, bytebufAppend]
  by_cases h0 : src.length = 0
  · rw [if_pos h0, if_pos h0]
  · rw [if_neg h0, if_neg h0, checkedEnsureTailCap_eq hb, Option.bind_some]
    have hens := ensureTailCap_spec hb src.length h
    generalize ensureTailCap b src.length h = r at hens ⊢
    have hlen := hens.inv.len_le
    have hdata := hens.inv.length_data
    rcases hens.cases with ⟨hrc, hneed, -⟩ | ⟨hrc, -⟩
    · simp only [if_neg hrc]
      rw [checkedCopy_of_le (by omega), Option.bind_some,
        add_of_le (hens.inv.fits (by omega)), Option.map_some]
    · simp only [if_pos hrc]

/-- Two formattings with the same result are what `bytebuf_appendf` counts on. -/
theorem checkedAppendf_eq {b : Bytebuf} (hb : b.Inv) (printed : Printed) (h : Heap) :
    checkedAppendf b (some printed) (some printed) h =
      some (bytebufAppendf b printed.text h) := by
  have hint : INT_MAX + 1 ≤ SIZE_MAX := by decide
  have hprinted := printed.length_le
  rw [checkedAppendf, bytebufAppendf]
  simp only
  by_cases hshort : printed.text.length < 128
  · rw [if_pos hshort, if_pos hshort, checkedAppend_eq hb]
  · rw [if_neg hshort, if_neg hshort, add_of_le (by omega), Option.bind_some,
      checkedEnsureTailCap_eq hb, Option.bind_some, List.take_length]
    have hens := ensureTailCap_spec hb (printed.text.length + 1) h
    generalize ensureTailCap b (printed.text.length + 1) h = r at hens ⊢
    have hlen := hens.inv.len_le
    have hdata := hens.inv.length_data
    rcases hens.cases with ⟨hrc, hneed, -⟩ | ⟨hrc, -⟩
    · simp only [if_neg hrc]
      rw [checkedCopy_of_le, Option.bind_some, if_neg (not_not_intro rfl),
        add_of_le (hens.inv.fits (by omega)), Option.map_some]
      rw [List.length_append, List.length_singleton]
      omega
    · simp only [if_pos hrc]

theorem checkedAdvance_eq {b : Bytebuf} (hb : b.Inv) (n : ℕ) :
    checkedAdvance b n = some (bytebufAdvance b n) := by
  have hlen := hb.len_le
  have hle : b.len + (if n > b.cap - b.len then b.cap - b.len else n) ≤ b.cap := by
    split <;> omega
  rw [checkedAdvance, bytebufAdvance, sub_of_le hlen, Option.bind_some, add_of_le (hb.fits hle),
    Option.map_some]

theorem checkedConsume_eq {b : Bytebuf} (hb : b.Inv) (n : ℕ) :
    checkedConsume b n = some (bytebufConsume b n) := by
  have hlen := hb.len_le
  have hoff := hb.off_le_len
  rw [checkedConsume, bytebufConsume, sub_of_le hoff, Option.bind_some]
  generalize hm : (if n > b.len - b.off then b.len - b.off else n) = m
  have hle : b.off + m ≤ b.len := by
    rw [← hm]
    split <;> omega
  rw [add_of_le (hb.fits (Nat.le_trans hle hlen)), Option.bind_some]
  simp only
  by_cases hdrained : b.off + m = b.len
  · rw [if_pos hdrained, if_pos hdrained]
  · rw [if_neg hdrained, if_neg hdrained]
    by_cases hwaste : b.off + m > BYTEBUF_COMPACT_MIN ∧ b.off + m > b.cap / 2
    · rw [if_pos hwaste, if_pos hwaste]
      exact checkedCompact_eq ⟨hb.length_data, hlen, hle⟩
    · rw [if_neg hwaste, if_neg hwaste]

/-! ## What keeps the invariant -/

/-- Other bytes in the array, live or not. -/
theorem Bytebuf.Inv.rewrite {b : Bytebuf} (hb : b.Inv) {data : Bytes}
    (hdata : data.length = b.data.length) : (⟨data, b.cap, b.len, b.off⟩ : Bytebuf).Inv :=
  ⟨⟨hdata.trans hb.length_data, hb.len_le, hb.off_le_len⟩, hb.cap_le, hb.cap_pow, hb.off_lt,
    hb.off_le⟩

/-- The tail moved on, within the array. -/
theorem Bytebuf.Inv.tail_moved {b : Bytebuf} (hb : b.Inv) {len : ℕ} (hle : b.len ≤ len)
    (hcap : len ≤ b.cap) : (⟨b.data, b.cap, len, b.off⟩ : Bytebuf).Inv :=
  ⟨⟨hb.length_data, hcap, Nat.le_trans hb.off_le_len hle⟩, hb.cap_le, hb.cap_pow,
    hb.off_lt.imp id fun hlt => Nat.lt_of_lt_of_le hlt hle, hb.off_le⟩

/-- An advance of the tail, clamped to the array, whatever was reserved before. -/
theorem Bytebuf.Inv.advance {b : Bytebuf} (hb : b.Inv) (n : ℕ) : (bytebufAdvance b n).Inv := by
  have hlen := hb.len_le
  refine hb.tail_moved (Nat.le_add_right b.len _) ?_
  split <;> omega

/-- Whatever `vsnprintf` does. -/
theorem appendf_inv {b : Bytebuf} (hb : b.Inv) (first again : Option Printed) (h : Heap) :
    ∃ r, checkedAppendf b first again h = some r ∧ r.2.1.Inv := by
  have hint : INT_MAX + 1 ≤ SIZE_MAX := by decide
  cases first with
  | none => exact ⟨_, rfl, hb⟩
  | some first =>
    have hfirst := first.length_le
    rw [checkedAppendf]
    simp only
    by_cases hshort : first.text.length < 128
    · rw [if_pos hshort, checkedAppend_eq hb]
      exact ⟨_, rfl, (bytebufAppend_spec hb first.text h).inv⟩
    · rw [if_neg hshort, add_of_le (by omega), Option.bind_some, checkedEnsureTailCap_eq hb,
        Option.bind_some]
      have hens := ensureTailCap_spec hb (first.text.length + 1) h
      generalize ensureTailCap b (first.text.length + 1) h = r at hens ⊢
      have hlen := hens.inv.len_le
      have hdata := hens.inv.length_data
      rcases hens.cases with ⟨hrc, hneed, -⟩ | ⟨hrc, -⟩
      · rw [if_neg hrc]
        cases again with
        | none => exact ⟨_, rfl, hens.inv⟩
        | some again =>
          have hwritten : (again.text.take first.text.length ++ [0]).length ≤
              first.text.length + 1 := by
            rw [List.length_append, List.length_take, List.length_singleton]
            omega
          have hfits : r.2.1.len + (again.text.take first.text.length ++ [0]).length ≤
              r.2.1.data.length := by omega
          simp only
          rw [checkedCopy_of_le hfits, Option.bind_some]
          have hinv := hens.inv.rewrite (length_memcpy hfits)
          by_cases hsame : again.text.length ≠ first.text.length
          · rw [if_pos hsame]
            exact ⟨_, rfl, hinv⟩
          · rw [if_neg hsame, add_of_le (hens.inv.fits (by omega)), Option.map_some]
            exact ⟨_, rfl, hinv.tail_moved (Nat.le_add_right r.2.1.len _)
              (show r.2.1.len + first.text.length ≤ r.2.1.cap by omega)⟩
      · rw [if_pos hrc]
        exact ⟨_, rfl, hens.inv⟩

/-! ## Every sequence of calls -/

/-- What can be done to a buffer. -/
inductive BufferCall : Type
  /-- `bytebuf_append` -/
  | append (src : Bytes)
  /-- `bytebuf_appendf`, with what `vsnprintf` comes to -/
  | appendf (first again : Option Printed)
  /-- `bytebuf_reserve` -/
  | reserve (n : ℕ)
  /-- the caller writes behind the tail, as far as the array goes -/
  | write (src : Bytes)
  /-- `bytebuf_advance`, reserved or not -/
  | advance (n : ℕ)
  /-- `bytebuf_consume` -/
  | consume (n : ℕ)
  /-- `bytebuf_reset` -/
  | reset
  /-- `bytebuf_free` -/
  | free

/-- The buffer and the allocator after the call, if nothing goes wrong. -/
def BufferCall.exec : BufferCall → Bytebuf × Heap → Option (Bytebuf × Heap)
  | append src, (b, h) => (checkedAppend b src h).map fun r => r.2
  | appendf first again, (b, h) => (checkedAppendf b first again h).map fun r => r.2
  | reserve n, (b, h) => (checkedEnsureTailCap b n h).map fun r => r.2
  | write src, (b, h) =>
    (sub b.cap b.len).bind fun room =>
      (checkedCopy b.data b.len (src.take room)).map fun data =>
        (⟨data, b.cap, b.len, b.off⟩, h)
  | advance n, (b, h) => (checkedAdvance b n).map fun b => (b, h)
  | consume n, (b, h) => (checkedConsume b n).map fun b => (b, h)
  | reset, (b, h) => some (bytebufReset b, h)
  | free, (b, h) => some (bytebufFree b, h)

/-- **One call** on a buffer that is in order. -/
theorem BufferCall.exec_valid (call : BufferCall) {s : Bytebuf × Heap} (hb : s.1.Inv) :
    ∃ s', call.exec s = some s' ∧ s'.1.Inv := by
  obtain ⟨b, h⟩ := s
  cases call with
  | append src =>
    rw [exec, checkedAppend_eq hb]
    exact ⟨_, rfl, (bytebufAppend_spec hb src h).inv⟩
  | appendf first again =>
    obtain ⟨r, hr, hinv⟩ := appendf_inv hb first again h
    rw [exec, hr]
    exact ⟨_, rfl, hinv⟩
  | reserve n =>
    rw [exec, checkedEnsureTailCap_eq hb]
    exact ⟨_, rfl, (ensureTailCap_spec hb n h).inv⟩
  | write src =>
    have hlen : b.len ≤ b.cap := hb.len_le
    have hdata : b.data.length = b.cap := hb.length_data
    have hfits : b.len + (src.take (b.cap - b.len)).length ≤ b.data.length := by
      rw [List.length_take]
      omega
    rw [exec, sub_of_le hlen, Option.bind_some, checkedCopy_of_le hfits]
    exact ⟨_, rfl, hb.rewrite (length_memcpy hfits)⟩
  | advance n =>
    rw [exec, checkedAdvance_eq hb]
    exact ⟨_, rfl, hb.advance n⟩
  | consume n =>
    rw [exec, checkedConsume_eq hb]
    exact ⟨_, rfl, (bytebufConsume_spec hb n).1⟩
  | reset => exact ⟨_, rfl, hb.reset⟩
  | free => exact ⟨_, rfl, inv_init⟩

/-- The buffer as a machine that nothing goes wrong with. -/
def bufferMachine : Machine (Bytebuf × Heap) BufferCall where
  step := BufferCall.exec
  Valid s := s.1.Inv
  step_valid call _ hs := call.exec_valid hs

/-- **The representation invariant** holds after every sequence of calls, with any sizes
and any allocator. No size wraps on the way and no write leaves the array; and the
growth loop ends for every need, with an array that is at least as large as before
and within the cap. -/
theorem bytebuf_invariant (calls : List BufferCall) (h : Heap) :
    ∃ b h', bufferMachine.run calls (bytebufInit, h) = some (b, h') ∧ b.Inv ∧
      checkedLen b = some (bytebufLen b) ∧
      ∀ (need : ℕ) (h : Heap),
        checkedEnsureTailCap b need h = some (ensureTailCap b need h) ∧
          b.cap ≤ (ensureTailCap b need h).2.1.cap ∧
          (ensureTailCap b need h).2.1.cap ≤ BYTEBUF_MAX := by
  have hinit : bufferMachine.Valid (bytebufInit, h) := inv_init
  obtain ⟨⟨b, h'⟩, hrun, hvalid⟩ := bufferMachine.run_valid hinit calls
  have hb : b.Inv := hvalid
  refine ⟨b, h', hrun, hb, sub_of_le hb.off_le_len, fun need h => ?_⟩
  exact ⟨checkedEnsureTailCap_eq hb need h, ensureTailCap_cap hb need h,
    (ensureTailCap_spec hb need h).inv.cap_le⟩

end RedisInC
