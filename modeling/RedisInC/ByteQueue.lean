import RedisInC.Bytebuf
import RedisInC.Fifo

/-!
# The buffer is a bounded queue

Callers see a buffer through six functions, and never its array. Seen that way,
it is a queue of at most `BYTEBUF_MAX` bytes.

* `BytebufOp` — what callers do to a buffer, with the outcome they are told.
* `Enqueued` — what adding bytes comes to: all of them, or none and a reason.
* `bytebuf_is_queue` — every run of operations, with any allocator, is the same
  run on a queue; and adding fails only for the hard cap or the allocator.
* `appendf_agrees` — `bytebuf_appendf` is `bytebuf_append` but for the very last
  byte of the room.
-/

namespace RedisInC

open Bytebuf

/-- What is done to a buffer. -/
inductive BytebufOp : Type
  /-- `bytebuf_append` -/
  | append (src : Bytes)
  /-- `bytebuf_reserve(n)`, writing some bytes there, `bytebuf_advance` by as many -/
  | reserve (n : ℕ) (src : Bytes) (hsrc : src.length ≤ n)
  /-- `bytebuf_consume` -/
  | consume (n : ℕ)
  /-- `bytebuf_reset` -/
  | reset

namespace BytebufOp

/-- Do it, and tell whether it succeeded. -/
def exec : BytebufOp → Bytebuf × Heap → Bool × Bytebuf × Heap
  | append src, (b, h) =>
    let r := bytebufAppend b src h
    (r.1 = 0, r.2)
  | reserve n src _, (b, h) =>
    match bytebufReserve b n h with
    | (none, b, h) => (false, b, h)
    | (some tail, b, h) =>
      -- without an array there is no tail, and the pointer returned is NULL too
      if b.cap = 0 then (false, b, h)
      else (true, bytebufAdvance (writeTail b tail src) src.length, h)
  | consume n, (b, h) => (true, bytebufConsume b n, h)
  | reset, (b, h) => (true, bytebufReset b, h)

/-- What it is for. -/
def means : BytebufOp → Fifo.Op UInt8
  | append src => .enqueue src
  | reserve _ src _ => .enqueue src
  | consume n => .dequeue n
  | reset => .clear

end BytebufOp

/-! ## Adding bytes -/

/-- What adding bytes comes to that need room for `room`: all of them are added,
or none and there is a reason. -/
inductive Enqueued (b : Bytebuf) (room : ℕ) (src : Bytes) (h : Heap) :
    Bool × Bytebuf × Heap → Prop
  | all {b' : Bytebuf} {h' : Heap} (inv : b'.Inv) (live_eq : b'.live = b.live ++ src)
      (fits : b.live.length + room ≤ BYTEBUF_MAX) (ample : h.Ample → h'.Ample) :
      Enqueued b room src h (true, b', h')
  | nothing {b' : Bytebuf} {h' : Heap} (inv : b'.Inv) (live_eq : b'.live = b.live)
      (refused : Refused b room h h') (ample : h.Ample → h'.Ample) :
      Enqueued b room src h (false, b', h')

section Enqueued

variable {b : Bytebuf} {room : ℕ} {src : Bytes} {h : Heap} {r : Bool × Bytebuf × Heap}

theorem Enqueued.inv (hr : Enqueued b room src h r) : r.2.1.Inv := by
  cases hr with
  | all inv live_eq fits ample => exact inv
  | nothing inv live_eq refused ample => exact inv

/-- Added or not, it is the queue that is told. -/
theorem Enqueued.live (hr : Enqueued b room src h r) :
    r.2.1.live = (Fifo.Op.enqueue src).apply b.live r.1 := by
  cases hr with
  | all inv live_eq fits ample => exact live_eq
  | nothing inv live_eq refused ample => exact live_eq

/-- **The boundary**: without a failed allocation, the hard cap alone decides. -/
theorem Enqueued.done_iff (hr : Enqueued b room src h r) (hf : r.2.2.failed = false) :
    r.1 = true ↔ b.live.length + room ≤ BYTEBUF_MAX := by
  cases hr with
  | all inv live_eq fits ample => exact ⟨fun _ => fits, fun _ => rfl⟩
  | nothing inv live_eq refused ample =>
    rcases refused with hfailed | ⟨hover, -⟩
    · exact absurd (hfailed.symm.trans hf) (by decide)
    · exact ⟨fun hdone => absurd hdone Bool.false_ne_true, fun hle => absurd hover (Nat.not_lt.mpr hle)⟩

theorem Enqueued.ample (hr : Enqueued b room src h r) (ha : h.Ample) : r.2.2.Ample := by
  cases hr with
  | all inv live_eq fits ample => exact ample ha
  | nothing inv live_eq refused ample => exact ample ha

/-- Room in the array is room under the hard cap. -/
theorem fits_of_room {b' : Bytebuf} (hb : b'.Inv) (hlive : b'.live = b.live)
    (hroom : room ≤ b'.cap - b'.len) : b.live.length + room ≤ BYTEBUF_MAX := by
  have hcap := hb.cap_le
  have hlen := hb.len_le
  rw [← hlive, hb.length_live]
  omega

/-- **Room for some bytes, and then the bytes.** Whatever is written at the tail
(a terminator may follow) within the room. -/
theorem enqueued_tail (hb : b.Inv) {n : ℕ} (extra : Bytes) (hn : src.length + extra.length ≤ n)
    (h : Heap) :
    let e := ensureTailCap b n h
    let r : Int × Bytebuf × Heap :=
      if e.1 < 0 then (-1, e.2)
      else (0, { e.2.1 with
          data := memcpy e.2.1.data e.2.1.len (src ++ extra), len := e.2.1.len + src.length },
        e.2.2)
    Enqueued b n src h (r.1 = 0, r.2) := by
  have hens := ensureTailCap_spec hb n h
  generalize ensureTailCap b n h = e at hens ⊢
  rcases hens.cases with ⟨hrc, hneed, -⟩ | ⟨hrc, hrefused⟩
  · have hwritten := tail_written_extra hens.inv extra (Nat.le_trans hn hneed)
    simp only [if_neg hrc]
    exact .all hwritten.1 (by rw [hwritten.2, hens.live_eq])
      (fits_of_room hens.inv hens.live_eq hneed) hens.ample
  · simp only [if_pos hrc]
    exact .nothing hens.inv hens.live_eq hrefused hens.ample

/-- `bytebuf_append` -/
theorem append_enqueued (hb : b.Inv) (src : Bytes) (h : Heap) :
    Enqueued b src.length src h ((BytebufOp.append src).exec (b, h)) := by
  rw [BytebufOp.exec, bytebufAppend]
  by_cases h0 : src.length = 0
  · rw [if_pos h0]
    have hnil : src = [] := List.length_eq_zero_iff.mp h0
    subst hnil
    exact .all hb (List.append_nil _).symm hb.length_live_le fun ha => ha
  · have htail := enqueued_tail hb [] (Nat.le_refl src.length) h
    rw [List.append_nil] at htail
    rw [if_neg h0]
    exact htail

/-- `bytebuf_reserve`, the write and `bytebuf_advance`, for a room that is not
empty. -/
theorem reserve_enqueued (hb : b.Inv) {n : ℕ} (hsrc : src.length ≤ n) (hn : 1 ≤ n) (h : Heap) :
    Enqueued b n src h ((BytebufOp.reserve n src hsrc).exec (b, h)) := by
  have hens := ensureTailCap_spec hb n h
  simp only [BytebufOp.exec, bytebufReserve]
  generalize ensureTailCap b n h = e at hens ⊢
  obtain ⟨rc, b', h'⟩ := e
  have hinv : b'.Inv := hens.inv
  have hlive : b'.live = b.live := hens.live_eq
  rcases hens.room with ⟨hrc, hneed, -⟩ | ⟨hrc, hrefused⟩
  · obtain rfl : rc = 0 := hrc
    have hneed' : n ≤ b'.cap - b'.len := hneed
    have hcap : b'.cap ≠ 0 := by omega
    have hwritten := tail_written hinv (Nat.le_trans hsrc hneed')
    have hadvance : bytebufAdvance (writeTail b' b'.len src) src.length =
        { b' with data := memcpy b'.data b'.len src, len := b'.len + src.length } :=
      advance_of_le (show src.length ≤ b'.cap - b'.len from Nat.le_trans hsrc hneed')
    simp only [lt_irrefl, if_false, if_neg hcap, hadvance]
    exact .all hwritten.1 (by rw [hwritten.2, hlive]) (fits_of_room hinv hlive hneed')
      hens.ample
  · obtain rfl : rc = -1 := hrc
    exact .nothing hinv hlive hrefused hens.ample

/-- The room `bytebuf_appendf` asks for: a long text is formatted in place, with its
terminator. -/
def formatRoom (text : Bytes) : ℕ := if text.length < 128 then text.length else text.length + 1

/-- `bytebuf_appendf` -/
theorem appendf_enqueued (hb : b.Inv) (text : Bytes) (h : Heap) :
    Enqueued b (formatRoom text) text h
      ((bytebufAppendf b text h).1 = 0, (bytebufAppendf b text h).2) := by
  rw [bytebufAppendf, formatRoom]
  by_cases hshort : text.length < 128
  · rw [if_pos hshort, if_pos hshort]
    exact append_enqueued hb text h
  · rw [if_neg hshort, if_neg hshort]
    exact enqueued_tail hb [0] (Nat.le_refl (text.length + 1)) h

end Enqueued

/-! ## The queue -/

namespace BytebufOp

/-- **One operation** keeps the buffer in order, and does to the queue what it is
for, or nothing if it fails. -/
theorem exec_spec (op : BytebufOp) {s : Bytebuf × Heap} (hb : s.1.Inv) :
    (op.exec s).2.1.Inv ∧ (op.exec s).2.1.live = op.means.apply s.1.live (op.exec s).1 := by
  obtain ⟨b, h⟩ := s
  cases op with
  | append src =>
    have henq := append_enqueued hb src h
    exact ⟨henq.inv, henq.live⟩
  | reserve n src hsrc =>
    rcases Nat.eq_zero_or_pos n with rfl | hn
    · -- an empty room adds nothing, whatever the outcome
      obtain rfl : src = [] := List.length_eq_zero_iff.mp (Nat.le_zero.mp hsrc)
      have hres : bytebufReserve b 0 h = (some b.len, b, h) := by
        simp [bytebufReserve, ensureTailCap]
      obtain ⟨hinv, hlive⟩ := reserve_write_advance hb hres hsrc
      rw [List.append_nil] at hlive
      simp only [exec, hres, means, Fifo.Op.apply_enqueue_nil]
      split
      · exact ⟨hb, rfl⟩
      · exact ⟨hinv, hlive⟩
    · have henq := reserve_enqueued hb hsrc hn h
      exact ⟨henq.inv, henq.live⟩
  | consume n =>
    obtain ⟨hinv, hlive⟩ := bytebufConsume_spec hb n
    exact ⟨hinv, by rw [exec, means, Fifo.Op.apply_dequeue]; exact hlive⟩
  | reset => exact ⟨hb.reset, live_reset b⟩

end BytebufOp

/-- The buffer as an implementation of a queue. -/
def byteQueue : Fifo.Machine (Bytebuf × Heap) BytebufOp UInt8 where
  step := BytebufOp.exec
  means := BytebufOp.means
  Valid s := s.1.Inv
  contents s := s.1.live
  valid_step op _ hs := (op.exec_spec hs).1
  contents_step op _ hs := (op.exec_spec hs).2

/-- What a buffer shows of the queue it holds, and what adding to it comes to,
whatever the allocator. -/
structure HoldsQueue (b : Bytebuf) (q : Bytes) : Prop where
  /-- `bytebuf_len` is the length of the queue -/
  len : bytebufLen b = q.length
  /-- `bytebuf_data` points at it -/
  data : (bytebufData b).take (bytebufLen b) = q
  /-- without a failed allocation, `bytebuf_append` succeeds iff the bytes fit under
  the hard cap -/
  append_iff : ∀ (src : Bytes) (h : Heap), ((BytebufOp.append src).exec (b, h)).2.2.failed = false →
    (((BytebufOp.append src).exec (b, h)).1 = true ↔ q.length + src.length ≤ BYTEBUF_MAX)
  /-- without a failed allocation, `bytebuf_reserve` of one byte or more succeeds iff
  as many fit under the hard cap -/
  reserve_iff : ∀ (n : ℕ) (src : Bytes) (hsrc : src.length ≤ n) (h : Heap), 1 ≤ n →
    ((BytebufOp.reserve n src hsrc).exec (b, h)).2.2.failed = false →
    (((BytebufOp.reserve n src hsrc).exec (b, h)).1 = true ↔ q.length + n ≤ BYTEBUF_MAX)
  /-- what fails leaves the queue as it is -/
  kept : ∀ (op : BytebufOp) (h : Heap), (op.exec (b, h)).1 = false →
    (op.exec (b, h)).2.1.live = q

theorem holdsQueue_live {b : Bytebuf} (hb : b.Inv) : HoldsQueue b b.live where
  len := hb.bytebufLen_eq
  data := rfl
  append_iff src h hf := (append_enqueued hb src h).done_iff hf
  reserve_iff _ _ hsrc h hn hf := (reserve_enqueued hb hsrc hn h).done_iff hf
  kept op h hno := by
    rw [(@BytebufOp.exec_spec op (b, h) hb).2, hno]
    rfl

/-- **The buffer is a bounded queue.** After every sequence of operations on a fresh
buffer, with any allocator, it holds the queue that the operations make, of which
the failed ones do nothing; and the next one fails only for the hard cap or for
the allocator. -/
theorem bytebuf_is_queue (ops : List BytebufOp) (h : Heap) :
    HoldsQueue (byteQueue.run ops (bytebufInit, h)).2.1
      (Fifo.after [] (byteQueue.log ops (bytebufInit, h))) := by
  have hinit : byteQueue.Valid (bytebufInit, h) := inv_init
  have hlive : (byteQueue.run ops (bytebufInit, h)).2.1.live = _ := byteQueue.contents_run hinit ops
  have hinv : (byteQueue.run ops (bytebufInit, h)).2.1.Inv := byteQueue.valid_run hinit ops
  have hholds := holdsQueue_live hinv
  rw [hlive] at hholds
  exact hholds

/-! ## Formatted texts -/

section Appendf

variable {b : Bytebuf} {text : Bytes} {h h' : Heap}

/-- Success is decided by the room asked for. -/
theorem appendf_rc_iff (hb : b.Inv) (hf : (bytebufAppendf b text h).2.2.failed = false) :
    (bytebufAppendf b text h).1 = 0 ↔ b.live.length + formatRoom text ≤ BYTEBUF_MAX := by
  rw [← (appendf_enqueued hb text h).done_iff hf, decide_eq_true_iff]

theorem append_rc_iff (hb : b.Inv) (hf : (bytebufAppend b text h).2.2.failed = false) :
    (bytebufAppend b text h).1 = 0 ↔ b.live.length + text.length ≤ BYTEBUF_MAX := by
  rw [← (append_enqueued hb text h).done_iff hf, BytebufOp.exec, decide_eq_true_iff]

/-- The result is 0 or -1. -/
theorem appendf_rc (b : Bytebuf) (text : Bytes) (h : Heap) :
    (bytebufAppendf b text h).1 = 0 ∨ (bytebufAppendf b text h).1 = -1 := by
  rw [bytebufAppendf, bytebufAppend]
  dsimp only
  split
  · split
    · exact Or.inl rfl
    · split
      · exact Or.inr rfl
      · exact Or.inl rfl
  · split
    · exact Or.inr rfl
    · exact Or.inl rfl

/-- **The two ways to append a text.** Without a failed allocation they succeed
together and leave the same live bytes, but for a long text that would fill the
buffer to the last byte: there is no room for the terminator, and
`bytebuf_appendf` leaves the live bytes as they are. -/
theorem appendf_agrees (hb : b.Inv) (text : Bytes)
    (hf : (bytebufAppendf b text h).2.2.failed = false)
    (hf' : (bytebufAppend b text h').2.2.failed = false) :
    if 128 ≤ text.length ∧ b.live.length + text.length = BYTEBUF_MAX then
      (bytebufAppendf b text h).1 = -1 ∧ (bytebufAppendf b text h).2.1.live = b.live ∧
        (bytebufAppend b text h').1 = 0 ∧
        (bytebufAppend b text h').2.1.live = b.live ++ text
    else
      ((bytebufAppendf b text h).1 = 0 ↔ (bytebufAppend b text h').1 = 0) ∧
        (bytebufAppendf b text h).2.1.live = (bytebufAppend b text h').2.1.live := by
  have hlive := (appendf_enqueued hb text h).live
  have hlive' := (append_enqueued hb text h').live
  have hiff := appendf_rc_iff hb hf
  have hiff' := append_rc_iff hb hf'
  simp only [BytebufOp.exec] at hlive hlive'
  split
  · next hedge =>
    have hroom : formatRoom text = text.length + 1 := if_neg (Nat.not_lt.mpr hedge.1)
    have hno : (bytebufAppendf b text h).1 ≠ 0 := by
      rw [Ne, hiff, hroom]
      omega
    have hyes : (bytebufAppend b text h').1 = 0 := hiff'.mpr (Nat.le_of_eq hedge.2)
    rw [decide_eq_false hno] at hlive
    rw [decide_eq_true hyes] at hlive'
    exact ⟨(appendf_rc b text h).resolve_left hno, hlive, hyes, hlive'⟩
  · next hedge =>
    have hsame : (bytebufAppendf b text h).1 = 0 ↔ (bytebufAppend b text h').1 = 0 := by
      rw [hiff, hiff', formatRoom]
      split
      · exact Iff.rfl
      · omega
    refine ⟨hsame, ?_⟩
    rw [hlive, hlive', decide_eq_decide.mpr hsame]

/-- A text that is formatted in place. -/
def longText : Bytes := List.replicate 200 97

theorem length_longText : longText.length = 200 := List.length_replicate

/-- It goes into a fresh buffer either way. -/
theorem appendf_agrees_long :
    (bytebufAppendf bytebufInit longText Heap.ample).1 = 0 ∧
      (bytebufAppendf bytebufInit longText Heap.ample).2.1.live =
        (bytebufAppend bytebufInit longText Heap.ample).2.1.live := by
  obtain ⟨text, htext⟩ : ∃ text, text = longText := ⟨_, rfl⟩
  have hlen : text.length = 200 := by rw [htext, length_longText]
  rw [← htext]
  have hf := (appendf_enqueued inv_init text Heap.ample).ample Heap.ample_ample
  have hf' := (append_enqueued inv_init text Heap.ample).ample Heap.ample_ample
  have hagree := appendf_agrees inv_init text hf.2 hf'.2
  have hroom : bytebufInit.live.length + formatRoom text ≤ BYTEBUF_MAX := by
    rw [live_init, formatRoom, hlen]
    decide
  rw [hlen, live_init, if_neg (by decide)] at hagree
  exact ⟨(appendf_rc_iff inv_init hf.2).mpr hroom, hagree.2⟩

/-- A full buffer. -/
def fullBuf : Bytebuf := ⟨List.replicate BYTEBUF_MAX 0, BYTEBUF_MAX, BYTEBUF_MAX, 0⟩

theorem fullBuf_inv : fullBuf.Inv where
  length_data := List.length_replicate
  len_le := Nat.le_refl _
  off_le_len := Nat.zero_le _
  cap_le := Nat.le_refl _
  cap_pow := Or.inr ⟨16, by decide⟩
  off_lt := Or.inl rfl
  off_le := Nat.zero_le _

theorem length_fullBuf : fullBuf.live.length = BYTEBUF_MAX := fullBuf_inv.length_live

/-- **The last byte.** A full buffer from which 128 bytes have been taken has room for
a text of 128 bytes, and only `bytebuf_append` appends it. -/
theorem appendf_differs : ∃ (b : Bytebuf) (text : Bytes), b.Inv ∧ (∀ c ∈ text, c ≠ 0) ∧
    (bytebufAppendf b text Heap.ample).2.2.failed = false ∧
    (bytebufAppend b text Heap.ample).2.2.failed = false ∧
    ¬ (((bytebufAppendf b text Heap.ample).1 = 0 ↔ (bytebufAppend b text Heap.ample).1 = 0) ∧
      (bytebufAppendf b text Heap.ample).2.1.live = (bytebufAppend b text Heap.ample).2.1.live) := by
  obtain ⟨hinv, hlive⟩ := bytebufConsume_spec fullBuf_inv 128
  generalize bytebufConsume fullBuf 128 = b at hinv hlive
  have hlen : b.live.length = BYTEBUF_MAX - 128 := by
    rw [hlive, List.length_drop, length_fullBuf]
  have hnul : ∀ c ∈ List.replicate 128 (65 : UInt8), c ≠ 0 := by
    intro c hmem
    rw [List.eq_of_mem_replicate hmem]
    decide
  have htext : (List.replicate 128 (65 : UInt8)).length = 128 := List.length_replicate
  generalize List.replicate 128 (65 : UInt8) = text at hnul htext
  have hf := ((appendf_enqueued hinv text Heap.ample).ample Heap.ample_ample).2
  have hf' := ((append_enqueued hinv text Heap.ample).ample Heap.ample_ample).2
  have hedge : b.live.length + text.length = BYTEBUF_MAX := by
    have hmax : 128 ≤ BYTEBUF_MAX := by decide
    omega
  refine ⟨b, text, hinv, hnul, hf, hf', fun hagree => ?_⟩
  have hyes := (append_rc_iff hinv hf').mpr (Nat.le_of_eq hedge)
  have hfits := (appendf_rc_iff hinv hf).mp (hagree.1.mpr hyes)
  rw [formatRoom, if_neg (by omega)] at hfits
  omega

end Appendf

end RedisInC
