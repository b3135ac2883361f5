import RedisInC.ByteQueue
import RedisInC.ReadLimit

/-!
# The check before a read

Before each `read` the loop checks that the input buffer is not full, and then
reserves a whole chunk. The two do not agree: a buffer may be less than full and
yet have no room for a chunk. It is reported as a failed allocation.

* `loopHeads` — the states in which the check is made. `levels` — how full the
  buffer is there, if nothing stops the reads. `Wedged` — in between.
* `Guards` — what the check is there for.
* `read_guard_iff` — over runs, the check does this exactly if no level is
  between.
* `short_read_wedges` — one read of a single byte among full ones is enough.
-/

namespace RedisInC

open Bytebuf

/-! ## The rounds of the read loop -/

/-- The states in which the read loop makes its check. -/
def loopHeads : List ReadResult → NetState → List NetState
  | [], s => [s]
  | result :: script, s =>
    s :: match reserveTail s with
      | (.error _, _) => []
      | (.ok tail, s) =>
        match result with
        | .data chunk => loopHeads script (takeChunk tail chunk s)
        | .eintr => loopHeads script s
        | _ => []

/-- How many bytes are unparsed at each check, from a number at the first one, as
long as all that is delivered is taken. -/
def levels : ℕ → List ReadResult → List ℕ
  | n, [] => [n]
  | n, .data chunk :: script => n :: levels (n + chunk.bytes.length) script
  | n, .eintr :: script => n :: levels n script
  | n, _ :: _ => [n]

/-- The buffer is not full, and has no room for a chunk. -/
def Wedged (n : ℕ) : Prop := BYTEBUF_MAX < n + READ_CHUNK ∧ n < BYTEBUF_MAX

theorem mem_levels_head (n : ℕ) (script : List ReadResult) : n ∈ levels n script := by
  rcases script with _ | ⟨_ | _ | _ | _ | _, script⟩
  all_goals exact List.mem_cons_self ..

/-- The level only rises. -/
theorem le_of_mem_levels {n m : ℕ} {script : List ReadResult} (hm : m ∈ levels n script) :
    n ≤ m := by
  induction script generalizing n with
  | nil => exact Nat.le_of_eq (List.mem_singleton.mp hm).symm
  | cons result script ih =>
    cases result with
    | data chunk =>
      rcases List.mem_cons.mp hm with rfl | hrest
      · exact Nat.le_refl _
      · exact Nat.le_of_add_right_le (ih hrest)
    | eintr =>
      rcases List.mem_cons.mp hm with rfl | hrest
      · exact Nat.le_refl _
      · exact ih hrest
    | eof | eagain | error => exact Nat.le_of_eq (List.mem_singleton.mp hm).symm

/-- A full buffer is not wedged, nor is any later one. -/
theorem not_wedged_of_full {n : ℕ} (hfull : BYTEBUF_MAX ≤ n) {script : List ReadResult} :
    ∀ m ∈ levels n script, ¬ Wedged m := by
  intro m hm hwedged
  exact absurd hwedged.2 (Nat.not_lt.mpr (hfull.trans (le_of_mem_levels hm)))

/-- Without a failed allocation it is for want of room that no chunk is reserved. -/
theorem wedged_of_noRoom {n : ℕ} {h : Heap} (hbelow : n < BYTEBUF_MAX)
    (hreason : h.failed = true ∨ BYTEBUF_MAX < n + READ_CHUNK) (hf : h.failed = false) :
    Wedged n := by
  rcases hreason with hfailed | hmax
  · exact absurd (hfailed.symm.trans hf) (by decide)
  · exact ⟨hmax, hbelow⟩

/-- A reservation that is granted fits under the hard cap. -/
theorem room_of_reserve {b : Bytebuf} (hb : b.Inv) {n : ℕ} {h : Heap}
    (hsome : (bytebufReserve b n h).1.isSome = true) : b.live.length + n ≤ BYTEBUF_MAX := by
  have hens := ensureTailCap_spec hb n h
  rw [bytebufReserve] at hsome
  rcases hens.cases with ⟨-, hneed, -⟩ | ⟨hrc, -⟩
  · exact fits_of_room hens.inv hens.live_eq hneed
  · rw [if_pos hrc] at hsome
    cases hsome

/-- A failed allocation of the first round is on record at the end. -/
theorem readLoop_failed_mono {script : List ReadResult} {s : NetState} (hi : s.conn.inBuf.Inv)
    (hf : (readLoop script s).2.heap.failed = false) : (reserveTail s).2.heap.failed = false := by
  have hout := reserveTail_outcome hi
  generalize hres : reserveTail s = res at hout
  cases hout with
  | full hfull =>
    rw [readLoop_refused script hres] at hf
    exact hf
  | noRoom below none_eq inv live_eq mono reason =>
    rw [readLoop_refused script hres] at hf
    exact hf
  | @room tail b h isSome inv live_eq mono taken =>
    cases script with
    | nil =>
      rw [readLoop, hres] at hf
      exact hf
    | cons result script =>
      rw [readLoop, hres] at hf
      cases result with
      | data chunk =>
        obtain ⟨chunks, hrest⟩ := readLoop_spec script (taken chunk).1
        exact hrest.failed_mono hf
      | eintr =>
        obtain ⟨chunks, hrest⟩ := @readLoop_spec script (s.reserved b h) inv
        exact hrest.failed_mono hf
      | eof | eagain | error => exact hf

/-! ## One call -/

/-- **What the check is there for**, in one run of the read loop. -/
structure Guards (s : NetState) (script : List ReadResult) : Prop where
  /-- when it passes, a chunk is reserved -/
  reserved : ∀ t ∈ loopHeads script s, bytebufLen t.conn.inBuf < BYTEBUF_MAX →
    (bytebufReserve t.conn.inBuf READ_CHUNK t.heap).1.isSome = true
  /-- no failed allocation is reported -/
  message : (readLoop script s).1 ≠ .refused (ascii "ERR out of memory")
  /-- as soon as the buffer is full, the request is reported as too large -/
  tooLarge : BYTEBUF_MAX ≤ s.conn.inBuf.live.length + (delivered script).length →
    (readLoop script s).1 = .refused (ascii "ERR request too large")
  /-- a text no longer than the buffer is received, in reads of whatever sizes -/
  received : ∀ text : Bytes, text.length ≤ BYTEBUF_MAX →
    text <+: s.conn.inBuf.live ++ delivered script → text <+: (readLoop script s).2.conn.inBuf.live

/-- At a check that is followed by a reservation, the level is not between. -/
theorem not_wedged_head {s : NetState} (hi : s.conn.inBuf.Inv)
    (hsome : bytebufLen s.conn.inBuf < BYTEBUF_MAX →
      (bytebufReserve s.conn.inBuf READ_CHUNK s.heap).1.isSome = true) :
    ¬ Wedged s.conn.inBuf.live.length := by
  intro hwedged
  rw [hi.bytebufLen_eq] at hsome
  exact absurd (room_of_reserve hi (hsome hwedged.2)) (Nat.not_le.mpr hwedged.1)

/-- If a chunk is reserved whenever the check passes, no level is between. -/
theorem not_wedged_of_reserved (script : List ReadResult) {s : NetState} (hi : s.conn.inBuf.Inv)
    (hheads : ∀ t ∈ loopHeads script s, bytebufLen t.conn.inBuf < BYTEBUF_MAX →
      (bytebufReserve t.conn.inBuf READ_CHUNK t.heap).1.isSome = true) :
    ∀ n ∈ levels s.conn.inBuf.live.length script, ¬ Wedged n := by
  induction script generalizing s with
  | nil =>
    intro n hn
    rw [List.mem_singleton.mp hn]
    exact not_wedged_head hi (hheads s (List.mem_cons_self ..))
  | cons result script ih =>
    have hfirst := not_wedged_head hi (hheads s (List.mem_cons_self ..))
    have hout := reserveTail_outcome hi
    generalize hres : reserveTail s = res at hout
    cases hout with
    | full hfull => exact not_wedged_of_full hfull
    | noRoom below none_eq inv live_eq mono reason =>
      have hsome := hheads s (List.mem_cons_self ..) (by rw [hi.bytebufLen_eq]; exact below)
      rw [none_eq] at hsome
      cases hsome
    | @room tail b h isSome inv live_eq mono taken =>
      rw [loopHeads, hres] at hheads
      obtain ⟨-, hrest⟩ := List.forall_mem_cons.mp hheads
      intro n hn
      cases result with
      | data chunk =>
        rcases List.mem_cons.mp hn with rfl | hn
        · exact hfirst
        · apply ih (taken chunk).1 hrest
          rw [(taken chunk).2, List.length_append]
          exact hn
      | eintr =>
        rcases List.mem_cons.mp hn with rfl | hn
        · exact hfirst
        · apply @ih (s.reserved b h) inv hrest
          change n ∈ levels b.live.length script
          rw [live_eq]
          exact hn
      | eof | eagain | error =>
        rw [List.mem_singleton.mp hn]
        exact hfirst

/-- The read loop, if no level is between: it stops for want of room only if the
buffer is full, and then says so. -/
structure LoopClear (s : NetState) (script : List ReadResult) : Prop where
  heads : ∀ t ∈ loopHeads script s, bytebufLen t.conn.inBuf < BYTEBUF_MAX →
    (bytebufReserve t.conn.inBuf READ_CHUNK t.heap).1.isSome = true
  stop : (∀ msg, (readLoop script s).1 ≠ .refused msg) ∨
    ((readLoop script s).1 = .refused (ascii "ERR request too large") ∧
      BYTEBUF_MAX ≤ (readLoop script s).2.conn.inBuf.live.length)

/-- A round that is followed by others. -/
theorem LoopClear.cons {s s' : NetState} {result : ReadResult} {script : List ReadResult}
    (hrest : LoopClear s' script)
    (hsome : (bytebufReserve s.conn.inBuf READ_CHUNK s.heap).1.isSome = true)
    (hheads : loopHeads (result :: script) s = s :: loopHeads script s')
    (hloop : readLoop (result :: script) s = readLoop script s') :
    LoopClear s (result :: script) where
  heads := by
    rw [hheads]
    exact List.forall_mem_cons.mpr ⟨fun _ => hsome, hrest.heads⟩
  stop := by
    rw [hloop]
    exact hrest.stop

/-- The last round. -/
theorem LoopClear.last {s : NetState} {script : List ReadResult}
    (hsome : (bytebufReserve s.conn.inBuf READ_CHUNK s.heap).1.isSome = true)
    (hheads : loopHeads script s = [s])
    (hstop : ∀ msg, (readLoop script s).1 ≠ .refused msg) : LoopClear s script where
  heads := by
    rw [hheads]
    exact List.forall_mem_singleton.mpr fun _ => hsome
  stop := Or.inl hstop

/-- No chunk is reserved: this was the last check. -/
theorem loopHeads_stop (script : List ReadResult) {s s' : NetState} {msg : Bytes}
    (hres : reserveTail s = (.error msg, s')) : loopHeads script s = [s] := by
  cases script with
  | nil => rfl
  | cons result script => rw [loopHeads, hres]

/-- The buffer is full. -/
theorem LoopClear.full {s : NetState} (hi : s.conn.inBuf.Inv) (script : List ReadResult)
    (hfull : BYTEBUF_MAX ≤ s.conn.inBuf.live.length)
    (hres : reserveTail s = (.error (ascii "ERR request too large"), s)) : LoopClear s script where
  heads := by
    rw [loopHeads_stop script hres, List.forall_mem_singleton, hi.bytebufLen_eq]
    exact fun hbelow => absurd hfull (Nat.not_le.mpr hbelow)
  stop := by
    rw [readLoop_refused script hres]
    exact Or.inr ⟨rfl, hfull⟩

/-- **The rounds of the loop**, by induction on the script: a round that is let
through leaves a buffer at the next level. -/
theorem loopClear_of_levels (script : List ReadResult) {s : NetState} (hi : s.conn.inBuf.Inv)
    (hf : (readLoop script s).2.heap.failed = false)
    (hfree : ∀ n ∈ levels s.conn.inBuf.live.length script, ¬ Wedged n) : LoopClear s script := by
  induction script generalizing s with
  | nil =>
    have hround := readLoop_failed_mono hi hf
    have hout := reserveTail_outcome hi
    generalize hres : reserveTail s = res at hout hround
    cases hout with
    | full hfull => exact .full hi [] hfull hres
    | noRoom below none_eq inv live_eq mono reason =>
      exact absurd (wedged_of_noRoom below reason hround) (hfree _ (mem_levels_head _ _))
    | room isSome inv live_eq mono taken =>
      refine .last isSome rfl fun msg => ?_
      rw [readLoop, hres]
      exact ReadEnd.noConfusion
  | cons result script ih =>
    have hround := readLoop_failed_mono hi hf
    have hout := reserveTail_outcome hi
    generalize hres : reserveTail s = res at hout hround
    cases hout with
    | full hfull => exact .full hi (result :: script) hfull hres
    | noRoom below none_eq inv live_eq mono reason =>
      exact absurd (wedged_of_noRoom below reason hround) (hfree _ (mem_levels_head _ _))
    | @room tail b h isSome inv live_eq mono taken =>
      cases result with
      | data chunk =>
        have hloop := readLoop_data hres chunk script
        rw [hloop] at hf
        refine (ih (taken chunk).1 hf fun n hn => ?_).cons isSome (by rw [loopHeads, hres]) hloop
        rw [(taken chunk).2, List.length_append] at hn
        exact hfree n (List.mem_cons_of_mem _ hn)
      | eintr =>
        have hloop := readLoop_eintr hres script
        rw [hloop] at hf
        refine (@ih (s.reserved b h) inv hf fun n hn => ?_).cons isSome
          (by rw [loopHeads, hres]) hloop
        change n ∈ levels b.live.length script at hn
        rw [live_eq] at hn
        exact hfree n (List.mem_cons_of_mem _ hn)
      | eof | eagain | error =>
        refine .last isSome (by rw [loopHeads, hres]) fun msg => ?_
        rw [readLoop, hres]
        exact ReadEnd.noConfusion

/-- **One call**, without a failed allocation: the check does what it is there for
exactly if no level is between. -/
theorem guards_iff {s : NetState} {script : List ReadResult} (hi : s.conn.inBuf.Inv)
    (hf : (readLoop script s).2.heap.failed = false) :
    Guards s script ↔ ∀ n ∈ levels s.conn.inBuf.live.length script, ¬ Wedged n := by
  refine ⟨fun hguards => not_wedged_of_reserved script hi hguards.reserved, fun hfree => ?_⟩
  have hclear := loopClear_of_levels script hi hf hfree
  obtain ⟨chunks, hread⟩ := readLoop_spec script hi
  refine ⟨hclear.heads, ?_, fun hmax => ?_, fun text hlen htext => ?_⟩
  · rcases hclear.stop with hstop | ⟨hstop, -⟩
    · exact hstop _
    · rw [hstop]
      decide
  · rcases hclear.stop with hstop | ⟨hstop, -⟩
    · -- all is taken, and there is room for one more chunk
      have hroom := hread.room hstop
      rw [hread.live_eq, hread.whole hstop, List.length_append] at hroom
      have hchunk : 0 < READ_CHUNK := by decide
      omega
    · exact hstop
  · rw [hread.live_eq]
    rcases hclear.stop with hstop | ⟨-, hfull⟩
    · rw [hread.whole hstop]
      exact htext
    · rw [hread.live_eq] at hfull
      have hpart := (List.prefix_append_right_inj s.conn.inBuf.live).mpr hread.part
      exact List.prefix_of_prefix_length_le htext hpart (hlen.trans hfull)

/-! ## Runs -/

/-- A call of `handle_read` in the run of a connection that gets to its read loop, in
which no allocation fails. -/
def NetRun.ReadsOn (r : NetRun) (steps : List NetStep) (s : NetState)
    (script : List ReadResult) : Prop :=
  (∃ ctl, r.Reads steps s script ctl) ∧ s.conn.closeAfterDrain = false ∧
    (readLoop script s).2.heap.failed = false

/-- **The check before a read.** In every run of a connection: the check does what it
is there for in all calls, exactly if in no call a level is between. -/
theorem read_guard_iff (store : Hashtable) (h : Heap) (steps : List NetStep) :
    (∀ s script, NetRun.ReadsOn ⟨accepted store h, true⟩ steps s script → Guards s script) ↔
      ∀ s script, NetRun.ReadsOn ⟨accepted store h, true⟩ steps s script →
        ∀ n ∈ levels s.conn.inBuf.live.length script, ¬ Wedged n := by
  have hcall : ∀ {s script}, NetRun.ReadsOn ⟨accepted store h, true⟩ steps s script →
      (Guards s script ↔ ∀ n ∈ levels s.conn.inBuf.live.length script, ¬ Wedged n) := by
    rintro s script ⟨⟨ctl, before, after, -, hrun⟩, -, hf⟩
    have hinv := netRun_inv store h before
    rw [netRun, hrun] at hinv
    exact guards_iff hinv.ledger.toBuffers.in_inv hf
  constructor
  · intro hguards s script hreads
    exact (hcall hreads).mp (hguards s script hreads)
  · intro hfree s script hreads
    exact (hcall hreads).mpr (hfree s script hreads)

/-! ## A short read -/

/-- Full chunks raise the level by their size. -/
theorem mem_levels_replicate {n m : ℕ} {chunk : Chunk} {script : List ReadResult} (k : ℕ)
    (hm : m ∈ levels (n + k * chunk.bytes.length) script) :
    m ∈ levels n (List.replicate k (.data chunk) ++ script) := by
  induction k generalizing n with
  | zero =>
    rw [Nat.zero_mul, Nat.add_zero] at hm
    exact hm
  | succ k ih =>
    apply List.mem_cons_of_mem
    apply ih
    rw [Nat.add_assoc, Nat.add_comm chunk.bytes.length, ← Nat.succ_mul]
    exact hm

/-- A single byte. -/
def oneByte : Chunk := ⟨[0], by decide, by decide⟩

/-- 4095 full reads, and then a read of one byte. -/
def shortReads : List ReadResult :=
  List.replicate 4095 (.data fullChunk) ++ [.data oneByte]

theorem mem_levels_shortReads : 4095 * READ_CHUNK + 1 ∈ levels 0 shortReads := by
  apply mem_levels_replicate
  have hfull : fullChunk.bytes.length = READ_CHUNK := List.length_replicate
  rw [hfull, Nat.zero_add]
  exact List.mem_cons_of_mem _ (List.mem_singleton_self _)

/-- **One short read** on a fresh connection, with an allocator that never fails: the
next check passes, and no chunk can be reserved. -/
theorem short_read_wedges :
    NetRun.ReadsOn ⟨accepted htInit Heap.ample, true⟩ [.read shortReads true]
      (accepted htInit Heap.ample) shortReads ∧
    ¬ Guards (accepted htInit Heap.ample) shortReads := by
  have hlevel := mem_levels_shortReads
  generalize shortReads = script at hlevel ⊢
  obtain ⟨chunks, hread⟩ := @readLoop_spec script (accepted htInit Heap.ample) inv_init
  have hf := (hread.ample Heap.ample_ample).2
  refine ⟨⟨⟨true, [], [], rfl, rfl⟩, rfl, hf⟩, fun hguards => ?_⟩
  exact (guards_iff inv_init hf).mp hguards _ hlevel ⟨by decide, by decide⟩

end RedisInC
