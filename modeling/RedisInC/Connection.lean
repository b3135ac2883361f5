import RedisInC.CommandSpec
import RedisInC.Networking

/-!
# What the handlers do to a connection

Every later result about a connection goes through the facts of this module; none
of them unfolds a handler again.

* `ReadOutcome` — what the read loop comes to. `DispatchRun` — what the dispatch
  loop does, frame by frame. `WriteOutcome` — what the write loop comes to.
* `ReadCall` — all that a call of `handle_read` can do, made up of these.
* `Ledger` — the books of a connection: the bytes read are the frames served and
  the unparsed input, the bytes appended are the bytes written and the unsent
  output. Every move of the handlers keeps them.
* `reply_stream_integrity` — so they balance after every run, and as long as the
  connection is in normal operation the bytes appended are the replies of the
  frames served.
-/

namespace RedisInC

open Bytebuf

/-! ## Reading the record -/

@[simp] theorem readBytes_append (t u : List NetEvent) :
    readBytes (t ++ u) = readBytes t ++ readBytes u := List.flatMap_append

@[simp] theorem servedFrames_append (t u : List NetEvent) :
    servedFrames (t ++ u) = servedFrames t ++ servedFrames u := List.flatMap_append

@[simp] theorem replyBytes_append (t u : List NetEvent) :
    replyBytes (t ++ u) = replyBytes t ++ replyBytes u := List.flatMap_append

@[simp] theorem appendedBytes_append (t u : List NetEvent) :
    appendedBytes (t ++ u) = appendedBytes t ++ appendedBytes u := List.flatMap_append

@[simp] theorem wroteBytes_append (t u : List NetEvent) :
    wroteBytes (t ++ u) = wroteBytes t ++ wroteBytes u := List.flatMap_append

/-- Events that move no bytes but those they read. -/
theorem parts_reads (chunks : List Bytes) :
    readBytes (chunks.map .read) = chunks.flatten ∧ servedFrames (chunks.map .read) = [] ∧
      replyBytes (chunks.map .read) = [] ∧ appendedBytes (chunks.map .read) = [] ∧
      wroteBytes (chunks.map .read) = [] := by
  induction chunks with
  | nil => exact ⟨rfl, rfl, rfl, rfl, rfl⟩
  | cons c chunks ih =>
    obtain ⟨hread, hserved, hreply, happended, hwrote⟩ := ih
    rw [List.map_cons, List.flatten_cons, ← hread]
    exact ⟨rfl, hserved, hreply, happended, hwrote⟩

/-- Events that move no bytes but those they write. -/
theorem parts_wrote (pieces : List Bytes) :
    readBytes (pieces.map .wrote) = [] ∧ servedFrames (pieces.map .wrote) = [] ∧
      replyBytes (pieces.map .wrote) = [] ∧ appendedBytes (pieces.map .wrote) = [] ∧
      wroteBytes (pieces.map .wrote) = pieces.flatten := by
  induction pieces with
  | nil => exact ⟨rfl, rfl, rfl, rfl, rfl⟩
  | cons p pieces ih =>
    obtain ⟨hread, hserved, hreply, happended, hwrote⟩ := ih
    rw [List.map_cons, List.flatten_cons, ← hwrote]
    exact ⟨hread, hserved, hreply, happended, rfl⟩

/-! ## The read loop -/

/-- How the end of the read loop is recorded. -/
def ReadEnd.mark : ReadEnd → List NetEvent
  | .drained => []
  | .refused msg => [.refused msg]
  | .eof => [.eof]
  | .error => [.readError]

theorem ReadEnd.parts_mark (stop : ReadEnd) :
    readBytes stop.mark = [] ∧ servedFrames stop.mark = [] ∧ replyBytes stop.mark = [] ∧
      appendedBytes stop.mark = [] ∧ wroteBytes stop.mark = [] := by
  cases stop with
  | drained => exact ⟨rfl, rfl, rfl, rfl, rfl⟩
  | refused msg => exact ⟨rfl, rfl, rfl, rfl, rfl⟩
  | eof => exact ⟨rfl, rfl, rfl, rfl, rfl⟩
  | error => exact ⟨rfl, rfl, rfl, rfl, rfl⟩

/-- The bytes a script has to deliver before it stops. -/
def delivered : List ReadResult → Bytes
  | [] => []
  | .data chunk :: script => chunk.bytes ++ delivered script
  | .eintr :: script => delivered script
  | .eof :: _ => []
  | .eagain :: _ => []
  | .error :: _ => []

/-- The bytes that are taken off a script into a buffer of so many bytes, if no
allocation fails: a `read` asks for a whole chunk, and there must be room for it. -/
def taken : ℕ → List ReadResult → Bytes
  | _, [] => []
  | n, .data chunk :: script =>
    if n + READ_CHUNK ≤ BYTEBUF_MAX then chunk.bytes ++ taken (n + chunk.bytes.length) script
    else []
  | n, .eintr :: script => taken n script
  | _, .eof :: _ => []
  | _, .eagain :: _ => []
  | _, .error :: _ => []

/-- Nothing is taken into a buffer without room for a chunk. -/
theorem taken_of_full {n : ℕ} (hfull : BYTEBUF_MAX < n + READ_CHUNK) (script : List ReadResult) :
    taken n script = [] := by
  induction script with
  | nil => rfl
  | cons result script ih =>
    cases result with
    | data chunk => rw [taken, if_neg (Nat.not_le.mpr hfull)]
    | eintr => exact ih
    | eof | eagain | error => rfl

/-- The messages of the read loop. -/
def readErrors : List Bytes := [ascii "ERR request too large", ascii "ERR out of memory"]

/-- **What the read loop comes to**: some chunks have been added to the input;
nothing else has changed. -/
structure ReadOutcome (s : NetState) (script : List ReadResult) (chunks : List Bytes)
    (r : ReadEnd × NetState) : Prop where
  /-- it is what the loop comes to -/
  loop_eq : readLoop script s = r
  /-- only the input buffer of the connection has changed -/
  conn_eq : r.2.conn = { s.conn with inBuf := r.2.conn.inBuf }
  /-- the buffer is in order -/
  in_inv : r.2.conn.inBuf.Inv
  /-- the chunks are behind the input -/
  live_eq : r.2.conn.inBuf.live = s.conn.inBuf.live ++ chunks.flatten
  /-- the store is the same -/
  store_eq : r.2.store = s.store
  /-- the registered mask is the same -/
  mask_eq : r.2.mask = s.mask
  /-- the chunks and the end are on record -/
  trace_eq : r.2.trace = s.trace ++ (chunks.map .read ++ r.1.mark)
  /-- the allocator never forgets a failure -/
  failed_mono : r.2.heap.failed = false → s.heap.failed = false
  /-- an ample allocator stays ample -/
  ample : s.heap.Ample → r.2.heap.Ample
  /-- the chunks are what the script delivers, or the first of it -/
  part : chunks.flatten <+: delivered script
  /-- nothing is left behind unless there is no room -/
  whole : (∀ msg, r.1 ≠ .refused msg) → chunks.flatten = delivered script
  /-- room is refused for a reason -/
  refused : ∀ msg, r.1 = .refused msg →
    r.2.heap.failed = true ∨ BYTEBUF_MAX < r.2.conn.inBuf.live.length + READ_CHUNK
  /-- and with one of two messages -/
  message : ∀ msg, r.1 = .refused msg → msg ∈ readErrors
  /-- there is room for one more chunk if it is not refused -/
  room : (∀ msg, r.1 ≠ .refused msg) →
    r.2.conn.inBuf.live.length + READ_CHUNK ≤ BYTEBUF_MAX
  /-- the end of the input comes from the kernel -/
  eof_mem : r.1 = .eof → .eof ∈ script
  /-- so does an error -/
  error_mem : r.1 = .error → .error ∈ script

/-- A chunk of the full size. -/
def fullChunk : Chunk where
  bytes := List.replicate READ_CHUNK 0
  pos := by rw [List.length_replicate]; decide
  le := Nat.le_of_eq List.length_replicate

/-- A connection with another input buffer and another allocator. -/
def NetState.reserved (s : NetState) (b : Bytebuf) (h : Heap) : NetState :=
  { s with conn := { s.conn with inBuf := b }, heap := h }

/-- **What the top of a round comes to**, and why. -/
inductive HeadOutcome (s : NetState) : Except Bytes ℕ × NetState → Prop
  /-- the check fails -/
  | full (full : BYTEBUF_MAX ≤ s.conn.inBuf.live.length) :
      HeadOutcome s (.error (ascii "ERR request too large"), s)
  /-- the check passes, and no chunk can be reserved -/
  | noRoom {b : Bytebuf} {h : Heap} (below : s.conn.inBuf.live.length < BYTEBUF_MAX)
      (none_eq : (bytebufReserve s.conn.inBuf READ_CHUNK s.heap).1 = none)
      (inv : b.Inv) (live_eq : b.live = s.conn.inBuf.live)
      (mono : (h.failed = false → s.heap.failed = false) ∧ (s.heap.Ample → h.Ample))
      (reason : h.failed = true ∨ BYTEBUF_MAX < s.conn.inBuf.live.length + READ_CHUNK) :
      HeadOutcome s (.error (ascii "ERR out of memory"), s.reserved b h)
  /-- the check passes, and a chunk is reserved -/
  | room {tail : ℕ} {b : Bytebuf} {h : Heap}
      (isSome : (bytebufReserve s.conn.inBuf READ_CHUNK s.heap).1.isSome = true)
      (inv : b.Inv) (live_eq : b.live = s.conn.inBuf.live)
      (mono : (h.failed = false → s.heap.failed = false) ∧ (s.heap.Ample → h.Ample))
      (taken : ∀ chunk : Chunk, (takeChunk tail chunk (s.reserved b h)).conn.inBuf.Inv ∧
        (takeChunk tail chunk (s.reserved b h)).conn.inBuf.live =
          s.conn.inBuf.live ++ chunk.bytes) :
      HeadOutcome s (.ok tail, s.reserved b h)

theorem reserveTail_outcome {s : NetState} (hi : s.conn.inBuf.Inv) :
    HeadOutcome s (reserveTail s) := by
  rw [reserveTail, hi.bytebufLen_eq]
  split
  · next hfull => exact .full hfull
  · next hbelow =>
    obtain ⟨hinv, hlive, hample, hroom⟩ := bytebufReserve_spec hi READ_CHUNK s.heap
    cases hres : bytebufReserve s.conn.inBuf READ_CHUNK s.heap with
    | mk room rest =>
      obtain ⟨b, h⟩ := rest
      rw [hres] at hinv hlive hample hroom
      have hmono : h.failed = false → s.heap.failed = false := by
        intro hf
        rcases hroom with ⟨-, hfailed⟩ | ⟨-, hfailed | ⟨-, hfailed⟩⟩
        · exact hfailed.symm.trans hf
        · exact absurd (hfailed.symm.trans hf) (by decide)
        · exact hfailed.symm.trans hf
      cases room with
      | none =>
        refine .noRoom (Nat.lt_of_not_le hbelow) (by rw [hres]) hinv hlive ⟨hmono, hample⟩ ?_
        rcases hroom with ⟨hsome, -⟩ | ⟨-, hfailed | ⟨hmax, -⟩⟩
        · cases hsome
        · exact Or.inl hfailed
        · exact Or.inr hmax
      | some tail =>
        exact .room (by rw [hres]; rfl) hinv hlive ⟨hmono, hample⟩
          fun chunk => reserve_write_advance hi hres chunk.le

/-- The same, whatever the message. -/
theorem reserveTail_spec {s : NetState} (hi : s.conn.inBuf.Inv) :
    ∃ room b h,
      reserveTail s = (room, s.reserved b h) ∧
      b.Inv ∧ b.live = s.conn.inBuf.live ∧
      ((h.failed = false → s.heap.failed = false) ∧ (s.heap.Ample → h.Ample)) ∧
      (∀ msg, room = .error msg → msg ∈ readErrors ∧
        (h.failed = true ∨ BYTEBUF_MAX < s.conn.inBuf.live.length + READ_CHUNK)) ∧
      ∀ tail, room = .ok tail →
        s.conn.inBuf.live.length + READ_CHUNK ≤ BYTEBUF_MAX ∧ ∀ chunk : Chunk,
          (bytebufAdvance (writeTail b tail chunk.bytes) chunk.bytes.length).Inv ∧
          (bytebufAdvance (writeTail b tail chunk.bytes) chunk.bytes.length).live =
            s.conn.inBuf.live ++ chunk.bytes := by
  have hout := reserveTail_outcome hi
  generalize reserveTail s = res at hout
  cases hout with
  | full hfull =>
    refine ⟨_, s.conn.inBuf, s.heap, rfl, hi, rfl, ⟨fun hf => hf, fun ha => ha⟩,
      fun msg hmsg => ?_, nofun⟩
    cases hmsg
    exact ⟨by simp [readErrors],
      Or.inr (Nat.lt_of_le_of_lt hfull (Nat.lt_add_of_pos_right (by decide)))⟩
  | noRoom below none_eq inv live_eq mono reason =>
    refine ⟨_, _, _, rfl, inv, live_eq, mono, fun msg hmsg => ?_, nofun⟩
    cases hmsg
    exact ⟨by simp [readErrors], reason⟩
  | room isSome inv live_eq mono taken =>
    refine ⟨_, _, _, rfl, inv, live_eq, mono, nofun, fun tail htail => ?_⟩
    cases htail
    refine ⟨?_, taken⟩
    -- there would be room for a full chunk
    obtain ⟨hfull, hsame⟩ := taken fullChunk
    have hlen := hfull.length_live_le
    rwa [hsame, List.length_append, fullChunk, List.length_replicate] at hlen

/-- The loop stops here: nothing is added to the input. -/
theorem readOutcome_stop {s : NetState} {script : List ReadResult} {b : Bytebuf} {h : Heap}
    {stop : ReadEnd} {trace : List NetEvent}
    (hloop : readLoop script s =
      (stop, ⟨{ s.conn with inBuf := b }, s.store, h, trace, s.mask⟩))
    (hb : b.Inv) (hlive : b.live = s.conn.inBuf.live)
    (hmono : (h.failed = false → s.heap.failed = false) ∧ (s.heap.Ample → h.Ample))
    (hrefused : ∀ msg, stop = .refused msg → msg ∈ readErrors ∧
      (h.failed = true ∨ BYTEBUF_MAX < s.conn.inBuf.live.length + READ_CHUNK))
    (hwhole : (∀ msg, stop ≠ .refused msg) → delivered script = [])
    (hroom : (∀ msg, stop ≠ .refused msg) →
      s.conn.inBuf.live.length + READ_CHUNK ≤ BYTEBUF_MAX)
    (heof : stop = .eof → .eof ∈ script) (herror : stop = .error → .error ∈ script)
    (htrace : trace = s.trace ++ stop.mark) :
    ReadOutcome s script [] (stop, ⟨{ s.conn with inBuf := b }, s.store, h, trace, s.mask⟩) where
  loop_eq := hloop
  conn_eq := rfl
  in_inv := hb
  live_eq := by rw [List.flatten_nil, List.append_nil, hlive]
  store_eq := rfl
  mask_eq := rfl
  trace_eq := htrace
  failed_mono := hmono.1
  ample := hmono.2
  part := List.nil_prefix
  whole hstop := (hwhole hstop).symm
  refused msg hstop := by
    rw [hlive]
    exact (hrefused msg hstop).2
  message msg hstop := (hrefused msg hstop).1
  room hstop := by
    rw [hlive]
    exact hroom hstop
  eof_mem := heof
  error_mem := herror

/-- A round, and the rest of the loop. -/
theorem ReadOutcome.cons {s s' : NetState} {result : ReadResult} {script : List ReadResult}
    {chunks new : List Bytes} {r : ReadEnd × NetState} (hr : ReadOutcome s' script chunks r)
    (hloop : readLoop (result :: script) s = readLoop script s')
    (hconn : s'.conn = { s.conn with inBuf := s'.conn.inBuf })
    (hlive : s'.conn.inBuf.live = s.conn.inBuf.live ++ new.flatten)
    (hstore : s'.store = s.store) (hmask : s'.mask = s.mask)
    (htrace : s'.trace = s.trace ++ new.map .read)
    (hmono : (s'.heap.failed = false → s.heap.failed = false) ∧ (s.heap.Ample → s'.heap.Ample))
    (hdelivered : delivered (result :: script) = new.flatten ++ delivered script) :
    ReadOutcome s (result :: script) (new ++ chunks) r where
  loop_eq := hloop.trans hr.loop_eq
  conn_eq := by
    rw [hr.conn_eq, hconn]
  in_inv := hr.in_inv
  live_eq := by rw [hr.live_eq, hlive, List.append_assoc, List.flatten_append]
  store_eq := hr.store_eq.trans hstore
  mask_eq := hr.mask_eq.trans hmask
  trace_eq := by
    rw [hr.trace_eq, htrace, List.append_assoc, List.map_append, List.append_assoc]
  failed_mono hf := hmono.1 (hr.failed_mono hf)
  ample ha := hr.ample (hmono.2 ha)
  part := by
    rw [hdelivered, List.flatten_append]
    exact (List.prefix_append_right_inj _).mpr hr.part
  whole hstop := by rw [hdelivered, List.flatten_append, hr.whole hstop]
  refused := hr.refused
  message := hr.message
  room := hr.room
  eof_mem he := List.mem_cons_of_mem _ (hr.eof_mem he)
  error_mem he := List.mem_cons_of_mem _ (hr.error_mem he)

/-- There is no room: reading stops, whatever there is to read. -/
theorem readLoop_refused (script : List ReadResult) {s : NetState} {msg : Bytes} {b : Bytebuf}
    {h : Heap} (hres : reserveTail s = (.error msg, s.reserved b h)) :
    readLoop script s = (.refused msg, (s.reserved b h).log (.refused msg)) := by
  cases script with
  | nil => rw [readLoop, hres]
  | cons result script => rw [readLoop, hres]

/-- A chunk is taken, and the loop goes on. -/
theorem readLoop_data {s s' : NetState} {tail : ℕ} (hres : reserveTail s = (.ok tail, s'))
    (chunk : Chunk) (script : List ReadResult) :
    readLoop (.data chunk :: script) s = readLoop script (takeChunk tail chunk s') := by
  rw [readLoop, hres]

/-- Nothing is taken, and the loop goes on. -/
theorem readLoop_eintr {s s' : NetState} {tail : ℕ} (hres : reserveTail s = (.ok tail, s'))
    (script : List ReadResult) : readLoop (.eintr :: script) s = readLoop script s' := by
  rw [readLoop, hres]

theorem readLoop_spec (script : List ReadResult) {s : NetState} (hi : s.conn.inBuf.Inv) :
    ∃ chunks, ReadOutcome s script chunks (readLoop script s) := by
  induction script generalizing s with
  | nil =>
    obtain ⟨room, b, h, hres, hb, hlive, hmono, href, htail⟩ := reserveTail_spec hi
    cases room with
    | error msg =>
      have hloop := readLoop_refused [] hres
      rw [hloop]
      exact ⟨[], readOutcome_stop hloop hb hlive hmono
        (fun msg' hmsg => href msg' (by cases hmsg; rfl)) (fun hstop => absurd rfl (hstop msg))
        (fun hstop => absurd rfl (hstop msg)) nofun nofun rfl⟩
    | ok tail =>
      have hloop : readLoop [] s = (.drained, s.reserved b h) := by rw [readLoop, hres]
      rw [hloop]
      exact ⟨[], readOutcome_stop hloop hb hlive hmono nofun (fun _ => rfl)
        (fun _ => (htail tail rfl).1) nofun nofun (List.append_nil _).symm⟩
  | cons result script ih =>
    obtain ⟨room, b, h, hres, hb, hlive, hmono, href, htail⟩ := reserveTail_spec hi
    cases room with
    | error msg =>
      have hloop := readLoop_refused (result :: script) hres
      rw [hloop]
      exact ⟨[], readOutcome_stop hloop hb hlive hmono
        (fun msg' hmsg => href msg' (by cases hmsg; rfl)) (fun hstop => absurd rfl (hstop msg))
        (fun hstop => absurd rfl (hstop msg)) nofun nofun rfl⟩
    | ok tail =>
      obtain ⟨hspace, hwritten⟩ := htail tail rfl
      cases result with
      | data chunk =>
        have hloop := readLoop_data hres chunk script
        obtain ⟨hinv, hnew⟩ := hwritten chunk
        obtain ⟨chunks, hrest⟩ :=
          @ih (takeChunk tail chunk (s.reserved b h)) hinv
        have hone : [chunk.bytes].flatten = chunk.bytes := List.append_nil _
        rw [hloop]
        exact ⟨[chunk.bytes] ++ chunks, hrest.cons hloop rfl (by rw [hone]; exact hnew) rfl rfl rfl
          hmono (by rw [hone, delivered])⟩
      | eof =>
        have hloop : readLoop (.eof :: script) s = (.eof, (s.reserved b h).log .eof) := by
          rw [readLoop, hres]
        rw [hloop]
        exact ⟨[], readOutcome_stop hloop hb hlive hmono nofun (fun _ => rfl) (fun _ => hspace)
          (fun _ => List.mem_cons_self ..) nofun rfl⟩
      | eagain =>
        have hloop : readLoop (.eagain :: script) s = (.drained, s.reserved b h) := by
          rw [readLoop, hres]
        rw [hloop]
        exact ⟨[], readOutcome_stop hloop hb hlive hmono nofun (fun _ => rfl) (fun _ => hspace)
          nofun nofun (List.append_nil _).symm⟩
      | eintr =>
        have hloop := readLoop_eintr hres script
        obtain ⟨chunks, hrest⟩ := @ih (s.reserved b h) hb
        have hnone : b.live = s.conn.inBuf.live ++ ([] : List Bytes).flatten := by
          rw [List.flatten_nil, List.append_nil, hlive]
        rw [hloop]
        exact ⟨[] ++ chunks,
          hrest.cons hloop rfl hnone rfl rfl (List.append_nil _).symm hmono rfl⟩
      | error =>
        have hloop : readLoop (.error :: script) s =
            (.error, (s.reserved b h).log .readError) := by
          rw [readLoop, hres]
        rw [hloop]
        exact ⟨[], readOutcome_stop hloop hb hlive hmono nofun (fun _ => rfl) (fun _ => hspace)
          nofun (fun _ => List.mem_cons_self ..) rfl⟩

/-- **What is read**, if no allocation fails: it depends on the number of unparsed
bytes and the sizes of the reads alone. -/
theorem readLoop_taken (script : List ReadResult) {s : NetState} (hi : s.conn.inBuf.Inv)
    (hf : (readLoop script s).2.heap.failed = false) :
    (readLoop script s).2.conn.inBuf.live =
      s.conn.inBuf.live ++ taken s.conn.inBuf.live.length script := by
  induction script generalizing s with
  | nil =>
    obtain ⟨room, b, h, hres, -, hlive, -⟩ := reserveTail_spec hi
    rw [taken, List.append_nil, ← hlive]
    cases room with
    | error msg => rw [readLoop_refused [] hres]; rfl
    | ok tail => rw [readLoop, hres]; rfl
  | cons result script ih =>
    obtain ⟨room, b, h, hres, hb, hlive, -, href, htail⟩ := reserveTail_spec hi
    cases room with
    | error msg =>
      rw [readLoop_refused (result :: script) hres] at hf ⊢
      rcases (href msg rfl).2 with hfailed | hfull
      · exact absurd (hfailed.symm.trans hf) (by decide)
      · rw [taken_of_full hfull, List.append_nil, ← hlive]
        rfl
    | ok tail =>
      obtain ⟨hroom, hwritten⟩ := htail tail rfl
      cases result with
      | data chunk =>
        obtain ⟨hinv, hnew⟩ := hwritten chunk
        have hnew' : (takeChunk tail chunk (s.reserved b h)).conn.inBuf.live =
            s.conn.inBuf.live ++ chunk.bytes := hnew
        rw [readLoop_data hres] at hf ⊢
        rw [@ih (takeChunk tail chunk (s.reserved b h)) hinv hf, hnew', taken, if_pos hroom,
          List.length_append, List.append_assoc]
      | eintr =>
        have hlive' : (s.reserved b h).conn.inBuf.live = s.conn.inBuf.live := hlive
        rw [readLoop_eintr hres] at hf ⊢
        rw [@ih (s.reserved b h) hb hf, hlive', taken]
      | eof | eagain | error =>
        rw [readLoop, hres, taken, List.append_nil, ← hlive]
        rfl

/-! ## The dispatch loop -/

/-- Executing a request adds its reply, or a part of it, to the output. -/
theorem execute_spec {s : NetState} (ho : s.conn.outBuf.Inv) (req : RespRequest) :
    (s.execute req).2.out.Inv ∧
      (s.execute req).2.out.live = s.conn.outBuf.live ++ s.appended req := by
  obtain ⟨part, r, hlive, -, -⟩ := @commandExecute_appended ⟨s.store, s.conn.outBuf, s.heap⟩ req ho
  refine ⟨commandExecute_out req ho, ?_⟩
  rw [NetState.appended, NetState.execute, hlive, List.drop_left]

/-- The result of a request is 0 or -1. -/
theorem execute_rc {s : NetState} (ho : s.conn.outBuf.Inv) (req : RespRequest) :
    (s.execute req).1 = 0 ∨ (s.execute req).1 = -1 := by
  obtain ⟨r, h, houtcome, -⟩ := @commandExecute_outcome ⟨s.store, s.conn.outBuf, s.heap⟩ req ho
  rcases houtcome.rc with ⟨hrc, -⟩ | hrc
  · exact Or.inl hrc
  · exact Or.inr hrc

/-- An error reply is appended, in full or in part. -/
theorem queueError_spec {s : NetState} (ho : s.conn.outBuf.Inv) (msg : Bytes) :
    ∃ complete part,
      (s.queueError msg).trace = s.trace ++ [.errorReply complete part] ∧
      (s.queueError msg).conn.outBuf.Inv ∧
      (s.queueError msg).conn.outBuf.live = s.conn.outBuf.live ++ part ∧
      (complete = true → part = (Reply.error msg).encode) ∧
      ((s.queueError msg).heap.failed = false → s.heap.failed = false) := by
  have houtcome := respReplyError_spec ho msg s.heap
  obtain ⟨part, hlive, -⟩ := houtcome.appended
  rw [NetState.queueError]
  simp only [hlive, List.drop_left]
  refine ⟨_, part, rfl, houtcome.inv, rfl, fun hrc => ?_, houtcome.failed_mono⟩
  rcases houtcome.rc with ⟨-, hfull⟩ | hneg
  · exact List.append_cancel_left (hlive.symm.trans hfull)
  · rw [hneg] at hrc
    exact absurd hrc (by decide)

/-- It is appended in full if no allocation fails and there is room for it. -/
theorem queueError_complete {s : NetState} (ho : s.conn.outBuf.Inv) {msg : Bytes}
    (hf : (s.queueError msg).heap.failed = false)
    (hroom : s.conn.outBuf.live.length + (Reply.error msg).encode.length ≤ BYTEBUF_MAX) :
    (s.queueError msg).trace = s.trace ++ [.errorReply true (Reply.error msg).encode] := by
  have hcomplete := (respReplyError_spec ho msg s.heap).complete_iff hf
  rcases hcomplete with ⟨hrc, hlive, -⟩ | ⟨-, hmax⟩
  · rw [NetState.queueError]
    simp only [hrc, hlive, List.drop_left, decide_true]
  · omega

/-- **What the dispatch loop does**: it serves one frame after the other, until
there is no complete frame left, or a malformed one, or a reply that cannot be
appended. -/
inductive DispatchRun : NetState → Int × NetState → Prop
  /-- no complete frame -/
  | more {s : NetState} (parse : respParseRequest s.conn.inBuf.live = .needMore) :
      DispatchRun s (0, s)
  /-- a malformed frame -/
  | bad {s : NetState} (parse : respParseRequest s.conn.inBuf.live = .protocolErr) :
      DispatchRun s (0, s.queueError (ascii "ERR Protocol error"))
  /-- the reply cannot be appended -/
  | drop {s : NetState} {req : RespRequest} (parse : respParseRequest s.conn.inBuf.live = .ok req)
      (rc : (s.execute req).1 = -1) : DispatchRun s (-1, s.drop req)
  /-- the frame is served -/
  | serve {s : NetState} {req : RespRequest} {r : Int × NetState}
      (parse : respParseRequest s.conn.inBuf.live = .ok req) (rc : (s.execute req).1 = 0)
      (rest : DispatchRun (s.serve req) r) : DispatchRun s r

/-- Both buffers are in order. -/
structure Buffers (s : NetState) : Prop where
  in_inv : s.conn.inBuf.Inv
  out_inv : s.conn.outBuf.Inv

theorem Buffers.serve {s : NetState} (hb : Buffers s) (req : RespRequest) :
    Buffers (s.serve req) ∧
      (s.serve req).conn.inBuf.live = s.conn.inBuf.live.drop req.bytesConsumed := by
  obtain ⟨hinv, hlive⟩ := bytebufConsume_spec hb.in_inv req.bytesConsumed
  exact ⟨⟨hinv, (execute_spec hb.out_inv req).1⟩, hlive⟩

theorem dispatchLoop_run {fuel : ℕ} {s : NetState} (hb : Buffers s)
    (hfuel : s.conn.inBuf.live.length ≤ fuel) : DispatchRun s (dispatchLoop fuel s) := by
  induction fuel generalizing s with
  | zero =>
    have hnil : s.conn.inBuf.live = [] := List.length_eq_zero_iff.mp (Nat.le_zero.mp hfuel)
    exact .more (by rw [hnil]; rfl)
  | succ fuel ih =>
    rw [dispatchLoop]
    cases hparse : respParseRequest s.conn.inBuf.live with
    | ok req =>
      simp only
      rcases execute_rc hb.out_inv req with hrc | hrc
      · obtain ⟨hb', hlive⟩ := hb.serve req
        have hparsed := respParseRequest_parsed hparse
        have hpos := hparsed.consumed_pos
        rw [if_neg (not_not_intro hrc)]
        refine .serve hparse hrc (ih hb' ?_)
        rw [hlive, List.length_drop]
        omega
      · rw [if_pos (by rw [hrc]; decide)]
        exact .drop hparse hrc
    | needMore => exact .more hparse
    | protocolErr => exact .bad hparse

/-! ## The end of the handlers -/

/-- The mask a connection needs: it reads unless it winds down, and it writes if
there is something to write. -/
def Conn.interest (c : Conn) : UInt32 :=
  (if !c.closeAfterDrain then EPOLLIN else 0) ||| (if c.outBuf.live ≠ [] then EPOLLOUT else 0)

/-- A connection that winds down and has nothing left to send. -/
def Conn.Done (c : Conn) : Prop := c.closeAfterDrain = true ∧ c.outBuf.live = []

/-- What adjusting the interest mask comes to: nothing else changes, and there is
a reason for closing. -/
structure Adjusted (s : NetState) (ctl : Bool) (r : Int × NetState) : Prop where
  /-- only the mask has changed -/
  state_eq : r.2 = { s with conn := { s.conn with events := r.2.conn.events }, mask := r.2.mask }
  /-- the result is 0 or -1 -/
  rc : r.1 = 0 ∨ r.1 = -1
  /-- the connection is closed when it is done, or if `epoll_ctl` fails -/
  close : r.1 = -1 → s.conn.Done ∨ ctl = false
  /-- otherwise it is not done, and the mask is the one it needs -/
  armed : r.1 = 0 → ¬ s.conn.Done ∧ r.2.conn.events = s.conn.interest
  /-- the kernel's mask follows the connection's -/
  mask_eq : s.mask = s.conn.events → r.2.mask = r.2.conn.events

/-- A call that does not close the connection returns 0. -/
theorem Adjusted.rc_zero {s : NetState} {ctl : Bool} {r : Int × NetState}
    (hr : Adjusted s ctl r) (hrc : ¬ r.1 < 0) : r.1 = 0 := by
  rcases hr.rc with hzero | hneg
  · exact hzero
  · rw [hneg] at hrc
    exact absurd hrc (by decide)

theorem armEvents_spec {events : UInt32} (ctl : Bool) {s : NetState} (hdone : ¬ s.conn.Done)
    (hevents : events = s.conn.interest) : Adjusted s ctl (armEvents events ctl s) := by
  rw [armEvents]
  split
  · next hsame =>
    exact ⟨rfl, Or.inl rfl, fun h => absurd h (by simp), fun _ => ⟨hdone, hsame.trans hevents⟩,
      fun h => h⟩
  · cases ctl with
    | true =>
      exact ⟨rfl, Or.inl rfl, fun h => absurd h (by simp), fun _ => ⟨hdone, hevents⟩,
        fun _ => rfl⟩
    | false =>
      exact ⟨rfl, Or.inr rfl, fun _ => Or.inr rfl, fun h => absurd h (by simp), fun h => h⟩

/-- An empty queue. -/
theorem bytebufLen_eq_zero {b : Bytebuf} (hb : b.Inv) : bytebufLen b = 0 ↔ b.live = [] := by
  rw [hb.bytebufLen_eq, List.length_eq_zero_iff]

/-- The mask as `handle_read` computes it. -/
theorem want_eq {c : Conn} (ho : c.outBuf.Inv) :
    ((if !c.closeAfterDrain then EPOLLIN else 0) |||
      (if bytebufLen c.outBuf > 0 then EPOLLOUT else 0)) = c.interest := by
  have hpos : bytebufLen c.outBuf > 0 ↔ c.outBuf.live ≠ [] := by
    rw [gt_iff_lt, Nat.pos_iff_ne_zero, ne_eq, bytebufLen_eq_zero ho]
  rw [Conn.interest, if_congr hpos rfl rfl]

/-- The defensive test of `handle_read` never fires: a connection that is not
done has something to wait for. -/
theorem interest_ne_zero {c : Conn} (h : ¬ c.Done) : c.interest ≠ 0 := by
  rw [Conn.interest]
  by_cases hout : c.outBuf.live = []
  · rw [if_neg (not_not_intro hout)]
    cases hclosing : c.closeAfterDrain with
    | false => decide
    | true => exact absurd ⟨hclosing, hout⟩ h
  · rw [if_pos hout]
    cases c.closeAfterDrain with
    | false => decide
    | true => decide

theorem adjustInterest_spec (ctl : Bool) {s : NetState} (ho : s.conn.outBuf.Inv) :
    Adjusted s ctl (adjustInterest ctl s) := by
  rw [adjustInterest]
  have hiff : s.conn.closeAfterDrain = true ∧ bytebufLen s.conn.outBuf = 0 ↔ s.conn.Done :=
    and_congr_right' (bytebufLen_eq_zero ho)
  split
  · next hlen =>
    have hdone := hiff.mp hlen
    exact ⟨rfl, Or.inr rfl, fun _ => Or.inl hdone, fun h => absurd h (by simp), fun h => h⟩
  · next hlen =>
    have hdone : ¬ s.conn.Done := fun h => hlen (hiff.mpr h)
    simp only [want_eq ho]
    rw [if_neg (interest_ne_zero hdone)]
    exact armEvents_spec ctl hdone rfl

/-! ## The handlers -/

/-- **What a call of `handle_read` can do.** -/
inductive ReadCall (s : NetState) (script : List ReadResult) (ctl : Bool) : Int × NetState → Prop
  /-- the connection is winding down: nothing is read -/
  | winding {r : Int × NetState} (closing : s.conn.closeAfterDrain = true)
      (adjusted : Adjusted s ctl r) : ReadCall s script ctl r
  /-- the peer has closed, or `read` has failed: nothing is dispatched -/
  | stopped {chunks : List Bytes} {stop : ReadEnd} {s₁ : NetState}
      (open_ : s.conn.closeAfterDrain = false) (read : ReadOutcome s script chunks (stop, s₁))
      (stop_eq : stop = .eof ∨ stop = .error) : ReadCall s script ctl (-1, s₁)
  /-- a reply could not be appended -/
  | dropped {chunks : List Bytes} {stop : ReadEnd} {s₁ s₂ : NetState}
      (open_ : s.conn.closeAfterDrain = false) (read : ReadOutcome s script chunks (stop, s₁))
      (run : DispatchRun s₁ (-1, s₂)) : ReadCall s script ctl (-1, s₂)
  /-- all complete frames are dispatched -/
  | dispatched {chunks : List Bytes} {s₁ s₂ : NetState} {r : Int × NetState}
      (open_ : s.conn.closeAfterDrain = false) (read : ReadOutcome s script chunks (.drained, s₁))
      (run : DispatchRun s₁ (0, s₂)) (adjusted : Adjusted s₂ ctl r) : ReadCall s script ctl r
  /-- the same, and the connection winds down for want of room -/
  | refused {chunks : List Bytes} {msg : Bytes} {s₁ s₂ : NetState} {r : Int × NetState}
      (open_ : s.conn.closeAfterDrain = false)
      (read : ReadOutcome s script chunks (.refused msg, s₁)) (run : DispatchRun s₁ (0, s₂))
      (adjusted : Adjusted (s₂.queueError msg) ctl r) : ReadCall s script ctl r

theorem ReadOutcome.buffers {s s₁ : NetState} {script : List ReadResult} {chunks : List Bytes}
    {stop : ReadEnd} (hr : ReadOutcome s script chunks (stop, s₁)) (hb : Buffers s) :
    Buffers s₁ ∧ s₁.conn.outBuf = s.conn.outBuf ∧
      s₁.conn.closeAfterDrain = s.conn.closeAfterDrain := by
  have hconn : s₁.conn = { s.conn with inBuf := s₁.conn.inBuf } := hr.conn_eq
  have hout : s₁.conn.outBuf = s.conn.outBuf := by rw [hconn]
  have hclosing : s₁.conn.closeAfterDrain = s.conn.closeAfterDrain := by rw [hconn]
  exact ⟨⟨hr.in_inv, hout ▸ hb.out_inv⟩, hout, hclosing⟩

theorem DispatchRun.buffers {s : NetState} {r : Int × NetState} (h : DispatchRun s r)
    (hb : Buffers s) : Buffers r.2 := by
  induction h with
  | more parse => exact hb
  | bad parse =>
    obtain ⟨complete, part, -, hinv, -, -, -⟩ :=
      queueError_spec hb.out_inv (ascii "ERR Protocol error")
    exact ⟨hb.in_inv, hinv⟩
  | @drop s req parse rc => exact ⟨hb.in_inv, (execute_spec hb.out_inv req).1⟩
  | @serve s req r parse rc rest ih => exact ih (hb.serve req).1

/-- The result of the dispatch loop is 0 or -1. -/
theorem DispatchRun.rc {s : NetState} {r : Int × NetState} (h : DispatchRun s r) :
    r.1 = 0 ∨ r.1 = -1 := by
  induction h with
  | more parse => exact Or.inl rfl
  | bad parse => exact Or.inl rfl
  | drop parse rc => exact Or.inr rfl
  | serve parse rc rest ih => exact ih

/-- The part of `handle_read` behind the read loop. -/
theorem dispatchInput_call {s s₁ : NetState} {script : List ReadResult} {ctl : Bool}
    {chunks : List Bytes} {stop : ReadEnd} {readErr : Option Bytes}
    (hopen : s.conn.closeAfterDrain = false) (hb : Buffers s₁)
    (hstop : (stop = .drained ∧ readErr = none) ∨ ∃ msg, stop = .refused msg ∧ readErr = some msg)
    (hread : ReadOutcome s script chunks (stop, s₁)) :
    ReadCall s script ctl (dispatchInput readErr ctl s₁) := by
  have hrun : DispatchRun s₁ (dispatchLoop (bytebufLen s₁.conn.inBuf) s₁) :=
    dispatchLoop_run hb (Nat.le_of_eq hb.in_inv.bytebufLen_eq.symm)
  rw [dispatchInput.eq_def]
  generalize dispatchLoop (bytebufLen s₁.conn.inBuf) s₁ = res at hrun ⊢
  obtain ⟨rc, s₂⟩ := res
  obtain ⟨-, ho⟩ := hrun.buffers hb
  rcases hrun.rc with hrc | hrc
  · obtain rfl : rc = 0 := hrc
    rw [if_neg (not_not_intro rfl)]
    rcases hstop with ⟨rfl, rfl⟩ | ⟨msg, rfl, rfl⟩
    · exact .dispatched hopen hread hrun (adjustInterest_spec ctl ho)
    · obtain ⟨complete, part, -, ho', -, -, -⟩ := queueError_spec ho msg
      exact .refused hopen hread hrun (adjustInterest_spec ctl ho')
  · obtain rfl : rc = -1 := hrc
    rw [if_pos (show (-1 : ℤ) ≠ 0 by decide)]
    exact .dropped hopen hread hrun

theorem handleRead_call (script : List ReadResult) (ctl : Bool) {s : NetState} (hb : Buffers s) :
    ReadCall s script ctl (handleRead script ctl s) := by
  rw [handleRead]
  cases hclosing : s.conn.closeAfterDrain with
  | true =>
    rw [if_pos rfl]
    split
    · next hlen =>
      have hdone : s.conn.Done := ⟨hclosing, (bytebufLen_eq_zero hb.out_inv).mp hlen⟩
      exact .winding hclosing
        ⟨rfl, Or.inr rfl, fun _ => Or.inl hdone, fun h => absurd h (by simp), fun h => h⟩
    · next hlen =>
      have hout : s.conn.outBuf.live ≠ [] := fun h => hlen ((bytebufLen_eq_zero hb.out_inv).mpr h)
      refine .winding hclosing (armEvents_spec ctl (fun hdone => hout hdone.2) ?_)
      rw [Conn.interest, hclosing, if_pos hout]
      rfl
  | false =>
    rw [if_neg (by decide)]
    obtain ⟨chunks, hread⟩ := readLoop_spec script hb.in_inv
    generalize readLoop script s = res at hread ⊢
    obtain ⟨stop, s₁⟩ := res
    obtain ⟨hb₁, -, -⟩ := hread.buffers hb
    cases stop with
    | drained => exact dispatchInput_call hclosing hb₁ (Or.inl ⟨rfl, rfl⟩) hread
    | refused msg => exact dispatchInput_call hclosing hb₁ (Or.inr ⟨msg, rfl, rfl⟩) hread
    | eof => exact .stopped hclosing hread (Or.inl rfl)
    | error => exact .stopped hclosing hread (Or.inr rfl)

/-- **What the write loop comes to**: the kernel has taken some bytes from the
front of the output; nothing else has changed. -/
structure WriteOutcome (s : NetState) (script : List WriteResult) (pieces : List Bytes)
    (r : WriteEnd × NetState) : Prop where
  /-- only the output buffer of the connection has changed -/
  conn_eq : r.2.conn = { s.conn with outBuf := r.2.conn.outBuf }
  /-- the buffer is in order -/
  out_inv : r.2.conn.outBuf.Inv
  /-- the pieces were in front of what is left -/
  live_eq : s.conn.outBuf.live = pieces.flatten ++ r.2.conn.outBuf.live
  /-- the store is the same -/
  store_eq : r.2.store = s.store
  /-- the allocator is the same -/
  heap_eq : r.2.heap = s.heap
  /-- the registered mask is the same -/
  mask_eq : r.2.mask = s.mask
  /-- the pieces are on record -/
  trace_eq : r.2.trace = s.trace ++ pieces.map .wrote
  /-- the loop runs until there is nothing left -/
  drained : r.1 = .drained → r.2.conn.outBuf.live = []
  /-- or until the kernel takes no more -/
  blocked : r.1 = .blocked → r.2.conn.outBuf.live ≠ []
  /-- a failure comes from the kernel -/
  failed_mem : r.1 = .failed → .epipe ∈ script ∨ .error ∈ script

/-- The loop stops here. -/
theorem writeOutcome_stop {s : NetState} (ho : s.conn.outBuf.Inv) (script : List WriteResult)
    (stop : WriteEnd) (hdrained : stop = .drained → s.conn.outBuf.live = [])
    (hblocked : stop = .blocked → s.conn.outBuf.live ≠ [])
    (hfailed : stop = .failed → .epipe ∈ script ∨ .error ∈ script) :
    WriteOutcome s script [] (stop, s) where
  conn_eq := rfl
  out_inv := ho
  live_eq := rfl
  store_eq := rfl
  heap_eq := rfl
  mask_eq := rfl
  trace_eq := (List.append_nil _).symm
  drained := hdrained
  blocked := hblocked
  failed_mem := hfailed

/-- A longer script fails where a shorter one does. -/
theorem failed_mem_cons {result : WriteResult} {script : List WriteResult}
    (h : .epipe ∈ script ∨ .error ∈ script) :
    .epipe ∈ result :: script ∨ .error ∈ result :: script :=
  h.imp (List.mem_cons_of_mem _) (List.mem_cons_of_mem _)

theorem writeLoop_spec (script : List WriteResult) {s : NetState} (ho : s.conn.outBuf.Inv) :
    ∃ pieces, WriteOutcome s script pieces (writeLoop script s) := by
  induction script generalizing s with
  | nil =>
    rw [writeLoop]
    split
    · next hlen =>
      exact ⟨[], writeOutcome_stop ho [] .blocked nofun
        (fun _ hnil => absurd ((bytebufLen_eq_zero ho).mpr hnil) (Nat.ne_of_gt hlen)) nofun⟩
    · next hlen =>
      have hnil := (bytebufLen_eq_zero ho).mp (Nat.eq_zero_of_not_pos hlen)
      exact ⟨[], writeOutcome_stop ho [] .drained (fun _ => hnil) nofun nofun⟩
  | cons result script ih =>
    rw [writeLoop.eq_def]
    simp only
    split
    · next hlen =>
      have hout : s.conn.outBuf.live ≠ [] := fun hnil =>
        absurd ((bytebufLen_eq_zero ho).mpr hnil) (Nat.ne_of_gt hlen)
      cases result with
      | accepted n pos =>
        set m := min n (bytebufLen s.conn.outBuf) with hm
        obtain ⟨hinv, hlive⟩ := bytebufConsume_spec ho m
        obtain ⟨pieces, hrest⟩ := @ih (giveBytes n s) hinv
        have hfront : s.conn.outBuf.live =
            s.conn.outBuf.live.take m ++ (giveBytes n s).conn.outBuf.live := by
          rw [show (giveBytes n s).conn.outBuf.live = s.conn.outBuf.live.drop m from hlive,
            List.take_append_drop]
        refine ⟨s.conn.outBuf.live.take m :: pieces, hrest.conn_eq, hrest.out_inv, ?_,
          hrest.store_eq, hrest.heap_eq, hrest.mask_eq, ?_, hrest.drained, hrest.blocked,
          fun hf => failed_mem_cons (hrest.failed_mem hf)⟩
        · rw [List.flatten_cons, List.append_assoc, ← hrest.live_eq]
          exact hfront
        · rw [hrest.trace_eq, List.map_cons]
          exact List.append_assoc _ _ _
      | eagain => exact ⟨[], writeOutcome_stop ho _ .blocked nofun (fun _ => hout) nofun⟩
      | eintr =>
        obtain ⟨pieces, hrest⟩ := ih ho
        exact ⟨pieces, hrest.conn_eq, hrest.out_inv, hrest.live_eq, hrest.store_eq, hrest.heap_eq,
          hrest.mask_eq, hrest.trace_eq, hrest.drained, hrest.blocked,
          fun hf => failed_mem_cons (hrest.failed_mem hf)⟩
      | epipe =>
        exact ⟨[], writeOutcome_stop ho _ .failed nofun nofun
          fun _ => Or.inl (List.mem_cons_self ..)⟩
      | error =>
        exact ⟨[], writeOutcome_stop ho _ .failed nofun nofun
          fun _ => Or.inr (List.mem_cons_self ..)⟩
    · next hlen =>
      have hnil := (bytebufLen_eq_zero ho).mp (Nat.eq_zero_of_not_pos hlen)
      exact ⟨[], writeOutcome_stop ho _ .drained (fun _ => hnil) nofun nofun⟩

/-- **What a call of `handle_write` can do.** -/
inductive WriteCall (s : NetState) (script : List WriteResult) (r : Int × NetState) : Prop
  /-- the write loop, and then the mask may change -/
  | mk {pieces : List Bytes} {stop : WriteEnd} {s₁ : NetState}
      (write : WriteOutcome s script pieces (stop, s₁))
      (state_eq :
        r.2 = { s₁ with conn := { s₁.conn with events := r.2.conn.events }, mask := r.2.mask })
      (close : r.1 < 0 → stop = .failed ∨ stop = .drained)
      (stay : ¬ r.1 < 0 → (stop = .blocked ∧ r.2 = s₁) ∨ ∃ ctl, Adjusted s₁ ctl r)

theorem handleWrite_call (script : List WriteResult) (ctl : Bool) {s : NetState}
    (ho : s.conn.outBuf.Inv) : WriteCall s script (handleWrite script ctl s) := by
  obtain ⟨pieces, hwrite⟩ := writeLoop_spec script ho
  rw [handleWrite]
  generalize writeLoop script s = res at hwrite ⊢
  obtain ⟨stop, s₁⟩ := res
  have hneg : ¬ ¬ (-1 : ℤ) < 0 := not_not_intro neg_one_lt_zero
  cases stop with
  | blocked => exact .mk hwrite rfl (fun h => absurd h (Int.lt_irrefl 0)) fun _ => Or.inl ⟨rfl, rfl⟩
  | failed => exact .mk hwrite rfl (fun _ => Or.inl rfl) fun h => absurd h hneg
  | drained =>
    have hout : s₁.conn.outBuf.live = [] := hwrite.drained rfl
    simp only
    split
    · exact .mk hwrite rfl (fun _ => Or.inr rfl) fun h => absurd h hneg
    · next hnormal =>
      have hadjusted : Adjusted s₁ ctl (armEvents EPOLLIN ctl s₁) := by
        refine armEvents_spec ctl (fun hdone => hnormal hdone.1) ?_
        rw [Conn.interest, Bool.eq_false_of_not_eq_true hnormal, if_neg (not_not_intro hout)]
        rfl
      exact .mk hwrite hadjusted.state_eq (fun _ => Or.inr rfl) fun _ => Or.inr ⟨ctl, hadjusted⟩

/-- **What writing leaves alone.** -/
theorem WriteCall.same {s : NetState} {script : List WriteResult} {r : Int × NetState}
    (h : WriteCall s script r) :
    readBytes r.2.trace = readBytes s.trace ∧ servedFrames r.2.trace = servedFrames s.trace ∧
      replyBytes r.2.trace = replyBytes s.trace ∧ appendedBytes r.2.trace = appendedBytes s.trace ∧
      r.2.conn.inBuf = s.conn.inBuf ∧ r.2.conn.closeAfterDrain = s.conn.closeAfterDrain ∧
      r.2.store = s.store ∧ r.2.heap = s.heap := by
  obtain @⟨pieces, stop, s₁, hwrite, hstate, -⟩ := h
  obtain ⟨hread, hserved, hreply, happended, -⟩ := parts_wrote pieces
  have htrace : s₁.trace = s.trace ++ pieces.map .wrote := hwrite.trace_eq
  have hconn : s₁.conn = { s.conn with outBuf := s₁.conn.outBuf } := hwrite.conn_eq
  rw [hstate]
  refine ⟨?_, ?_, ?_, ?_, ?_, ?_, hwrite.store_eq, hwrite.heap_eq⟩
  · rw [htrace, readBytes_append, hread, List.append_nil]
  · rw [htrace, servedFrames_append, hserved, List.append_nil]
  · rw [htrace, replyBytes_append, hreply, List.append_nil]
  · rw [htrace, appendedBytes_append, happended, List.append_nil]
  · rw [hconn]
  · rw [hconn]

/-! ## The books -/

/-- **The books of a connection.** What was read is in the frames served or still
in the input; what was appended has been written or is still in the output. -/
structure Ledger (s : NetState) : Prop extends Buffers s where
  /-- the input side -/
  read_eq : readBytes s.trace =
    ((servedFrames s.trace).map Prod.fst).flatten ++ s.conn.inBuf.live
  /-- the output side -/
  wrote_eq : wroteBytes s.trace ++ s.conn.outBuf.live = appendedBytes s.trace

theorem ledger_accepted (store : Hashtable) (h : Heap) : Ledger (accepted store h) :=
  ⟨⟨inv_init, inv_init⟩, rfl, rfl⟩

namespace Ledger

variable {s : NetState}

/-- The mask is not in the books. -/
theorem adjusted {ctl : Bool} {r : Int × NetState} (hl : Ledger s) (hr : Adjusted s ctl r) :
    Ledger r.2 := by
  rw [hr.state_eq]
  exact ⟨⟨hl.in_inv, hl.out_inv⟩, hl.read_eq, hl.wrote_eq⟩

/-- Bytes read go to the input. -/
theorem received {s₁ : NetState} {script : List ReadResult} {chunks : List Bytes} {stop : ReadEnd}
    (hl : Ledger s) (hr : ReadOutcome s script chunks (stop, s₁)) : Ledger s₁ := by
  obtain ⟨hb, hout, -⟩ := hr.buffers hl.toBuffers
  obtain ⟨hread, hserved, -, happended, hwrote⟩ := parts_reads chunks
  obtain ⟨mread, mserved, -, mappended, mwrote⟩ := stop.parts_mark
  have htrace : s₁.trace = s.trace ++ (chunks.map .read ++ stop.mark) := hr.trace_eq
  have hlive : s₁.conn.inBuf.live = s.conn.inBuf.live ++ chunks.flatten := hr.live_eq
  refine ⟨hb, ?_, ?_⟩
  · rw [htrace, hlive]
    simp only [readBytes_append, servedFrames_append, hread, hserved, mread, mserved,
      List.append_nil, hl.read_eq, List.append_assoc]
  · rw [htrace, hout]
    simp only [wroteBytes_append, appendedBytes_append, hwrote, happended, mwrote, mappended,
      List.append_nil, hl.wrote_eq]

/-- A served frame leaves the input, and its reply goes to the output. -/
theorem serve (hl : Ledger s) (req : RespRequest) : Ledger (s.serve req) := by
  obtain ⟨hb, hlive⟩ := hl.toBuffers.serve req
  obtain ⟨-, hout⟩ := execute_spec hl.out_inv req
  have htrace : (s.serve req).trace = s.trace ++ [.served (s.frame req) req (s.appended req)] := rfl
  refine ⟨hb, ?_, ?_⟩
  · rw [htrace, hlive, readBytes_append, servedFrames_append, hl.read_eq, List.map_append,
      List.flatten_append]
    change _ ++ _ ++ [] = _ ++ (s.frame req ++ []) ++ _
    rw [List.append_nil, List.append_nil, List.append_assoc, NetState.frame, List.take_append_drop]
  · rw [htrace, wroteBytes_append, appendedBytes_append, ← hl.wrote_eq]
    change _ ++ [] ++ (s.execute req).2.out.live = _ ++ (s.appended req ++ [])
    rw [hout, List.append_nil, List.append_nil, List.append_assoc]

/-- A frame whose reply is incomplete stays in the input. -/
theorem drop (hl : Ledger s) (req : RespRequest) : Ledger (s.drop req) := by
  obtain ⟨hinv, hout⟩ := execute_spec hl.out_inv req
  have htrace : (s.drop req).trace = s.trace ++ [.dropped (s.frame req) req (s.appended req)] := rfl
  refine ⟨⟨hl.in_inv, hinv⟩, ?_, ?_⟩
  · rw [htrace, readBytes_append, servedFrames_append]
    change _ ++ [] = ((_ ++ []).map Prod.fst).flatten ++ s.conn.inBuf.live
    rw [List.append_nil, List.append_nil, hl.read_eq]
  · rw [htrace, wroteBytes_append, appendedBytes_append, ← hl.wrote_eq]
    change _ ++ [] ++ (s.execute req).2.out.live = _ ++ (s.appended req ++ [])
    rw [hout, List.append_nil, List.append_nil, List.append_assoc]

/-- An error reply goes to the output. -/
theorem queueError (hl : Ledger s) (msg : Bytes) : Ledger (s.queueError msg) := by
  obtain ⟨complete, part, htrace, hinv, hout, -, -⟩ := queueError_spec hl.out_inv msg
  refine ⟨⟨hl.in_inv, hinv⟩, ?_, ?_⟩
  · rw [htrace, readBytes_append, servedFrames_append]
    change _ ++ [] = ((_ ++ []).map Prod.fst).flatten ++ s.conn.inBuf.live
    rw [List.append_nil, List.append_nil, hl.read_eq]
  · rw [htrace, wroteBytes_append, appendedBytes_append, ← hl.wrote_eq, hout]
    change _ ++ [] ++ _ = _ ++ (part ++ [])
    rw [List.append_nil, List.append_nil, List.append_assoc]

/-- Bytes written leave the output. -/
theorem wrote {s₁ : NetState} {script : List WriteResult} {pieces : List Bytes} {stop : WriteEnd}
    (hl : Ledger s) (hw : WriteOutcome s script pieces (stop, s₁)) : Ledger s₁ := by
  obtain ⟨hread, hserved, -, happended, hwrote⟩ := parts_wrote pieces
  have hconn : s₁.conn = { s.conn with outBuf := s₁.conn.outBuf } := hw.conn_eq
  have hin : s₁.conn.inBuf = s.conn.inBuf := by rw [hconn]
  have htrace : s₁.trace = s.trace ++ pieces.map .wrote := hw.trace_eq
  have hlive : s.conn.outBuf.live = pieces.flatten ++ s₁.conn.outBuf.live := hw.live_eq
  refine ⟨⟨hin ▸ hl.in_inv, hw.out_inv⟩, ?_, ?_⟩
  · rw [htrace, hin]
    simp only [readBytes_append, servedFrames_append, hread, hserved, List.append_nil, hl.read_eq]
  · rw [htrace]
    simp only [wroteBytes_append, appendedBytes_append, hwrote, happended, List.append_nil,
      List.append_assoc, ← hlive, hl.wrote_eq]

end Ledger

theorem DispatchRun.ledger {s : NetState} {r : Int × NetState} (h : DispatchRun s r)
    (hl : Ledger s) : Ledger r.2 := by
  induction h with
  | more parse => exact hl
  | bad parse => exact hl.queueError _
  | drop parse rc => exact hl.drop _
  | serve parse rc rest ih => exact ih (hl.serve _)

theorem ReadCall.ledger {s : NetState} {script : List ReadResult} {ctl : Bool} {r : Int × NetState}
    (h : ReadCall s script ctl r) (hl : Ledger s) : Ledger r.2 := by
  cases h with
  | winding closing adjusted => exact hl.adjusted adjusted
  | stopped open_ read stop_eq => exact hl.received read
  | dropped open_ read run => exact run.ledger (hl.received read)
  | dispatched open_ read run adjusted => exact (run.ledger (hl.received read)).adjusted adjusted
  | refused open_ read run adjusted =>
    exact ((run.ledger (hl.received read)).queueError _).adjusted adjusted

theorem WriteCall.ledger {s : NetState} {script : List WriteResult} {r : Int × NetState}
    (h : WriteCall s script r) (hl : Ledger s) : Ledger r.2 := by
  obtain ⟨hwrite, hstate, -⟩ := h
  obtain ⟨hb, hread, hwrote⟩ := hl.wrote hwrite
  rw [hstate]
  exact ⟨⟨hb.in_inv, hb.out_inv⟩, hread, hwrote⟩

/-! ## Normal operation -/

/-- As long as the connection is not winding down, all that was appended are the
replies of the frames served. -/
def Plain (s : NetState) : Prop :=
  s.conn.closeAfterDrain = false → appendedBytes s.trace = replyBytes s.trace

theorem DispatchRun.plain {s : NetState} {r : Int × NetState} (h : DispatchRun s r)
    (hrc : r.1 = 0) (hp : Plain s) : Plain r.2 := by
  induction h with
  | more parse => exact hp
  | bad parse => exact nofun
  | drop parse rc => exact absurd hrc (by simp)
  | @serve s req r parse rc rest ih =>
    refine ih hrc fun hopen => ?_
    have htrace : (s.serve req).trace = s.trace ++ [.served (s.frame req) req (s.appended req)] :=
      rfl
    rw [htrace, appendedBytes_append, replyBytes_append, hp hopen]
    rfl

theorem ReadOutcome.plain {s s₁ : NetState} {script : List ReadResult} {chunks : List Bytes}
    {stop : ReadEnd} (hr : ReadOutcome s script chunks (stop, s₁)) (hp : Plain s) : Plain s₁ := by
  obtain ⟨-, -, hreply, happended, -⟩ := parts_reads chunks
  obtain ⟨-, -, mreply, mappended, -⟩ := stop.parts_mark
  have htrace : s₁.trace = s.trace ++ (chunks.map .read ++ stop.mark) := hr.trace_eq
  have hconn : s₁.conn = { s.conn with inBuf := s₁.conn.inBuf } := hr.conn_eq
  intro hopen
  rw [hconn] at hopen
  simp only [htrace, appendedBytes_append, replyBytes_append, hreply, happended, mreply, mappended,
    List.append_nil, hp hopen]

theorem Adjusted.plain {s : NetState} {ctl : Bool} {r : Int × NetState} (hr : Adjusted s ctl r)
    (hp : Plain s) : Plain r.2 := by
  rw [hr.state_eq]
  exact hp

/-- A call that does not close the connection keeps it plain. -/
theorem ReadCall.plain {s : NetState} {script : List ReadResult} {ctl : Bool} {r : Int × NetState}
    (h : ReadCall s script ctl r) (hrc : ¬ r.1 < 0) (hp : Plain s) : Plain r.2 := by
  cases h with
  | winding closing adjusted => exact adjusted.plain hp
  | stopped open_ read stop_eq => exact absurd neg_one_lt_zero hrc
  | dropped open_ read run => exact absurd neg_one_lt_zero hrc
  | dispatched open_ read run adjusted => exact adjusted.plain (run.plain rfl (read.plain hp))
  | refused open_ read run adjusted => exact adjusted.plain nofun

theorem WriteCall.plain {s : NetState} {script : List WriteResult} {r : Int × NetState}
    (h : WriteCall s script r) (hp : Plain s) : Plain r.2 := by
  obtain ⟨-, -, hreply, happended, -, hclosing, -, -⟩ := h.same
  intro hopen
  rw [hclosing] at hopen
  rw [happended, hreply, hp hopen]

/-! ## Runs -/

/-- What holds of a connection at every point of its life. -/
structure NetRun.Inv (r : NetRun) : Prop where
  /-- the books balance -/
  ledger : Ledger r.state
  /-- in normal operation there are only replies -/
  plain : r.isOpen = true → Plain r.state

theorem NetRun.Inv.step {r : NetRun} (hr : r.Inv) (st : NetStep) : (r.step st).Inv := by
  rw [NetRun.step]
  split
  · next hopen =>
    have hp := hr.plain hopen
    cases st with
    | read script ctl =>
      have hcall := handleRead_call script ctl hr.ledger.toBuffers
      exact ⟨hcall.ledger hr.ledger, fun hstay => hcall.plain (isOpen_afterHandler.mp hstay) hp⟩
    | write script ctl =>
      have hcall := handleWrite_call script ctl hr.ledger.out_inv
      exact ⟨hcall.ledger hr.ledger, fun _ => hcall.plain hp⟩
    | hangup => exact ⟨hr.ledger, fun hopen => by cases hopen⟩
    | elsewhere store heap =>
      obtain ⟨⟨hi, ho⟩, hread, hwrote⟩ := hr.ledger
      exact ⟨⟨⟨hi, ho⟩, hread, hwrote⟩, fun _ => hp⟩
  · exact hr

theorem netRun_inv (store : Hashtable) (h : Heap) (steps : List NetStep) :
    (netRun store h steps).Inv := by
  refine List.foldlRecOn steps NetRun.step ⟨ledger_accepted store h, fun _ _ => rfl⟩ ?_
  intro r hr st _
  exact hr.step st

/-- **Reply-stream integrity.** After any run of a connection, with any scripts
of the kernel and whatever happens to the store elsewhere: the bytes read are the
frames served, in order, and then the input still in the buffer. As long as no
handler has failed and the connection is not winding down, the bytes written and
then the unsent output are the replies appended for those frames, in order. -/
theorem reply_stream_integrity (store : Hashtable) (h : Heap) (steps : List NetStep) :
    readBytes (netRun store h steps).state.trace =
        ((servedFrames (netRun store h steps).state.trace).map Prod.fst).flatten ++
          (netRun store h steps).state.conn.inBuf.live ∧
      ((netRun store h steps).isOpen = true →
        (netRun store h steps).state.conn.closeAfterDrain = false →
        wroteBytes (netRun store h steps).state.trace ++
          (netRun store h steps).state.conn.outBuf.live =
            replyBytes (netRun store h steps).state.trace) := by
  obtain ⟨hledger, hplain⟩ := netRun_inv store h steps
  refine ⟨hledger.read_eq, fun hopen hnormal => ?_⟩
  rw [hledger.wrote_eq, hplain hopen hnormal]

/-- One `PING`, and the first three bytes of the reply on their way. -/
def pingSteps : List NetStep :=
  [.read [.data ⟨ascii "PING\r\n", by decide, by decide⟩] true,
    .write [.accepted 3 (by decide)] true]

theorem reply_stream_integrity_ping :
    wroteBytes (netRun htInit Heap.ample pingSteps).state.trace ++
        (netRun htInit Heap.ample pingSteps).state.conn.outBuf.live =
      replyBytes (netRun htInit Heap.ample pingSteps).state.trace :=
  (reply_stream_integrity htInit Heap.ample pingSteps).2 (by decide) (by decide)

end RedisInC
