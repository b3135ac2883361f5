import RedisInC.CommandRefinement
import RedisInC.HandlerBlocks
import RedisInC.ParserProgress

/-!
# The handlers of a connection in memory do what those on values do

* `withIn_ends`, `withOut_ends` — work on one of the buffers of a connection.
* `readLoop_follows`, `dispatchLoop_follows`, `writeLoop_follows` — the loops.
* `parse_sees` — the arguments of a request are in the input buffer.
* `netDispatch_follows` — **an event of a client socket**.
-/

namespace RedisInC

open BlockMemory

namespace Kernel

theorem modify_modify (k : Kernel) (fd : Fd) (m m' : UInt32) :
    (k.modify fd m).modify fd m' = k.modify fd m' := by
  rw [modify, modify, modify]
  cases hi : k.epoll.lookup fd with
  | none => simp only [hi]
  | some i => simp only [Finmap.lookup_insert, Finmap.insert_insert]

theorem modify_mask (k : Kernel) (fd : Fd) : k.modify fd (k.mask fd) = k := by
  rw [modify, mask]
  cases hi : k.epoll.lookup fd with
  | none => rfl
  | some i =>
    have hsame : k.epoll.insert fd i = k.epoll := by
      refine Finmap.ext_lookup fun x => ?_
      by_cases hx : x = fd
      · rw [hx, Finmap.lookup_insert, hi]
      · rw [Finmap.lookup_insert_of_ne _ hx]
    simp only
    rw [hsame]

end Kernel

namespace OwnedView

/-- Another input buffer. -/
def setIn (v : OwnedView) (b : OwnedBuffer) : OwnedView :=
  { v with conn := { v.conn with inBuf := b } }

/-- Another output buffer. -/
def setOut (v : OwnedView) (b : OwnedBuffer) : OwnedView :=
  { v with conn := { v.conn with outBuf := b } }

/-- Write an event to the record. -/
def log (v : OwnedView) (e : NetEvent) : OwnedView :=
  { v with conn := { v.conn with trace := v.conn.trace ++ [e] } }

/-- An error reply, and no more requests. -/
def queueError (v : OwnedView) (rc : Int) (out : OwnedBuffer) : OwnedView :=
  { v with conn := { v.conn with
      outBuf := out
      closeAfterDrain := true
      trace := v.conn.trace ++
        [.errorReply (decide (rc = 0)) (out.buf.live.drop v.conn.outBuf.buf.live.length)] } }

variable {v : OwnedView} {req : RespRequest} {t : OwnedTable} {out : OwnedBuffer} {rc : Int}
  {s s' : Allocator}

/-- The request is executed, but its reply is incomplete. -/
def drop (v : OwnedView) (req : RespRequest) (t : OwnedTable) (out : OwnedBuffer) : OwnedView where
  store := t
  conn := { v.conn with
    outBuf := out
    trace := v.conn.trace ++ [.dropped (v.conn.inBuf.buf.live.take req.bytesConsumed) req
      (out.buf.live.drop v.conn.outBuf.buf.live.length)] }
  mask := v.mask

/-- The request is executed and its frame consumed. -/
def serve (v : OwnedView) (req : RespRequest) (t : OwnedTable) (out : OwnedBuffer) : OwnedView where
  store := t
  conn := { v.conn with
    inBuf := v.conn.inBuf.consume req.bytesConsumed
    outBuf := out
    trace := v.conn.trace ++ [.served (v.conn.inBuf.buf.live.take req.bytesConsumed) req
      (out.buf.live.drop v.conn.outBuf.buf.live.length)] }
  mask := v.mask

theorem drop_toState (h : (v.toState s).execute req = (rc, ⟨t.toTable, out.buf, s'.heap⟩)) :
    (v.toState s).drop req = (v.drop req t out).toState s' := by
  rw [NetState.drop, NetState.appended, h]
  rfl

theorem serve_toState (h : (v.toState s).execute req = (rc, ⟨t.toTable, out.buf, s'.heap⟩)) :
    (v.toState s).serve req = (v.serve req t out).toState s' := by
  rw [NetState.serve, NetState.appended, h]
  rfl

end OwnedView

namespace Raw

open OwnedView

variable {k : Kernel} {p : Addr} {fd : Fd} {next : Option Addr} {s : Allocator}
  {K : Cells Addr Block} {v : OwnedView}

/-- What it means for code to follow a function on connections. -/
theorem follows_view {α : Type} {c : Code (α × Globals)} {r : α × NetState}
    (h : Ends c s (v.cells p fd next + K) fun x s' F' => ∃ v' : OwnedView, x.2 = v'.globals k fd ∧
      F' = v'.cells p fd next + K ∧ r = (x.1, v'.toState s')) :
    Follows (layout k p fd next) c s v K r := h

/-! ## The struct and its buffers -/

theorem conn_sees : Sees (loadConn p) s (v.cells p fd next + K) (v.conn.node fd next) :=
  loadConn_sees (by simp [OwnedView.cells, OwnedConn.cells, cell])

theorem cells_in : v.cells p fd next + K = v.conn.inBuf.cells +
    (cell p (.conn (v.conn.node fd next)) + (v.conn.outBuf.cells + v.store.cells + K)) := by
  rw [OwnedView.cells, OwnedConn.cells]
  abel

theorem cells_outBuf : v.cells p fd next + K = v.conn.outBuf.cells +
    (cell p (.conn (v.conn.node fd next)) + (v.conn.inBuf.cells + v.store.cells + K)) := by
  rw [OwnedView.cells, OwnedConn.cells]
  abel

theorem cells_conn : v.cells p fd next + K = cell p (.conn (v.conn.node fd next)) +
    (v.conn.inBuf.cells + (v.conn.outBuf.cells + (v.store.cells + K))) := by
  rw [OwnedView.cells, OwnedConn.cells]
  abel

/-- Other fields for the struct, where the blocks are otherwise those of `v'`. -/
theorem setConn_ends (v' : OwnedView) {c : ConnNode} {F : Cells Addr Block}
    (h : F = cell p (.conn c) +
      (v'.conn.inBuf.cells + (v'.conn.outBuf.cells + (v'.store.cells + K)))) :
    Ends (put p (.conn (v'.conn.node fd next))) s F fun _ s' F' =>
      s' = s ∧ F' = v'.cells p fd next + K := by
  rw [cells_conn]
  exact put_ends h rfl

/-- Work on the input buffer. -/
theorem withIn_ends {α : Type} {f : BufferNode → Code (α × BufferNode)}
    {Q : α → OwnedBuffer → Allocator → Prop}
    (h : ∀ G, Ends (f v.conn.inBuf.node) s (v.conn.inBuf.cells + G) fun x s' F' =>
      ∃ b : OwnedBuffer, x.2 = b.node ∧ F' = b.cells + G ∧ Q x.1 b s') :
    Ends (withIn p f) s (v.cells p fd next + K) fun x s' F' =>
      ∃ b, F' = (v.setIn b).cells p fd next + K ∧ Q x b s' := by
  refine conn_sees.bind ?_
  rw [cells_in]
  refine (h _).bind ?_
  rintro ⟨x, n⟩ s' F' ⟨b, rfl, rfl, hq⟩
  refine (setConn_ends (K := K) (v.setIn b) (c := v.conn.node fd next) ?_).bind ?_
  · simp only [setIn]
    abel
  rintro - s'' F'' ⟨rfl, rfl⟩
  exact Ends.pure ⟨b, rfl, hq⟩

/-- Work on the output buffer. -/
theorem withOut_ends {α : Type} {f : BufferNode → Code (α × BufferNode)}
    {Q : α → OwnedBuffer → Allocator → Prop}
    (h : ∀ G, Ends (f v.conn.outBuf.node) s (v.conn.outBuf.cells + G) fun x s' F' =>
      ∃ b : OwnedBuffer, x.2 = b.node ∧ F' = b.cells + G ∧ Q x.1 b s') :
    Ends (withOut p f) s (v.cells p fd next + K) fun x s' F' =>
      ∃ b, F' = (v.setOut b).cells p fd next + K ∧ Q x b s' := by
  refine conn_sees.bind ?_
  rw [cells_outBuf]
  refine (h _).bind ?_
  rintro ⟨x, n⟩ s' F' ⟨b, rfl, rfl, hq⟩
  refine (setConn_ends (K := K) (v.setOut b) (c := v.conn.node fd next) ?_).bind ?_
  · simp only [setOut]
    abel
  rintro - s'' F'' ⟨rfl, rfl⟩
  exact Ends.pure ⟨b, rfl, hq⟩

theorem consume_in_ends (n : ℕ) :
    Ends (withIn p (consume n)) s (v.cells p fd next + K) fun _ s' F' =>
      s' = s ∧ F' = (v.setIn (v.conn.inBuf.consume n)).cells p fd next + K := by
  refine (withIn_ends (Q := fun _ b s' => s' = s ∧ b = v.conn.inBuf.consume n) fun G => ?_).mono ?_
  · refine (consume_ends _ n).bind ?_
    rintro - s' F' ⟨rfl, rfl, rfl⟩
    exact Ends.pure ⟨_, rfl, rfl, rfl, rfl⟩
  · rintro - s' F' ⟨b, rfl, rfl, rfl⟩
    exact ⟨rfl, rfl⟩

theorem consume_out_ends (n : ℕ) :
    Ends (withOut p (consume n)) s (v.cells p fd next + K) fun _ s' F' =>
      s' = s ∧ F' = (v.setOut (v.conn.outBuf.consume n)).cells p fd next + K := by
  refine (withOut_ends (Q := fun _ b s' => s' = s ∧ b = v.conn.outBuf.consume n) fun G => ?_).mono ?_
  · refine (consume_ends _ n).bind ?_
    rintro - s' F' ⟨rfl, rfl, rfl⟩
    exact Ends.pure ⟨_, rfl, rfl, rfl, rfl⟩
  · rintro - s' F' ⟨b, rfl, rfl, rfl⟩
    exact ⟨rfl, rfl⟩

/-- **`arm_events`** -/
theorem armEvents_follows (events : UInt32) (ctl : Bool) :
    Follows (layout k p fd next) (armEvents p events ctl (v.globals k fd)) s v K
      (RedisInC.armEvents events ctl (v.toState s)) := by
  refine follows_view (conn_sees.bind ?_)
  rw [RedisInC.armEvents]
  by_cases hsame : v.conn.events = events
  · have hnode : (v.conn.node fd next).events = events := hsame
    have hconn : (v.toState s).conn.events = events := hsame
    rw [if_pos hnode, if_pos hconn]
    exact Ends.pure ⟨v, rfl, rfl, rfl⟩
  · have hnode : ¬ (v.conn.node fd next).events = events := hsame
    have hconn : ¬ (v.toState s).conn.events = events := hsame
    rw [if_neg hnode, if_neg hconn]
    cases ctl with
    | false => exact Ends.pure ⟨v, rfl, rfl, rfl⟩
    | true =>
      simp only [if_true]
      have hmask : (v.globals k fd).kernel.modify fd events = k.modify fd events :=
        k.modify_modify fd v.mask events
      refine (setConn_ends ⟨v.store, { v.conn with events := events }, events⟩
        (cells_conn (v := v))).bind ?_
      rintro - s' F' ⟨rfl, rfl⟩
      exact Ends.pure ⟨⟨v.store, { v.conn with events := events }, events⟩,
        congrArg (Globals.mk v.store.node) hmask, rfl, rfl⟩

/-! ## Reading -/

/-- **The top of a round** of the read loop. -/
theorem reserveTail_ends :
    Ends (reserveTail p) s (v.cells p fd next + K) fun x s' F' =>
      ∃ b : OwnedBuffer, F' = (v.setIn b).cells p fd next + K ∧
        ((∃ msg, x = .error msg ∧
            RedisInC.reserveTail (v.toState s) = (.error msg, (v.setIn b).toState s')) ∨
          ∃ a, x = .ok (a, b.buf.len) ∧ b.dataAt = some a ∧ READ_CHUNK ≤ b.buf.cap - b.buf.len ∧
            RedisInC.reserveTail (v.toState s) = (.ok b.buf.len, (v.setIn b).toState s')) := by
  refine conn_sees.bind ?_
  rw [RedisInC.reserveTail]
  by_cases hfull : RedisInC.bytebufLen v.conn.inBuf.buf ≥ BYTEBUF_MAX
  · have hnode : bytebufLen (v.conn.node fd next).inBuf ≥ BYTEBUF_MAX := hfull
    have hconn : RedisInC.bytebufLen (v.toState s).conn.inBuf ≥ BYTEBUF_MAX := hfull
    rw [if_pos hnode, if_pos hconn]
    exact Ends.pure ⟨v.conn.inBuf, rfl, Or.inl ⟨_, rfl, rfl⟩⟩
  · have hnode : ¬ bytebufLen (v.conn.node fd next).inBuf ≥ BYTEBUF_MAX := hfull
    have hconn : ¬ RedisInC.bytebufLen (v.toState s).conn.inBuf ≥ BYTEBUF_MAX := hfull
    have hreserve : RedisInC.bytebufReserve (v.toState s).conn.inBuf READ_CHUNK (v.toState s).heap =
      RedisInC.bytebufReserve v.conn.inBuf.buf READ_CHUNK s.heap := rfl
    rw [if_neg hnode, if_neg hconn, hreserve]
    refine (withIn_ends (Q := fun x b s' =>
      (x = none ∧ RedisInC.bytebufReserve v.conn.inBuf.buf READ_CHUNK s.heap = (none, b.buf, s'.heap)) ∨
        ∃ a, x = some (a, b.buf.len) ∧ b.dataAt = some a ∧ READ_CHUNK ≤ b.buf.cap - b.buf.len ∧
          RedisInC.bytebufReserve v.conn.inBuf.buf READ_CHUNK s.heap =
            (some b.buf.len, b.buf, s'.heap)) fun G => reserve_ends (by decide)).bind ?_
    rintro x s' F' ⟨b, rfl, ⟨rfl, hr⟩ | ⟨a, rfl, hat, hroom, hr⟩⟩
    · rw [hr]
      exact Ends.pure ⟨b, rfl, Or.inl ⟨_, rfl, rfl⟩⟩
    · rw [hr]
      exact Ends.pure ⟨b, rfl, Or.inr ⟨a, rfl, hat, hroom, rfl⟩⟩

/-- **A chunk is put at the tail**, and the tail is moved over it. -/
theorem takeChunk_ends {a : Addr} (hat : v.conn.inBuf.dataAt = some a)
    (hroom : READ_CHUNK ≤ v.conn.inBuf.buf.cap - v.conn.inBuf.buf.len) (chunk : Chunk) :
    Ends (takeChunk p (a, v.conn.inBuf.buf.len) chunk) s (v.cells p fd next + K) fun _ s' F' =>
      s' = s ∧ ∃ v' : OwnedView, F' = v'.cells p fd next + K ∧
        v'.globals k fd = v.globals k fd ∧
        v'.toState s = RedisInC.takeChunk v.conn.inBuf.buf.len chunk (v.toState s) := by
  rw [cells_in]
  refine (fill_ends hat hroom chunk.le).bind ?_
  rintro - s' F' ⟨rfl, b, hadvance, rfl, hbuf⟩
  have hconn : Sees (loadConn p) s' (b.cells + (cell p (.conn (v.conn.node fd next)) +
      (v.conn.outBuf.cells + v.store.cells + K))) (v.conn.node fd next) :=
    loadConn_sees (by simp [cell])
  refine hconn.bind ?_
  rw [pure_bind]
  change Ends (put p (.conn { v.conn.node fd next with
    inBuf := bytebufAdvance v.conn.inBuf.node chunk.bytes.length }) >>= _) _ _ _
  rw [hadvance]
  refine (setConn_ends (K := K) ((v.setIn b).log (.read chunk.bytes)) (c := v.conn.node fd next) ?_).bind ?_
  · simp only [setIn, OwnedView.log]
    abel
  rintro - s'' F'' ⟨rfl, rfl⟩
  refine Ends.pure ⟨rfl, _, rfl, rfl, ?_⟩
  rw [RedisInC.takeChunk]
  change NetState.mk ⟨b.buf, _, _, _⟩ _ _ _ _ = _
  rw [hbuf]
  rfl

/-- **The read loop.** -/
theorem readLoop_follows (script : List ReadResult) :
    Follows (layout k p fd next) (readLoop p script (v.globals k fd)) s v K
      (RedisInC.readLoop script (v.toState s)) := by
  induction script generalizing v s with
  | nil =>
    refine follows_view (reserveTail_ends.bind ?_)
    rintro x s' F' ⟨b, rfl, ⟨msg, rfl, hr⟩ | ⟨a, rfl, -, -, hr⟩⟩
    · rw [RedisInC.readLoop, hr]
      exact Ends.pure ⟨(v.setIn b).log (.refused msg), rfl, rfl, rfl⟩
    · rw [RedisInC.readLoop, hr]
      exact Ends.pure ⟨v.setIn b, rfl, rfl, rfl⟩
  | cons result script ih =>
    refine follows_view (reserveTail_ends.bind ?_)
    rintro x s' F' ⟨b, rfl, ⟨msg, rfl, hr⟩ | ⟨a, rfl, hat, hroom, hr⟩⟩
    · rw [RedisInC.readLoop, hr]
      exact Ends.pure ⟨(v.setIn b).log (.refused msg), rfl, rfl, rfl⟩
    · rw [RedisInC.readLoop, hr]
      cases result with
      | data chunk =>
        refine (takeChunk_ends (k := k) (v := v.setIn b) hat hroom chunk).bind ?_
        rintro - s'' F'' ⟨rfl, v', rfl, hglobals, hstate⟩
        have hrest := @ih s'' v'
        rw [hglobals, hstate] at hrest
        exact hrest
      | eof => exact Ends.pure ⟨(v.setIn b).log .eof, rfl, rfl, rfl⟩
      | eagain => exact Ends.pure ⟨v.setIn b, rfl, rfl, rfl⟩
      | eintr => exact @ih s' (v.setIn b)
      | error => exact Ends.pure ⟨(v.setIn b).log .readError, rfl, rfl, rfl⟩

/-! ## Dispatching -/

/-- **`resp_parse_request`** on the live bytes of a buffer. -/
theorem parse_sees (b : OwnedBuffer) (G : Cells Addr Block) :
    Sees (respParseRequest (bytebufData b.node) (bytebufLen b.node)) s (b.cells + G)
      ((RedisInC.respParseRequest b.buf.live).bind fun req =>
        .ok (requestAt (bytebufData b.node) req)) := by
  have hshort : b.buf.live.length < 2 ^ 63 := by
    have hlive := b.inv.length_live
    have hlen := b.inv.len_le
    have hcap := b.inv.cap_le
    have hmax : BYTEBUF_MAX < 2 ^ 63 := by decide
    omega
  refine (readBytes_sees (b.readable.add_right G)).andThen ?_
  rw [checkedParseRequest_eq hshort]
  cases RedisInC.respParseRequest b.buf.live with
  | ok req => exact Sees.pure
  | needMore => exact Sees.pure
  | protocolErr => exact Sees.pure

/-- The arguments of a request are in the buffer. -/
theorem shows_request (b : OwnedBuffer) {req : RespRequest}
    (h : RedisInC.respParseRequest b.buf.live = .ok req) :
    Shows b.cells (requestAt (bytebufData b.node) req) req := by
  have hlaid := respParseRequest_laid h
  have hlive := b.inv.bytebufLen_eq
  refine ⟨rfl, rfl, fun i hi => ?_⟩
  have hpart := b.readable.part
    (show (req.args i).start + (req.args i).len ≤ RedisInC.bytebufLen b.buf from ?_)
  · rwa [← hlaid.shows i hi] at hpart
  · have hinside := hlaid.inside i hi
    have hframe := hlaid.consumed_le
    omega

/-- An error reply, and no more requests. -/
theorem queueError_follows (msg : Bytes) :
    Follows (layout k p fd next) (queueError p msg (v.globals k fd)) s v K
      ((), (v.toState s).queueError msg) := by
  refine follows_view ((withOut_ends (Q := fun x b s' =>
    RedisInC.respReplyError v.conn.outBuf.buf msg s.heap = (x, b.buf, s'.heap)) fun G => ?_).bind ?_)
  · exact replyError_follows msg
  rintro x s' F' ⟨b, rfl, hr⟩
  refine conn_sees.bind ?_
  refine (setConn_ends (v.queueError x b) (cells_conn (v := v.setOut b))).bind ?_
  rintro - s'' F'' ⟨rfl, rfl⟩
  have hvalue : RedisInC.respReplyError (v.toState s).conn.outBuf msg (v.toState s).heap =
    (x, b.buf, s''.heap) := hr
  refine Ends.pure ⟨v.queueError x b, rfl, rfl, ?_⟩
  simp only [NetState.queueError, hvalue]
  rfl

/-- Executing a request: the output buffer and the store may change. -/
theorem execute_ends {req : RequestNode} {value : RespRequest} (h : Shows v.conn.inBuf.cells req value) :
    Ends (execute p req (v.globals k fd)) s (v.cells p fd next + K) fun x s' F' =>
      ∃ (t : OwnedTable) (b : OwnedBuffer), x.2 = ⟨t.node, k.modify fd v.mask⟩ ∧
        F' = ({ v with store := t }.setOut b).cells p fd next + K ∧
        (v.toState s).execute value = (x.1, ⟨t.toTable, b.buf, s'.heap⟩) := by
  have hctx : v.cells p fd next + K = OwnedCtx.cells ⟨v.store, v.conn.outBuf⟩ +
      (v.conn.inBuf.cells + (cell p (.conn (v.conn.node fd next)) + K)) := by
    rw [OwnedView.cells, OwnedConn.cells, OwnedCtx.cells]
    abel
  refine conn_sees.bind ?_
  rw [hctx]
  refine Ends.bind (commandExecute_follows (o := ⟨v.store, v.conn.outBuf⟩) (h.add_right _)) ?_
  rintro ⟨x, n⟩ s' F' ⟨o, rfl, rfl, hr⟩
  have hblocks : o.cells + (v.conn.inBuf.cells + (cell p (.conn (v.conn.node fd next)) + K)) =
      cell p (.conn (v.conn.node fd next)) +
        (v.conn.inBuf.cells + (o.out.cells + (o.store.cells + K))) := by
    rw [OwnedCtx.cells]
    abel
  have hput := @setConn_ends p fd next s' K ({ v with store := o.store }.setOut o.out) _ _ hblocks
  refine hput.bind ?_
  rintro - s'' F'' ⟨rfl, rfl⟩
  exact Ends.pure ⟨o.store, o.out, rfl, rfl, hr⟩

/-- **The dispatch loop**: the arguments are read from the input buffer while the output
buffer grows. -/
theorem dispatchLoop_follows {fuel : ℕ} (hfuel : RedisInC.bytebufLen v.conn.inBuf.buf ≤ fuel) :
    Follows (layout k p fd next) (dispatchLoop p (fuel + 1) (v.globals k fd)) s v K
      (RedisInC.dispatchLoop fuel (v.toState s)) := by
  induction fuel generalizing v s with
  | zero =>
    have hlive : v.conn.inBuf.buf.live = [] :=
      List.length_eq_zero_iff.mp (by rw [← v.conn.inBuf.inv.bytebufLen_eq]; omega)
    refine follows_view (conn_sees.bind ?_)
    rw [cells_in]
    refine (parse_sees v.conn.inBuf _).bind ?_
    rw [← cells_in, hlive]
    exact Ends.pure ⟨v, rfl, rfl, rfl⟩
  | succ fuel ih =>
    have hconn : (v.toState s).conn.inBuf = v.conn.inBuf.buf := rfl
    refine follows_view (conn_sees.bind ?_)
    rw [cells_in]
    refine (parse_sees v.conn.inBuf _).bind ?_
    rw [← cells_in, RedisInC.dispatchLoop, hconn]
    cases hparse : RedisInC.respParseRequest v.conn.inBuf.buf.live with
    | needMore => exact Ends.pure ⟨v, rfl, rfl, rfl⟩
    | protocolErr =>
      refine (queueError_follows _).bind fun v' s' hr => ?_
      have hstate : (v.toState s).queueError (ascii "ERR Protocol error") = v'.toState s' := hr
      simp only [hstate]
      exact Follows.pure (0 : Int)
    | ok req =>
      have hlaid := respParseRequest_laid hparse
      have hpos := hlaid.consumed_pos
      refine (execute_ends (shows_request _ hparse)).bind ?_
      rintro ⟨rc, g⟩ s' F' ⟨t, b, rfl, rfl, hr⟩
      simp only [drop_toState hr, serve_toState hr, hr]
      by_cases hrc : rc ≠ 0
      · rw [if_pos hrc, if_pos hrc]
        exact Ends.pure ⟨v.drop req t b, rfl, rfl, rfl⟩
      · rw [if_neg hrc, if_neg hrc]
        refine (consume_in_ends _).bind ?_
        rintro - s'' F'' ⟨rfl, rfl⟩
        refine @ih s'' (v.serve req t b) ?_
        have hrest := bytebufLen_consume v.conn.inBuf.buf req.bytesConsumed
        change RedisInC.bytebufLen (RedisInC.bytebufConsume v.conn.inBuf.buf req.bytesConsumed) ≤ fuel
        omega

/-! ## The handlers -/

theorem adjustInterest_follows (ctl : Bool) :
    Follows (layout k p fd next) (adjustInterest p ctl (v.globals k fd)) s v K
      (RedisInC.adjustInterest ctl (v.toState s)) := by
  refine Follows.look conn_sees ?_
  exact Follows.ite (fun _ => Follows.pure (-1)) fun _ =>
    Follows.ite (fun _ => Follows.pure (-1)) fun _ => armEvents_follows _ ctl

/-- **`handle_read` from the dispatch loop on.** -/
theorem dispatchInput_follows (readErr : Option Bytes) (ctl : Bool) :
    Follows (layout k p fd next) (dispatchInput p readErr ctl (v.globals k fd)) s v K
      (RedisInC.dispatchInput readErr ctl (v.toState s)) := by
  refine Follows.look conn_sees ?_
  have hfuel : RedisInC.bytebufLen v.conn.inBuf.buf ≤
    RedisInC.bytebufLen (v.toState s).conn.inBuf := Nat.le_refl _
  refine (dispatchLoop_follows hfuel).bind fun v' s' hr => ?_
  rw [RedisInC.dispatchInput.eq_def]
  simp only [hr]
  refine Follows.ite (fun _ => ?_) fun _ => ?_
  · exact Follows.pure (-1)
  · cases readErr with
    | none => exact adjustInterest_follows ctl
    | some msg =>
      refine (queueError_follows msg).bind fun v'' s'' hr' => ?_
      have hstate : (v'.toState s').queueError msg = v''.toState s'' := hr'
      change Follows _ _ _ _ _ (RedisInC.adjustInterest ctl ((v'.toState s').queueError msg))
      rw [hstate]
      exact adjustInterest_follows ctl

/-- **`handle_read`** -/
theorem handleRead_follows (script : List ReadResult) (ctl : Bool) :
    Follows (layout k p fd next) (handleRead p script ctl (v.globals k fd)) s v K
      (RedisInC.handleRead script ctl (v.toState s)) := by
  rw [RedisInC.handleRead]
  refine Follows.look conn_sees ?_
  refine Follows.ite (fun _ => ?_) fun _ => ?_
  · refine Follows.ite (fun _ => ?_) fun _ => ?_
    · exact Follows.pure (-1)
    · exact armEvents_follows _ ctl
  · refine (readLoop_follows script).bind fun v' s' hr => ?_
    generalize RedisInC.readLoop script (v.toState s) = r at hr ⊢
    obtain ⟨e, t⟩ := r
    obtain rfl : t = v'.toState s' := hr
    cases e with
    | drained => exact dispatchInput_follows none ctl
    | refused msg => exact dispatchInput_follows (some msg) ctl
    | eof => exact Follows.pure (-1)
    | error => exact Follows.pure (-1)

theorem outBytes_sees : Sees (readBytes (bytebufData (v.conn.node fd next).outBuf)
    (bytebufLen (v.conn.node fd next).outBuf)) s (v.cells p fd next + K) v.conn.outBuf.buf.live := by
  rw [cells_outBuf]
  exact readBytes_sees (v.conn.outBuf.readable.add_right _)

/-- **The loop of `handle_write`** hands the kernel live bytes of the buffer. -/
theorem writeLoop_follows (script : List WriteResult) :
    Follows (layout k p fd next) (writeLoop p script (v.globals k fd)) s v K
      (RedisInC.writeLoop script (v.toState s)) := by
  induction script generalizing v s with
  | nil =>
    simp only [RedisInC.writeLoop]
    refine Follows.look conn_sees ?_
    refine Follows.ite (fun _ => ?_) fun _ => Follows.pure WriteEnd.drained
    exact Follows.look outBytes_sees (Follows.pure _)
  | cons result script ih =>
    simp only [RedisInC.writeLoop]
    refine Follows.look conn_sees ?_
    refine Follows.ite (fun _ => ?_) fun _ => Follows.pure WriteEnd.drained
    refine Follows.look outBytes_sees ?_
    cases result with
    | accepted n pos =>
      refine (consume_out_ends _).bind ?_
      rintro - s' F' ⟨rfl, rfl⟩
      have hrest := @ih s' ((v.setOut (v.conn.outBuf.consume
        (min n (RedisInC.bytebufLen v.conn.outBuf.buf)))).log
          (.wrote (v.conn.outBuf.buf.live.take (min n (RedisInC.bytebufLen v.conn.outBuf.buf)))))
      exact hrest
    | eagain => exact Follows.pure _
    | eintr => exact ih
    | epipe => exact Follows.pure _
    | error => exact Follows.pure _

/-- **`handle_write`** -/
theorem handleWrite_follows (script : List WriteResult) (ctl : Bool) :
    Follows (layout k p fd next) (handleWrite p script ctl (v.globals k fd)) s v K
      (RedisInC.handleWrite script ctl (v.toState s)) := by
  rw [RedisInC.handleWrite]
  refine (writeLoop_follows script).bind fun v' s' hr => ?_
  generalize RedisInC.writeLoop script (v.toState s) = r at hr ⊢
  obtain ⟨e, t⟩ := r
  obtain rfl : t = v'.toState s' := hr
  cases e with
  | blocked => exact Follows.pure 0
  | failed => exact Follows.pure (-1)
  | drained =>
    refine Follows.look conn_sees ?_
    exact Follows.ite (fun _ => Follows.pure (-1)) fun _ => armEvents_follows _ ctl

theorem onEvent_follows (ev bit : UInt32) {handler : Globals → Code (Int × Globals)}
    {handler' : NetState → Int × NetState}
    (h : Follows (layout k p fd next) (handler (v.globals k fd)) s v K (handler' (v.toState s))) :
    Follows (layout k p fd next) (onEvent ev bit handler (v.globals k fd)) s v K
      (if ev &&& bit ≠ 0 then handler' (v.toState s) else (0, v.toState s)) :=
  Follows.ite (fun _ => h) fun _ => Follows.pure (0 : Int)

/-- **An event of a client socket**: the handlers touch no memory but that of their connection
and of the store, and do what they do on values. -/
theorem netDispatch_follows (ev : UInt32) (reads : List ReadResult) (ctlRead : Bool)
    (writes : List WriteResult) (ctlWrite : Bool) :
    Follows (layout k p fd next)
      (netDispatch p ev reads ctlRead writes ctlWrite (v.globals k fd)) s v K
      ((RedisInC.netDispatch ev reads ctlRead writes ctlWrite (v.toState s)).isOpen,
        (RedisInC.netDispatch ev reads ctlRead writes ctlWrite (v.toState s)).state) := by
  rw [netDispatch, RedisInC.netDispatch]
  by_cases hgone : ev &&& (EPOLLERR ||| EPOLLHUP) ≠ 0
  · rw [if_pos hgone, if_pos hgone]
    exact Follows.pure false
  · rw [if_neg hgone, if_neg hgone]
    refine (onEvent_follows ev EPOLLIN (handleRead_follows reads ctlRead)).bind fun v₁ s₁ hr => ?_
    generalize (if ev &&& EPOLLIN ≠ 0 then RedisInC.handleRead reads ctlRead (v.toState s)
      else (0, v.toState s)) = r at hr ⊢
    obtain ⟨rc, t⟩ := r
    obtain rfl : t = v₁.toState s₁ := hr
    by_cases hrc : rc < 0
    · simp only [if_pos hrc]
      exact Follows.pure false
    · simp only [if_neg hrc]
      refine (onEvent_follows ev EPOLLOUT (handleWrite_follows writes ctlWrite)).bind
        fun v₂ s₂ hw => ?_
      generalize (if ev &&& EPOLLOUT ≠ 0 then RedisInC.handleWrite writes ctlWrite (v₁.toState s₁)
        else (0, v₁.toState s₁)) = w at hw ⊢
      obtain ⟨wc, t⟩ := w
      obtain rfl : t = v₂.toState s₂ := hw
      by_cases hwc : wc < 0
      · simp only [if_pos hwc]
        exact Follows.pure false
      · simp only [if_neg hwc]
        exact Follows.pure true

end Raw

end RedisInC
