import RedisInC.Command

/-!
# The event loop, seen from one connection (`networking.c`)

What the kernel answers is an input: the results of the `read` and `write` calls
of one wake-up come as a script, in the order of the calls, and a call behind the
end of the script finds nothing to do (`EAGAIN`).

* `Conn`, `NetState` — a connection with what it shares with the others, and the
  record of what has happened on it.
* `readLoop`, `dispatchLoop`, `handleRead`, `handleWrite` — the handlers, as the
  code computes them. `netDispatch` is the part of `net_run` for one event of a
  client socket.
* `NetStep`, `NetRun` — runs of one connection: handler calls in any order,
  hang-ups, and whatever the other connections do to the store and the allocator.
* `NetEvent` — the record, and what can be read off it: the bytes read, the
  frames served, the replies appended, the bytes written.

The record is a ghost: no decision of the code depends on it.
-/

namespace RedisInC

/-- Size of each `read` request. -/
def READ_CHUNK : ℕ := 4096

/-- `EPOLLIN` -/
def EPOLLIN : UInt32 := 0x001
/-- `EPOLLOUT` -/
def EPOLLOUT : UInt32 := 0x004
/-- `EPOLLERR` -/
def EPOLLERR : UInt32 := 0x008
/-- `EPOLLHUP` -/
def EPOLLHUP : UInt32 := 0x010

/-- `conn_t`, without its socket and its link in the list of connections. -/
structure Conn where
  /-- bytes read from the peer, fed to the parser -/
  inBuf : Bytebuf
  /-- serialized replies awaiting `write` -/
  outBuf : Bytebuf
  /-- current epoll interest mask -/
  events : UInt32
  /-- close once `outBuf` is fully written -/
  closeAfterDrain : Bool

/-! ## The kernel -/

/-- What one successful `read` delivers. -/
structure Chunk where
  /-- the bytes -/
  bytes : Bytes
  /-- at least one -/
  pos : 0 < bytes.length
  /-- at most as many as were asked for -/
  le : bytes.length ≤ READ_CHUNK

/-- What a `read` call comes to. -/
inductive ReadResult : Type
  /-- some bytes -/
  | data (chunk : Chunk)
  /-- 0: the peer has closed -/
  | eof
  /-- `EAGAIN` or `EWOULDBLOCK` -/
  | eagain
  /-- `EINTR` -/
  | eintr
  /-- any other error -/
  | error

/-- What a `write` call comes to. -/
inductive WriteResult : Type
  /-- up to `n` bytes are taken -/
  | accepted (n : ℕ) (pos : 0 < n)
  /-- `EAGAIN` or `EWOULDBLOCK` -/
  | eagain
  /-- `EINTR` -/
  | eintr
  /-- `EPIPE` or `ECONNRESET` -/
  | epipe
  /-- any other error -/
  | error

/-! ## The record -/

/-- What happens on a connection. -/
inductive NetEvent : Type
  /-- a `read` call has delivered these bytes -/
  | read (bytes : Bytes)
  /-- a `read` call has returned 0 -/
  | eof
  /-- a `read` call has failed -/
  | readError
  /-- there was no room to read more -/
  | refused (msg : Bytes)
  /-- the request of this frame was executed, and this reply appended -/
  | served (frame : Bytes) (req : RespRequest) (reply : Bytes)
  /-- the request of this frame was executed, but its reply could not be appended in full -/
  | dropped (frame : Bytes) (req : RespRequest) (part : Bytes)
  /-- an error reply outside any request; whether it was appended in full -/
  | errorReply (complete : Bool) (part : Bytes)
  /-- a `write` call has taken these bytes -/
  | wrote (bytes : Bytes)

namespace NetEvent

/-- The bytes read. -/
def readPart : NetEvent → Bytes
  | read bytes => bytes
  | _ => []

/-- The frame served, with its request. -/
def servedPart : NetEvent → List (Bytes × RespRequest)
  | served frame req _ => [(frame, req)]
  | _ => []

/-- The reply of a served request. -/
def replyPart : NetEvent → Bytes
  | served _ _ reply => reply
  | _ => []

/-- The bytes appended to the output, by a request or not. -/
def appendedPart : NetEvent → Bytes
  | served _ _ reply => reply
  | dropped _ _ part => part
  | errorReply _ part => part
  | _ => []

/-- The bytes written. -/
def wrotePart : NetEvent → Bytes
  | wrote bytes => bytes
  | _ => []

/-- A read error, a full buffer, or a reply that could not be appended. -/
def failure : NetEvent → Bool
  | readError => true
  | refused _ => true
  | dropped _ _ _ => true
  | errorReply complete _ => !complete
  | _ => false

/-- The end of the input. -/
def isEof : NetEvent → Bool
  | eof => true
  | _ => false

/-- A request was executed and answered in full. -/
def isServed : NetEvent → Bool
  | served _ _ _ => true
  | _ => false

/-- Bytes were written. -/
def isWrote : NetEvent → Bool
  | wrote _ => true
  | _ => false

/-- An error reply outside any request. -/
def isErrorReply : NetEvent → Bool
  | errorReply _ _ => true
  | _ => false

end NetEvent

/-- All bytes read. -/
def readBytes (trace : List NetEvent) : Bytes := trace.flatMap NetEvent.readPart

/-- All frames served, in order, with their requests. -/
def servedFrames (trace : List NetEvent) : List (Bytes × RespRequest) :=
  trace.flatMap NetEvent.servedPart

/-- The replies of the requests served, in order. -/
def replyBytes (trace : List NetEvent) : Bytes := trace.flatMap NetEvent.replyPart

/-- All bytes appended to the output, in order. -/
def appendedBytes (trace : List NetEvent) : Bytes := trace.flatMap NetEvent.appendedPart

/-- All bytes written. -/
def wroteBytes (trace : List NetEvent) : Bytes := trace.flatMap NetEvent.wrotePart

/-- Nothing has failed. -/
def Smooth (trace : List NetEvent) : Prop := ∀ e ∈ trace, e.failure = false

/-! ## The state -/

/-- A connection, and what its handlers share with the other connections. -/
structure NetState where
  /-- the connection -/
  conn : Conn
  /-- the store -/
  store : Hashtable
  /-- the allocator -/
  heap : Heap
  /-- ghost: what has happened on the connection -/
  trace : List NetEvent
  /-- the mask that is registered for the socket in the kernel -/
  mask : UInt32

/-- A connection that has just been accepted. -/
def accepted (store : Hashtable) (h : Heap) : NetState :=
  ⟨⟨bytebufInit, bytebufInit, EPOLLIN, false⟩, store, h, [], EPOLLIN⟩

namespace NetState

/-- Write an event to the record. -/
def log (s : NetState) (e : NetEvent) : NetState := { s with trace := s.trace ++ [e] }

end NetState

/-- `arm_events`; `ctl` is whether `epoll_ctl` succeeds. -/
def armEvents (events : UInt32) (ctl : Bool) (s : NetState) : Int × NetState :=
  if s.conn.events = events then (0, s)
  else if ctl then (0, { s with conn := { s.conn with events := events }, mask := events })
  else (-1, s)

/-! ## Reading -/

/-- How the read loop ends. -/
inductive ReadEnd : Type
  /-- there is nothing more to read -/
  | drained
  /-- there is no room to read more: `read_failed` with its message -/
  | refused (msg : Bytes)
  /-- the peer has closed -/
  | eof
  /-- `read` has failed -/
  | error
  deriving DecidableEq

/-- The top of a round: the cap is checked and a chunk of tail reserved. -/
def reserveTail (s : NetState) : Except Bytes ℕ × NetState :=
  if bytebufLen s.conn.inBuf ≥ BYTEBUF_MAX then (.error (ascii "ERR request too large"), s)
  else
    let r := bytebufReserve s.conn.inBuf READ_CHUNK s.heap
    let s := { s with conn := { s.conn with inBuf := r.2.1 }, heap := r.2.2 }
    match r.1 with
    | none => (.error (ascii "ERR out of memory"), s)
    | some tail => (.ok tail, s)

/-- `read` has put a chunk at the tail. -/
def takeChunk (tail : ℕ) (chunk : Chunk) (s : NetState) : NetState :=
  let inBuf := bytebufAdvance (writeTail s.conn.inBuf tail chunk.bytes) chunk.bytes.length
  ({ s with conn := { s.conn with inBuf := inBuf } }).log (.read chunk.bytes)

/-- The read loop of `handle_read`. -/
def readLoop : List ReadResult → NetState → ReadEnd × NetState
  | [], s =>
    match reserveTail s with
    | (.error msg, s) => (.refused msg, s.log (.refused msg))
    | (.ok _, s) => (.drained, s)
  | result :: script, s =>
    match reserveTail s with
    | (.error msg, s) => (.refused msg, s.log (.refused msg))
    | (.ok tail, s) =>
      match result with
      | .data chunk => readLoop script (takeChunk tail chunk s)
      | .eof => (.eof, s.log .eof)
      | .eagain => (.drained, s)
      | .eintr => readLoop script s
      | .error => (.error, s.log .readError)

/-! ## Dispatching -/

namespace NetState

/-- Execute a request with the output of the connection. -/
def execute (s : NetState) (req : RespRequest) : Int × CommandCtx :=
  commandExecute ⟨s.store, s.conn.outBuf, s.heap⟩ req

/-- What executing a request appends. -/
def appended (s : NetState) (req : RespRequest) : Bytes :=
  (s.execute req).2.out.live.drop s.conn.outBuf.live.length

/-- The frame of a request, at the head of the input. -/
def frame (s : NetState) (req : RespRequest) : Bytes := s.conn.inBuf.live.take req.bytesConsumed

/-- The request is executed and its frame consumed. -/
def serve (s : NetState) (req : RespRequest) : NetState where
  conn :=
    { s.conn with
      inBuf := bytebufConsume s.conn.inBuf req.bytesConsumed, outBuf := (s.execute req).2.out }
  store := (s.execute req).2.store
  heap := (s.execute req).2.heap
  trace := s.trace ++ [.served (s.frame req) req (s.appended req)]
  mask := s.mask

/-- The request is executed, but its reply is incomplete. -/
def drop (s : NetState) (req : RespRequest) : NetState where
  conn := { s.conn with outBuf := (s.execute req).2.out }
  store := (s.execute req).2.store
  heap := (s.execute req).2.heap
  trace := s.trace ++ [.dropped (s.frame req) req (s.appended req)]
  mask := s.mask

/-- Append an error reply, whether or not there is room, and wind down. -/
def queueError (s : NetState) (msg : Bytes) : NetState :=
  let r := respReplyError s.conn.outBuf msg s.heap
  { s with
    conn := { s.conn with outBuf := r.2.1, closeAfterDrain := true }
    heap := r.2.2
    trace := s.trace ++
      [.errorReply (decide (r.1 = 0)) (r.2.1.live.drop s.conn.outBuf.live.length)] }

end NetState

/-- The dispatch loop of `handle_read`. A frame is at least one byte long, so the
loop is done after as many rounds as there are bytes of input. -/
def dispatchLoop : ℕ → NetState → Int × NetState
  | 0, s => (0, s)
  | fuel + 1, s =>
    match respParseRequest s.conn.inBuf.live with
    | .needMore => (0, s)
    | .protocolErr => (0, s.queueError (ascii "ERR Protocol error"))
    | .ok req => if (s.execute req).1 ≠ 0 then (-1, s.drop req) else dispatchLoop fuel (s.serve req)

/-! ## The handlers -/

/-- The end of `handle_read`: adjust the interest mask. -/
def adjustInterest (ctl : Bool) (s : NetState) : Int × NetState :=
  if s.conn.closeAfterDrain ∧ bytebufLen s.conn.outBuf = 0 then (-1, s)
  else
    let want : UInt32 := (if !s.conn.closeAfterDrain then EPOLLIN else 0) |||
      (if bytebufLen s.conn.outBuf > 0 then EPOLLOUT else 0)
    if want = 0 then (-1, s) else armEvents want ctl s

/-- `handle_read` from the dispatch loop on. -/
def dispatchInput (readErr : Option Bytes) (ctl : Bool) (s : NetState) : Int × NetState :=
  let r := dispatchLoop (bytebufLen s.conn.inBuf) s
  if r.1 ≠ 0 then (-1, r.2)
  else
    match readErr with
    | none => adjustInterest ctl r.2
    | some msg => adjustInterest ctl (r.2.queueError msg)

/-- `handle_read` -/
def handleRead (script : List ReadResult) (ctl : Bool) (s : NetState) : Int × NetState :=
  if s.conn.closeAfterDrain then
    if bytebufLen s.conn.outBuf = 0 then (-1, s) else armEvents EPOLLOUT ctl s
  else
    match readLoop script s with
    | (.drained, s) => dispatchInput none ctl s
    | (.refused msg, s) => dispatchInput (some msg) ctl s
    | (.eof, s) => (-1, s)
    | (.error, s) => (-1, s)

/-- How the write loop ends. -/
inductive WriteEnd : Type
  /-- `outBuf` is empty -/
  | drained
  /-- the kernel takes no more -/
  | blocked
  /-- `write` has failed -/
  | failed
  deriving DecidableEq

/-- `write` has taken up to `n` bytes. -/
def giveBytes (n : ℕ) (s : NetState) : NetState :=
  let m := min n (bytebufLen s.conn.outBuf)
  ({ s with conn := { s.conn with outBuf := bytebufConsume s.conn.outBuf m } }).log
    (.wrote (s.conn.outBuf.live.take m))

/-- The loop of `handle_write`. -/
def writeLoop : List WriteResult → NetState → WriteEnd × NetState
  | [], s => if bytebufLen s.conn.outBuf > 0 then (.blocked, s) else (.drained, s)
  | result :: script, s =>
    if bytebufLen s.conn.outBuf > 0 then
      match result with
      | .accepted n _ => writeLoop script (giveBytes n s)
      | .eagain => (.blocked, s)
      | .eintr => writeLoop script s
      | .epipe => (.failed, s)
      | .error => (.failed, s)
    else (.drained, s)

/-- `handle_write` -/
def handleWrite (script : List WriteResult) (ctl : Bool) (s : NetState) : Int × NetState :=
  match writeLoop script s with
  | (.blocked, s) => (0, s)
  | (.failed, s) => (-1, s)
  | (.drained, s) => if s.conn.closeAfterDrain then (-1, s) else armEvents EPOLLIN ctl s

/-! ## Runs -/

/-- A connection that may have been closed. -/
structure NetRun where
  /-- the connection, in its last state -/
  state : NetState
  /-- the connection has not been closed -/
  isOpen : Bool

/-- The connection after a handler call: a negative result is followed by
`close_conn`. -/
def afterHandler (r : Int × NetState) : NetRun := ⟨r.2, !decide (r.1 < 0)⟩

theorem isOpen_afterHandler {r : Int × NetState} :
    (afterHandler r).isOpen = true ↔ ¬ r.1 < 0 := by
  simp [afterHandler]

/-- The part of `net_run` for an event of a client socket. -/
def netDispatch (ev : UInt32) (reads : List ReadResult) (ctlRead : Bool) (writes : List WriteResult)
    (ctlWrite : Bool) (s : NetState) : NetRun :=
  if ev &&& (EPOLLERR ||| EPOLLHUP) ≠ 0 then ⟨s, false⟩
  else
    let r := if ev &&& EPOLLIN ≠ 0 then handleRead reads ctlRead s else (0, s)
    if r.1 < 0 then ⟨r.2, false⟩
    else
      let w := if ev &&& EPOLLOUT ≠ 0 then handleWrite writes ctlWrite r.2 else (0, r.2)
      if w.1 < 0 then ⟨w.2, false⟩ else ⟨w.2, true⟩

/-- One step in the life of a connection. -/
inductive NetStep : Type
  /-- `handle_read` is called -/
  | read (script : List ReadResult) (ctl : Bool)
  /-- `handle_write` is called -/
  | write (script : List WriteResult) (ctl : Bool)
  /-- the socket reports an error or a hang-up -/
  | hangup
  /-- other connections leave this store and this allocator -/
  | elsewhere (store : Hashtable) (heap : Heap)

namespace NetRun

/-- One step of an open connection. Failures of the allocator are on record
whoever has met them. -/
def stepOpen (s : NetState) : NetStep → NetRun
  | .read script ctl => afterHandler (handleRead script ctl s)
  | .write script ctl => afterHandler (handleWrite script ctl s)
  | .hangup => ⟨s, false⟩
  | .elsewhere store heap =>
    ⟨{ s with store := store, heap := { heap with failed := s.heap.failed || heap.failed } }, true⟩

/-- One step; a closed connection takes no more. -/
def step (r : NetRun) (st : NetStep) : NetRun := if r.isOpen then stepOpen r.state st else r

/-- Some steps. -/
def run (r : NetRun) (steps : List NetStep) : NetRun := steps.foldl step r

end NetRun

/-- A connection from the start. -/
def netRun (store : Hashtable) (h : Heap) (steps : List NetStep) : NetRun :=
  NetRun.run ⟨accepted store h, true⟩ steps

/-- The handler calls of `net_run` for an event of a client socket. -/
def wakeupSteps (ev : UInt32) (reads : List ReadResult) (ctlRead : Bool)
    (writes : List WriteResult) (ctlWrite : Bool) : List NetStep :=
  if ev &&& (EPOLLERR ||| EPOLLHUP) ≠ 0 then [.hangup]
  else
    (if ev &&& EPOLLIN ≠ 0 then [.read reads ctlRead] else []) ++
      (if ev &&& EPOLLOUT ≠ 0 then [.write writes ctlWrite] else [])

/-- **What `net_run` does** for an event of an open client socket is a run of at
most two steps. -/
theorem netDispatch_eq_run (ev : UInt32) (reads : List ReadResult) (ctlRead : Bool)
    (writes : List WriteResult) (ctlWrite : Bool) (s : NetState) :
    netDispatch ev reads ctlRead writes ctlWrite s =
      NetRun.run ⟨s, true⟩ (wakeupSteps ev reads ctlRead writes ctlWrite) := by
  have hclosed : ∀ r : Int × NetState, r.1 < 0 → afterHandler r = ⟨r.2, false⟩ := by
    intro r hr
    rw [afterHandler, decide_eq_true hr, Bool.not_true]
  have hopen : ∀ r : Int × NetState, ¬ r.1 < 0 → afterHandler r = ⟨r.2, true⟩ := by
    intro r hr
    rw [afterHandler, decide_eq_false hr, Bool.not_false]
  have hread : NetRun.step ⟨s, true⟩ (.read reads ctlRead) =
      afterHandler (handleRead reads ctlRead s) := rfl
  have hwrite : ∀ s : NetState, NetRun.step ⟨s, true⟩ (.write writes ctlWrite) =
      afterHandler (handleWrite writes ctlWrite s) := fun _ => rfl
  have hend : ∀ w : Int × NetState,
      (if w.1 < 0 then (⟨w.2, false⟩ : NetRun) else ⟨w.2, true⟩) = afterHandler w := by
    intro w
    split
    · next hw => exact (hclosed w hw).symm
    · next hw => exact (hopen w hw).symm
  rw [netDispatch, wakeupSteps]
  split
  · rfl
  · simp only [hend]
    split
    · rw [List.singleton_append, NetRun.run, List.foldl_cons, hread]
      split
      · next hneg =>
        rw [hclosed _ hneg]
        split
        · rfl
        · rfl
      · next hpos =>
        rw [hopen _ hpos]
        split
        · exact (hwrite _).symm
        · rfl
    · simp only [Int.lt_irrefl, if_false, List.nil_append]
      split
      · exact (hwrite s).symm
      · rfl

end RedisInC
