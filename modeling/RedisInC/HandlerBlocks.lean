import RedisInC.CommandBlocks
import RedisInC.ParserBounds

/-!
# The handlers of a connection in memory (`networking.c`)

`handle_read` and `handle_write` once more, on a `conn_t` that is a block in memory, with its
two buffers. The arguments of a request point into the input buffer until its frame is
consumed; while a command runs, the output buffer may be moved.

* `Raw.readLoop`, `Raw.dispatchLoop`, `Raw.handleRead`, `Raw.handleWrite`, `Raw.netDispatch` —
  the functions. `Raw.respParseRequest` reads the input by its indices.
* `OwnedConn`, `OwnedView` — a connection, and what its handlers work on, with the blocks.
-/

namespace RedisInC

open BlockMemory

/-- What the handlers share: the store, and what is registered with epoll. -/
structure Globals where
  /-- `*g_store` -/
  store : TableNode
  /-- the kernel -/
  kernel : Kernel

namespace Raw

/-- Work on `c->in_buf`. -/
def withIn {α : Type} (c : Addr) (f : BufferNode → Code (α × BufferNode)) : Code α := do
  let conn ← loadConn c
  let r ← f conn.inBuf
  put c (.conn { conn with inBuf := r.2 })
  return r.1

/-- Work on `c->out_buf`. -/
def withOut {α : Type} (c : Addr) (f : BufferNode → Code (α × BufferNode)) : Code α := do
  let conn ← loadConn c
  let r ← f conn.outBuf
  put c (.conn { conn with outBuf := r.2 })
  return r.1

/-- `bytebuf_consume` on a field. -/
def consume (n : ℕ) (b : BufferNode) : Code (Unit × BufferNode) := do
  let b ← bytebufConsume b n
  return ((), b)

def armEvents (c : Addr) (events : UInt32) (ctl : Bool) (g : Globals) : Code (Int × Globals) := do
  let conn ← loadConn c
  if conn.events = events then return (0, g)
  else if ctl then
    put c (.conn { conn with events := events })
    return (0, { g with kernel := g.kernel.modify conn.fd events })
  else return (-1, g)

/-! ## Reading -/

/-- The top of a round: the cap is checked and a chunk of tail reserved. -/
def reserveTail (c : Addr) : Code (Except Bytes (Addr × ℕ)) := do
  let conn ← loadConn c
  if bytebufLen conn.inBuf ≥ BYTEBUF_MAX then return .error (ascii "ERR request too large")
  else
    match ← withIn c fun b => bytebufReserve b READ_CHUNK with
    | none => return .error (ascii "ERR out of memory")
    | some tail => return .ok tail

/-- `read` puts a chunk at the tail. -/
def takeChunk (c : Addr) (tail : Addr × ℕ) (chunk : Chunk) : Code Unit := do
  writeBytes tail.1 tail.2 chunk.bytes
  withIn c fun b => return ((), bytebufAdvance b chunk.bytes.length)

/-- The read loop of `handle_read`. -/
def readLoop (c : Addr) : List ReadResult → Globals → Code (ReadEnd × Globals)
  | [], g => do
    match ← reserveTail c with
    | .error msg => return (.refused msg, g)
    | .ok _ => return (.drained, g)
  | result :: script, g => do
    match ← reserveTail c with
    | .error msg => return (.refused msg, g)
    | .ok tail =>
      match result with
      | .data chunk =>
        takeChunk c tail chunk
        readLoop c script g
      | .eof => return (.eof, g)
      | .eagain => return (.drained, g)
      | .eintr => readLoop c script g
      | .error => return (.error, g)

/-! ## Dispatching -/

/-- The slots of a request, as pointers into the input. -/
def requestAt (input : Pointer) (req : RespRequest) : RequestNode where
  args i := ⟨input.add (req.args i).start, (req.args i).len⟩
  argc := req.argc
  bytesConsumed := req.bytesConsumed

/-- `resp_parse_request`; a read outside of the input has no result. -/
def respParseRequest (input : Pointer) (len : ℕ) : Code (RespStatus RequestNode) := do
  let bytes ← readBytes input len
  match checkedParseRequest bytes with
  | none => fault
  | some .needMore => return .needMore
  | some .protocolErr => return .protocolErr
  | some (.ok req) => return .ok (requestAt input req)

/-- Append an error reply, whether or not there is room, and wind down. -/
def queueError (c : Addr) (msg : Bytes) (g : Globals) : Code (Unit × Globals) := do
  let _ ← withOut c fun b => respReplyError b msg
  let conn ← loadConn c
  put c (.conn { conn with closeAfterDrain := true })
  return ((), g)

/-- `command_execute` with the output of the connection. -/
def execute (c : Addr) (req : RequestNode) (g : Globals) : Code (Int × Globals) := do
  let conn ← loadConn c
  let r ← commandExecute ⟨g.store, conn.outBuf⟩ req
  put c (.conn { conn with outBuf := r.2.out })
  return (r.1, { g with store := r.2.store })

/-- The dispatch loop of `handle_read`. Out of fuel there is no result. -/
def dispatchLoop (c : Addr) : ℕ → Globals → Code (Int × Globals)
  | 0, _ => fault
  | fuel + 1, g => do
    let conn ← loadConn c
    match ← respParseRequest (bytebufData conn.inBuf) (bytebufLen conn.inBuf) with
    | .needMore => return (0, g)
    | .protocolErr =>
      let r ← queueError c (ascii "ERR Protocol error") g
      return (0, r.2)
    | .ok req =>
      let r ← execute c req g
      if r.1 ≠ 0 then return (-1, r.2)
      else
        withIn c (consume req.bytesConsumed)
        dispatchLoop c fuel r.2

/-! ## The handlers -/

/-- The end of `handle_read`: adjust the interest mask. -/
def adjustInterest (c : Addr) (ctl : Bool) (g : Globals) : Code (Int × Globals) := do
  let conn ← loadConn c
  if conn.closeAfterDrain ∧ bytebufLen conn.outBuf = 0 then return (-1, g)
  else
    let want : UInt32 := (if !conn.closeAfterDrain then EPOLLIN else 0) |||
      (if bytebufLen conn.outBuf > 0 then EPOLLOUT else 0)
    if want = 0 then return (-1, g) else armEvents c want ctl g

/-- `handle_read` from the dispatch loop on. There is no more than a frame for each byte of
the input. -/
def dispatchInput (c : Addr) (readErr : Option Bytes) (ctl : Bool) (g : Globals) :
    Code (Int × Globals) := do
  let conn ← loadConn c
  let r ← dispatchLoop c (bytebufLen conn.inBuf + 1) g
  if r.1 ≠ 0 then return (-1, r.2)
  else
    match readErr with
    | none => adjustInterest c ctl r.2
    | some msg =>
      let e ← queueError c msg r.2
      adjustInterest c ctl e.2

def handleRead (c : Addr) (script : List ReadResult) (ctl : Bool) (g : Globals) :
    Code (Int × Globals) := do
  let conn ← loadConn c
  if conn.closeAfterDrain then
    if bytebufLen conn.outBuf = 0 then return (-1, g) else armEvents c EPOLLOUT ctl g
  else
    let r ← readLoop c script g
    match r.1 with
    | .drained => dispatchInput c none ctl r.2
    | .refused msg => dispatchInput c (some msg) ctl r.2
    | .eof => return (-1, r.2)
    | .error => return (-1, r.2)

/-- The loop of `handle_write`. Each `write` call is given all live bytes to read. -/
def writeLoop (c : Addr) : List WriteResult → Globals → Code (WriteEnd × Globals)
  | [], g => do
    let conn ← loadConn c
    if bytebufLen conn.outBuf > 0 then
      let _ ← readBytes (bytebufData conn.outBuf) (bytebufLen conn.outBuf)
      return (.blocked, g)
    else return (.drained, g)
  | result :: script, g => do
    let conn ← loadConn c
    if bytebufLen conn.outBuf > 0 then
      let _ ← readBytes (bytebufData conn.outBuf) (bytebufLen conn.outBuf)
      match result with
      | .accepted n _ =>
        withOut c (consume (min n (bytebufLen conn.outBuf)))
        writeLoop c script g
      | .eagain => return (.blocked, g)
      | .eintr => writeLoop c script g
      | .epipe => return (.failed, g)
      | .error => return (.failed, g)
    else return (.drained, g)

def handleWrite (c : Addr) (script : List WriteResult) (ctl : Bool) (g : Globals) :
    Code (Int × Globals) := do
  let r ← writeLoop c script g
  match r.1 with
  | .blocked => return (0, r.2)
  | .failed => return (-1, r.2)
  | .drained =>
    let conn ← loadConn c
    if conn.closeAfterDrain then return (-1, r.2) else armEvents c EPOLLIN ctl r.2

/-- Call a handler if this is what has happened. -/
def onEvent (ev bit : UInt32) (handler : Globals → Code (Int × Globals)) (g : Globals) :
    Code (Int × Globals) := if ev &&& bit ≠ 0 then handler g else return (0, g)

/-- The part of `net_run` for an event of a client socket, up to `close_conn`: whether the
connection stays. -/
def netDispatch (c : Addr) (ev : UInt32) (reads : List ReadResult) (ctlRead : Bool)
    (writes : List WriteResult) (ctlWrite : Bool) (g : Globals) : Code (Bool × Globals) :=
  if ev &&& (EPOLLERR ||| EPOLLHUP) ≠ 0 then return (false, g)
  else do
    let r ← onEvent ev EPOLLIN (handleRead c reads ctlRead) g
    if r.1 < 0 then return (false, r.2)
    else
      let w ← onEvent ev EPOLLOUT (handleWrite c writes ctlWrite) r.2
      if w.1 < 0 then return (false, w.2) else return (true, w.2)

end Raw

/-! ## What a connection owns -/

/-- A connection with its blocks. -/
structure OwnedConn where
  /-- bytes read from peer -/
  inBuf : OwnedBuffer
  /-- serialized replies awaiting write -/
  outBuf : OwnedBuffer
  /-- current epoll interest mask -/
  events : UInt32
  /-- close once `outBuf` is fully written -/
  closeAfterDrain : Bool
  /-- ghost: what has happened on the connection -/
  trace : List NetEvent

namespace OwnedConn

/-- The struct, with a socket and a link. -/
def node (c : OwnedConn) (fd : Fd) (next : Option Addr) : ConnNode :=
  ⟨fd, c.inBuf.node, c.outBuf.node, c.events, c.closeAfterDrain, next⟩

/-- Its blocks. -/
def cells (c : OwnedConn) (p : Addr) (fd : Fd) (next : Option Addr) : Cells Addr Block :=
  cell p (.conn (c.node fd next)) + (c.inBuf.cells + c.outBuf.cells)

/-- A connection as it is allocated. -/
def fresh (events : UInt32) : OwnedConn := ⟨.empty, .empty, events, false, []⟩

/-- The connection it stands for. -/
def toConn (c : OwnedConn) : Conn := ⟨c.inBuf.buf, c.outBuf.buf, c.events, c.closeAfterDrain⟩

end OwnedConn

/-- What the handlers of a connection work on, with its blocks. -/
structure OwnedView where
  /-- the store -/
  store : OwnedTable
  /-- the connection -/
  conn : OwnedConn
  /-- the mask that is registered for the socket in the kernel -/
  mask : UInt32

namespace OwnedView

/-- The blocks. -/
def cells (v : OwnedView) (p : Addr) (fd : Fd) (next : Option Addr) : Cells Addr Block :=
  v.conn.cells p fd next + v.store.cells

/-- What the handlers share. -/
def globals (v : OwnedView) (k : Kernel) (fd : Fd) : Globals := ⟨v.store.node, k.modify fd v.mask⟩

/-- The state it stands for. -/
def toState (v : OwnedView) (s : Allocator) : NetState :=
  ⟨v.conn.toConn, v.store.toTable, s.heap, v.conn.trace, v.mask⟩

/-- How the connection at an address is kept in memory, with the kernel as it was at the
start. -/
def layout (k : Kernel) (p : Addr) (fd : Fd) (next : Option Addr) :
    Layout OwnedView Globals NetState Allocator Addr Block where
  node v := v.globals k fd
  cells v := v.cells p fd next
  value := toState

end OwnedView

end RedisInC
