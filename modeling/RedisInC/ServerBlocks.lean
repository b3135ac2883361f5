import RedisInC.HandlerBlocks
import RedisInC.Listener

/-!
# The event loop in memory (`networking.c`)

`accept_clients`, `close_conn`, `net_run` once more, with the connections as blocks that are
linked from `g_conns`. The addresses that epoll keeps in `data.ptr` are those of the blocks.

* `Raw.netInit`, `Raw.acceptClients`, `Raw.closeConn`, `Raw.netRun` — the functions.
* `OwnedClient`, `OwnedServer` — the connections and the server with their blocks.
-/

namespace RedisInC

open BlockMemory LinkedList

/-- The variables of `networking.c`, and the kernel. -/
structure ServerNode where
  /-- `*g_store` -/
  store : TableNode
  /-- `g_listen_fd`, or nothing for -1 -/
  listenFd : Option Fd
  /-- `g_epoll_fd`, or nothing for -1 -/
  epollFd : Option Fd
  /-- `g_conns` -/
  conns : Option Addr
  /-- `g_shutdown` -/
  shutdown : Bool
  /-- the kernel -/
  kernel : Kernel

namespace ServerNode

/-- `close` -/
def closeFd (n : ServerNode) (fd : Fd) : ServerNode := { n with kernel := n.kernel.close fd }

/-- `EPOLL_CTL_DEL`, as long as there is an epoll set, and `close`. -/
def dropFd (n : ServerNode) (fd : Fd) : ServerNode :=
  (if n.epollFd.isSome then { n with kernel := n.kernel.del fd } else n).closeFd fd

end ServerNode

namespace Raw

/-- `net_init`, with a store that is there for as long as the server runs. -/
def netInit (calls : Listener.InitCalls) (n : ServerNode) : Int × ServerNode :=
  let r := Listener.netInit calls n.kernel
  (r.1, { n with listenFd := r.2.listenFd, epollFd := r.2.epollFd, kernel := r.2.kernel })

/-- `bytebuf_free` on a field. -/
def release (b : BufferNode) : Code (Unit × BufferNode) := do
  let b ← bytebufFree b
  return ((), b)

/-- Both buffers of a connection are freed, and the connection. -/
def freeConn (c : Addr) : Code Unit := do
  withIn c release
  withOut c release
  free (some c)

/-- A round of `accept_clients`, with a client. -/
def acceptClient (fd : Fresh) (nonblock ctl : Bool) (n : ServerNode) : Code ServerNode :=
  let cfd := fd.pick n.kernel.opened
  let n := { n with kernel := n.kernel.openFd cfd }
  if !nonblock then return n.closeFd cfd
  else do
    match ← malloc SIZEOF_CONN with
    | none => return n.closeFd cfd
    | some c =>
      put c (.conn ⟨cfd, bytebufInit, bytebufInit, 0, false, n.conns⟩)
      let n := { n with conns := some c }
      let conn ← loadConn c
      if ctl then
        put c (.conn { conn with events := EPOLLIN })
        return { n with kernel := n.kernel.add cfd ⟨EPOLLIN, some c⟩ }
      else
        -- unlink and free what was allocated
        let n := { n with conns := conn.next }
        freeConn c
        return n.closeFd cfd

/-- `accept_clients`. Where a connection is put is up to the allocator. -/
def acceptClients : List AcceptResult → ServerNode → Code ServerNode
  | [], n => return n
  | .client fd nonblock _ ctl :: rest, n => do
    let n ← acceptClient fd nonblock ctl n
    acceptClients rest n
  | .eagain :: _, n => return n
  | .eintr :: rest, n => acceptClients rest n
  | .error :: _, n => return n

/-- `*link`, for a `conn_t **` -/
def readConnLink (n : ServerNode) : Link Addr → Code (Option Addr)
  | .head => return n.conns
  | .next p => do
    let conn ← loadConn p
    return conn.next

/-- `*link = q` -/
def writeConnLink (n : ServerNode) (q : Option Addr) : Link Addr → Code ServerNode
  | .head => return { n with conns := q }
  | .next p => do
    let conn ← loadConn p
    put p (.conn { conn with next := q })
    return n

/-- The loop of `close_conn`: the place that holds the address, or the null address. -/
def seekConn (n : ServerNode) (c : Addr) : ℕ → Link Addr → Code (Link Addr)
  | fuel, link => do
    match ← readConnLink n link with
    | none => return link
    | some q =>
      if q = c then return link
      else
        match fuel with
        | 0 => fault
        | fuel + 1 => seekConn n c fuel (.next q)

/-- `close_conn`. There are no more connections in the list than blocks. -/
def closeConn (c : Addr) (n : ServerNode) : Code ServerNode := do
  let conn ← loadConn c
  let n := n.dropFd conn.fd
  let fuel ← blockCount
  let link ← seekConn n c fuel .head
  let q ← readConnLink n link
  if q = some c then
    let conn ← loadConn c
    let n ← writeConnLink n conn.next link
    freeConn c
    return n
  else
    freeConn c
    return n

/-- The part of `net_run` for an event of a client socket. -/
def clientEvent (c : Addr) (e : EpollEvent) (n : ServerNode) : Code ServerNode := do
  let r ← netDispatch c e.events e.ready.reads e.ready.ctlRead e.ready.writes e.ready.ctlWrite
    ⟨n.store, n.kernel⟩
  let n := { n with store := r.2.store, kernel := r.2.kernel }
  if r.1 then return n else closeConn c n

/-- The events of one batch. -/
def handleEvents : List EpollEvent → ServerNode → Code ServerNode
  | [], n => return n
  | e :: es, n =>
    match e.ptr with
    | none =>
      if e.events &&& (EPOLLERR ||| EPOLLHUP) ≠ 0 then return { n with shutdown := true }
      else do
        let n ← acceptClients e.ready.accepts n
        handleEvents es n
    | some c => do
      let n ← clientEvent c e n
      handleEvents es n

/-- The loop of `net_run`, and whether it has been left. -/
def netLoop : List Server.Turn → ServerNode → Code (ServerNode × Bool)
  | [], n => return (n, false)
  | t :: turns, n =>
    let n := if t.signal then { n with shutdown := true } else n
    if n.shutdown then return (n, true)
    else
      match t.wait with
      | .events ready => do
        let n ← handleEvents (n.kernel.wait ready) n
        netLoop turns n
      | .eintr => netLoop turns n
      | .error => return (n, true)

/-- Close all connections. -/
def closeAll : ℕ → ServerNode → Code ServerNode
  | fuel, n =>
    match n.conns with
    | none => return n
    | some c =>
      match fuel with
      | 0 => fault
      | fuel + 1 => do
        let conn ← loadConn c
        let n := n.dropFd conn.fd
        freeConn c
        closeAll fuel { n with conns := conn.next }

/-- What `net_run` does after the loop. -/
def teardown (n : ServerNode) : Code ServerNode := do
  let fuel ← blockCount
  let n ← closeAll fuel n
  let n := match n.epollFd with
    | none => n
    | some fd => { n.closeFd fd with epollFd := none }
  let n := match n.listenFd with
    | none => n
    | some fd => { n.closeFd fd with listenFd := none }
  return n

/-- `net_run`, and whether it has returned. -/
def netRun (turns : List Server.Turn) (n : ServerNode) : Code (ServerNode × Bool) := do
  let r ← netLoop turns n
  if r.2 then
    let n ← teardown r.1
    return (n, true)
  else return r

end Raw

/-! ## What the server owns -/

/-- A client with its blocks. -/
structure OwnedClient where
  /-- where the connection is -/
  addr : Addr
  /-- the socket -/
  fd : Fd
  /-- the connection -/
  conn : OwnedConn

namespace OwnedClient

/-- The client it stands for. -/
def toClient (c : OwnedClient) : Client := ⟨c.fd, c.conn.toConn, c.conn.trace⟩

/-- The client with its connection in another state. -/
def withConn (c : OwnedClient) (conn : OwnedConn) : OwnedClient := { c with conn := conn }

/-- Its blocks, linked to the next one. -/
def cells (c : OwnedClient) (next : Option Addr) : Cells Addr Block := c.conn.cells c.addr c.fd next

end OwnedClient

/-- The address of the first client, or this one. -/
def firstAddr (l : List OwnedClient) (q : Option Addr) : Option Addr := linkHead OwnedClient.addr l q

/-- The blocks of linked clients, up to this address. -/
def clientCells (l : List OwnedClient) (q : Option Addr) : Cells Addr Block :=
  linkedCells OwnedClient.addr OwnedClient.cells l q

/-- The list of connections they stand for. -/
def clientChain : List OwnedClient → Chain Ptr Client
  | [] => Chain.empty
  | c :: cs => (clientChain cs).push c.addr c.toClient

/-- The server with its blocks. -/
structure OwnedServer where
  /-- the store -/
  store : OwnedTable
  /-- `g_listen_fd` -/
  listenFd : Option Fd
  /-- `g_epoll_fd` -/
  epollFd : Option Fd
  /-- the connections, in the order of the list -/
  clients : List OwnedClient
  /-- `g_shutdown` -/
  shutdown : Bool
  /-- the kernel -/
  kernel : Kernel

namespace OwnedServer

/-- The variables. -/
def node (o : OwnedServer) : ServerNode :=
  ⟨o.store.node, o.listenFd, o.epollFd, firstAddr o.clients none, o.shutdown, o.kernel⟩

/-- The blocks. -/
def cells (o : OwnedServer) : Cells Addr Block := clientCells o.clients none + o.store.cells

/-- The server it stands for. -/
def toServer (o : OwnedServer) (s : Allocator) : Server :=
  ⟨o.store.toTable, s.heap, o.listenFd, o.epollFd, clientChain o.clients, o.shutdown, o.kernel⟩

end OwnedServer

end RedisInC
