import RedisInC.LinkedList
import RedisInC.Networking

/-!
# The event loop, with all its connections (`networking.c`)

The connections are nodes in memory, linked by `next` and reached from `g_conns`.
A computation without a result has followed an address at which there is no
connection.

* `Kernel` — the open descriptors, what is registered with epoll, and the record of
  what has happened to the descriptors (a ghost).
* `Fresh` — the kernel and the allocator are free to choose, but not what is in use.
* `Server` — the variables of the module, with the memory of the connections.
* `acceptClients`, `closeConn`, `netRun` — the functions, as the code computes them.
  `netLoop` is the loop of `net_run`, and `teardown` what comes after it.
-/

namespace RedisInC

open LinkedList

/-- A file descriptor. -/
abbrev Fd : Type := ℕ

/-- The address of a `conn_t`. -/
abbrev Ptr : Type := ℕ

/-- `epoll_wait` batch size -/
def MAX_EVENTS : ℕ := 64

/-- `sizeof(conn_t)` on a 64-bit target. -/
def SIZEOF_CONN : ℕ := 88

/-- A choice of something that is not in use. -/
structure Fresh where
  /-- the choice -/
  pick : Finset ℕ → ℕ
  /-- it is not in use -/
  fresh : ∀ used, pick used ∉ used

/-! ## The kernel -/

/-- What happens to a descriptor. -/
inductive FdEvent : Type
  /-- a system call has returned it -/
  | opened (fd : Fd)
  /-- it has been added to the epoll set -/
  | registered (fd : Fd)
  /-- it has been closed -/
  | closed (fd : Fd)
  deriving DecidableEq

/-- The descriptor of an event. -/
def FdEvent.fd : FdEvent → Fd
  | opened fd => fd
  | registered fd => fd
  | closed fd => fd

/-- What is registered for a descriptor. -/
structure Interest where
  /-- the events that are waited for -/
  mask : UInt32
  /-- `data.ptr`: the connection, or `NULL` for the listener -/
  ptr : Option Ptr

/-- The kernel, as far as the program can tell. -/
structure Kernel where
  /-- the open descriptors -/
  opened : Finset Fd
  /-- the epoll set -/
  epoll : Finmap fun _ : Fd => Interest
  /-- ghost: what has happened to the descriptors -/
  log : List FdEvent

namespace Kernel

/-- A new descriptor. -/
def openFd (k : Kernel) (fd : Fd) : Kernel :=
  { k with opened := insert fd k.opened, log := k.log ++ [.opened fd] }

/-- `EPOLL_CTL_ADD` -/
def add (k : Kernel) (fd : Fd) (i : Interest) : Kernel :=
  { k with epoll := k.epoll.insert fd i, log := k.log ++ [.registered fd] }

/-- `EPOLL_CTL_MOD` -/
def modify (k : Kernel) (fd : Fd) (mask : UInt32) : Kernel :=
  match k.epoll.lookup fd with
  | none => k
  | some i => { k with epoll := k.epoll.insert fd { i with mask := mask } }

/-- `EPOLL_CTL_DEL` -/
def del (k : Kernel) (fd : Fd) : Kernel := { k with epoll := k.epoll.erase fd }

/-- `close`; it takes the descriptor out of the epoll set as well. -/
def close (k : Kernel) (fd : Fd) : Kernel :=
  ⟨k.opened.erase fd, k.epoll.erase fd, k.log ++ [.closed fd]⟩

/-- The mask registered for a descriptor. -/
def mask (k : Kernel) (fd : Fd) : UInt32 :=
  match k.epoll.lookup fd with
  | none => 0
  | some i => i.mask

end Kernel

/-- What an `accept` call comes to. -/
inductive AcceptResult : Type
  /-- a client; whether `set_nonblock` succeeds, where `malloc` puts the connection,
  and whether `epoll_ctl` succeeds -/
  | client (fd : Fresh) (nonblock : Bool) (addr : Fresh) (ctl : Bool)
  /-- `EAGAIN` or `EWOULDBLOCK` -/
  | eagain
  /-- `EINTR` -/
  | eintr
  /-- any other error -/
  | error

/-- A descriptor that is ready, and how the system calls of its handler end. -/
structure Ready where
  /-- the descriptor -/
  fd : Fd
  /-- what it is ready for -/
  events : UInt32
  /-- of the listener: the `accept` calls -/
  accepts : List AcceptResult
  /-- of `handle_read`: the `read` calls -/
  reads : List ReadResult
  /-- of `handle_read`: `epoll_ctl` -/
  ctlRead : Bool
  /-- of `handle_write`: the `write` calls -/
  writes : List WriteResult
  /-- of `handle_write`: `epoll_ctl` -/
  ctlWrite : Bool

/-- All that is ready, each descriptor once. -/
structure ReadyList where
  /-- the descriptors in some order -/
  list : List Ready
  /-- once each -/
  nodup : (list.map Ready.fd).Nodup

/-- `struct epoll_event`, and how the system calls of its handler end. -/
structure EpollEvent where
  /-- what has happened -/
  events : UInt32
  /-- `data.ptr` -/
  ptr : Option Ptr
  /-- the descriptor it has happened to -/
  ready : Ready

/-- What is reported of a descriptor that is ready: what is waited for, and errors. -/
def Kernel.report (k : Kernel) (r : Ready) : Option EpollEvent :=
  match k.epoll.lookup r.fd with
  | none => none
  | some i =>
    let ev := r.events &&& (i.mask ||| (EPOLLERR ||| EPOLLHUP))
    if ev = 0 then none else some ⟨ev, i.ptr, r⟩

/-- `epoll_wait`, if it returns events. -/
def Kernel.wait (k : Kernel) (ready : ReadyList) : List EpollEvent :=
  (ready.list.filterMap k.report).take MAX_EVENTS

/-! ## The server -/

/-- `conn_t`, without its link. -/
structure Client where
  /-- the socket -/
  fd : Fd
  /-- its buffers and its state -/
  conn : Conn
  /-- ghost: what has happened on the connection -/
  trace : List NetEvent

/-- The variables of `networking.c`. -/
structure Server where
  /-- `g_store` -/
  store : Hashtable
  /-- the allocator -/
  heap : Heap
  /-- `g_listen_fd`, or nothing for -1 -/
  listenFd : Option Fd
  /-- `g_epoll_fd`, or nothing for -1 -/
  epollFd : Option Fd
  /-- `g_conns`, and the connections in memory -/
  conns : Chain Ptr Client
  /-- `g_shutdown` -/
  shutdown : Bool
  /-- the kernel -/
  kernel : Kernel

/-- After `net_init`: the listener is open and registered. Other descriptors are
open as well. -/
def netInit (store : Hashtable) (h : Heap) (others : Finset Fd) (listen epoll : Fresh) : Server :=
  let lfd := listen.pick others
  let efd := epoll.pick (insert lfd others)
  { store := store
    heap := h
    listenFd := some lfd
    epollFd := some efd
    conns := Chain.empty
    shutdown := false
    kernel := (((⟨others, ∅, []⟩ : Kernel).openFd lfd).openFd efd).add lfd ⟨EPOLLIN, none⟩ }

namespace Server

/-! ## Connection lifecycle -/

/-- `close` -/
def closeFd (s : Server) (fd : Fd) : Server := { s with kernel := s.kernel.close fd }

/-- `EPOLL_CTL_DEL`, as long as there is an epoll set, and `close`. -/
def dropFd (s : Server) (fd : Fd) : Server :=
  (if s.epollFd.isSome then { s with kernel := s.kernel.del fd } else s).closeFd fd

/-- A connection as it is allocated. -/
def newClient (fd : Fd) (events : UInt32) : Client :=
  ⟨fd, ⟨bytebufInit, bytebufInit, events, false⟩, []⟩

/-- A round of `accept_clients`, with a client. -/
def acceptClient (fd : Fresh) (nonblock : Bool) (addr : Fresh) (ctl : Bool) (s : Server) :
    Option Server :=
  let cfd := fd.pick s.kernel.opened
  let s := { s with kernel := s.kernel.openFd cfd }
  if !nonblock then some (s.closeFd cfd)
  else
    let r := s.heap.malloc SIZEOF_CONN
    let s := { s with heap := r.2 }
    if !r.1 then some (s.closeFd cfd)
    else
      let c := addr.pick s.conns.mem.keys
      let s := { s with conns := s.conns.push c (newClient cfd 0) }
      if ctl then
        some { s with
          kernel := s.kernel.add cfd ⟨EPOLLIN, some c⟩
          conns := s.conns.update c (newClient cfd EPOLLIN) }
      else
        -- unlink and free what was allocated
        (s.conns.pop c).map fun conns => { s with conns := conns }.closeFd cfd

/-- `accept_clients` -/
def acceptClients : List AcceptResult → Server → Option Server
  | [], s => some s
  | .client fd nonblock addr ctl :: rest, s =>
    (s.acceptClient fd nonblock addr ctl).bind (acceptClients rest)
  | .eagain :: _, s => some s
  | .eintr :: rest, s => acceptClients rest s
  | .error :: _, s => some s

/-- `close_conn` -/
def closeConn (p : Ptr) (s : Server) : Option Server := do
  let client ← s.conns.data p
  let s := s.dropFd client.fd
  let conns ← s.conns.unlink p
  some { s with conns := conns.free p }

/-! ## The loop -/

/-- A connection as its handlers see it. -/
def view (s : Server) (c : Client) : NetState :=
  ⟨c.conn, s.store, s.heap, c.trace, s.kernel.mask c.fd⟩

/-- What the handlers leave of it. -/
def putBack (s : Server) (p : Ptr) (fd : Fd) (t : NetState) : Server :=
  { s with
    store := t.store
    heap := t.heap
    conns := s.conns.update p ⟨fd, t.conn, t.trace⟩
    kernel := s.kernel.modify fd t.mask }

/-- The part of `net_run` for an event of a client socket. -/
def clientEvent (p : Ptr) (e : EpollEvent) (s : Server) : Option Server := do
  let client ← s.conns.data p
  let r := netDispatch e.events e.ready.reads e.ready.ctlRead e.ready.writes e.ready.ctlWrite
    (s.view client)
  let s := s.putBack p client.fd r.state
  if r.isOpen then some s else s.closeConn p

/-- The events of one batch. -/
def handleEvents : List EpollEvent → Server → Option Server
  | [], s => some s
  | e :: es, s =>
    match e.ptr with
    | none =>
      if e.events &&& (EPOLLERR ||| EPOLLHUP) ≠ 0 then some { s with shutdown := true }
      else (s.acceptClients e.ready.accepts).bind (handleEvents es)
    | some p => (s.clientEvent p e).bind (handleEvents es)

/-- What `epoll_wait` comes to. -/
inductive Wait : Type
  /-- some descriptors are ready -/
  | events (ready : ReadyList)
  /-- `EINTR` -/
  | eintr
  /-- any other error -/
  | error

/-- A turn of the loop. -/
structure Turn where
  /-- a signal has arrived before `g_shutdown` is checked -/
  signal : Bool
  /-- the `epoll_wait` call -/
  wait : Wait

/-- The loop of `net_run`, and whether it has been left. Behind the end of the
script it waits for events. -/
def netLoop : List Turn → Server → Option (Server × Bool)
  | [], s => some (s, false)
  | t :: turns, s =>
    let s := if t.signal then { s with shutdown := true } else s
    if s.shutdown then some (s, true)
    else
      match t.wait with
      | .events ready => (s.handleEvents (s.kernel.wait ready)).bind (netLoop turns)
      | .eintr => netLoop turns s
      | .error => some (s, true)

/-- Close all connections. There are no more of them than nodes. -/
def closeAll : ℕ → Server → Option Server
  | 0, s => if s.conns.head = none then some s else none
  | fuel + 1, s =>
    match s.conns.head with
    | none => some s
    | some p => do
      let client ← s.conns.data p
      let s := s.dropFd client.fd
      let conns ← s.conns.pop p
      closeAll fuel { s with conns := conns }

/-- What `net_run` does after the loop. -/
def teardown (s : Server) : Option Server := do
  let s ← s.closeAll s.conns.mem.keys.card
  let s := match s.epollFd with
    | none => s
    | some fd => { s.closeFd fd with epollFd := none }
  let s := match s.listenFd with
    | none => s
    | some fd => { s.closeFd fd with listenFd := none }
  some s

/-- `net_run`, and whether it has returned. -/
def netRun (turns : List Turn) (s : Server) : Option (Server × Bool) := do
  let r ← s.netLoop turns
  if r.2 then
    let s ← r.1.teardown
    some (s, true)
  else some r

end Server

end RedisInC
