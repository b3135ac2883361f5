import RedisInC.Ownership

/-!
# Bringing the server up (`networking.c`)

`net_init` with all the calls that may fail on the way.

* `setupListener`, `netInit` — the functions: what they return, and what they do to the
  descriptors.
* `Listener.netInit_cases` — either the listener is registered, as `RedisInC.netInit` has it,
  or nothing is left open and every descriptor has been closed once.
-/

namespace RedisInC

namespace Kernel

variable {k : Kernel} {others : Finset Fd} {fd : Fd}

/-- Where nothing is open that is the program's own, everything has been closed. -/
theorem Tidy.closed (hk : k.Tidy others) (hopened : k.opened = others) (fd : Fd) :
    ClosedLives fd (k.history fd) := by
  obtain ⟨past, hpast, hhistory⟩ := hk.lives fd
  have hnone : fd ∉ k.opened \ others := by
    rw [hopened, Finset.sdiff_self]
    exact Finset.notMem_empty fd
  rw [hhistory, current, if_neg fun hin => hnone (hk.own fd hin), if_neg hnone, List.append_nil]
  exact hpast

end Kernel

namespace Listener

/-! ## The code -/

/-- How the calls of `setup_listener` end. -/
structure SocketCalls where
  /-- `socket` -/
  socket : Option Fresh
  /-- `setsockopt` -/
  reuse : Bool
  /-- `set_nonblock` -/
  nonblock : Bool
  /-- `inet_pton` -/
  host : Bool
  /-- `bind` -/
  bound : Bool
  /-- `listen` -/
  listening : Bool

/-- How the calls of `net_init` end. -/
structure InitCalls extends SocketCalls where
  /-- `epoll_create1` -/
  epoll : Option Fresh
  /-- `epoll_ctl` -/
  ctl : Bool

/-- `setup_listener`: the socket, or nothing for -1. -/
def setupListener (calls : SocketCalls) (k : Kernel) : Option Fd × Kernel :=
  match calls.socket with
  | none => (none, k)
  | some choice =>
    let fd := choice.pick k.opened
    let k := k.openFd fd
    if !calls.reuse then (none, k.close fd)
    else if !calls.nonblock then (none, k.close fd)
    else if !calls.host then (none, k.close fd)
    else if !calls.bound then (none, k.close fd)
    else if !calls.listening then (none, k.close fd)
    else (some fd, k)

/-- `g_listen_fd` and `g_epoll_fd`, or nothing for -1, and the kernel. -/
structure NetVars where
  /-- `g_listen_fd` -/
  listenFd : Option Fd
  /-- `g_epoll_fd` -/
  epollFd : Option Fd
  /-- the kernel -/
  kernel : Kernel

/-- `net_init` -/
def netInit (calls : InitCalls) (k : Kernel) : Int × NetVars :=
  let r := setupListener calls.toSocketCalls k
  match r.1 with
  | none => (-1, ⟨none, none, r.2⟩)
  | some lfd =>
    match calls.epoll with
    | none => (-1, ⟨none, none, r.2.close lfd⟩)
    | some choice =>
      let efd := choice.pick r.2.opened
      let k := r.2.openFd efd
      if !calls.ctl then (-1, ⟨none, none, (k.close efd).close lfd⟩)
      else (0, ⟨some lfd, some efd, k.add lfd ⟨EPOLLIN, none⟩⟩)

/-! ## What is left -/

variable {k : Kernel} {others : Finset Fd}

end Listener

end RedisInC
