import RedisInC.Descriptors
import RedisInC.Segmentation

/-!
# Who owns the connections

* `IsRun`, `Server.Alive` — the life of each connection is a run of a connection on
  its own, and the other connections are somewhere else for it.
* `Server.Owns` — the list of connections against the kernel: the connections in the
  list are the client sockets registered, one each, and nothing else is in memory
  or open.
* `Server.Sound` — the list is in order, and every connection in it is alive.
  `acceptClients_keeps`, `clientEvent_keeps`, `handleEvents_keeps` and `netLoop_keeps`
  go through the functions: the events still to be handled in a batch are for
  connections that are still there (`Pending`).
* `connection_ownership` — so it is in every state of `net_run`, and at the end there
  is nothing left.
-/

namespace RedisInC

open LinkedList

/-! ## The life of a connection -/

/-- A state that a run of a connection reaches, with the connection open. -/
def IsRun (t : NetState) : Prop := ∃ store h steps, netRun store h steps = ⟨t, true⟩

theorem isRun_accepted (store : Hashtable) (h : Heap) : IsRun (accepted store h) :=
  ⟨store, h, [], rfl⟩

namespace IsRun

variable {t t' : NetState}

theorem inv (h : IsRun t) : NetRun.Inv ⟨t, true⟩ := by
  obtain ⟨store, heap, steps, hrun⟩ := h
  rw [← hrun]
  exact netRun_inv store heap steps

/-- A run goes on. -/
theorem run (h : IsRun t) {steps : List NetStep} (hrun : NetRun.run ⟨t, true⟩ steps = ⟨t', true⟩) :
    IsRun t' := by
  obtain ⟨store, heap, before, hbefore⟩ := h
  refine ⟨store, heap, before ++ steps, ?_⟩
  change List.foldl NetRun.step _ (before ++ steps) = _
  rw [List.foldl_append]
  change NetRun.run (netRun store heap before) steps = _
  rw [hbefore, hrun]

/-- Other connections change the store and use the allocator. -/
theorem elsewhere (h : IsRun t) {store : Hashtable} {heap : Heap}
    (hmono : t.heap.failed = true → heap.failed = true) :
    IsRun { t with store := store, heap := heap } := by
  refine @run t _ h [.elsewhere store heap] ?_
  have hfailed : (t.heap.failed || heap.failed) = heap.failed := by
    cases hf : t.heap.failed with
    | false => rfl
    | true => rw [hmono hf, Bool.true_or]
  change (⟨{ t with store := store, heap := { heap with failed := t.heap.failed || heap.failed } },
    true⟩ : NetRun) = _
  rw [hfailed]

end IsRun

theorem NetRun.run_failed {r : NetRun} (hr : r.Inv) (steps : List NetStep)
    (hf : r.state.heap.failed = true) : (r.run steps).state.heap.failed = true := by
  have hrun : (r.run steps).Inv ∧ (r.run steps).state.heap.failed = true := by
    refine List.foldlRecOn
      (motive := fun r : NetRun => r.Inv ∧ r.state.heap.failed = true) steps NetRun.step ⟨hr, hf⟩ ?_
    rintro r ⟨hr, hf⟩ st -
    refine ⟨hr.step st, ?_⟩
    by_contra hnot
    rw [NetRun.failed_mono hr st (Bool.eq_false_of_not_eq_true hnot)] at hf
    cases hf
  exact hrun.2

/-- An event of a client socket is a piece of the run of the connection. -/
theorem IsRun.dispatch {t : NetState} (h : IsRun t) (ev : UInt32) (reads : List ReadResult)
    (ctlRead : Bool) (writes : List WriteResult) (ctlWrite : Bool) :
    ((netDispatch ev reads ctlRead writes ctlWrite t).isOpen = true →
        IsRun (netDispatch ev reads ctlRead writes ctlWrite t).state) ∧
      (t.heap.failed = true →
        (netDispatch ev reads ctlRead writes ctlWrite t).state.heap.failed = true) := by
  rw [netDispatch_eq_run]
  refine ⟨fun hopen => ?_, NetRun.run_failed h.inv _⟩
  refine @IsRun.run t _ h (wakeupSteps ev reads ctlRead writes ctlWrite) ?_
  generalize NetRun.run ⟨t, true⟩ (wakeupSteps ev reads ctlRead writes ctlWrite) = r at hopen ⊢
  obtain ⟨t', o⟩ := r
  cases hopen
  rfl

/-! ## The list of connections -/

namespace Server

variable {s s' : Server} {others : Finset Fd} {lfd efd : Fd} {ps : List Ptr} {p : Ptr} {c : Client}

/-- **The list of connections against the kernel.** -/
structure Owns (others : Finset Fd) (lfd efd : Fd) (s : Server) (ps : List Ptr) : Prop where
  /-- `g_listen_fd` -/
  listen_eq : s.listenFd = some lfd
  /-- `g_epoll_fd` -/
  epoll_eq : s.epollFd = some efd
  /-- the list -/
  chain : s.conns.Holds ps
  /-- there are no other connections in memory -/
  nodes : ∀ p c, s.conns.data p = some c → p ∈ ps
  /-- the descriptors are in order -/
  tidy : s.kernel.Tidy others
  /-- the listener is registered, with `NULL` -/
  listener : (s.kernel.epoll.lookup lfd).map Interest.ptr = some none
  /-- the epoll descriptor is open, and not registered with itself -/
  epoll_open : efd ∈ s.kernel.opened \ others ∧ efd ∉ s.kernel.epoll
  /-- the socket of a connection is registered, with its address -/
  registered : ∀ p c, s.conns.data p = some c →
    (s.kernel.epoll.lookup c.fd).map Interest.ptr = some (some p)
  /-- nothing else is open -/
  owner : ∀ fd ∈ s.kernel.opened \ others,
    fd = lfd ∨ fd = efd ∨ ∃ p c, s.conns.data p = some c ∧ c.fd = fd

/-- What the handlers see of a connection is a run of it so far. -/
def Alive (s : Server) (p : Ptr) : Prop := ∀ c, s.conns.data p = some c → IsRun (s.view c)

/-- A connection is alive as long as the others do not touch it. -/
theorem Alive.elsewhere (ha : s.Alive p) (hdata : s'.conns.data p = s.conns.data p)
    (hmask : ∀ c, s.conns.data p = some c → s'.kernel.mask c.fd = s.kernel.mask c.fd)
    (hheap : s.heap.failed = true → s'.heap.failed = true) : s'.Alive p := by
  intro c hc
  rw [hdata] at hc
  have hlife := @IsRun.elsewhere _ (ha c hc) s'.store s'.heap hheap
  rw [view, hmask c hc]
  exact hlife

namespace Owns

theorem data_of_mem (h : s.Owns others lfd efd ps) (hp : p ∈ ps) :
    ∃ c, s.conns.data p = some c := by
  obtain ⟨n, hn⟩ := IsList.lookup_of_mem h.chain hp
  exact ⟨n.data, by rw [Chain.data, hn]; rfl⟩

theorem mem_epoll (h : s.Owns others lfd efd ps) (hc : s.conns.data p = some c) :
    c.fd ∈ s.kernel.epoll := by
  obtain ⟨i, hi, -⟩ := Option.map_eq_some_iff.mp (h.registered p c hc)
  exact Finmap.mem_iff.mpr ⟨i, hi⟩

/-- Two connections have two sockets. -/
theorem fd_injective (h : s.Owns others lfd efd ps) {q : Ptr} {d : Client}
    (hc : s.conns.data p = some c) (hd : s.conns.data q = some d) (hfd : c.fd = d.fd) : p = q := by
  have hp := h.registered p c hc
  rw [hfd, h.registered q d hd] at hp
  cases hp
  rfl

theorem fd_ne_listener (h : s.Owns others lfd efd ps) (hc : s.conns.data p = some c) :
    c.fd ≠ lfd := by
  intro heq
  have hp := h.registered p c hc
  rw [heq, h.listener] at hp
  cases hp

/-- What is registered is the listener or a connection. -/
theorem of_registered (h : s.Owns others lfd efd ps) {fd : Fd} (hfd : fd ∈ s.kernel.epoll) :
    fd = lfd ∨ ∃ p c, s.conns.data p = some c ∧ c.fd = fd := by
  rcases h.owner fd (h.tidy.own fd hfd) with rfl | rfl | hconn
  · exact Or.inl rfl
  · exact absurd hfd h.epoll_open.2
  · exact Or.inr hconn

/-- An address that epoll hands out is the one of the connection. -/
theorem of_ptr (h : s.Owns others lfd efd ps) {fd : Fd} {i : Interest}
    (hi : s.kernel.epoll.lookup fd = some i) (hp : i.ptr = some p) :
    ∃ c, s.conns.data p = some c ∧ c.fd = fd := by
  rcases h.of_registered (Finmap.mem_iff.mpr ⟨i, hi⟩) with rfl | ⟨q, d, hd, rfl⟩
  · have hl := h.listener
    rw [hi, Option.map_some, hp] at hl
    cases hl
  · have hq := h.registered q d hd
    rw [hi, Option.map_some, hp] at hq
    cases hq
    exact ⟨d, hd, rfl⟩

/-- The descriptors of others, and what is not the list's, do not matter. -/
theorem congr (h : s.Owns others lfd efd ps) (hlisten : s'.listenFd = s.listenFd)
    (hepoll : s'.epollFd = s.epollFd) (hchain : s'.conns.Holds ps)
    (hdata : ∀ p, s'.conns.data p = s.conns.data p) (htidy : s'.kernel.Tidy others)
    (hopened : s'.kernel.opened = s.kernel.opened) (hset : s'.kernel.epoll = s.kernel.epoll) :
    s'.Owns others lfd efd ps where
  listen_eq := hlisten.trans h.listen_eq
  epoll_eq := hepoll.trans h.epoll_eq
  chain := hchain
  nodes p c hc := h.nodes p c (hdata p ▸ hc)
  tidy := htidy
  listener := by rw [hset]; exact h.listener
  epoll_open := by rw [hopened, hset]; exact h.epoll_open
  registered p c hc := by
    rw [hset]
    exact h.registered p c (hdata p ▸ hc)
  owner fd hfd := by
    rw [hopened] at hfd
    simp only [hdata]
    exact h.owner fd hfd

end Owns

theorem owns_netInit (store : Hashtable) (heap : Heap) (others : Finset Fd)
    (listen epoll : Fresh) :
    (netInit store heap others listen epoll).Owns others (listen.pick others)
      (epoll.pick (insert (listen.pick others) others)) [] := by
  have hlfd := listen.fresh others
  have hefd := epoll.fresh (insert (listen.pick others) others)
  generalize hl : listen.pick others = l at hlfd hefd
  generalize he : epoll.pick (insert l others) = e at hefd
  have hne : e ≠ l := fun heq => hefd (heq ▸ Finset.mem_insert_self l others)
  have hout : e ∉ others := fun h => hefd (Finset.mem_insert_of_mem h)
  -- before anything is open
  have hnone : (⟨others, ∅, []⟩ : Kernel).Tidy others := by
    refine ⟨Finset.Subset.refl _, fun x hx => absurd hx Finmap.notMem_empty, fun x => ?_⟩
    exact ⟨[], .none, by simp [Kernel.history, Kernel.current, Finmap.notMem_empty]⟩
  have hopen : ((⟨others, ∅, []⟩ : Kernel).openFd l).Tidy others := hnone.openFd hlfd
  have hboth : (((⟨others, ∅, []⟩ : Kernel).openFd l).openFd e).Tidy others := hopen.openFd hefd
  have hlopen : l ∈ (((⟨others, ∅, []⟩ : Kernel).openFd l).openFd e).opened \ others := by
    refine Finset.mem_sdiff.mpr ⟨?_, hlfd⟩
    exact Finset.mem_insert_of_mem (Finset.mem_insert_self l others)
  simp only [netInit, hl, he]
  refine ⟨rfl, rfl, Chain.holds_empty, ?_, hboth.add hlopen Finmap.notMem_empty _, ?_, ?_, ?_, ?_⟩
  · intro p c hc
    cases hc
  · simp [Kernel.add, Finmap.lookup_insert]
  · refine ⟨Finset.mem_sdiff.mpr ⟨Finset.mem_insert_self e _, hout⟩, fun hmem => ?_⟩
    rcases Finmap.mem_insert.mp hmem with heq | hin
    · exact hne heq
    · exact Finmap.notMem_empty hin
  · intro p c hc
    cases hc
  · intro fd hfd
    obtain ⟨hin, hnot⟩ := Finset.mem_sdiff.mp hfd
    rcases Finset.mem_insert.mp hin with rfl | hin
    · exact Or.inr (Or.inl rfl)
    · rcases Finset.mem_insert.mp hin with rfl | hin
      · exact Or.inl rfl
      · exact absurd hin hnot

/-! ## Accepting -/

/-- **The server is in order**: its list, and every connection in it. -/
structure Sound (others : Finset Fd) (lfd efd : Fd) (s : Server) : Prop where
  /-- the list is in order -/
  owns : ∃ ps, s.Owns others lfd efd ps
  /-- every connection is alive -/
  alive : ∀ p, s.Alive p

/-- The server is in order afterwards, and has got all its connections still. -/
structure Keeps (others : Finset Fd) (lfd efd : Fd) (s s' : Server) : Prop
    extends Sound others lfd efd s' where
  /-- the connections there were stay -/
  stays : ∀ p c, s.conns.data p = some c → s'.conns.data p = some c

namespace Keeps

theorem refl (hs : s.Sound others lfd efd) : s.Keeps others lfd efd s :=
  ⟨hs, fun _ _ => id⟩

theorem trans {s₁ s₂ : Server} (h : s.Keeps others lfd efd s₁) (h' : s₁.Keeps others lfd efd s₂) :
    s.Keeps others lfd efd s₂ :=
  ⟨h'.toSound, fun p c hc => h'.stays p c (h.stays p c hc)⟩

end Keeps

/-- A client that is refused leaves nothing behind but the descriptor's history. -/
theorem keeps_refused (h : s.Owns others lfd efd ps) (ha : ∀ p, s.Alive p) {cfd : Fd}
    (hcfd : cfd ∉ s.kernel.opened) {heap : Heap}
    (hheap : s.heap.failed = true → heap.failed = true) {conns : Chain Ptr Client}
    (hchain : conns.Holds ps) (hdata : ∀ p, conns.data p = s.conns.data p) :
    s.Keeps others lfd efd
      { s with kernel := (s.kernel.openFd cfd).close cfd, heap := heap, conns := conns } := by
  obtain ⟨hopened, hset⟩ := Kernel.close_openFd h.tidy hcfd
  have hown := h.tidy.mem_openFd hcfd
  have hmask : ∀ x, ((s.kernel.openFd cfd).close cfd).mask x = s.kernel.mask x := by
    intro x
    rw [Kernel.mask, hset, Kernel.mask]
  have htidy := (h.tidy.openFd hcfd).close hown
  refine ⟨⟨⟨ps, h.congr rfl rfl hchain hdata htidy hopened hset⟩, fun p => ?_⟩,
    fun p c hc => (hdata p).trans hc⟩
  exact (ha p).elsewhere (hdata p) (fun c _ => hmask c.fd) hheap

/-- The server after a client has been accepted. -/
def enlisted (s : Server) (cfd : Fd) (c : Ptr) (heap : Heap) : Server :=
  { s with
    kernel := (s.kernel.openFd cfd).add cfd ⟨EPOLLIN, some c⟩
    heap := heap
    conns := (s.conns.push c (newClient cfd 0)).update c (newClient cfd EPOLLIN) }

theorem data_enlisted (s : Server) (cfd : Fd) (c : Ptr) (heap : Heap) (q : Ptr) :
    (s.enlisted cfd c heap).conns.data q =
      if q = c then some (newClient cfd EPOLLIN) else s.conns.data q := by
  rw [enlisted, Chain.data_update (by rw [Chain.data_push, if_pos rfl]; simp), Chain.data_push]
  split <;> rfl

theorem lookup_enlisted (s : Server) (cfd : Fd) (c : Ptr) (heap : Heap) (x : Fd) :
    (s.enlisted cfd c heap).kernel.epoll.lookup x =
      if x = cfd then some ⟨EPOLLIN, some c⟩ else s.kernel.epoll.lookup x := by
  by_cases hx : x = cfd
  · rw [if_pos hx, hx]
    exact Finmap.lookup_insert _
  · rw [if_neg hx]
    exact Finmap.lookup_insert_of_ne _ hx

/-- A client that is accepted is the first connection of the list. -/
theorem Owns.enlisted (h : s.Owns others lfd efd ps) {cfd : Fd} (hcfd : cfd ∉ s.kernel.opened)
    (heap : Heap) {c : Ptr} (hc : s.conns.mem.lookup c = none) :
    (s.enlisted cfd c heap).Owns others lfd efd (c :: ps) := by
  have hold : s.conns.data c = none := by rw [Chain.data, hc]; rfl
  have hown := h.tidy.mem_openFd hcfd
  have hfree := h.tidy.not_registered hcfd
  have hne : ∀ {x}, x ∈ s.kernel.epoll → x ≠ cfd := fun hx heq => hfree (heq ▸ hx)
  have hdata := data_enlisted s cfd c heap
  have hset := lookup_enlisted s cfd c heap
  -- a connection is the new one, or was there before
  have hsome : ∀ {q d}, (s.enlisted cfd c heap).conns.data q = some d →
      (q = c ∧ newClient cfd EPOLLIN = d) ∨ s.conns.data q = some d := by
    intro q d hd
    rw [hdata] at hd
    split at hd
    · next heq => exact Or.inl ⟨heq, Option.some.inj hd⟩
    · exact Or.inr hd
  refine ⟨h.listen_eq, h.epoll_eq, (h.chain.push hc _).update _ _, ?_,
    (h.tidy.openFd hcfd).add hown hfree _, ?_, ?_, ?_, ?_⟩
  · intro q d hd
    rcases hsome hd with ⟨rfl, -⟩ | hd
    · exact List.mem_cons_self ..
    · exact List.mem_cons_of_mem _ (h.nodes q d hd)
  · obtain ⟨i, hi, hptr⟩ := Option.map_eq_some_iff.mp h.listener
    rw [hset, if_neg (hne (Finmap.mem_iff.mpr ⟨i, hi⟩))]
    exact h.listener
  · obtain ⟨hin, hnot⟩ := h.epoll_open
    have hefd := Finset.mem_sdiff.mp hin
    refine ⟨Finset.mem_sdiff.mpr ⟨Finset.mem_insert_of_mem hefd.1, hefd.2⟩, fun hmem => ?_⟩
    rcases Finmap.mem_insert.mp hmem with rfl | hmem
    · exact hcfd hefd.1
    · exact hnot hmem
  · intro q d hd
    rcases hsome hd with ⟨rfl, rfl⟩ | hd
    · rw [hset]
      simp [newClient]
    · rw [hset, if_neg (hne (h.mem_epoll hd))]
      exact h.registered q d hd
  · intro fd hfd
    obtain ⟨hin, hnot⟩ := Finset.mem_sdiff.mp hfd
    rcases Finset.mem_insert.mp hin with rfl | hin
    · exact Or.inr (Or.inr ⟨c, newClient fd EPOLLIN, by rw [hdata, if_pos rfl], rfl⟩)
    · rcases h.owner fd (Finset.mem_sdiff.mpr ⟨hin, hnot⟩) with rfl | rfl | ⟨q, d, hd, hfd⟩
      · exact Or.inl rfl
      · exact Or.inr (Or.inl rfl)
      · refine Or.inr (Or.inr ⟨q, d, ?_, hfd⟩)
        have hqc : q ≠ c := by
          rintro rfl
          rw [hold] at hd
          cases hd
        rw [hdata, if_neg hqc]
        exact hd

theorem keeps_enlisted (h : s.Owns others lfd efd ps) (ha : ∀ p, s.Alive p) {cfd : Fd}
    (hcfd : cfd ∉ s.kernel.opened) {heap : Heap}
    (hheap : s.heap.failed = true → heap.failed = true) {c : Ptr}
    (hc : s.conns.mem.lookup c = none) :
    s.Keeps others lfd efd (s.enlisted cfd c heap) := by
  have hold : s.conns.data c = none := by rw [Chain.data, hc]; rfl
  have hdata := data_enlisted s cfd c heap
  have hset := lookup_enlisted s cfd c heap
  have hstays : ∀ q d, s.conns.data q = some d →
      (s.enlisted cfd c heap).conns.data q = s.conns.data q := by
    intro q d hd
    refine (hdata q).trans (if_neg ?_)
    rintro rfl
    rw [hold] at hd
    cases hd
  refine ⟨⟨⟨c :: ps, h.enlisted hcfd heap hc⟩, fun q => ?_⟩,
    fun q d hd => (hstays q d hd).trans hd⟩
  by_cases hqc : q = c
  · -- the new connection
    intro d hd
    rw [hdata, if_pos hqc] at hd
    cases hd
    rw [view, Kernel.mask, hset]
    simp only [newClient, if_true]
    exact isRun_accepted s.store heap
  · refine (ha q).elsewhere ((hdata q).trans (if_neg hqc)) (fun d hd => ?_) hheap
    have hne : d.fd ≠ cfd := fun heq => h.tidy.not_registered hcfd (heq ▸ h.mem_epoll hd)
    rw [Kernel.mask, hset, if_neg hne, Kernel.mask]

theorem acceptClient_keeps (hs : s.Sound others lfd efd) (fd : Fresh) (nonblock : Bool)
    (addr : Fresh) (ctl : Bool) :
    ∃ s', s.acceptClient fd nonblock addr ctl = some s' ∧ s.Keeps others lfd efd s' := by
  obtain ⟨⟨ps, h⟩, ha⟩ := hs
  have hcfd := fd.fresh s.kernel.opened
  have haddr : s.conns.mem.lookup (addr.pick s.conns.mem.keys) = none := by
    rw [Finmap.lookup_eq_none, ← Finmap.mem_keys]
    exact addr.fresh _
  simp only [acceptClient]
  generalize fd.pick s.kernel.opened = cfd at hcfd ⊢
  generalize addr.pick s.conns.mem.keys = c at haddr ⊢
  cases nonblock with
  | false => exact ⟨_, rfl, keeps_refused h ha hcfd id h.chain fun _ => rfl⟩
  | true =>
    have hheap : s.heap.failed = true → (s.heap.malloc SIZEOF_CONN).2.failed = true := by
      cases hm : (s.heap.malloc SIZEOF_CONN).1 with
      | false => exact fun _ => Heap.malloc_refused hm
      | true =>
        rw [(Heap.malloc_granted hm).1]
        exact id
    simp only [Bool.not_true, Bool.false_eq_true, if_false]
    split
    · exact ⟨_, rfl, keeps_refused h ha hcfd hheap h.chain fun _ => rfl⟩
    · cases ctl with
      | true => exact ⟨_, rfl, keeps_enlisted h ha hcfd hheap haddr⟩
      | false =>
        obtain ⟨-, conns, hpop, hchain, hdata⟩ := (h.chain.push haddr (newClient cfd 0)).pop
        simp only [hpop, Bool.false_eq_true, if_false, Option.map_some]
        refine ⟨_, rfl, keeps_refused h ha hcfd hheap hchain fun q => ?_⟩
        rw [hdata, Chain.data_push]
        by_cases hq : q = c
        · rw [if_pos hq, hq, Chain.data, haddr]
          rfl
        · rw [if_neg hq, if_neg hq]

theorem acceptClients_keeps (results : List AcceptResult) (hs : s.Sound others lfd efd) :
    ∃ s', s.acceptClients results = some s' ∧ s.Keeps others lfd efd s' := by
  induction results generalizing s with
  | nil => exact ⟨s, rfl, .refl hs⟩
  | cons r rest ih =>
    cases r with
    | client fd nonblock addr ctl =>
      obtain ⟨s₁, hs₁, hkeeps⟩ := acceptClient_keeps hs fd nonblock addr ctl
      obtain ⟨s', hs', hkeeps'⟩ := ih hkeeps.toSound
      refine ⟨s', ?_, hkeeps.trans hkeeps'⟩
      rw [acceptClients, hs₁]
      exact hs'
    | eagain => exact ⟨s, rfl, .refl hs⟩
    | eintr => exact ih hs
    | error => exact ⟨s, rfl, .refl hs⟩

/-! ## Closing -/

/-- `EPOLL_CTL_DEL` or not, the descriptor is closed. -/
theorem dropFd_eq (s : Server) (fd : Fd) :
    s.dropFd fd = { s with kernel := s.kernel.close fd } := by
  rw [dropFd]
  split
  · rw [closeFd, Kernel.close_del]
  · rfl

/-- The others stay when a connection has left the list, and its socket is closed. -/
theorem Owns.closed (h : s.Owns others lfd efd ps) (hc : s.conns.data p = some c)
    {conns : Chain Ptr Client} (hchain : conns.Holds (ps.erase p))
    (hdata : ∀ q, conns.data q = if q = p then none else s.conns.data q) :
    { s with kernel := s.kernel.close c.fd, conns := conns }.Owns others lfd efd
      (ps.erase p) := by
  have hset : ∀ x, x ≠ c.fd →
      (s.kernel.close c.fd).epoll.lookup x = s.kernel.epoll.lookup x :=
    fun x hx => Finmap.lookup_erase_ne hx
  have hsome : ∀ {q d}, conns.data q = some d → q ≠ p ∧ s.conns.data q = some d := by
    intro q d hd
    rw [hdata, Option.ite_none_left_eq_some] at hd
    exact hd
  have hin := h.mem_epoll hc
  have hne : c.fd ≠ efd := fun heq => h.epoll_open.2 (heq ▸ hin)
  refine ⟨h.listen_eq, h.epoll_eq, hchain, ?_, h.tidy.close (h.tidy.own _ hin), ?_, ?_, ?_, ?_⟩
  · intro q d hd
    obtain ⟨hqp, hd⟩ := hsome hd
    exact (List.mem_erase_of_ne hqp).mpr (h.nodes q d hd)
  · rw [hset lfd (h.fd_ne_listener hc).symm]
    exact h.listener
  · obtain ⟨hopen, hplain⟩ := h.epoll_open
    have hefd := Finset.mem_sdiff.mp hopen
    refine ⟨Finset.mem_sdiff.mpr ⟨Finset.mem_erase.mpr ⟨hne.symm, hefd.1⟩, hefd.2⟩, ?_⟩
    exact fun hmem => hplain (Finmap.mem_erase.mp hmem).2
  · intro q d hd
    obtain ⟨hqp, hd⟩ := hsome hd
    rw [hset d.fd fun heq => hqp (h.fd_injective hd hc heq)]
    exact h.registered q d hd
  · intro fd hfd
    obtain ⟨hmem, hnot⟩ := Finset.mem_sdiff.mp hfd
    obtain ⟨hfc, hmem⟩ := Finset.mem_erase.mp hmem
    rcases h.owner fd (Finset.mem_sdiff.mpr ⟨hmem, hnot⟩) with rfl | rfl | ⟨q, d, hd, rfl⟩
    · exact Or.inl rfl
    · exact Or.inr (Or.inl rfl)
    · refine Or.inr (Or.inr ⟨q, d, ?_, rfl⟩)
      have hqp : q ≠ p := by
        rintro rfl
        rw [hc] at hd
        cases hd
        exact hfc rfl
      rw [hdata, if_neg hqp]
      exact hd

/-- **`close_conn`** takes a connection out of the list and leaves the others alone. -/
theorem closeConn_eq (h : s.Owns others lfd efd ps) (hc : s.conns.data p = some c) :
    ∃ conns : Chain Ptr Client,
      s.closeConn p = some { s with kernel := s.kernel.close c.fd, conns := conns } ∧
      conns.Holds (ps.erase p) ∧
      ∀ q, conns.data q = if q = p then none else s.conns.data q := by
  have hp : p ∈ ps := h.nodes p c hc
  obtain ⟨conns, hunlink, hchain, hdata⟩ := h.chain.unlink hp
  have hout : p ∉ ps.erase p := List.Nodup.not_mem_erase (IsList.nodup h.chain)
  refine ⟨conns.free p, ?_, hchain.free hout, fun q => ?_⟩
  · simp only [closeConn, hc, dropFd_eq, hunlink, Option.bind_eq_bind, Option.bind_some]
  · rw [Chain.data_free, hdata]

/-- What the end of an event leaves of the other connections. -/
theorem closeConn_keeps (h : s.Owns others lfd efd ps) (hc : s.conns.data p = some c)
    (ha : ∀ q, q ≠ p → s.Alive q) :
    ∃ s', s.closeConn p = some s' ∧ s'.Sound others lfd efd ∧
      ∀ q, q ≠ p → s'.conns.data q = s.conns.data q := by
  obtain ⟨conns, hclose, hchain, hdata⟩ := closeConn_eq h hc
  refine ⟨_, hclose, ⟨⟨_, h.closed hc hchain hdata⟩, fun q => ?_⟩, fun q hq => ?_⟩
  · by_cases hq : q = p
    · intro d hd
      change conns.data q = some d at hd
      rw [hdata, if_pos hq] at hd
      cases hd
    · refine (ha q hq).elsewhere ((hdata q).trans (if_neg hq)) (fun d hd => ?_) id
      have hne : d.fd ≠ c.fd := fun heq => hq (h.fd_injective hd hc heq)
      simp only [Kernel.mask, Kernel.close]
      rw [Finmap.lookup_erase_ne hne]
  · exact (hdata q).trans (if_neg hq)

/-! ## The events of a batch -/

/-- The handlers of a connection leave the list as it is, and the others alone. -/
theorem putBack_owns (h : s.Owns others lfd efd ps) (hc : s.conns.data p = some c)
    (t : NetState) :
    (s.putBack p c.fd t).Owns others lfd efd ps ∧
      ∀ q, (s.putBack p c.fd t).conns.data q =
        if q = p then some ⟨c.fd, t.conn, t.trace⟩ else s.conns.data q := by
  have hdata : ∀ q, (s.putBack p c.fd t).conns.data q =
      if q = p then some ⟨c.fd, t.conn, t.trace⟩ else s.conns.data q :=
    fun q => Chain.data_update (by rw [hc]; simp) q
  -- every connection was there before, with the same socket
  have hsome : ∀ {q d}, (s.putBack p c.fd t).conns.data q = some d →
      ∃ b, s.conns.data q = some b ∧ b.fd = d.fd := by
    intro q d hd
    rw [hdata] at hd
    split at hd
    · next heq =>
      cases hd
      exact ⟨c, heq ▸ hc, rfl⟩
    · exact ⟨d, hd, rfl⟩
  have hptr : ∀ x, ((s.putBack p c.fd t).kernel.epoll.lookup x).map Interest.ptr =
      (s.kernel.epoll.lookup x).map Interest.ptr := Kernel.lookup_modify_ptr c.fd t.mask
  have hopened : (s.putBack p c.fd t).kernel.opened = s.kernel.opened := (Kernel.modify_same _).1
  refine ⟨⟨h.listen_eq, h.epoll_eq, h.chain.update _ _, ?_, h.tidy.modify _ _, ?_, ?_, ?_, ?_⟩,
    hdata⟩
  · intro q d hd
    obtain ⟨b, hb, -⟩ := hsome hd
    exact h.nodes q b hb
  · rw [hptr]
    exact h.listener
  · rw [hopened]
    exact ⟨h.epoll_open.1, fun hmem => h.epoll_open.2 ((Kernel.mem_modify _ _).mp hmem)⟩
  · intro q d hd
    obtain ⟨b, hb, hfd⟩ := hsome hd
    rw [hptr, ← hfd]
    exact h.registered q b hb
  · intro fd hfd
    rw [hopened] at hfd
    rcases h.owner fd hfd with rfl | rfl | ⟨q, d, hd, rfl⟩
    · exact Or.inl rfl
    · exact Or.inr (Or.inl rfl)
    · refine Or.inr (Or.inr ?_)
      by_cases hqp : q = p
      · rw [hqp, hc] at hd
        cases hd
        exact ⟨p, _, (hdata p).trans (if_pos rfl), rfl⟩
      · exact ⟨q, d, ((hdata q).trans (if_neg hqp)).trans hd, rfl⟩

/-- An event of a client socket concerns no other connection. -/
theorem clientEvent_keeps (hs : s.Sound others lfd efd) (hc : s.conns.data p = some c)
    (e : EpollEvent) :
    ∃ s', s.clientEvent p e = some s' ∧ s'.Sound others lfd efd ∧
      ∀ q, q ≠ p → s'.conns.data q = s.conns.data q := by
  obtain ⟨⟨ps, h⟩, ha⟩ := hs
  obtain ⟨hrun, hfailed⟩ := (ha p c hc).dispatch e.events e.ready.reads e.ready.ctlRead
    e.ready.writes e.ready.ctlWrite
  simp only [clientEvent, hc, Option.bind_eq_bind, Option.bind_some]
  generalize netDispatch e.events e.ready.reads e.ready.ctlRead e.ready.writes e.ready.ctlWrite
    (s.view c) = r at hrun hfailed ⊢
  obtain ⟨howns, hdata⟩ := putBack_owns h hc r.state
  have hmask := Kernel.mask_modify (h.mem_epoll hc) r.state.mask
  have hothers : ∀ q, q ≠ p → (s.putBack p c.fd r.state).Alive q := by
    intro q hq
    refine (ha q).elsewhere ((hdata q).trans (if_neg hq)) (fun d hd => ?_) hfailed
    exact (hmask d.fd).trans (if_neg fun heq => hq (h.fd_injective hd hc heq))
  cases hopen : r.isOpen with
  | true =>
    refine ⟨_, rfl, ⟨⟨ps, howns⟩, fun q => ?_⟩, fun q hq => (hdata q).trans (if_neg hq)⟩
    by_cases hq : q = p
    · intro d hd
      rw [hdata, if_pos hq] at hd
      cases hd
      have hview : (s.putBack p c.fd r.state).view ⟨c.fd, r.state.conn, r.state.trace⟩ =
          r.state := by
        rw [view]
        simp only [putBack]
        rw [hmask, if_pos rfl]
      rw [hview]
      exact hrun hopen
    · exact hothers q hq
  | false =>
    obtain ⟨s', hclose, hsound, hsame⟩ :=
      closeConn_keeps howns ((hdata p).trans (if_pos rfl)) hothers
    refine ⟨s', hclose, hsound, fun q hq => ?_⟩
    rw [hsame q hq, hdata, if_neg hq]

/-- The events that are still to be handled, each for the connection it was reported
for. -/
structure Pending (s : Server) (es : List EpollEvent) : Prop where
  /-- no descriptor twice -/
  nodup : (es.map fun e => e.ready.fd).Nodup
  /-- the connection is still there -/
  there : ∀ e ∈ es, ∀ p, e.ptr = some p → ∃ c, s.conns.data p = some c ∧ c.fd = e.ready.fd

/-- `epoll_wait` reports connections of the list, each once. -/
theorem Owns.pending (h : s.Owns others lfd efd ps) (ready : ReadyList) :
    s.Pending (s.kernel.wait ready) := by
  have hreport : ∀ {r : Ready} {e : EpollEvent}, s.kernel.report r = some e →
      e.ready = r ∧ ∃ i, s.kernel.epoll.lookup r.fd = some i ∧ e.ptr = i.ptr := by
    intro r e he
    rw [Kernel.report] at he
    cases hi : s.kernel.epoll.lookup r.fd with
    | none => rw [hi] at he; cases he
    | some i =>
      rw [hi] at he
      simp only [Option.ite_none_left_eq_some, Option.some.injEq] at he
      obtain ⟨-, rfl⟩ := he
      exact ⟨rfl, i, rfl, rfl⟩
  constructor
  · have hfds : ((ready.list.filterMap s.kernel.report).map fun e => e.ready.fd).Sublist
        (ready.list.map Ready.fd) := by
      induction ready.list with
      | nil => exact .slnil
      | cons r rest ih =>
        cases he : s.kernel.report r with
        | none =>
          rw [List.filterMap_cons_none he]
          exact ih.cons _
        | some e =>
          rw [List.filterMap_cons_some he, List.map_cons, List.map_cons, (hreport he).1]
          exact ih.cons_cons _
    exact (ready.nodup.sublist hfds).sublist ((List.take_sublist _ _).map _)
  · intro e he p hp
    obtain ⟨r, -, hr⟩ := List.mem_filterMap.mp (List.mem_of_mem_take he)
    obtain ⟨rfl, i, hi, hptr⟩ := hreport hr
    exact h.of_ptr hi (hptr.symm.trans hp)

theorem handleEvents_keeps (es : List EpollEvent) (hs : s.Sound others lfd efd)
    (hes : s.Pending es) : ∃ s', s.handleEvents es = some s' ∧ s'.Sound others lfd efd := by
  induction es generalizing s with
  | nil => exact ⟨s, rfl, hs⟩
  | cons e es ih =>
    obtain ⟨hout, hnodup⟩ := List.nodup_cons.mp hes.nodup
    rw [handleEvents]
    cases hptr : e.ptr with
    | none =>
      dsimp only
      split
      · obtain ⟨⟨ps, h⟩, ha⟩ := hs
        exact ⟨_, rfl, ⟨ps, { h with }⟩, ha⟩
      · obtain ⟨s₁, hs₁, hkeeps⟩ := acceptClients_keeps e.ready.accepts hs
        rw [hs₁]
        refine ih hkeeps.toSound ⟨hnodup, fun e' he' p hp => ?_⟩
        obtain ⟨c, hc, hfd⟩ := hes.there e' (List.mem_cons_of_mem _ he') p hp
        exact ⟨c, hkeeps.stays p c hc, hfd⟩
    | some p =>
      obtain ⟨c, hc, hcfd⟩ := hes.there e (List.mem_cons_self ..) p hptr
      obtain ⟨s₁, hs₁, hsound, hsame⟩ := clientEvent_keeps hs hc e
      dsimp only
      rw [hs₁]
      -- the other events are for other connections
      refine ih hsound ⟨hnodup, fun e' he' q hq => ?_⟩
      obtain ⟨d, hd, hdfd⟩ := hes.there e' (List.mem_cons_of_mem _ he') q hq
      refine ⟨d, ?_, hdfd⟩
      rw [hsame q, hd]
      rintro rfl
      rw [hc] at hd
      cases hd
      exact hout (List.mem_map.mpr ⟨e', he', hdfd.symm.trans hcfd⟩)

/-! ## The loop -/

theorem netLoop_keeps (turns : List Turn) (hs : s.Sound others lfd efd) :
    ∃ s' left, s.netLoop turns = some (s', left) ∧ s'.Sound others lfd efd := by
  induction turns generalizing s with
  | nil => exact ⟨s, false, rfl, hs⟩
  | cons t turns ih =>
    rw [netLoop]
    -- a signal changes nothing but the flag
    have hsignal :
        (if t.signal then { s with shutdown := true } else s).Sound others lfd efd := by
      split
      · obtain ⟨⟨ps, h⟩, ha⟩ := hs
        exact ⟨⟨ps, { h with }⟩, ha⟩
      · exact hs
    generalize (if t.signal then { s with shutdown := true } else s) = s at hsignal ⊢
    split
    · exact ⟨s, true, rfl, hsignal⟩
    · cases t.wait with
      | events ready =>
        obtain ⟨ps, h⟩ := hsignal.owns
        obtain ⟨s₁, hs₁, hsound⟩ := handleEvents_keeps _ hsignal (h.pending ready)
        dsimp only
        rw [hs₁]
        exact ih hsound
      | eintr => exact ih hsignal
      | error => exact ⟨s, true, rfl, hsignal⟩

theorem closeAll_owns (h : s.Owns others lfd efd ps) {fuel : ℕ} (hfuel : ps.length ≤ fuel) :
    ∃ s', s.closeAll fuel = some s' ∧ s'.Owns others lfd efd [] := by
  induction ps generalizing s fuel with
  | nil =>
    have hchain := h.chain
    rw [Chain.Holds] at hchain
    generalize hhead : s.conns.head = q at hchain
    cases hchain
    cases fuel with
    | zero => exact ⟨s, by rw [closeAll, if_pos hhead], h⟩
    | succ fuel => exact ⟨s, by simp only [closeAll, hhead], h⟩
  | cons p ps ih =>
    obtain ⟨c, hc⟩ := h.data_of_mem (List.mem_cons_self ..)
    obtain ⟨hhead, conns, hpop, hchain, hdata⟩ := h.chain.pop
    have herase : (p :: ps).erase p = ps := List.erase_cons_head ..
    have h₁ := h.closed hc (herase.symm ▸ hchain) hdata
    rw [herase] at h₁
    cases fuel with
    | zero => cases hfuel
    | succ fuel =>
      obtain ⟨s', hs', howns⟩ := ih h₁ (Nat.le_of_succ_le_succ hfuel)
      refine ⟨s', ?_, howns⟩
      simp only [closeAll, hhead, hc, dropFd_eq, hpop, Option.bind_eq_bind, Option.bind_some]
      exact hs'

/-- After `net_run` there are no connections, and no descriptor of the server is
open. -/
structure Gone (others : Finset Fd) (s : Server) : Prop where
  /-- the list is empty -/
  empty : s.conns.head = none
  /-- no connection is in memory -/
  freed : ∀ p, s.conns.data p = none
  /-- only others' descriptors are open -/
  opened_eq : s.kernel.opened = others
  /-- every descriptor that was opened has been closed once -/
  closed : ∀ fd, ClosedLives fd (s.kernel.history fd)

theorem teardown_gone (h : s.Owns others lfd efd ps) :
    ∃ s', s.teardown = some s' ∧ s'.Gone others := by
  obtain ⟨s₁, hs₁, h₁⟩ := closeAll_owns h (IsList.length_le_card h.chain)
  have hin : lfd ∈ s₁.kernel.epoll := by
    obtain ⟨i, hi, -⟩ := Option.map_eq_some_iff.mp h₁.listener
    exact Finmap.mem_iff.mpr ⟨i, hi⟩
  have hne : lfd ≠ efd := fun heq => h₁.epoll_open.2 (heq ▸ hin)
  have hlfd := Finset.mem_sdiff.mp (h₁.tidy.own lfd hin)
  -- first the epoll descriptor is closed, then the listener
  have htidy : ((s₁.kernel.close efd).close lfd).Tidy others := by
    refine (h₁.tidy.close h₁.epoll_open.1).close (Finset.mem_sdiff.mpr ⟨?_, hlfd.2⟩)
    exact Finset.mem_erase.mpr ⟨hne, hlfd.1⟩
  have hnone : ∀ p, s₁.conns.data p = none := by
    intro p
    refine Option.eq_none_iff_forall_not_mem.mpr fun c hc => ?_
    cases h₁.nodes p c hc
  have hopened : ((s₁.kernel.close efd).close lfd).opened = others := by
    refine Finset.Subset.antisymm (fun fd hfd => ?_) htidy.others_open
    obtain ⟨hnl, hfd⟩ := Finset.mem_erase.mp hfd
    obtain ⟨hne, hfd⟩ := Finset.mem_erase.mp hfd
    by_contra hnot
    rcases h₁.owner fd (Finset.mem_sdiff.mpr ⟨hfd, hnot⟩) with heq | heq | ⟨p, c, hc, -⟩
    · exact hnl heq
    · exact hne heq
    · rw [hnone] at hc
      cases hc
  have hteardown : s.teardown = some { s₁ with
      kernel := (s₁.kernel.close efd).close lfd, epollFd := none, listenFd := none } := by
    simp only [teardown, hs₁, h₁.epoll_eq, h₁.listen_eq, closeFd, Option.bind_eq_bind,
      Option.bind_some]
  refine ⟨_, hteardown, ?_, hnone, hopened, fun fd => ?_⟩
  · have hchain := h₁.chain
    rw [Chain.Holds] at hchain
    change s₁.conns.head = none
    generalize s₁.conns.head = q at hchain ⊢
    cases hchain
    rfl
  · obtain ⟨past, hpast, hhistory⟩ := htidy.lives fd
    have hplain : fd ∉ ((s₁.kernel.close efd).close lfd).epoll := by
      intro hmem
      have hown := Finset.mem_sdiff.mp (htidy.own fd hmem)
      rw [hopened] at hown
      exact hown.2 hown.1
    rw [Kernel.current, if_neg hplain, hopened, Finset.sdiff_self,
      if_neg (Finset.notMem_empty fd), List.append_nil] at hhistory
    change ClosedLives fd (Kernel.history _ fd)
    rw [hhistory]
    exact hpast

/-! ## Ownership -/

/-- The sockets of a list of connections. -/
def sockets (s : Server) (ps : List Ptr) : List Fd :=
  ps.filterMap fun p => (s.conns.data p).map Client.fd

/-- **The connections are those of the list**, and any of them can be closed. -/
structure Listed (s : Server) (ps : List Ptr) : Prop where
  /-- the list -/
  chain : s.conns.Holds ps
  /-- it is all there is in memory -/
  memory : ∀ p, s.conns.data p ≠ none ↔ p ∈ ps
  /-- no socket is in it twice -/
  nodup : (s.sockets ps).Nodup
  /-- the sockets that were registered and not closed since then, but for the
  listener -/
  mem_sockets : ∀ fd, fd ∈ s.sockets ps ↔
    (s.kernel.history fd).getLast? = some (.registered fd) ∧ s.listenFd ≠ some fd
  /-- closing a connection leaves the others in the list, and as they are -/
  closes : ∀ p ∈ ps, ∃ s', s.closeConn p = some s' ∧ s'.conns.Holds (ps.erase p) ∧
    ∀ q, s'.conns.data q = if q = p then none else s.conns.data q

theorem Owns.memory (h : s.Owns others lfd efd ps) (p : Ptr) :
    s.conns.data p ≠ none ↔ p ∈ ps := by
  rw [Option.ne_none_iff_exists']
  exact ⟨fun ⟨c, hc⟩ => h.nodes p c hc, h.data_of_mem⟩

theorem mem_sockets_iff {fd : Fd} :
    fd ∈ s.sockets ps ↔ ∃ p ∈ ps, ∃ c, s.conns.data p = some c ∧ c.fd = fd := by
  simp [sockets, List.mem_filterMap]

theorem Owns.listed (h : s.Owns others lfd efd ps) : s.Listed ps where
  chain := h.chain
  memory := h.memory
  nodup := by
    refine List.Nodup.filterMap (fun p q fd hp hq => ?_) (IsList.nodup h.chain)
    obtain ⟨c, hc, rfl⟩ := Option.map_eq_some_iff.mp hp
    obtain ⟨d, hd, heq⟩ := Option.map_eq_some_iff.mp hq
    exact h.fd_injective hc hd heq.symm
  mem_sockets fd := by
    rw [mem_sockets_iff, h.tidy.registered_iff, h.listen_eq]
    constructor
    · rintro ⟨p, -, c, hc, rfl⟩
      refine ⟨h.mem_epoll hc, fun heq => ?_⟩
      cases heq
      exact h.fd_ne_listener hc rfl
    · rintro ⟨hin, hne⟩
      rcases h.of_registered hin with rfl | ⟨p, c, hc, hfd⟩
      · exact absurd rfl hne
      · exact ⟨p, h.nodes p c hc, c, hc, hfd⟩
  closes p hp := by
    obtain ⟨c, hc⟩ := h.data_of_mem hp
    obtain ⟨conns, hclose, hchain, hdata⟩ := closeConn_eq h hc
    exact ⟨_, hclose, hchain, hdata⟩

/-- **`net_run` never follows a dangling address**: the server is in order until the
loop is left, and gone afterwards. -/
theorem netRun_sound (store : Hashtable) (heap : Heap) (others : Finset Fd)
    (listen epoll : Fresh) (turns : List Turn) :
    ∃ s left, (netInit store heap others listen epoll).netRun turns = some (s, left) ∧
      (left = false → ∃ lfd efd, s.Sound others lfd efd) ∧
      (left = true → s.Gone others) := by
  have halive : ∀ p, (netInit store heap others listen epoll).Alive p := by
    intro p c hc
    cases hc
  obtain ⟨s, left, hloop, hsound⟩ :=
    netLoop_keeps turns ⟨⟨[], owns_netInit store heap others listen epoll⟩, halive⟩
  rw [netRun, hloop]
  cases left with
  | false => exact ⟨s, false, rfl, fun _ => ⟨_, _, hsound⟩, fun hleft => by cases hleft⟩
  | true =>
    obtain ⟨ps, howns⟩ := hsound.owns
    obtain ⟨s', hteardown, hgone⟩ := teardown_gone howns
    refine ⟨s', true, ?_, (fun hleft => by cases hleft), fun _ => hgone⟩
    simp only [Option.bind_eq_bind, Option.bind_some, if_true, hteardown]

/-- **Ownership of the connections.** Whatever is accepted or fails, whatever the
clients do, and whenever the loop ends: until then the list holds the connections,
each once, and afterwards everything that was opened has been closed once. -/
theorem connection_ownership (store : Hashtable) (heap : Heap) (others : Finset Fd)
    (listen epoll : Fresh) (turns : List Turn) :
    ∃ s left, (netInit store heap others listen epoll).netRun turns = some (s, left) ∧
      (left = false → ∃ ps, s.Listed ps) ∧ (left = true → s.Gone others) := by
  obtain ⟨s, left, hrun, hsound, hgone⟩ := netRun_sound store heap others listen epoll turns
  refine ⟨s, left, hrun, fun hleft => ?_, hgone⟩
  obtain ⟨lfd, efd, ⟨ps, h⟩, -⟩ := hsound hleft
  exact ⟨ps, h.listed⟩

end Server

end RedisInC
