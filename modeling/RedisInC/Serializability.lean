import RedisInC.Record
import RedisInC.Startup

/-!
# The server is the service

Every turn of the event loop, with all its connections, is matched by a run of the
service, whose actions are those on record.

* `Server.Shows` — the server stands for a state of the service: every connection in
  memory is a client that is there, under its number, and no other client is.
* `Server.Recorded` — and the record stands for the actions that have led to it.
* `acceptClients_follows`, `clientEvent_follows`, `handleEvents_follows`,
  `netLoop_follows`, `teardown_follows` — the functions of the event loop.
* `server_refines_service` — from `main` on, whatever the clients, the kernel and the
  allocator do, the server does what the service may do, and nothing that is not on record.
* `Server.Serialized`, `requests_serializable` — hence all requests on record are executed
  in one order, and every client has got the replies to its own, in that order.
-/

namespace RedisInC

open LinkedList Transition Service

/-- A connection in memory as the service sees it. -/
def Client.peer (c : Client) : Peer := peerOf c.conn c.trace false

namespace Server

/-- **The server stands for a state of the service**; `num` are the numbers of the
connections in memory. -/
structure Shows (num : Ptr → ℕ) (s : Server) (v : Service) : Prop where
  /-- the store is the map -/
  map_eq : v.map = s.store.toMap
  /-- the table is in order -/
  store_inv : s.store.Inv
  /-- it holds objects -/
  store_fits : s.store.Fits
  /-- if a request was refused for want of memory, memory has run short -/
  failed : v.starved = true → s.heap.failed = true
  /-- a connection is a client -/
  client : ∀ p c, s.conns.data p = some c → v.peers[num p]? = some c.peer
  /-- two connections are two clients -/
  injective : ∀ p q c d, s.conns.data p = some c → s.conns.data q = some d → num p = num q → p = q
  /-- a client that is there is a connection -/
  there : ∀ n peer, v.peers[n]? = some peer → peer.gone = false →
    ∃ p c, s.conns.data p = some c ∧ num p = n

/-- **The server and the record stand for a run of the service**: it has led to a state
that the server stands for, and its actions and its clients are those on record. -/
structure Recorded (s : Server) (r : Record) (past : List Action) (v : Service) : Prop
    extends s.Shows r.num v where
  /-- there are as many clients as connections have been accepted -/
  count_eq : v.peers.length = r.count
  /-- the actions are on record -/
  enacts : r.Enacts past
  /-- the record is of connections that have been accepted, each under its number -/
  known : r.Known
  /-- it has all that is on the record of a connection in memory -/
  trace_eq : ∀ p c, s.conns.data p = some c → c.trace = r.traceOf (r.num p)

/-- The same of both as a pair. -/
def Stands : Server × Record → List Action → Service → Prop
  | (s, r) => s.Recorded r

variable {s s' : Server} {r : Record} {num : Ptr → ℕ} {v : Service} {others : Finset Fd}
  {lfd efd : Fd} {ps : List Ptr} {p : Ptr} {c : Client}

/-- Nothing the service sees has changed. -/
theorem follows_same (hstore : s'.store = s.store)
    (hheap : s.heap.failed = true → s'.heap.failed = true)
    (hdata : ∀ p, s'.conns.data p = s.conns.data p) :
    Follows system Stands (s, r) (s', r) := by
  refine .silent ?_
  rintro past v ⟨hv, hcount, henacts, hknown, htrace⟩
  refine ⟨⟨hv.map_eq.trans (congrArg Hashtable.toMap hstore.symm), hstore ▸ hv.store_inv,
    hstore ▸ hv.store_fits, fun h => hheap (hv.failed h), ?_, ?_, ?_⟩, hcount, henacts, hknown, ?_⟩
  · intro p c hc
    exact hv.client p c (hdata p ▸ hc)
  · intro p q c d hc hd
    exact hv.injective p q c d (hdata p ▸ hc) (hdata q ▸ hd)
  · intro n peer hpeer hgone
    obtain ⟨p, c, hc, hnum⟩ := hv.there n peer hpeer hgone
    exact ⟨p, c, (hdata p).trans hc, hnum⟩
  · intro p c hc
    exact htrace p c (hdata p ▸ hc)

/-- The number of a connection is that of a client. -/
theorem Shows.num_lt (hv : s.Shows num v) (hc : s.conns.data p = some c) :
    num p < v.peers.length :=
  (List.getElem?_eq_some_iff.mp (hv.client p c hc)).1

/-! ## Accepting -/

/-- A connection in memory is the new one, or it has been there. -/
theorem enlisted_some {cfd : Fd} {heap : Heap} {q : Ptr} {d : Client}
    (hd : (s.enlisted cfd p heap).conns.data q = some d) :
    (q = p ∧ d = newClient cfd EPOLLIN) ∨ (q ≠ p ∧ s.conns.data q = some d) := by
  rw [data_enlisted] at hd
  split at hd
  · next heq => exact Or.inl ⟨heq, (Option.some.inj hd).symm⟩
  · next hne => exact Or.inr ⟨hne, hd⟩

/-- The next number is for the new client. -/
theorem Shows.enlisted {cfd : Fd} {heap : Heap} (hv : s.Shows num v)
    (hheap : s.heap.failed = true → heap.failed = true) (hc : s.conns.data p = none) :
    (s.enlisted cfd p heap).Shows (Function.update num p v.peers.length)
      { v with peers := v.peers ++ [.fresh] } := by
  have hdata := data_enlisted s cfd p heap
  refine ⟨hv.map_eq, hv.store_inv, hv.store_fits, fun h => hheap (hv.failed h), ?_, ?_, ?_⟩
  · intro q d hd
    rcases enlisted_some hd with ⟨rfl, rfl⟩ | ⟨hne, hd⟩
    · rw [Function.update_self, List.getElem?_append_right (Nat.le_refl _), Nat.sub_self]
      rfl
    · rw [Function.update_of_ne hne, List.getElem?_append_left (hv.num_lt hd)]
      exact hv.client q d hd
  · intro q t d e hq ht hnum
    rcases enlisted_some hq with ⟨hqp, -⟩ | ⟨hqp, hd⟩
    · rcases enlisted_some ht with ⟨htp, -⟩ | ⟨htp, he⟩
      · rw [hqp, htp]
      · rw [hqp, Function.update_self, Function.update_of_ne htp] at hnum
        exact absurd hnum (Nat.ne_of_gt (hv.num_lt he))
    · rcases enlisted_some ht with ⟨htp, -⟩ | ⟨htp, he⟩
      · rw [htp, Function.update_self, Function.update_of_ne hqp] at hnum
        exact absurd hnum (Nat.ne_of_lt (hv.num_lt hd))
      · rw [Function.update_of_ne hqp, Function.update_of_ne htp] at hnum
        exact hv.injective q t d e hd he hnum
  · intro n peer hpeer hgone
    by_cases hn : n < v.peers.length
    · rw [List.getElem?_append_left hn] at hpeer
      obtain ⟨q, d, hd, hnum⟩ := hv.there n peer hpeer hgone
      have hq : q ≠ p := by
        rintro rfl
        rw [hc] at hd
        cases hd
      exact ⟨q, d, by rw [hdata, if_neg hq, hd], by rw [Function.update_of_ne hq, hnum]⟩
    · have heq : n = v.peers.length := by
        have hle := (List.getElem?_eq_some_iff.mp hpeer).1
        rw [List.length_append, List.length_singleton] at hle
        omega
      exact ⟨p, newClient cfd EPOLLIN, by rw [hdata, if_pos rfl],
        by rw [Function.update_self, heq]⟩

/-- A client that is accepted is connected. -/
theorem enlisted_follows {cfd : Fd} {heap : Heap}
    (hheap : s.heap.failed = true → heap.failed = true) (hc : s.conns.data p = none) :
    Follows system Stands (s, r) (s.enlisted cfd p heap, r.accept p) := by
  refine .one ?_
  rintro past v ⟨hv, hcount, henacts, hknown, htrace⟩
  have hshows := @Shows.enlisted s _ _ p cfd heap hv hheap hc
  rw [hcount] at hshows
  refine ⟨.connect, _, .connect, hshows, ?_, henacts.accept p, hknown.accept p, ?_⟩
  · rw [List.length_append, hcount]
    rfl
  · intro q d hd
    rw [Record.traceOf_accept]
    rcases enlisted_some hd with ⟨rfl, rfl⟩ | ⟨hne, hd⟩
    · rw [Record.accept_num, Function.update_self, hknown.traceOf_count]
      rfl
    · rw [Record.accept_num, Function.update_of_ne hne]
      exact htrace q d hd

/-- A round of `accept_clients` with a client. -/
theorem acceptClient_follows (hs : s.Sound others lfd efd) {fd : Fresh} {nonblock : Bool}
    {addr : Fresh} {ctl : Bool} (h : s.acceptClient fd nonblock addr ctl = some s') :
    Follows system Stands (s, r) (s', s.recordAccept nonblock addr ctl r) := by
  obtain ⟨⟨ps, hown⟩, -⟩ := hs
  have haddr : s.conns.mem.lookup (addr.pick s.conns.mem.keys) = none := by
    rw [Finmap.lookup_eq_none, ← Finmap.mem_keys]
    exact addr.fresh _
  simp only [acceptClient] at h
  rw [recordAccept]
  generalize fd.pick s.kernel.opened = cfd at h
  generalize addr.pick s.conns.mem.keys = c at haddr h ⊢
  have hnone : s.conns.data c = none := by rw [Chain.data, haddr]; rfl
  cases nonblock with
  | false =>
    cases h
    exact follows_same rfl id fun _ => rfl
  | true =>
    have hheap : s.heap.failed = true → (s.heap.malloc SIZEOF_CONN).2.failed = true := by
      cases hm : (s.heap.malloc SIZEOF_CONN).1 with
      | false => exact fun _ => Heap.malloc_refused hm
      | true =>
        rw [(Heap.malloc_granted hm).1]
        exact id
    simp only [Bool.not_true, Bool.false_eq_true, if_false] at h
    rw [Bool.true_and]
    cases hm : (s.heap.malloc SIZEOF_CONN).1 with
    | false =>
      rw [hm] at h
      cases h
      exact follows_same rfl hheap fun _ => rfl
    | true =>
      rw [hm] at h
      cases ctl with
      | true =>
        cases h
        exact enlisted_follows hheap hnone
      | false =>
        obtain ⟨-, conns, hpop, -, hdata⟩ := (hown.chain.push haddr (newClient cfd 0)).pop
        simp only [hpop, Bool.false_eq_true, if_false, Option.map_some] at h
        cases h
        refine follows_same rfl hheap fun q => ?_
        rw [closeFd, hdata, Chain.data_push]
        by_cases hq : q = c
        · rw [if_pos hq, hq, hnone]
        · rw [if_neg hq, if_neg hq]

theorem acceptClients_follows {results : List AcceptResult} (hs : s.Sound others lfd efd)
    (h : s.acceptClients results = some s') :
    Follows system Stands (s, r) (s', s.recordAccepts results r) := by
  induction results generalizing s r with
  | nil =>
    cases h
    exact .refl _ _ _
  | cons result rest ih =>
    cases result with
    | client fd nonblock addr ctl =>
      obtain ⟨s₁, hs₁, hkeeps⟩ := acceptClient_keeps hs fd nonblock addr ctl
      rw [acceptClients, hs₁] at h
      rw [recordAccepts, hs₁, Option.elim_some]
      exact (acceptClient_follows hs hs₁).trans (ih hkeeps.toSound h)
    | eagain =>
      cases h
      exact .refl _ _ _
    | eintr => exact ih hs h
    | error =>
      cases h
      exact .refl _ _ _

/-! ## Client sockets -/

/-- **What an event of a client socket leaves**: what its handlers leave of the
connection, or no connection. -/
theorem clientEvent_result (h : s.Owns others lfd efd ps) (hc : s.conns.data p = some c)
    (e : EpollEvent) {r : NetRun}
    (hr : netDispatch e.events e.ready.reads e.ready.ctlRead e.ready.writes e.ready.ctlWrite
      (s.view c) = r) :
    ∃ s', s.clientEvent p e = some s' ∧ s'.store = r.state.store ∧ s'.heap = r.state.heap ∧
      ∀ q, s'.conns.data q =
        if q = p then (if r.isOpen then some ⟨c.fd, r.state.conn, r.state.trace⟩ else none)
        else s.conns.data q := by
  obtain ⟨howns, hdata⟩ := putBack_owns h hc r.state
  simp only [clientEvent, hc, hr, Option.bind_eq_bind, Option.bind_some]
  cases r.isOpen with
  | true => exact ⟨_, rfl, rfl, rfl, hdata⟩
  | false =>
    obtain ⟨conns, hclose, -, hgone⟩ := closeConn_eq howns ((hdata p).trans (if_pos rfl))
    refine ⟨_, hclose, rfl, rfl, fun q => ?_⟩
    change conns.data q = _
    rw [hgone]
    by_cases hq : q = p
    · rw [if_pos hq, if_pos hq]
      rfl
    · rw [if_neg hq, if_neg hq, hdata, if_neg hq]

/-- The client of an event is what its handlers leave of it, and the others are as before. -/
theorem Shows.handled (hv : s.Shows num v) (hc : s.conns.data p = some c) {run : NetRun}
    {starved : Bool} (hsettled : Settled run.state starved) (hstore : s'.store = run.state.store)
    (hheap : s'.heap = run.state.heap)
    (hdata : ∀ q, s'.conns.data q =
      if q = p then (if run.isOpen then some ⟨c.fd, run.state.conn, run.state.trace⟩ else none)
      else s.conns.data q) :
    s'.Shows num (run.state.shown v.peers (num p) (!run.isOpen) starved) := by
  have hn := hv.num_lt hc
  have hne : ∀ q d, q ≠ p → s.conns.data q = some d → num q ≠ num p :=
    fun q d hq hd heq => hq (hv.injective q p d c hd hc heq)
  refine ⟨congrArg Hashtable.toMap hstore.symm, hstore ▸ hsettled.store_inv,
    hstore ▸ hsettled.store_fits, fun hst => hheap ▸ hsettled.failed hst, ?_, ?_, ?_⟩
  · intro q d hd
    rw [hdata] at hd
    by_cases hq : q = p
    · subst hq
      rw [if_pos rfl] at hd
      split at hd
      · next hopen =>
        cases hd
        simp only [NetState.shown]
        rw [List.getElem?_set_self hn, hopen]
        rfl
      · cases hd
    · rw [if_neg hq] at hd
      simp only [NetState.shown]
      rw [List.getElem?_set_ne (Ne.symm (hne q d hq hd))]
      exact hv.client q d hd
  · have hsome : ∀ q d, s'.conns.data q = some d → ∃ b, s.conns.data q = some b := by
      intro q d hd
      rw [hdata] at hd
      by_cases hq : q = p
      · exact ⟨c, hq ▸ hc⟩
      · rw [if_neg hq] at hd
        exact ⟨d, hd⟩
    intro q t d b hd hb heq
    obtain ⟨d', hd'⟩ := hsome q d hd
    obtain ⟨b', hb'⟩ := hsome t b hb
    exact hv.injective q t d' b' hd' hb' heq
  · intro n peer hpeer' hgone
    simp only [NetState.shown] at hpeer'
    by_cases hnp : n = num p
    · rw [hnp, List.getElem?_set_self hn] at hpeer'
      cases hpeer'
      have hopen : run.isOpen = true := by simpa [peerOf] using hgone
      exact ⟨p, _, by rw [hdata, if_pos rfl, if_pos hopen], hnp.symm⟩
    · rw [List.getElem?_set_ne (Ne.symm hnp)] at hpeer'
      obtain ⟨q, d, hd, hnum⟩ := hv.there n peer hpeer' hgone
      have hq : q ≠ p := by
        rintro rfl
        exact hnp hnum.symm
      exact ⟨q, d, by rw [hdata, if_neg hq, hd], hnum⟩

/-- An event of a client socket is about one client. -/
theorem clientEvent_follows (hs : s.Sound others lfd efd) (hc : s.conns.data p = some c)
    {e : EpollEvent} (h : s.clientEvent p e = some s') :
    Follows system Stands (s, r) (s', s.recordClient p e r) := by
  obtain ⟨⟨ps, hown⟩, halive⟩ := hs
  have hrun := halive p c hc
  rintro past v ⟨hv, hcount, henacts, hknown, htrace⟩
  obtain ⟨hn, hget⟩ := List.getElem?_eq_some_iff.mp (hv.client p c hc)
  -- the connection, seen among the others
  have hshown : v = (s.view c).shown v.peers (r.num p) false v.starved := by
    have hset : v.peers.set (r.num p) c.peer = v.peers := by rw [← hget, List.set_getElem_self]
    rw [NetState.shown]
    change v = ⟨s.store.toMap, v.peers.set (r.num p) c.peer, v.starved⟩
    rw [hset, ← hv.map_eq]
  have hsettled : Settled (s.view c) v.starved :=
    ⟨hrun.inv.ledger.toBuffers, hv.store_inv, hv.store_fits, hv.failed⟩
  have hstart : NetRun.Shows v.peers (r.num p) c.trace past ⟨s.view c, true⟩ past v := by
    refine ⟨v.starved, [], [], hsettled, hshown, (List.append_nil _).symm, ?_, .nil⟩
    rw [ending, if_pos rfl, List.append_nil, List.append_nil]
  obtain ⟨as, v', hsteps, starved', es, new, hsettled', rfl, hes, hpast, hnew⟩ :=
    netDispatch_follows hn hrun e.events e.ready.reads e.ready.ctlRead e.ready.writes
      e.ready.ctlWrite past v hstart
  obtain ⟨s₁, hs₁, hstore, hheap, hdata⟩ := clientEvent_result hown hc e rfl
  rw [recordClient, hc, Option.elim_some]
  dsimp only
  generalize netDispatch e.events e.ready.reads e.ready.ctlRead e.ready.writes e.ready.ctlWrite
    (s.view c) = run at hsteps hsettled' hstore hheap hdata hes hpast ⊢
  obtain rfl := Option.some.inj (h.symm.trans hs₁)
  rw [hes, List.drop_left]
  refine ⟨as, _, hsteps, ?_, ?_, ?_, ?_, ?_⟩
  · rw [Record.handled_num]
    exact hv.handled hc hsettled' hstore hheap hdata
  · rw [Record.handled_count, ← hcount]
    exact List.length_set
  · rw [hpast]
    exact henacts.handled hnew run.isOpen
  · exact hknown.handled es run.isOpen (hcount ▸ hn)
  · intro q d hd
    rw [Record.handled_num, Record.traceOf_handled]
    rw [hdata] at hd
    by_cases hq : q = p
    · subst hq
      rw [if_pos rfl] at hd
      split at hd
      · cases hd
        rw [Record.traceOf_add_self, ← htrace q c hc]
        exact hes
      · cases hd
    · rw [if_neg hq] at hd
      rw [Record.traceOf_add_ne fun heq => hq (hv.injective q p d c hd hc heq)]
      exact htrace q d hd

/-! ## The loop -/

/-- The events behind one that concerns only one connection are still pending. -/
theorem Pending.rest {e : EpollEvent} {es : List EpollEvent} (h : s.Pending (e :: es))
    (hsame : ∀ q d, s.conns.data q = some d → d.fd ≠ e.ready.fd → s'.conns.data q = some d) :
    s'.Pending es := by
  obtain ⟨hout, hnodup⟩ := List.nodup_cons.mp h.nodup
  refine ⟨hnodup, fun e' he' q hq => ?_⟩
  obtain ⟨d, hd, hfd⟩ := h.there e' (List.mem_cons_of_mem _ he') q hq
  refine ⟨d, hsame q d hd fun heq => ?_, hfd⟩
  exact hout (List.mem_map.mpr ⟨e', he', hfd.symm.trans heq⟩)

theorem handleEvents_follows {es : List EpollEvent} (hs : s.Sound others lfd efd)
    (hes : s.Pending es) (h : s.handleEvents es = some s') :
    Follows system Stands (s, r) (s', s.recordEvents es r) := by
  induction es generalizing s r with
  | nil =>
    cases h
    exact .refl _ _ _
  | cons e es ih =>
    rw [handleEvents] at h
    rw [recordEvents]
    cases hptr : e.ptr with
    | none =>
      rw [hptr] at h
      dsimp only at h ⊢
      split at h
      · next herr =>
        cases h
        rw [if_pos herr]
        exact follows_same rfl id fun _ => rfl
      · next herr =>
        obtain ⟨s₁, hs₁, hkeeps⟩ := acceptClients_keeps e.ready.accepts hs
        rw [hs₁] at h
        rw [if_neg herr, hs₁, Option.elim_some]
        have hpending := hes.rest fun q d hd _ => hkeeps.stays q d hd
        exact (acceptClients_follows hs hs₁).trans (ih hkeeps.toSound hpending h)
    | some p =>
      rw [hptr] at h
      obtain ⟨c, hc, hfd⟩ := hes.there e (List.mem_cons_self ..) p hptr
      obtain ⟨s₁, hs₁, hsound, hsame⟩ := clientEvent_keeps hs hc e
      dsimp only at h ⊢
      rw [hs₁] at h
      rw [hs₁, Option.elim_some]
      have hpending : s₁.Pending es := hes.rest fun q d hd hne => by
        rw [hsame q, hd]
        rintro rfl
        rw [hc] at hd
        cases hd
        exact hne hfd
      exact (clientEvent_follows hs hc hs₁).trans (ih hsound hpending h)

theorem netLoop_follows {turns : List Turn} {left : Bool} (hs : s.Sound others lfd efd)
    (h : s.netLoop turns = some (s', left)) :
    Follows system Stands (s, r) (s', s.recordLoop turns r) := by
  induction turns generalizing s r with
  | nil =>
    cases h
    exact .refl _ _ _
  | cons t turns ih =>
    rw [netLoop] at h
    rw [recordLoop]
    have hsignal : (if t.signal then { s with shutdown := true } else s).Sound others lfd efd ∧
        Follows system Stands (s, r)
          ((if t.signal then { s with shutdown := true } else s), r) := by
      split
      · obtain ⟨⟨ps, h⟩, ha⟩ := hs
        exact ⟨⟨⟨ps, { h with }⟩, ha⟩, follows_same rfl id fun _ => rfl⟩
      · exact ⟨hs, .refl _ _ _⟩
    generalize (if t.signal then { s with shutdown := true } else s) = s₁ at h hsignal ⊢
    obtain ⟨hs₁, hfollows⟩ := hsignal
    refine hfollows.trans ?_
    split at h
    · next hshut =>
      cases h
      rw [if_pos hshut]
      exact .refl _ _ _
    · next hshut =>
      rw [if_neg hshut]
      cases hwait : t.wait with
      | events ready =>
        rw [hwait] at h
        obtain ⟨ps, hown⟩ := hs₁.owns
        obtain ⟨s₂, hs₂, hsound⟩ := handleEvents_keeps _ hs₁ (hown.pending ready)
        dsimp only at h ⊢
        rw [hs₂] at h
        rw [hs₂, Option.elim_some]
        exact (handleEvents_follows hs₁ (hown.pending ready) hs₂).trans (ih hsound h)
      | eintr =>
        rw [hwait] at h
        exact ih hs₁ h
      | error =>
        rw [hwait] at h
        cases h
        exact .refl _ _ _

/-! ## The end -/

/-- A connection is closed after the loop. -/
theorem popped_follows (hc : s.conns.data p = some c) (hb : Buffers (s.view c))
    (hstore : s'.store = s.store) (hheap : s'.heap = s.heap)
    (hdata : ∀ q, s'.conns.data q = if q = p then none else s.conns.data q) :
    Follows system Stands (s, r) (s', r.close p) := by
  refine .one ?_
  rintro past v ⟨hv, hcount, henacts, hknown, htrace⟩
  have hsettled : Settled (s.view c) v.starved := ⟨hb, hv.store_inv, hv.store_fits, hv.failed⟩
  have hshows : s'.Shows r.num ((s.view c).shown v.peers (r.num p) true v.starved) :=
    @Shows.handled s s' _ _ p c hv hc ⟨s.view c, false⟩ v.starved hsettled hstore hheap hdata
  rw [NetState.shown] at hshows
  change s'.Shows r.num ⟨s.store.toMap, _, _⟩ at hshows
  rw [← hv.map_eq] at hshows
  refine ⟨.disconnect (r.num p), _, .disconnect (hv.client p c hc), hshows, ?_, henacts.close p,
    hknown.close (hcount ▸ hv.num_lt hc), ?_⟩
  · rw [List.length_set]
    exact hcount
  · intro q d hd
    rw [hdata, Option.ite_none_left_eq_some] at hd
    rw [Record.traceOf_close]
    exact htrace q d hd.2

/-- Closing all connections disconnects their clients. -/
theorem closeAll_follows {fuel : ℕ} (h : s.Owns others lfd efd ps)
    (hb : ∀ p c, s.conns.data p = some c → Buffers (s.view c))
    (hclose : s.closeAll fuel = some s') :
    Follows system Stands (s, r) (s', s.recordCloseAll fuel r) := by
  induction fuel generalizing s r ps with
  | zero =>
    rw [closeAll, Option.ite_none_right_eq_some] at hclose
    obtain ⟨-, heq⟩ := hclose
    cases heq
    exact .refl _ _ _
  | succ fuel ih =>
    cases ps with
    | nil =>
      have hchain := h.chain
      rw [Chain.Holds] at hchain
      generalize hhead : s.conns.head = q at hchain
      cases hchain
      simp only [closeAll, hhead] at hclose
      cases hclose
      rw [recordCloseAll, hhead, Option.elim_none]
      exact .refl _ _ _
    | cons p ps =>
      obtain ⟨c, hc⟩ := h.data_of_mem (List.mem_cons_self ..)
      obtain ⟨hhead, conns, hpop, hchain, hdata⟩ := h.chain.pop
      have herase : (p :: ps).erase p = ps := List.erase_cons_head ..
      have h₁ := h.closed hc (herase.symm ▸ hchain) hdata
      simp only [closeAll, hhead, hc, dropFd_eq, hpop, Option.bind_eq_bind, Option.bind_some]
        at hclose
      simp only [recordCloseAll, hhead, hc, dropFd_eq, hpop, Option.elim_some]
      have hpopped : Follows system Stands (s, r)
          ({ s with kernel := s.kernel.close c.fd, conns := conns }, r.close p) :=
        popped_follows hc (hb p c hc) rfl rfl hdata
      rw [herase] at h₁
      refine hpopped.trans (ih h₁ (fun q d hd => ?_) hclose)
      change conns.data q = some d at hd
      rw [hdata, Option.ite_none_left_eq_some] at hd
      obtain ⟨hin, hout⟩ := hb q d hd.2
      exact ⟨hin, hout⟩

/-- What `net_run` does after the loop disconnects every client. -/
theorem teardown_follows (h : s.Owns others lfd efd ps)
    (hb : ∀ p c, s.conns.data p = some c → Buffers (s.view c)) (hteardown : s.teardown = some s') :
    Follows system Stands (s, r) (s', s.recordCloseAll s.conns.mem.keys.card r) := by
  simp only [teardown, Option.bind_eq_bind, Option.bind_eq_some_iff] at hteardown
  obtain ⟨s₁, hs₁, hend⟩ := hteardown
  refine (closeAll_follows h hb hs₁).trans ?_
  cases hend
  cases s₁.epollFd with
  | none =>
    cases s₁.listenFd with
    | none => exact .refl _ _ _
    | some lfd => exact follows_same rfl id fun _ => rfl
  | some efd =>
    simp only [closeFd]
    cases s₁.listenFd with
    | none => exact follows_same rfl id fun _ => rfl
    | some lfd => exact follows_same rfl id fun _ => rfl

/-! ## The whole run -/

/-- Before the first client. -/
theorem recorded_netInit {store : Hashtable} (hi : store.Inv) (hf : store.Fits) (heap : Heap)
    (others : Finset Fd) (listen epoll : Fresh) :
    (netInit store heap others listen epoll).Recorded .empty [] (initial store.toMap) where
  map_eq := rfl
  store_inv := hi
  store_fits := hf
  failed h := by cases h
  client p c hc := by cases hc
  injective p q c d hc := by cases hc
  there n peer hpeer := by cases hpeer
  count_eq := rfl
  enacts := Record.enacts_empty
  known := Record.known_empty
  trace_eq p c hc := by cases hc

/-- `net_run` is followed by the service. -/
theorem netRun_follows {turns : List Turn} {left : Bool} (hs : s.Sound others lfd efd)
    (h : s.netRun turns = some (s', left)) :
    Follows system Stands (s, .empty) (s', s.record turns) ∧
      (left = true → s'.Gone others) := by
  obtain ⟨s₁, left₁, hloop, hsound⟩ := netLoop_keeps turns hs
  rw [netRun, hloop] at h
  rw [record, hloop, Option.elim_some]
  have hfollows := netLoop_follows (r := .empty) hs hloop
  cases left₁ with
  | false =>
    cases h
    exact ⟨hfollows, fun hleft => by cases hleft⟩
  | true =>
    obtain ⟨ps, hown⟩ := hsound.owns
    obtain ⟨s₂, hteardown, hgone⟩ := teardown_gone hown
    simp only [Option.bind_eq_bind, Option.bind_some, if_true, hteardown] at h
    cases h
    have hb : ∀ p c, s₁.conns.data p = some c → Buffers (s₁.view c) := fun p c hc =>
      (hsound.alive p c hc).inv.ledger.toBuffers
    exact ⟨hfollows.trans (teardown_follows hown hb hteardown), fun _ => hgone⟩

/-- `net_run` on a store in order. -/
theorem netRun_recorded {store : Hashtable} (hi : store.Inv) (hf : store.Fits) (heap : Heap)
    (others : Finset Fd) (listen epoll : Fresh) (turns : List Turn) :
    ∃ (s : Server) (left : Bool) (as : List Action) (v : Service),
      (netInit store heap others listen epoll).netRun turns = some (s, left) ∧
      system.Run (initial store.toMap) as v ∧
      s.Recorded ((netInit store heap others listen epoll).record turns) as v ∧
      (left = true → s.Gone others) := by
  obtain ⟨s, left, hrun, -, -⟩ := netRun_sound store heap others listen epoll turns
  have howns := owns_netInit store heap others listen epoll
  obtain ⟨hfollows, hgone⟩ := netRun_follows ⟨⟨[], howns⟩, fun p c hc => by cases hc⟩ hrun
  obtain ⟨as, v, hsteps, hv⟩ := hfollows [] _ (recorded_netInit hi hf heap others listen epoll)
  rw [List.nil_append] at hv
  exact ⟨s, left, as, v, hrun, hsteps, hv, hgone⟩

section Run

variable {map : RefMap} {as : List Action}

/-- A client has sent what was read on its connection, and got what was written. -/
theorem Recorded.moved (hv : s.Recorded r as v) (hsteps : system.Run (initial map) as v) (n : ℕ) :
    (v.peer n).received = readBytes (r.traceOf n) ∧ (v.peer n).sent = wroteBytes (r.traceOf n) := by
  obtain ⟨hreceived, hsent⟩ := moved_run hsteps n
  exact ⟨hreceived.trans (hv.enacts.received_eq n), hsent.trans (hv.enacts.sent_eq n)⟩

/-- The books of every client balance, those of clients that have left included. -/
theorem Recorded.books (hv : s.Recorded r as v) (hsteps : system.Run (initial map) as v) {n : ℕ}
    (hn : n < r.count) : (v.peer n).Books (answeredTo n as) := by
  rw [← hv.count_eq] at hn
  have hpeer := List.getElem?_eq_getElem hn
  rw [peer_of_getElem? hpeer]
  exact (run_balanced hsteps).1 n _ hpeer

/-- **The server does what the service may do**: from `main` on, whatever arrives, whatever
fails, and whenever the loop ends, there is a run of the service that ends with the map in
the store and with the clients in memory. Its actions are those on record, one for each, and
its clients the connections that have been accepted: each has sent what was read on its
connection and got what was written, and after the loop all are gone. -/
theorem server_refines_service (h : Heap) (others : Finset Fd) (listen epoll : Fresh)
    (turns : List Turn) :
    ∃ (s : Server) (left : Bool) (as : List Action) (v : Service) (r : Record),
      (netInit (startup h).store (startup h).heap others listen epoll).netRun turns =
        some (s, left) ∧
      (netInit (startup h).store (startup h).heap others listen epoll).record turns = r ∧
      system.Run (initial (startup h).store.toMap) as v ∧ s.Recorded r as v ∧
      (∀ n, (v.peer n).received = readBytes (r.traceOf n) ∧
        (v.peer n).sent = wroteBytes (r.traceOf n)) ∧
      (left = true → ∀ peer ∈ v.peers, peer.gone = true) := by
  obtain ⟨hi, hf⟩ := startup_keeps h
  obtain ⟨s, left, as, v, hrun, hsteps, hv, hgone⟩ :=
    netRun_recorded hi hf (startup h).heap others listen epoll turns
  refine ⟨s, left, as, v, _, hrun, rfl, hsteps, hv, hv.moved hsteps, fun hleft peer hpeer => ?_⟩
  obtain ⟨n, hn⟩ := List.getElem?_of_mem hpeer
  by_contra hhere
  obtain ⟨p, c, hc, -⟩ := hv.there n peer hn (Bool.eq_false_of_not_eq_true hhere)
  rw [(hgone hleft).freed p] at hc
  cases hc

/-- **The requests of a run in one order**: they are the requests on record, and executed one
after the other they lead from `map` to the map in the store. -/
structure Serialized (map : RefMap) (r : Record) (s : Server) (as : List Action) : Prop where
  /-- the actions are those on record -/
  enacts : r.Enacts as
  /-- and so are the requests, whoever has sent them -/
  requests_eq : (executedIn as).map Prod.fst = r.requests
  /-- those of one client come as it has sent them -/
  sublist : ∀ n, (answeredTo n as).Sublist (executedIn as)
  /-- and are those that were served on its connection -/
  answered_eq : ∀ n, (answeredTo n as).map Prod.fst = r.servedTo n
  /-- each gets the reply of the reference machine, or is refused for want of memory -/
  history : HistoryRun s.heap.failed map (executedIn as) s.store.toMap
  /-- as long as memory lasts, none is refused -/
  refRun : s.heap.failed = false →
    RefRun map ((executedIn as).map Prod.fst) ((executedIn as).map Prod.snd) s.store.toMap

theorem Recorded.serialized (hv : s.Recorded r as v) (hsteps : system.Run (initial map) as v) :
    Serialized map r s as := by
  have hhistory : HistoryRun s.heap.failed map (executedIn as) s.store.toMap := by
    rw [← hv.map_eq]
    exact (history_run hsteps).mono hv.failed
  refine ⟨hv.enacts, hv.enacts.requests_eq, fun n => answeredTo_sublist n as, hv.enacts.answered_eq,
    hhistory, fun halloc => ?_⟩
  rw [halloc] at hhistory
  exact hhistory.refRun

end Run

/-- **The requests are serializable.** Whatever arrives on whatever connections, the
requests on record are executed in one order, in which those of each client come as it has
sent them. In this order they lead to the map in the store, each with the reply of the
reference machine or, if memory has run short, refused. And every connection there has ever
been has read the requests it was answered and what is still in its input, and has written,
or was yet to write, the replies to them. -/
theorem requests_serializable (h : Heap) (others : Finset Fd) (listen epoll : Fresh)
    (turns : List Turn) :
    ∃ (s : Server) (left : Bool) (as : List Action) (r : Record),
      (netInit (startup h).store (startup h).heap others listen epoll).netRun turns =
        some (s, left) ∧
      (netInit (startup h).store (startup h).heap others listen epoll).record turns = r ∧
      Serialized (startup h).store.toMap r s as ∧
      (∀ p q c d, s.conns.data p = some c → s.conns.data q = some d → r.num p = r.num q → p = q) ∧
      (∀ p c, s.conns.data p = some c → r.num p < r.count ∧ c.trace = r.traceOf (r.num p) ∧
        c.peer.Books (answeredTo (r.num p) as)) ∧
      ∀ n < r.count, ∃ peer : Peer, peer.Books (answeredTo n as) ∧
        peer.received = readBytes (r.traceOf n) ∧ peer.sent = wroteBytes (r.traceOf n) := by
  obtain ⟨hi, hf⟩ := startup_keeps h
  obtain ⟨s, left, as, v, hrun, hsteps, hv, -⟩ :=
    netRun_recorded hi hf (startup h).heap others listen epoll turns
  refine ⟨s, left, as, _, hrun, rfl, hv.serialized hsteps, hv.injective, fun p c hc => ?_,
    fun n hn => ⟨v.peer n, hv.books hsteps hn, hv.moved hsteps n⟩⟩
  exact ⟨hv.count_eq ▸ hv.num_lt hc, hv.trace_eq p c hc,
    (run_balanced hsteps).1 _ _ (hv.client p c hc)⟩

end Server

end RedisInC
