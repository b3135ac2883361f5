import RedisInC.HandlerRefinement
import RedisInC.ServerBlocks

/-!
# The event loop in memory does what the one on values does

* `clientChain_holds`, `clientChain_ext` — the list of connections as the code on values has it.
* `closeConn_ends`, `clientEvent_ends`, `acceptClients_ends`, `closeAll_ends` — the functions.
* `handleEvents_ends`, `netLoop_ends` — the loops.
-/

namespace RedisInC

open BlockMemory LinkedList

/-- The choice of this one, wherever it is not in use. -/
def Fresh.at (a : ℕ) : Fresh where
  pick used := if a ∈ used then used.sup id + 1 else a
  fresh used := by
    split
    · exact fun hin => Nat.not_succ_le_self _ (Finset.le_sup (f := id) hin)
    · next hout => exact hout

/-! ## Scripts -/

/-- The call, but for where the connection is put. -/
def AcceptResult.unplaced : AcceptResult → AcceptResult
  | client fd nonblock _ ctl => client fd nonblock (Fresh.at 0) ctl
  | eagain => eagain
  | eintr => eintr
  | error => error

/-- The calls, but for where connections are put. -/
def Ready.unplaced (r : Ready) : Ready := { r with accepts := r.accepts.map AcceptResult.unplaced }

/-- The calls, but for where connections are put. -/
def Server.Turn.unplaced (t : Server.Turn) : Server.Turn :=
  { t with wait :=
      match t.wait with
      | .events ready => .events ⟨ready.list.map Ready.unplaced, by
          rw [List.map_map]
          exact ready.nodup⟩
      | .eintr => .eintr
      | .error => .error }

/-- An event, with other answers to its calls. -/
def EpollEvent.withReady (f : Ready → Ready) (e : EpollEvent) : EpollEvent :=
  { e with ready := f e.ready }

section Scripts

variable {f : Ready → Ready}

/-- Answers that differ in the places only are for the same descriptors. -/
theorem Ready.same_of_unplaced {r r' : Ready} (h : r'.unplaced = r.unplaced) :
    r'.fd = r.fd ∧ r'.events = r.events := by
  have hfd := congrArg Ready.fd h
  have hevents := congrArg Ready.events h
  exact ⟨hfd, hevents⟩

/-- All that is ready, with other places. -/
def ReadyList.answer (ready : ReadyList) (f : Ready → Ready)
    (hf : ∀ r, (f r).unplaced = r.unplaced) : ReadyList where
  list := ready.list.map f
  nodup := by
    have hsame : Ready.fd ∘ f = Ready.fd := funext fun r => (Ready.same_of_unplaced (hf r)).1
    rw [List.map_map, hsame]
    exact ready.nodup

theorem wait_answer (k : Kernel) (ready : ReadyList) (hf : ∀ r, (f r).unplaced = r.unplaced) :
    k.wait (ready.answer f hf) = (k.wait ready).map (EpollEvent.withReady f) := by
  have hreport : ∀ r, k.report (f r) = (k.report r).map (EpollEvent.withReady f) := by
    intro r
    obtain ⟨hfd, hevents⟩ := Ready.same_of_unplaced (hf r)
    rw [Kernel.report, Kernel.report, hfd, hevents]
    cases k.epoll.lookup r.fd with
    | none => rfl
    | some i =>
      dsimp only
      split
      · rfl
      · rfl
  rw [Kernel.wait, Kernel.wait, List.map_take, List.map_filterMap, ReadyList.answer,
    List.filterMap_map]
  refine congrArg (List.take MAX_EVENTS) (List.filterMap_congr fun r _ => ?_)
  exact hreport r

theorem unplaced_answer (signal : Bool) (ready : ReadyList)
    (hf : ∀ r, (f r).unplaced = r.unplaced) :
    Server.Turn.unplaced ⟨signal, .events (ready.answer f hf)⟩ =
      Server.Turn.unplaced ⟨signal, .events ready⟩ := by
  have hlist : (ready.list.map f).map Ready.unplaced = ready.list.map Ready.unplaced := by
    rw [List.map_map]
    exact List.map_congr_left fun r _ => hf r
  simp only [Server.Turn.unplaced, ReadyList.answer, hlist]

/-- Other answers for one descriptor of a batch. -/
theorem exists_answer (hf : ∀ r, (f r).unplaced = r.unplaced) {r r' : Ready}
    (h : r'.unplaced = r.unplaced) {es : List EpollEvent}
    (hout : r.fd ∉ es.map fun e => e.ready.fd) :
    ∃ g : Ready → Ready, (∀ r, (g r).unplaced = r.unplaced) ∧ g r = r' ∧
      es.map (EpollEvent.withReady g) = es.map (EpollEvent.withReady f) := by
  classical
  refine ⟨Function.update f r r', fun x => ?_, Function.update_self .., ?_⟩
  · by_cases hx : x = r
    · rw [hx, Function.update_self, h]
    · rw [Function.update_of_ne hx, hf]
  · refine List.map_congr_left fun e he => ?_
    have hne : e.ready ≠ r := by
      rintro rfl
      exact hout (List.mem_map_of_mem he)
    rw [EpollEvent.withReady, EpollEvent.withReady, Function.update_of_ne hne]

end Scripts

/-! ## The list of connections -/

section Clients

variable {l l₁ l₂ : List OwnedClient} {c : OwnedClient} {q : Option Addr} {p : Addr}

theorem firstAddr_append (l₁ l₂ : List OwnedClient) (q : Option Addr) :
    firstAddr (l₁ ++ l₂) q = firstAddr l₁ (firstAddr l₂ q) := linkHead_append ..

theorem clientCells_append (l₁ l₂ : List OwnedClient) (q : Option Addr) :
    clientCells (l₁ ++ l₂) q = clientCells l₁ (firstAddr l₂ q) + clientCells l₂ q :=
  linkedCells_append ..

theorem clientCells_cons (c : OwnedClient) (cs : List OwnedClient) (q : Option Addr) :
    clientCells (c :: cs) q = c.cells (firstAddr cs q) + clientCells cs q := rfl

/-- The addresses of the clients are addresses of blocks. -/
theorem addrs_le (l : List OwnedClient) (q : Option Addr) :
    (l.map OwnedClient.addr : Multiset Addr) ≤ (clientCells l q).map Sigma.fst := by
  induction l with
  | nil => exact Multiset.zero_le _
  | cons c cs ih =>
    rw [clientCells_cons, Multiset.map_add, List.map_cons, ← Multiset.cons_coe,
      ← Multiset.singleton_add]
    refine add_le_add ?_ ih
    rw [OwnedClient.cells, OwnedConn.cells, Multiset.map_add]
    exact Multiset.le_add_right _ _

theorem clients_length_le {F : Cells Addr Block} (hle : clientCells l q ≤ F) :
    l.length ≤ F.card := by
  have hcard := Multiset.card_le_card ((addrs_le l q).trans (Multiset.map_le_map hle))
  rwa [Multiset.coe_card, List.length_map, Multiset.card_map] at hcard

theorem addrs_nodup {F : Cells Addr Block} (hle : clientCells l q ≤ F) (h : Multiset.NodupKeys F) :
    (l.map OwnedClient.addr).Nodup := by
  rw [← Multiset.coe_nodup]
  refine Multiset.nodup_of_le ((addrs_le l q).trans (Multiset.map_le_map hle)) ?_
  rwa [← Multiset.nodup_keys] at h

theorem clientChain_data_cons (c : OwnedClient) (cs : List OwnedClient) (p : Addr) :
    (clientChain (c :: cs)).data p =
      if p = c.addr then some c.toClient else (clientChain cs).data p := Chain.data_push p

theorem clientChain_data_none (h : p ∉ l.map OwnedClient.addr) : (clientChain l).data p = none := by
  induction l with
  | nil => rfl
  | cons c cs ih =>
    obtain ⟨hne, hrest⟩ := not_or.mp (mt List.mem_cons.mpr h)
    rw [clientChain_data_cons, if_neg hne, ih hrest]

theorem clientChain_data_self (h : c.addr ∉ l₁.map OwnedClient.addr) :
    (clientChain (l₁ ++ c :: l₂)).data c.addr = some c.toClient := by
  induction l₁ with
  | nil => rw [List.nil_append, clientChain_data_cons, if_pos rfl]
  | cons e es ih =>
    obtain ⟨hne, hrest⟩ := not_or.mp (mt List.mem_cons.mpr h)
    rw [List.cons_append, clientChain_data_cons, if_neg hne, ih hrest]

theorem clientChain_data_ne (h : p ≠ c.addr) :
    (clientChain (l₁ ++ c :: l₂)).data p = (clientChain (l₁ ++ l₂)).data p := by
  induction l₁ with
  | nil => rw [List.nil_append, clientChain_data_cons, if_neg h, List.nil_append]
  | cons e es ih =>
    rw [List.cons_append, List.cons_append, clientChain_data_cons, clientChain_data_cons, ih]

/-- A connection that is there is one of the clients. -/
theorem clientChain_data_split {d : Client} (h : (clientChain l).data p = some d) :
    ∃ l₁ c l₂, l = l₁ ++ c :: l₂ ∧ c.addr = p ∧ c.toClient = d := by
  induction l with
  | nil => cases h
  | cons c cs ih =>
    rw [clientChain_data_cons] at h
    by_cases hp : p = c.addr
    · rw [if_pos hp] at h
      exact ⟨[], c, cs, rfl, hp.symm, Option.some.inj h⟩
    · rw [if_neg hp] at h
      obtain ⟨l₁, c', l₂, rfl, haddr, hd⟩ := ih h
      exact ⟨c :: l₁, c', l₂, rfl, haddr, hd⟩

theorem clientChain_holds (h : (l.map OwnedClient.addr).Nodup) :
    (clientChain l).Holds (l.map OwnedClient.addr) := by
  induction l with
  | nil => exact Chain.holds_empty
  | cons c cs ih =>
    obtain ⟨hout, hrest⟩ := List.nodup_cons.mp h
    refine (ih hrest).push ?_ _
    exact Option.map_eq_none_iff.mp (clientChain_data_none hout)

/-- **The list of connections** is given by the addresses and what is there. -/
theorem clientChain_ext {ch : Chain Ptr Client} (h : ch.Holds (l.map OwnedClient.addr))
    (hdata : ∀ p, ch.data p = (clientChain l).data p) : ch = clientChain l := by
  refine h.ext (clientChain_holds (IsList.nodup h)) hdata fun p hp => ?_
  by_contra hout
  exact hp ((hdata p).trans (clientChain_data_none hout))

theorem addr_notMem (h : ((l₁ ++ c :: l₂).map OwnedClient.addr).Nodup) :
    c.addr ∉ l₁.map OwnedClient.addr := by
  rw [List.map_append, List.map_cons] at h
  exact fun hin => (List.nodup_append.mp h).2.2 _ hin _ (List.mem_cons_self ..) rfl

/-- Other contents for a connection. -/
theorem clientChain_update (c' : OwnedClient) (haddr : c'.addr = c.addr)
    (h : ((l₁ ++ c :: l₂).map OwnedClient.addr).Nodup) :
    (clientChain (l₁ ++ c :: l₂)).update c.addr c'.toClient = clientChain (l₁ ++ c' :: l₂) := by
  have hmap : (l₁ ++ c' :: l₂).map OwnedClient.addr = (l₁ ++ c :: l₂).map OwnedClient.addr := by
    rw [List.map_append, List.map_append, List.map_cons, List.map_cons, haddr]
  have hout := addr_notMem h
  refine clientChain_ext (hmap ▸ (clientChain_holds h).update _ _) fun p => ?_
  rw [Chain.data_update (by rw [clientChain_data_self hout]; nofun)]
  by_cases hp : p = c.addr
  · rw [if_pos hp, hp, ← haddr, clientChain_data_self (haddr ▸ hout)]
  · rw [if_neg hp, clientChain_data_ne hp, clientChain_data_ne (haddr ▸ hp)]

/-- One connection less. -/
theorem clientChain_erase {ch : Chain Ptr Client} (h : ((l₁ ++ c :: l₂).map OwnedClient.addr).Nodup)
    (hholds : ch.Holds (((l₁ ++ c :: l₂).map OwnedClient.addr).erase c.addr))
    (hdata : ∀ p, ch.data p = if p = c.addr then none else (clientChain (l₁ ++ c :: l₂)).data p) :
    ch = clientChain (l₁ ++ l₂) := by
  have hmap : ((l₁ ++ c :: l₂).map OwnedClient.addr).erase c.addr = (l₁ ++ l₂).map OwnedClient.addr := by
    rw [List.map_append, List.map_cons, List.erase_append_right _ (addr_notMem h),
      List.erase_cons_head, List.map_append]
  refine clientChain_ext (hmap ▸ hholds) fun p => ?_
  rw [hdata]
  by_cases hp : p = c.addr
  · have hout : c.addr ∉ (l₁ ++ l₂).map OwnedClient.addr := hmap ▸ h.not_mem_erase
    rw [if_pos hp, hp, clientChain_data_none hout]
  · rw [if_neg hp, clientChain_data_ne hp]

/-- The first connection is taken off. -/
theorem clientChain_pop (h : ((c :: l).map OwnedClient.addr).Nodup) :
    (clientChain (c :: l)).pop c.addr = some (clientChain l) := by
  obtain ⟨-, ch, hpop, hholds, hdata⟩ := (clientChain_holds h).pop
  have hback : ch = clientChain l := by
    refine @clientChain_erase [] l c ch h ?_ hdata
    rw [List.nil_append, List.map_cons, List.erase_cons_head]
    exact hholds
  rw [hpop, hback]

end Clients

namespace OwnedServer

variable {o : OwnedServer} {l₁ l₂ : List OwnedClient} {c : OwnedClient} {K : Cells Addr Block}

/-- The blocks of a client, and the others. -/
theorem cells_split (h : o.clients = l₁ ++ c :: l₂) : o.cells = c.cells (firstAddr l₂ none) +
    (clientCells l₁ (some c.addr) + clientCells l₂ none + o.store.cells) := by
  rw [cells, h, clientCells_append, clientCells_cons]
  change clientCells l₁ (some c.addr) + _ + _ = _
  abel

theorem addrs_nodup (h : Multiset.NodupKeys (o.cells + K)) :
    (o.clients.map OwnedClient.addr).Nodup := by
  refine RedisInC.addrs_nodup (q := none) ?_ h
  exact (Multiset.le_add_right _ _).trans (Multiset.le_add_right _ _)

end OwnedServer

namespace Raw

variable {s : Allocator} {F G K : Cells Addr Block} {o : OwnedServer} {l l₁ l₂ : List OwnedClient}
  {c : OwnedClient} {q : Option Addr}

/-! ## Freeing a connection -/

theorem freeConn_ends (c : OwnedClient) (q : Option Addr) :
    Ends (freeConn c.addr) s (c.cells q + G) fun _ s' F' => s' = s ∧ F' = G := by
  have hrelease : ∀ (b : OwnedBuffer) (s : Allocator) G, Ends (release b.node) s (b.cells + G)
      fun x s' F' => ∃ b' : OwnedBuffer, x.2 = b'.node ∧ F' = b'.cells + G ∧
        b' = OwnedBuffer.empty ∧ s' = s := by
    intro b s G
    refine (bytebufFree_ends b).bind ?_
    rintro - s' F' ⟨rfl, rfl, rfl⟩
    exact Ends.pure ⟨.empty, rfl, (zero_add _).symm, rfl, rfl⟩
  -- a view of the connection, with no store
  let v : OwnedView := ⟨.empty, c.conn, 0⟩
  have hview : c.cells q + G = v.cells c.addr c.fd q + G := by
    rw [OwnedView.cells, OwnedTable.cells_empty, add_zero]
    rfl
  rw [hview]
  refine (withIn_ends (Q := fun _ b s' => b = OwnedBuffer.empty ∧ s' = s) fun G =>
    hrelease v.conn.inBuf s G).bind ?_
  rintro - s' F' ⟨b, rfl, rfl, rfl⟩
  refine (withOut_ends (Q := fun _ b s'' => b = OwnedBuffer.empty ∧ s'' = s') fun G =>
    hrelease (v.setIn .empty).conn.outBuf s' G).bind ?_
  rintro - s'' F'' ⟨b, rfl, rfl, rfl⟩
  have hrest : ((v.setIn .empty).setOut .empty).cells c.addr c.fd q + G =
      cell c.addr (.conn (((v.setIn .empty).setOut .empty).conn.node c.fd q)) + G := by
    change cell c.addr _ + (0 + 0) + OwnedTable.empty.cells + G = _
    rw [OwnedTable.cells_empty, add_zero, add_zero, add_zero]
  rw [hrest]
  exact free_ends rfl

/-! ## Walking the list -/

/-- The place behind these clients. -/
def lastLink : Link Addr → List OwnedClient → Link Addr
  | link, [] => link
  | _, c :: cs => lastLink (.next c.addr) cs

theorem lastLink_append (link : Link Addr) (l : List OwnedClient) (c : OwnedClient) :
    lastLink link (l ++ [c]) = .next c.addr := by
  induction l generalizing link with
  | nil => rfl
  | cons e es ih => exact ih _

theorem loadClient_sees (h : c.cells q ≤ F) : Sees (loadConn c.addr) s F (c.conn.node c.fd q) := by
  refine loadConn_sees (Multiset.mem_of_le h ?_)
  simp [OwnedClient.cells, OwnedConn.cells, cell]

/-- **The walk of `close_conn`** ends at the place that holds the address. -/
theorem seekConn_sees {n : ServerNode} {link : Link Addr}
    (hread : Sees (readConnLink n link) s F (firstAddr (l₁ ++ c :: l₂) q))
    (hle : clientCells (l₁ ++ c :: l₂) q ≤ F) (hout : c.addr ∉ l₁.map OwnedClient.addr) {fuel : ℕ}
    (hfuel : l₁.length ≤ fuel) :
    Sees (seekConn n c.addr fuel link) s F (lastLink link l₁) ∧
      Sees (readConnLink n (lastLink link l₁)) s F (some c.addr) := by
  induction l₁ generalizing link fuel with
  | nil =>
    refine ⟨?_, hread⟩
    rw [seekConn.eq_def]
    refine hread.andThen ?_
    change Sees (if c.addr = c.addr then _ else _) _ _ _
    rw [if_pos rfl]
    exact Sees.pure
  | cons e es ih =>
    obtain ⟨hne, hrest⟩ := not_or.mp (mt List.mem_cons.mpr hout)
    obtain ⟨fuel, rfl⟩ : ∃ n, fuel = n + 1 := ⟨fuel - 1, by rw [List.length_cons] at hfuel; omega⟩
    have hnext : Sees (readConnLink n (.next e.addr)) s F (firstAddr (es ++ c :: l₂) q) := by
      refine (loadClient_sees (le_trans ?_ hle)).andThen Sees.pure
      exact Multiset.le_add_right _ _
    obtain ⟨hseek, hplace⟩ := ih hnext (le_trans (Multiset.le_add_left _ _) hle) hrest
      (Nat.le_of_succ_le_succ hfuel)
    refine ⟨?_, hplace⟩
    rw [seekConn.eq_def]
    refine hread.andThen ?_
    change Sees (if e.addr = c.addr then _ else _) _ _ _
    rw [if_neg (Ne.symm hne)]
    exact hseek

/-- Another address at the place behind these clients. -/
theorem writeConnLink_ends (n : ServerNode) (hn : n.conns = firstAddr l q) (q' : Option Addr) :
    Ends (writeConnLink n q' (lastLink .head l)) s (clientCells l q + G) fun n' s' F' =>
      s' = s ∧ n' = { n with conns := firstAddr l q' } ∧ F' = clientCells l q' + G := by
  rcases List.eq_nil_or_concat' l with rfl | ⟨xs, x, rfl⟩
  · exact Ends.pure ⟨rfl, rfl, rfl⟩
  · have hcells : ∀ q, clientCells (xs ++ [x]) q + G = cell x.addr (.conn (x.conn.node x.fd q)) +
        (clientCells xs (some x.addr) + (x.conn.inBuf.cells + x.conn.outBuf.cells) + G) := by
      intro q
      rw [clientCells_append, clientCells_cons, OwnedClient.cells, OwnedConn.cells]
      change clientCells xs (some x.addr) + (cell x.addr (.conn (x.conn.node x.fd q)) +
        (x.conn.inBuf.cells + x.conn.outBuf.cells) + 0) + G = _
      abel
    have hhead : ∀ q, firstAddr (xs ++ [x]) q = firstAddr xs (some x.addr) :=
      fun q => firstAddr_append xs [x] q
    have hsame : ({ n with conns := firstAddr (xs ++ [x]) q' } : ServerNode) = n := by
      rw [hhead, ← hhead q, ← hn]
    rw [lastLink_append, hcells, hsame]
    have hmem : (⟨x.addr, .conn (x.conn.node x.fd q)⟩ : Σ _, Block) ∈
        cell x.addr (.conn (x.conn.node x.fd q)) + (clientCells xs (some x.addr) +
          (x.conn.inBuf.cells + x.conn.outBuf.cells) + G) := by
      simp [cell]
    refine (loadConn_sees hmem).bind (Ends.bind (put_ends rfl rfl) ?_)
    rintro - s' F' ⟨rfl, rfl⟩
    exact Ends.pure ⟨rfl, rfl, (hcells q').symm⟩

/-! ## Closing -/

theorem dropFd_eq (n : ServerNode) (fd : Fd) :
    n.dropFd fd = { n with kernel := n.kernel.close fd } := by
  rw [ServerNode.dropFd]
  split
  · rw [ServerNode.closeFd, Kernel.close_del]
  · rfl

theorem closeConn_value (h : o.clients = l₁ ++ c :: l₂)
    (hnodup : ((l₁ ++ c :: l₂).map OwnedClient.addr).Nodup) :
    (o.toServer s).closeConn c.addr =
      some (OwnedServer.toServer
        { o with clients := l₁ ++ l₂, kernel := o.kernel.close c.fd } s) := by
  have hout := addr_notMem hnodup
  have hchain : (o.toServer s).conns = clientChain (l₁ ++ c :: l₂) := congrArg clientChain h
  have hholds := clientChain_holds hnodup
  have hmem : c.addr ∈ (l₁ ++ c :: l₂).map OwnedClient.addr := by simp
  obtain ⟨ch, hunlink, hlist, hdata⟩ := hholds.unlink hmem
  have hfree : ch.free c.addr = clientChain (l₁ ++ l₂) := by
    refine clientChain_erase hnodup (hlist.free (hnodup.not_mem_erase)) fun p => ?_
    rw [Chain.data_free, hdata]
  simp only [Server.closeConn, Server.dropFd_eq, hchain, clientChain_data_self hout, hunlink, hfree,
    Option.bind_eq_bind, Option.bind_some]
  rfl

/-- **`close_conn`** in memory: the connection and its arrays are gone, and the one before it
is linked to the one behind it. -/
theorem closeConn_ends (h : o.clients = l₁ ++ c :: l₂) :
    Ends (closeConn c.addr o.node) s (o.cells + K) fun n s' F' =>
      ∃ o' : OwnedServer, o'.clients = l₁ ++ l₂ ∧ n = o'.node ∧ F' = o'.cells + K ∧
        (o.toServer s).closeConn c.addr = some (o'.toServer s') := by
  refine Ends.of_nodupKeys fun hkeys => ?_
  have hnodup := OwnedServer.addrs_nodup hkeys
  rw [h] at hnodup
  have hout := addr_notMem hnodup
  have hall : clientCells (l₁ ++ c :: l₂) none ≤ o.cells + K := by
    rw [OwnedServer.cells, h]
    exact (Multiset.le_add_right _ _).trans (Multiset.le_add_right _ _)
  have hclient : c.cells (firstAddr l₂ none) ≤ o.cells + K := by
    rw [OwnedServer.cells_split h]
    exact (Multiset.le_add_right _ _).trans (Multiset.le_add_right _ _)
  have hfuel : l₁.length ≤ (o.cells + K).card := by
    have hlen := clients_length_le hall
    rw [List.length_append] at hlen
    omega
  refine (loadClient_sees hclient).bind ?_
  rw [dropFd_eq]
  refine Sees.blockCount.bind ?_
  have hhead : Sees (readConnLink { o.node with kernel := o.node.kernel.close c.fd } .head) s
      (o.cells + K) (firstAddr (l₁ ++ c :: l₂) none) := by
    rw [← h]
    exact Sees.pure
  obtain ⟨hseek, hplace⟩ := seekConn_sees hhead hall hout hfuel
  refine hseek.bind (hplace.bind ?_)
  rw [if_pos rfl]
  refine (loadClient_sees hclient).bind ?_
  have hsplit : o.cells + K = clientCells l₁ (some c.addr) +
      (c.cells (firstAddr l₂ none) + (clientCells l₂ none + o.store.cells + K)) := by
    rw [OwnedServer.cells_split h]
    abel
  rw [hsplit]
  refine (writeConnLink_ends _ ?_ (firstAddr l₂ none)).bind ?_
  · change firstAddr o.clients none = _
    rw [h, firstAddr_append]
    rfl
  rintro n' s' F' ⟨rfl, rfl, rfl⟩
  rw [add_left_comm]
  refine (freeConn_ends c _).bind ?_
  rintro - s'' F'' ⟨rfl, rfl⟩
  refine Ends.pure ⟨{ o with clients := l₁ ++ l₂, kernel := o.kernel.close c.fd }, rfl, ?_, ?_, ?_⟩
  · rw [← firstAddr_append]
    rfl
  · rw [OwnedServer.cells, clientCells_append]
    abel
  · exact closeConn_value h hnodup

/-! ## Events -/

/-- **An event of a client socket** in memory. -/
theorem clientEvent_ends (h : o.clients = l₁ ++ c :: l₂) (e : EpollEvent) :
    Ends (clientEvent c.addr e o.node) s (o.cells + K) fun n s' F' =>
      ∃ o' : OwnedServer, n = o'.node ∧ F' = o'.cells + K ∧
        (o.toServer s).clientEvent c.addr e = some (o'.toServer s') := by
  refine Ends.of_nodupKeys fun hkeys => ?_
  have hnodup := OwnedServer.addrs_nodup hkeys
  rw [h] at hnodup
  let v : OwnedView := ⟨o.store, c.conn, o.kernel.mask c.fd⟩
  have hglobals : (⟨o.store.node, o.kernel⟩ : Globals) = v.globals o.kernel c.fd :=
    congrArg (Globals.mk o.store.node) (o.kernel.modify_mask c.fd).symm
  have hcells : ∀ v : OwnedView, v.cells c.addr c.fd (firstAddr l₂ none) +
      (clientCells l₁ (some c.addr) + clientCells l₂ none + K) =
        clientCells (l₁ ++ c.withConn v.conn :: l₂) none + v.store.cells + K := by
    intro v
    rw [clientCells_append, clientCells_cons, OwnedView.cells]
    change _ = clientCells l₁ (some c.addr) +
      (v.conn.cells c.addr c.fd (firstAddr l₂ none) + clientCells l₂ none) + v.store.cells + K
    abel
  have hstart : o.cells + K = v.cells c.addr c.fd (firstAddr l₂ none) +
      (clientCells l₁ (some c.addr) + clientCells l₂ none + K) := by
    rw [hcells, OwnedServer.cells, h]
    rfl
  rw [clientEvent]
  change Ends (netDispatch c.addr e.events e.ready.reads e.ready.ctlRead e.ready.writes
    e.ready.ctlWrite ⟨o.store.node, o.kernel⟩ >>= _) _ _ _
  rw [hglobals, hstart]
  refine Ends.bind (netDispatch_follows e.events e.ready.reads e.ready.ctlRead e.ready.writes
    e.ready.ctlWrite) ?_
  rintro ⟨stays, g⟩ s' F' ⟨v', rfl, rfl, hr⟩
  -- the server as the handlers leave it
  let o' : OwnedServer := { o with
    store := v'.store
    clients := l₁ ++ c.withConn v'.conn :: l₂
    kernel := o.kernel.modify c.fd v'.mask }
  have hput : (o.toServer s).putBack c.addr c.fd (v'.toState s') = o'.toServer s' := by
    have hchain : (o.toServer s).conns = clientChain (l₁ ++ c :: l₂) := congrArg clientChain h
    have hupdate : (clientChain (l₁ ++ c :: l₂)).update c.addr (c.withConn v'.conn).toClient =
        clientChain (l₁ ++ c.withConn v'.conn :: l₂) := clientChain_update _ rfl hnodup
    rw [Server.putBack, hchain]
    exact congrArg (fun ch => Server.mk v'.store.toTable s'.heap o.listenFd o.epollFd ch o.shutdown
      (o.kernel.modify c.fd v'.mask)) hupdate
  have hevent : (o.toServer s).clientEvent c.addr e =
      if stays then some (o'.toServer s') else (o'.toServer s').closeConn c.addr := by
    have hdata : (o.toServer s).conns.data c.addr = some c.toClient := by
      change (clientChain o.clients).data c.addr = _
      rw [h, clientChain_data_self (addr_notMem hnodup)]
    have hview : (o.toServer s).view c.toClient = v.toState s := rfl
    have hstays : stays = (RedisInC.netDispatch e.events e.ready.reads e.ready.ctlRead
        e.ready.writes e.ready.ctlWrite (v.toState s)).isOpen := (congrArg Prod.fst hr).symm
    have hstate : v'.toState s' = (RedisInC.netDispatch e.events e.ready.reads e.ready.ctlRead
        e.ready.writes e.ready.ctlWrite (v.toState s)).state := (congrArg Prod.snd hr).symm
    rw [← hput, hstate, hstays]
    simp only [Server.clientEvent, hdata, Option.bind_eq_bind, Option.bind_some, hview]
    rfl
  have hhead : firstAddr (l₁ ++ c.withConn v'.conn :: l₂) none = firstAddr o.clients none := by
    rw [h, firstAddr_append, firstAddr_append]
    rfl
  have hnode : ({ o.node with store := v'.store.node, kernel := o.kernel.modify c.fd v'.mask } :
      ServerNode) = o'.node :=
    congrArg (fun q => ServerNode.mk v'.store.node o.listenFd o.epollFd q o.shutdown
      (o.kernel.modify c.fd v'.mask)) hhead.symm
  have hblocks : (OwnedView.layout o.kernel c.addr c.fd (firstAddr l₂ none)).cells v' +
      (clientCells l₁ (some c.addr) + clientCells l₂ none + K) = o'.cells + K := hcells v'
  rw [hevent, hblocks]
  cases stays with
  | true => exact Ends.pure ⟨o', hnode, rfl, rfl⟩
  | false =>
    change Ends (closeConn c.addr { o.node with
      store := v'.store.node, kernel := o.kernel.modify c.fd v'.mask }) _ _ _
    rw [hnode]
    refine (closeConn_ends (o := o') rfl).mono ?_
    rintro n s'' F'' ⟨o'', -, rfl, rfl, hclose⟩
    exact ⟨o'', rfl, rfl, hclose⟩

/-! ## Accepting -/

/-- A client that has just been allocated, in front of the others. -/
theorem newClient_spec {a : Addr} {b : Block} (cfd : Fd)
    (hkeys : Multiset.NodupKeys (cell a b + (o.cells + K))) :
    (o.toServer s).conns.mem.lookup a = none ∧
      ∀ events, ((⟨a, cfd, .fresh events⟩ :: o.clients).map OwnedClient.addr).Nodup := by
  rw [cell, Multiset.singleton_add, ← Multiset.nodup_keys, Multiset.keys_cons,
    Multiset.nodup_cons] at hkeys
  obtain ⟨hout, hrest⟩ := hkeys
  have hnotin : a ∉ o.clients.map OwnedClient.addr := by
    refine fun hin => hout (Multiset.mem_of_le ?_ (Multiset.mem_coe.mpr hin))
    refine (addrs_le o.clients none).trans (Multiset.map_le_map ?_)
    exact (Multiset.le_add_right _ _).trans (Multiset.le_add_right _ _)
  refine ⟨Option.map_eq_none_iff.mp (clientChain_data_none hnotin), fun events => ?_⟩
  exact List.nodup_cons.mpr ⟨hnotin, OwnedServer.addrs_nodup (Multiset.nodup_keys.mp hrest)⟩

theorem cells_fresh (a : Addr) (cfd : Fd) (events : UInt32) (q : Option Addr) :
    OwnedClient.cells ⟨a, cfd, .fresh events⟩ q =
      cell a (.conn ((OwnedConn.fresh events).node cfd q)) := add_zero _

/-- **A round of `accept_clients`** in memory. -/
theorem acceptClient_ends (fd : Fresh) (nonblock ctl : Bool) :
    Ends (acceptClient fd nonblock ctl o.node) s (o.cells + K) fun n s' F' =>
      ∃ (o' : OwnedServer) (addr : Fresh), n = o'.node ∧ F' = o'.cells + K ∧
        (o.toServer s).acceptClient fd nonblock addr ctl = some (o'.toServer s') := by
  let cfd := fd.pick o.kernel.opened
  let refused : OwnedServer := { o with kernel := (o.kernel.openFd cfd).close cfd }
  rw [acceptClient]
  cases nonblock with
  | false => exact Ends.pure ⟨refused, Fresh.at 0, rfl, rfl, rfl⟩
  | true =>
    refine (malloc_ends SIZEOF_CONN).bind ?_
    rintro r s' F' (⟨hm, a, rfl, rfl⟩ | ⟨hm, rfl, rfl⟩)
    · have hgranted : (o.toServer s).heap.malloc SIZEOF_CONN = (true, s'.heap) := hm
      refine Ends.of_nodupKeys fun hkeys => ?_
      obtain ⟨hlookup, hnodup⟩ := newClient_spec (s := s') cfd hkeys
      have hpick : (Fresh.at a).pick (o.toServer s).conns.mem.keys = a :=
        if_neg fun hin => Finmap.lookup_eq_none.mp hlookup (Finmap.mem_keys.mp hin)
      have hsize : (Block.bytes ((List.range SIZEOF_CONN).map s.heap.fresh)).size = SIZEOF_CONN := by
        rw [Block.size, List.length_map, List.length_range]
      refine (put_ends rfl hsize).bind ?_
      rintro - s'' F'' ⟨rfl, rfl⟩
      refine (loadConn_sees (mem_cell_add ..)).bind ?_
      cases ctl with
      | true =>
        refine Ends.bind (put_ends rfl rfl) ?_
        rintro - s₃ F₃ ⟨rfl, rfl⟩
        have hupdate : ((clientChain o.clients).push a (Server.newClient cfd 0)).update a
            (Server.newClient cfd EPOLLIN) = clientChain (⟨a, cfd, .fresh EPOLLIN⟩ :: o.clients) :=
          @clientChain_update [] o.clients ⟨a, cfd, .fresh 0⟩ ⟨a, cfd, .fresh EPOLLIN⟩ rfl (hnodup 0)
        refine Ends.pure ⟨{ o with
          clients := ⟨a, cfd, .fresh EPOLLIN⟩ :: o.clients
          kernel := (o.kernel.openFd cfd).add cfd ⟨EPOLLIN, some a⟩ }, Fresh.at a, rfl, ?_, ?_⟩
        · rw [OwnedServer.cells, OwnedServer.cells, clientCells_cons, cells_fresh, add_assoc, add_assoc,
            add_assoc]
          rfl
        · simp only [Server.acceptClient, hgranted, hpick]
          exact congrArg (fun ch => some (Server.mk o.store.toTable s₃.heap o.listenFd o.epollFd ch
            o.shutdown ((o.kernel.openFd cfd).add cfd ⟨EPOLLIN, some a⟩))) hupdate
      | false =>
        have hblocks : cell a (.conn ⟨cfd, bytebufInit, bytebufInit, 0, false, o.node.conns⟩) +
            (o.cells + K) = OwnedClient.cells ⟨a, cfd, .fresh 0⟩ o.node.conns + (o.cells + K) := by
          rw [cells_fresh]
          rfl
        refine Ends.bind (hblocks ▸ freeConn_ends ⟨a, cfd, .fresh 0⟩ o.node.conns) ?_
        rintro - s₃ F₃ ⟨rfl, rfl⟩
        have hvalue : ((clientChain o.clients).push a (Server.newClient cfd 0)).pop a =
            some (clientChain o.clients) := clientChain_pop (hnodup 0)
        refine Ends.pure ⟨refused, Fresh.at a, rfl, rfl, ?_⟩
        simp only [Server.acceptClient, hgranted, hpick]
        change (Chain.pop ((clientChain o.clients).push a (Server.newClient cfd 0)) a).map _ = _
        rw [hvalue]
        rfl
    · have hrefused : (o.toServer s).heap.malloc SIZEOF_CONN = (false, s'.heap) := hm
      refine Ends.pure ⟨refused, Fresh.at 0, rfl, rfl, ?_⟩
      simp only [Server.acceptClient, hrefused]
      rfl

/-- **`accept_clients`** in memory: the places are those that the allocator has chosen. -/
theorem acceptClients_ends (results : List AcceptResult) :
    Ends (acceptClients results o.node) s (o.cells + K) fun n s' F' =>
      ∃ (o' : OwnedServer) (results' : List AcceptResult),
        results'.map AcceptResult.unplaced = results.map AcceptResult.unplaced ∧
        n = o'.node ∧ F' = o'.cells + K ∧
        (o.toServer s).acceptClients results' = some (o'.toServer s') := by
  induction results generalizing o s with
  | nil => exact Ends.pure ⟨o, [], rfl, rfl, rfl, rfl⟩
  | cons r rest ih =>
    cases r with
    | client fd nonblock addr ctl =>
      refine (acceptClient_ends fd nonblock ctl).bind ?_
      rintro n s₁ F₁ ⟨o₁, addr', rfl, rfl, h₁⟩
      refine ih.mono ?_
      rintro n s' F' ⟨o', results', hsame, rfl, rfl, h'⟩
      refine ⟨o', .client fd nonblock addr' ctl :: results', ?_, rfl, rfl, ?_⟩
      · rw [List.map_cons, List.map_cons, hsame]
        rfl
      · rw [Server.acceptClients, h₁]
        exact h'
    | eagain => exact Ends.pure ⟨o, .eagain :: rest, rfl, rfl, rfl, rfl⟩
    | eintr =>
      refine ih.mono ?_
      rintro n s' F' ⟨o', results', hsame, rfl, rfl, h'⟩
      refine ⟨o', .eintr :: results', ?_, rfl, rfl, h'⟩
      rw [List.map_cons, List.map_cons, hsame]
    | error => exact Ends.pure ⟨o, .error :: rest, rfl, rfl, rfl, rfl⟩

/-! ## The end -/

/-- **All connections are closed.** -/
theorem closeAll_ends {fuel fuel' : ℕ} (hfuel : o.clients.length ≤ fuel)
    (hfuel' : o.clients.length ≤ fuel') :
    Ends (closeAll fuel o.node) s (o.cells + K) fun n s' F' =>
      ∃ o' : OwnedServer, o'.clients = [] ∧ n = o'.node ∧ F' = o'.cells + K ∧
        (o.toServer s).closeAll fuel' = some (o'.toServer s') := by
  obtain ⟨l, hl⟩ : ∃ l, o.clients = l := ⟨_, rfl⟩
  induction l generalizing o s fuel fuel' with
  | nil =>
    have hhead : o.node.conns = none := congrArg (fun l => firstAddr l none) hl
    have hhead' : (o.toServer s).conns.head = none := congrArg (fun l => (clientChain l).head) hl
    rw [closeAll.eq_def]
    simp only [hhead]
    refine Ends.pure ⟨o, hl, rfl, rfl, ?_⟩
    cases fuel' with
    | zero => rw [Server.closeAll, if_pos hhead']
    | succ fuel' => simp only [Server.closeAll, hhead']
  | cons c cs ih =>
    rw [hl, List.length_cons] at hfuel hfuel'
    obtain ⟨fuel, rfl⟩ : ∃ n, fuel = n + 1 := ⟨fuel - 1, by omega⟩
    obtain ⟨fuel', rfl⟩ : ∃ n, fuel' = n + 1 := ⟨fuel' - 1, by omega⟩
    have hhead : o.node.conns = some c.addr := congrArg (fun l => firstAddr l none) hl
    have hchain : (o.toServer s).conns = clientChain (c :: cs) := congrArg clientChain hl
    refine Ends.of_nodupKeys fun hkeys => ?_
    have hnodup := OwnedServer.addrs_nodup hkeys
    rw [hl] at hnodup
    have hcells : o.cells + K = c.cells (firstAddr cs none) +
        (clientCells cs none + o.store.cells + K) := by
      rw [OwnedServer.cells, hl, clientCells_cons, add_assoc, add_assoc, add_assoc]
    rw [closeAll.eq_def, hcells]
    simp only [hhead]
    refine (loadClient_sees (Multiset.le_add_right _ _)).bind ?_
    refine (freeConn_ends c _).bind ?_
    rintro - s₁ F₁ ⟨rfl, rfl⟩
    rw [dropFd_eq]
    have hrest := @ih s₁ { o with clients := cs, kernel := o.kernel.close c.fd } fuel fuel'
      (Nat.le_of_succ_le_succ hfuel) (Nat.le_of_succ_le_succ hfuel') rfl
    refine hrest.mono ?_
    rintro n s' F' ⟨o', hnone, rfl, rfl, h'⟩
    refine ⟨o', hnone, rfl, rfl, ?_⟩
    have hfirst : (clientChain (c :: cs)).head = some c.addr := rfl
    have hdata : (clientChain (c :: cs)).data c.addr = some c.toClient :=
      @clientChain_data_self [] cs c (List.not_mem_nil)
    simp only [Server.closeAll, hchain, hfirst, hdata, Server.dropFd_eq, clientChain_pop hnodup,
      Option.bind_eq_bind, Option.bind_some]
    exact h'

/-- **What `net_run` does after the loop**, in memory. -/
theorem teardown_ends :
    Ends (teardown o.node) s (o.cells + K) fun n s' F' =>
      ∃ o' : OwnedServer, o'.clients = [] ∧ n = o'.node ∧ F' = o'.cells + K ∧
        (o.toServer s).teardown = some (o'.toServer s') := by
  refine Ends.of_nodupKeys fun hkeys => ?_
  have hholds := clientChain_holds (OwnedServer.addrs_nodup hkeys)
  have hfuel : o.clients.length ≤ (o.cells + K).card :=
    clients_length_le ((Multiset.le_add_right _ _).trans (Multiset.le_add_right _ _))
  have hfuel' : o.clients.length ≤ (o.toServer s).conns.mem.keys.card := by
    have hlen := IsList.length_le_card hholds
    rwa [List.length_map] at hlen
  refine Sees.blockCount.bind ((closeAll_ends hfuel hfuel').bind ?_)
  rintro n s' F' ⟨o₁, hnone, rfl, rfl, h₁⟩
  rw [Server.teardown, h₁]
  obtain ⟨store, listenFd, epollFd, clients, shutdown, kernel⟩ := o₁
  -- the epoll descriptor, and then the listener
  cases epollFd with
  | none =>
    cases listenFd with
    | none => exact Ends.pure ⟨⟨store, none, none, clients, shutdown, kernel⟩, hnone, rfl, rfl, rfl⟩
    | some lfd =>
      exact Ends.pure ⟨⟨store, none, none, clients, shutdown, kernel.close lfd⟩, hnone, rfl, rfl, rfl⟩
  | some efd =>
    cases listenFd with
    | none =>
      exact Ends.pure ⟨⟨store, none, none, clients, shutdown, kernel.close efd⟩, hnone, rfl, rfl, rfl⟩
    | some lfd =>
      exact Ends.pure ⟨⟨store, none, none, clients, shutdown, (kernel.close efd).close lfd⟩, hnone,
        rfl, rfl, rfl⟩

/-! ## The loop -/

variable {others : Finset Fd} {lfd efd : Fd}

/-- **The events of a batch** in memory. An event is for a connection that is there. -/
theorem handleEvents_ends (es : List EpollEvent) (hs : (o.toServer s).Sound others lfd efd)
    (hes : (o.toServer s).Pending es) :
    Ends (handleEvents es o.node) s (o.cells + K) fun n s' F' =>
      ∃ (o' : OwnedServer) (f : Ready → Ready), (∀ r, (f r).unplaced = r.unplaced) ∧
        n = o'.node ∧ F' = o'.cells + K ∧
        (o.toServer s).handleEvents (es.map (EpollEvent.withReady f)) = some (o'.toServer s') := by
  induction es generalizing o s with
  | nil => exact Ends.pure ⟨o, id, fun _ => rfl, rfl, rfl, rfl⟩
  | cons e es ih =>
    obtain ⟨hout, hnodup⟩ := List.nodup_cons.mp hes.nodup
    rw [handleEvents.eq_def]
    cases hptr : e.ptr with
    | none =>
      simp only [hptr]
      by_cases hgone : e.events &&& (EPOLLERR ||| EPOLLHUP) ≠ 0
      · rw [if_pos hgone]
        refine Ends.pure ⟨{ o with shutdown := true }, id, fun _ => rfl, rfl, rfl, ?_⟩
        simp only [List.map_cons, Server.handleEvents, EpollEvent.withReady, hptr, if_pos hgone]
        rfl
      · rw [if_neg hgone]
        refine (acceptClients_ends e.ready.accepts).bind ?_
        rintro n s₁ F₁ ⟨o₁, results', hsame, rfl, rfl, h₁⟩
        obtain ⟨s₂, hs₂, hkeeps⟩ := Server.acceptClients_keeps results' hs
        obtain rfl : o₁.toServer s₁ = s₂ := Option.some.inj (h₁.symm.trans hs₂)
        have hrest : (o₁.toServer s₁).Pending es := by
          refine ⟨hnodup, fun e' he' p hp => ?_⟩
          obtain ⟨c, hc, hfd⟩ := hes.there e' (List.mem_cons_of_mem _ he') p hp
          exact ⟨c, hkeeps.stays p c hc, hfd⟩
        refine (ih hkeeps.toSound hrest).mono ?_
        rintro n s' F' ⟨o', f, hf, rfl, rfl, h'⟩
        have hready : Ready.unplaced { e.ready with accepts := results' } = e.ready.unplaced :=
          congrArg (fun l => { e.ready with accepts := l }) hsame
        obtain ⟨g, hg, hself, hmap⟩ := exists_answer hf hready hout
        refine ⟨o', g, hg, rfl, rfl, ?_⟩
        simp only [List.map_cons, Server.handleEvents, hmap]
        simp only [EpollEvent.withReady, hptr, if_neg hgone, hself, h₁, Option.bind_some]
        exact h'
    | some p =>
      simp only [hptr]
      obtain ⟨d, hd, hdfd⟩ := hes.there e (List.mem_cons_self ..) p hptr
      obtain ⟨l₁, c, l₂, hsplit, rfl, rfl⟩ := clientChain_data_split hd
      refine (clientEvent_ends hsplit e).bind ?_
      rintro n s₁ F₁ ⟨o₁, rfl, rfl, h₁⟩
      obtain ⟨s₂, hs₂, hsound, hdata⟩ := Server.clientEvent_keeps hs hd e
      obtain rfl : o₁.toServer s₁ = s₂ := Option.some.inj (h₁.symm.trans hs₂)
      -- the other events are for other connections
      have hrest : (o₁.toServer s₁).Pending es := by
        refine ⟨hnodup, fun e' he' q hq => ?_⟩
        obtain ⟨d', hd', hfd'⟩ := hes.there e' (List.mem_cons_of_mem _ he') q hq
        refine ⟨d', ?_, hfd'⟩
        rw [hdata q, hd']
        rintro rfl
        rw [hd] at hd'
        cases hd'
        exact hout (List.mem_map.mpr ⟨e', he', hfd'.symm.trans hdfd⟩)
      refine (ih hsound hrest).mono ?_
      rintro n s' F' ⟨o', f, hf, rfl, rfl, h'⟩
      obtain ⟨g, hg, hself, hmap⟩ := exists_answer hf (Eq.refl e.ready.unplaced) hout
      have hsame : e.withReady g = e := by
        rw [EpollEvent.withReady, hself]
      refine ⟨o', g, hg, rfl, rfl, ?_⟩
      simp only [List.map_cons, Server.handleEvents, hmap, hsame, hptr, h₁, Option.bind_some]
      exact h'

/-- **The loop of `net_run`** in memory. -/
theorem netLoop_ends (turns : List Server.Turn) (hs : (o.toServer s).Sound others lfd efd) :
    Ends (netLoop turns o.node) s (o.cells + K) fun r s' F' =>
      ∃ (o' : OwnedServer) (turns' : List Server.Turn),
        turns'.map Server.Turn.unplaced = turns.map Server.Turn.unplaced ∧
        r.1 = o'.node ∧ F' = o'.cells + K ∧
        (o.toServer s).netLoop turns' = some (o'.toServer s', r.2) := by
  induction turns generalizing o s with
  | nil => exact Ends.pure ⟨o, [], rfl, rfl, rfl, rfl⟩
  | cons t turns ih =>
    obtain ⟨signal, wait⟩ := t
    -- a signal changes nothing but the flag
    obtain ⟨o₁, hnode, hserver, hcells, hsound⟩ : ∃ o₁ : OwnedServer,
        (if signal then { o.node with shutdown := true } else o.node) = o₁.node ∧
        (if signal then { o.toServer s with shutdown := true } else o.toServer s) = o₁.toServer s ∧
        o.cells = o₁.cells ∧ (o₁.toServer s).Sound others lfd efd := by
      cases signal with
      | false => exact ⟨o, rfl, rfl, rfl, hs⟩
      | true =>
        obtain ⟨⟨ps, h⟩, ha⟩ := hs
        exact ⟨{ o with shutdown := true }, rfl, rfl, rfl, ⟨ps, { h with }⟩, ha⟩
    have hstep : ∀ wait' turns', (o.toServer s).netLoop (⟨signal, wait'⟩ :: turns') =
        if o₁.shutdown then some (o₁.toServer s, true)
        else
          match wait' with
          | .events ready =>
            ((o₁.toServer s).handleEvents (o₁.kernel.wait ready)).bind (Server.netLoop turns')
          | .eintr => (o₁.toServer s).netLoop turns'
          | .error => some (o₁.toServer s, true) := by
      intro wait' turns'
      rw [Server.netLoop]
      simp only [hserver]
      rfl
    rw [netLoop]
    simp only [hnode, hcells]
    change Ends (if o₁.shutdown then _ else _) _ _ _
    by_cases hdown : o₁.shutdown = true
    · rw [if_pos hdown]
      exact Ends.pure ⟨o₁, ⟨signal, wait⟩ :: turns, rfl, rfl, rfl, (hstep _ _).trans (if_pos hdown)⟩
    · rw [if_neg hdown]
      cases wait with
      | events ready =>
        obtain ⟨ps, howns⟩ := hsound.owns
        have hpending := howns.pending ready
        refine (handleEvents_ends _ hsound hpending).bind ?_
        rintro n s₂ F₂ ⟨o₂, f, hf, rfl, rfl, h₂⟩
        have hwait : (o₁.kernel.wait ready).map (EpollEvent.withReady f) =
            o₁.kernel.wait (ready.answer f hf) := (wait_answer ..).symm
        have h₂' : (o₁.toServer s).handleEvents (o₁.kernel.wait (ready.answer f hf)) =
            some (o₂.toServer s₂) := hwait ▸ h₂
        obtain ⟨s₃, hs₃, hsound₂⟩ := Server.handleEvents_keeps _ hsound (howns.pending (ready.answer f hf))
        obtain rfl : o₂.toServer s₂ = s₃ := Option.some.inj (h₂'.symm.trans hs₃)
        refine (ih hsound₂).mono ?_
        rintro r s' F' ⟨o', turns', hsame, hr, rfl, h'⟩
        refine ⟨o', ⟨signal, .events (ready.answer f hf)⟩ :: turns', ?_, hr, rfl, ?_⟩
        · rw [List.map_cons, List.map_cons, hsame, unplaced_answer]
        · rw [hstep, if_neg hdown]
          simp only [h₂', Option.bind_some]
          exact h'
      | eintr =>
        refine (ih hsound).mono ?_
        rintro r s' F' ⟨o', turns', hsame, hr, rfl, h'⟩
        refine ⟨o', ⟨signal, .eintr⟩ :: turns', ?_, hr, rfl, ?_⟩
        · rw [List.map_cons, List.map_cons, hsame]
        · rw [hstep, if_neg hdown]
          exact h'
      | error =>
        exact Ends.pure ⟨o₁, ⟨signal, .error⟩ :: turns, rfl, rfl, rfl, (hstep _ _).trans (if_neg hdown)⟩

/-- **`net_run`** in memory: at the end there is no connection. -/
theorem netRun_ends (turns : List Server.Turn) (hs : (o.toServer s).Sound others lfd efd) :
    Ends (netRun turns o.node) s (o.cells + K) fun r s' F' =>
      ∃ (o' : OwnedServer) (turns' : List Server.Turn),
        turns'.map Server.Turn.unplaced = turns.map Server.Turn.unplaced ∧
        r.1 = o'.node ∧ F' = o'.cells + K ∧ (r.2 = true → o'.clients = []) ∧
        (o.toServer s).netRun turns' = some (o'.toServer s', r.2) := by
  refine (netLoop_ends turns hs).bind ?_
  rintro ⟨n, left⟩ s₁ F₁ ⟨o₁, turns', hsame, rfl, rfl, h₁⟩
  cases left with
  | false =>
    refine Ends.pure ⟨o₁, turns', hsame, rfl, rfl, nofun, ?_⟩
    rw [Server.netRun, h₁]
    rfl
  | true =>
    refine teardown_ends.bind ?_
    rintro n s' F' ⟨o', hnone, rfl, rfl, h'⟩
    refine Ends.pure ⟨o', turns', hsame, rfl, rfl, fun _ => hnone, ?_⟩
    simp only [Server.netRun, h₁, h', Option.bind_eq_bind, Option.bind_some, if_true]

/-! ## From the start -/

/-- The server as `net_init` leaves it, with this store. -/
def started (t : OwnedTable) (others : Finset Fd) (listen epoll : Fresh) : OwnedServer :=
  let start := RedisInC.netInit t.toTable Heap.ample others listen epoll
  ⟨t, start.listenFd, start.epollFd, [], false, start.kernel⟩

/-- `net_run`, from the start: when it has returned, there are no connections and no
descriptors. -/
theorem netRun_started_ends (t : OwnedTable) (others : Finset Fd) (listen epoll : Fresh)
    (turns : List Server.Turn) :
    Ends (netRun turns (started t others listen epoll).node) s (t.cells + K) fun r s' F' =>
      ∃ (o : OwnedServer) (turns' : List Server.Turn),
        turns'.map Server.Turn.unplaced = turns.map Server.Turn.unplaced ∧
        r.1 = o.node ∧ F' = o.cells + K ∧
        (RedisInC.netInit t.toTable s.heap others listen epoll).netRun turns' =
          some (o.toServer s', r.2) ∧
        (r.2 = true → o.clients = [] ∧ (o.toServer s').Gone others) := by
  have hstart : (started t others listen epoll).toServer s =
      RedisInC.netInit t.toTable s.heap others listen epoll := rfl
  have hsound : ((started t others listen epoll).toServer s).Sound others (listen.pick others)
      (epoll.pick (insert (listen.pick others) others)) := by
    rw [hstart]
    refine ⟨⟨[], Server.owns_netInit ..⟩, fun p c hc => ?_⟩
    cases hc
  have hcells : t.cells + K = (started t others listen epoll).cells + K :=
    congrArg (· + K) (zero_add t.cells).symm
  rw [hcells]
  refine (netRun_ends turns hsound).mono ?_
  rintro ⟨n, left⟩ s' F' ⟨o, turns', hsame, rfl, rfl, hnone, hrun⟩
  rw [hstart] at hrun
  refine ⟨o, turns', hsame, rfl, rfl, hrun, ?_⟩
  rintro rfl
  obtain ⟨sv, left, hvalue, -, hgone⟩ :=
    Server.netRun_sound t.toTable s.heap others listen epoll turns'
  obtain ⟨rfl, rfl⟩ := Prod.ext_iff.mp (Option.some.inj (hvalue.symm.trans hrun))
  exact ⟨hnone rfl, hgone rfl⟩

/-- The blocks of a server without connections. -/
theorem cells_of_no_clients (h : o.clients = []) : o.cells = o.store.cells := by
  rw [OwnedServer.cells, h]
  exact zero_add _

/-- **The server in memory.** Whoever connects, whatever the clients send, whatever system
calls fail and whatever requests the allocator refuses, from any store: `net_run` never touches
a block that is not there. It does what it does on values, with connections in some places; the
blocks are those of the store and of the connections; once it has returned, those of the store
are left, and no descriptor is open that has not been before. `ht_destroy` frees the rest. -/
theorem server_in_memory (t : OwnedTable) (others : Finset Fd) (listen epoll : Fresh)
    (turns : List Server.Turn) :
    Ends (netRun turns (started t others listen epoll).node) s (t.cells + K) fun r s' F' =>
      ∃ (o : OwnedServer) (turns' : List Server.Turn),
        turns'.map Server.Turn.unplaced = turns.map Server.Turn.unplaced ∧
        r.1 = o.node ∧ F' = o.cells + K ∧
        (RedisInC.netInit t.toTable s.heap others listen epoll).netRun turns' =
          some (o.toServer s', r.2) ∧
        (r.2 = true → F' = o.store.cells + K ∧ (o.toServer s').Gone others ∧
          Ends (htDestroy r.1.store) s' F' fun _ _ F'' => F'' = K) := by
  refine (netRun_started_ends t others listen epoll turns).mono ?_
  rintro ⟨n, left⟩ s' F' ⟨o, turns', hsame, rfl, rfl, hrun, hleft⟩
  refine ⟨o, turns', hsame, rfl, rfl, hrun, fun hreturned => ?_⟩
  obtain ⟨hnone, hgone⟩ := hleft hreturned
  rw [cells_of_no_clients hnone]
  refine ⟨rfl, hgone, (htDestroy_ends rfl).mono ?_⟩
  rintro - s'' F'' ⟨-, rfl, -⟩
  rfl

end Raw

end RedisInC
