import RedisInC.Serving

/-!
# What has happened on all connections

A connection keeps the record of what has happened on it, but `close_conn` frees it with
the rest. Here the record of a whole run is put together, from the same calls: it has
every connection that has been accepted, those that are closed again included.

* `Occurrence`, `Record` — the record.
* `recordAccept`, `recordClient`, `recordLoop`, `recordCloseAll`, `record` — the functions
  of the event loop once more, for what they add to it. Where they go on from is what the
  functions themselves come to.
* `traceOf`, `requests`, `servedTo` — what can be read off it.
* `Occurrence.Enacts` — which action of the service an occurrence is.
* `Known` — every connection on record has been accepted, once and under the next number.

The record is a ghost, as those of the connections are.
-/

namespace RedisInC

open LinkedList Transition Service

/-- What happens to a connection. -/
inductive Occurrence : Type
  /-- it has been accepted -/
  | accepted
  /-- its own record has this event -/
  | event (e : NetEvent)
  /-- it has been closed -/
  | closed

/-- What has happened on all connections. They go by number, in the order in which they
were accepted. -/
structure Record where
  /-- how many there have been -/
  count : ℕ
  /-- the numbers of those in memory -/
  num : Ptr → ℕ
  /-- what has happened, and to which of them -/
  log : List (ℕ × Occurrence)

namespace Record

/-- Before the first connection. -/
def empty : Record := ⟨0, fun _ => 0, []⟩

/-- A connection is accepted. -/
def accept (r : Record) (p : Ptr) : Record :=
  ⟨r.count + 1, Function.update r.num p r.count, r.log ++ [(r.count, .accepted)]⟩

/-- These events are new on the record of a connection. -/
def add (r : Record) (p : Ptr) (es : List NetEvent) : Record :=
  { r with log := r.log ++ es.map fun e => (r.num p, .event e) }

/-- A connection is closed. -/
def close (r : Record) (p : Ptr) : Record := { r with log := r.log ++ [(r.num p, .closed)] }

/-- An event of a connection has been handled, and it may have been closed then. -/
def handled (r : Record) (p : Ptr) (es : List NetEvent) (isOpen : Bool) : Record :=
  if isOpen then r.add p es else (r.add p es).close p

end Record

namespace Server

/-! ## The functions of the event loop -/

/-- A round of `accept_clients`, with a client: whether there is a connection after it. -/
def recordAccept (nonblock : Bool) (addr : Fresh) (ctl : Bool) (s : Server) (r : Record) :
    Record :=
  if nonblock && (s.heap.malloc SIZEOF_CONN).1 && ctl then r.accept (addr.pick s.conns.mem.keys)
  else r

/-- `accept_clients` -/
def recordAccepts : List AcceptResult → Server → Record → Record
  | [], _, r => r
  | .client fd nonblock addr ctl :: rest, s, r =>
    (s.acceptClient fd nonblock addr ctl).elim r fun s' =>
      recordAccepts rest s' (s.recordAccept nonblock addr ctl r)
  | .eagain :: _, _, r => r
  | .eintr :: rest, s, r => recordAccepts rest s r
  | .error :: _, _, r => r

/-- The part of `net_run` for an event of a client socket. -/
def recordClient (p : Ptr) (e : EpollEvent) (s : Server) (r : Record) : Record :=
  (s.conns.data p).elim r fun client =>
    let run := netDispatch e.events e.ready.reads e.ready.ctlRead e.ready.writes e.ready.ctlWrite
      (s.view client)
    r.handled p (run.state.trace.drop client.trace.length) run.isOpen

/-- The events of one batch. -/
def recordEvents : List EpollEvent → Server → Record → Record
  | [], _, r => r
  | e :: es, s, r =>
    match e.ptr with
    | none =>
      if e.events &&& (EPOLLERR ||| EPOLLHUP) ≠ 0 then r
      else (s.acceptClients e.ready.accepts).elim r fun s' =>
        recordEvents es s' (s.recordAccepts e.ready.accepts r)
    | some p => (s.clientEvent p e).elim r fun s' => recordEvents es s' (s.recordClient p e r)

/-- The loop of `net_run`. -/
def recordLoop : List Turn → Server → Record → Record
  | [], _, r => r
  | t :: turns, s, r =>
    let s := if t.signal then { s with shutdown := true } else s
    if s.shutdown then r
    else
      match t.wait with
      | .events ready =>
        (s.handleEvents (s.kernel.wait ready)).elim r fun s' =>
          recordLoop turns s' (s.recordEvents (s.kernel.wait ready) r)
      | .eintr => recordLoop turns s r
      | .error => r

/-- Close all connections. -/
def recordCloseAll : ℕ → Server → Record → Record
  | 0, _, r => r
  | fuel + 1, s, r =>
    s.conns.head.elim r fun p =>
      (s.conns.data p).elim r fun client =>
        let s := s.dropFd client.fd
        (s.conns.pop p).elim r fun conns =>
          recordCloseAll fuel { s with conns := conns } (r.close p)

/-- `net_run` -/
def record (turns : List Turn) (s : Server) : Record :=
  (s.netLoop turns).elim .empty fun end_ =>
    let r := s.recordLoop turns .empty
    if end_.2 then end_.1.recordCloseAll end_.1.conns.mem.keys.card r else r

end Server

/-! ## What can be read off the record -/

/-- The event of an occurrence. -/
def Occurrence.events : Occurrence → List NetEvent
  | .event e => [e]
  | _ => []

/-- A connection has been accepted. -/
def Occurrence.isAccepted : Occurrence → Bool
  | .accepted => true
  | _ => false

/-- The service knows of this occurrence. -/
def Occurrence.visible : Occurrence → Bool
  | .event e => e.visible
  | _ => true

/-- The request of an event, if one was executed. -/
def NetEvent.request : NetEvent → List (List Bytes)
  | .served _ req _ => [req.argv]
  | .dropped _ req _ => [req.argv]
  | _ => []

/-- The request of an event, if one was executed and answered in full. -/
def NetEvent.servedRequest : NetEvent → List (List Bytes)
  | .served _ req _ => [req.argv]
  | _ => []

namespace Record

/-- The record of one connection. -/
def traceOf (r : Record) (n : ℕ) : List NetEvent :=
  r.log.flatMap fun x => if x.1 = n then x.2.events else []

/-- All requests that were executed, in order. -/
def requests (r : Record) : List (List Bytes) :=
  r.log.flatMap fun x => x.2.events.flatMap NetEvent.request

/-- The requests of one connection that were answered in full, in order. -/
def servedTo (r : Record) (n : ℕ) : List (List Bytes) :=
  (r.traceOf n).flatMap NetEvent.servedRequest

/-- The numbers of the connections that were accepted, in order. -/
def accepted (r : Record) : List ℕ := r.log.flatMap fun x => if x.2.isAccepted then [x.1] else []

/-- All the service knows of. -/
def visible (r : Record) : List (ℕ × Occurrence) := r.log.filter fun x => x.2.visible

end Record

/-- **An occurrence is this action of the service.** -/
inductive Occurrence.Enacts : ℕ × Occurrence → Action → Prop
  /-- a connection that is accepted is a client -/
  | accepted (n : ℕ) : Enacts (n, .accepted) .connect
  /-- what happens on it -/
  | event {n : ℕ} {e : NetEvent} {a : Action} (enacts : e.Enacts n a) : Enacts (n, .event e) a
  /-- the client is disconnected when it is closed -/
  | closed (n : ℕ) : Enacts (n, .closed) (.disconnect n)

/-- **These are the actions on record**, one for each occurrence, in order. -/
def Record.Enacts (r : Record) (as : List Action) : Prop :=
  List.Forall₂ Occurrence.Enacts r.visible as

namespace Record

variable {r : Record} {as : List Action}

theorem enacts_empty : Record.empty.Enacts [] := .nil

@[simp] theorem accept_num (p : Ptr) : (r.accept p).num = Function.update r.num p r.count := rfl

theorem Enacts.accept (h : r.Enacts as) (p : Ptr) : (r.accept p).Enacts (as ++ [.connect]) := by
  rw [Enacts, visible, Record.accept, List.filter_append]
  exact List.rel_append h (.cons (.accepted r.count) .nil)

theorem Enacts.close (h : r.Enacts as) (p : Ptr) :
    (r.close p).Enacts (as ++ [.disconnect (r.num p)]) := by
  rw [Enacts, visible, Record.close, List.filter_append]
  exact List.rel_append h (.cons (.closed (r.num p)) .nil)

theorem Enacts.add (h : r.Enacts as) {p : Ptr} {es : List NetEvent} {new : List Action}
    (hnew : List.Forall₂ (NetEvent.Enacts (r.num p)) (es.filter NetEvent.visible) new) :
    (r.add p es).Enacts (as ++ new) := by
  rw [Enacts, visible, Record.add, List.filter_append]
  refine List.rel_append h ?_
  rw [List.filter_map, List.forall₂_map_left_iff]
  exact hnew.imp fun e a he => .event he

theorem Enacts.handled (h : r.Enacts as) {p : Ptr} {es : List NetEvent} {new : List Action}
    (hnew : List.Forall₂ (NetEvent.Enacts (r.num p)) (es.filter NetEvent.visible) new)
    (isOpen : Bool) : (r.handled p es isOpen).Enacts (as ++ (new ++ ending (r.num p) isOpen)) := by
  rw [← List.append_assoc]
  cases isOpen with
  | true =>
    rw [ending, if_pos rfl, List.append_nil]
    exact h.add hnew
  | false => exact (h.add hnew).close p

/-! ## The actions on record -/

/-- What the visible occurrences say is what all of them say, if the others say nothing. -/
theorem flatMap_visible {β : Type} (f : ℕ × Occurrence → List β)
    (hf : ∀ x : ℕ × Occurrence, x.2.visible = false → f x = []) :
    r.visible.flatMap f = r.log.flatMap f := by
  rw [visible]
  induction r.log with
  | nil => rfl
  | cons x log ih =>
    rw [List.filter_cons, List.flatMap_cons]
    split
    · rw [List.flatMap_cons, ih]
    · next hx => rw [hf x (Bool.eq_false_of_not_eq_true hx), List.nil_append, ih]

/-- Where every occurrence says what its action says, the record says what the actions say. -/
theorem Enacts.flatMap_eq {β : Type} (h : r.Enacts as) {f : ℕ × Occurrence → List β}
    {g : Action → List β} (hsame : ∀ x a, Occurrence.Enacts x a → g a = f x)
    (hf : ∀ x : ℕ × Occurrence, x.2.visible = false → f x = []) :
    as.flatMap g = r.log.flatMap f := by
  rw [← flatMap_visible f hf]
  rw [Enacts] at h
  generalize r.visible = log at h
  induction h with
  | nil => rfl
  | cons hx rest ih => rw [List.flatMap_cons, List.flatMap_cons, hsame _ _ hx, ih]

/-- An event that is not visible says nothing of any request, and no bytes come or go. -/
theorem nothing_of_invisible {e : NetEvent} (h : e.visible = false) :
    e.request = [] ∧ e.servedRequest = [] ∧ e.readPart = [] ∧ e.wrotePart = [] := by
  cases e with
  | eof => exact ⟨rfl, rfl, rfl, rfl⟩
  | readError => exact ⟨rfl, rfl, rfl, rfl⟩
  | refused msg => exact ⟨rfl, rfl, rfl, rfl⟩
  | _ => cases h

/-- **The requests executed are those on record.** -/
theorem Enacts.requests_eq (h : r.Enacts as) : (executedIn as).map Prod.fst = r.requests := by
  rw [executedIn, List.map_flatMap, requests]
  refine h.flatMap_eq ?_ ?_
  · intro x a hx
    cases hx with
    | accepted n => rfl
    | closed n => rfl
    | event enacts =>
      cases enacts with
      | _ => rfl
  · rintro ⟨n, o⟩ hx
    cases o with
    | accepted => rfl
    | closed => rfl
    | event e =>
      obtain ⟨hrequest, -⟩ := nothing_of_invisible hx
      exact (List.append_nil _).trans hrequest

/-- Where every event of one connection says what its action says, so does its record. -/
theorem Enacts.traceOf_eq {β : Type} (h : r.Enacts as) (n : ℕ) {f : NetEvent → List β}
    {g : Action → List β} (hconnect : g .connect = []) (hclosed : ∀ k, g (.disconnect k) = [])
    (hevent : ∀ k e a, NetEvent.Enacts k e a → g a = if k = n then f e else [])
    (hf : ∀ e : NetEvent, e.visible = false → f e = []) :
    as.flatMap g = (r.traceOf n).flatMap f := by
  rw [traceOf, List.flatMap_assoc]
  refine h.flatMap_eq ?_ ?_
  · intro x a hx
    cases hx with
    | accepted k =>
      rw [hconnect]
      exact (congrArg (List.flatMap f) (ite_self [])).symm
    | closed k =>
      rw [hclosed]
      exact (congrArg (List.flatMap f) (ite_self [])).symm
    | @event k e a enacts =>
      rw [hevent k e a enacts]
      split
      · exact (List.append_nil _).symm
      · rfl
  · rintro ⟨k, o⟩ hx
    dsimp only
    split
    · cases o with
      | accepted => rfl
      | closed => rfl
      | event e => exact (List.append_nil _).trans (hf e hx)
    · rfl

/-- The requests a client is answered are those that were served to it. -/
theorem Enacts.answered_eq (h : r.Enacts as) (n : ℕ) :
    (answeredTo n as).map Prod.fst = r.servedTo n := by
  rw [answeredTo, List.map_flatMap]
  refine h.traceOf_eq n rfl (fun _ => rfl) ?_ fun e he => (nothing_of_invisible he).2.1
  intro k e a hea
  cases hea with
  | served frame req encode_eq =>
    rw [Action.answered]
    split
    · rfl
    · rfl
  | _ => exact (ite_self []).symm

/-- What a client is taken to have sent is what was read from it. -/
theorem Enacts.received_eq (h : r.Enacts as) (n : ℕ) :
    as.flatMap (Action.receivedPart n) = readBytes (r.traceOf n) := by
  refine h.traceOf_eq n rfl (fun _ => rfl) ?_ fun e he => (nothing_of_invisible he).2.2.1
  intro k e a hea
  cases hea with
  | read bytes => rfl
  | _ => exact (ite_self []).symm

/-- What is sent to a client is what was written to it. -/
theorem Enacts.sent_eq (h : r.Enacts as) (n : ℕ) :
    as.flatMap (Action.sentPart n) = wroteBytes (r.traceOf n) := by
  refine h.traceOf_eq n rfl (fun _ => rfl) ?_ fun e he => (nothing_of_invisible he).2.2.2
  intro k e a hea
  cases hea with
  | wrote bytes => rfl
  | _ => exact (ite_self []).symm

/-! ## The connections on record -/

/-- Every connection on record has been accepted, once and under the next number. -/
structure Known (r : Record) : Prop where
  /-- nothing has happened yet to those that have not come -/
  lt_count : ∀ x ∈ r.log, x.1 < r.count
  /-- those that have come have their numbers in order -/
  accepted_eq : r.accepted = List.range r.count

theorem known_empty : Record.empty.Known := ⟨fun _ hx => absurd hx List.not_mem_nil, rfl⟩

theorem Known.accept (h : r.Known) (p : Ptr) : (r.accept p).Known := by
  constructor
  · refine List.forall_mem_append.mpr ⟨fun x hx => Nat.lt_succ_of_lt (h.lt_count x hx), ?_⟩
    exact List.forall_mem_singleton.mpr (Nat.lt_succ_self _)
  · rw [accepted, Record.accept, List.flatMap_append, List.range_succ, ← h.accepted_eq]
    rfl

theorem Known.add (h : r.Known) {p : Ptr} (hp : r.num p < r.count) (es : List NetEvent) :
    (r.add p es).Known := by
  constructor
  · exact List.forall_mem_append.mpr ⟨h.lt_count, List.forall_mem_map.mpr fun e _ => hp⟩
  · refine Eq.trans ?_ h.accepted_eq
    rw [accepted, Record.add, List.flatMap_append, List.flatMap_map]
    have hnone : es.flatMap (fun e => if (Occurrence.event e).isAccepted then [r.num p] else []) =
        [] := List.flatMap_eq_nil_iff.mpr fun e _ => rfl
    rw [hnone, List.append_nil, accepted]

theorem Known.close (h : r.Known) {p : Ptr} (hp : r.num p < r.count) : (r.close p).Known := by
  constructor
  · exact List.forall_mem_append.mpr ⟨h.lt_count, List.forall_mem_singleton.mpr hp⟩
  · refine Eq.trans ?_ h.accepted_eq
    rw [accepted, Record.close, List.flatMap_append]
    exact List.append_nil _

theorem Known.traceOf_count (h : r.Known) : r.traceOf r.count = [] := by
  rw [traceOf, List.flatMap_eq_nil_iff]
  exact fun x hx => if_neg (Nat.ne_of_lt (h.lt_count x hx))

/-- What is no event is not on the record of one connection. -/
theorem traceOf_quiet {x : ℕ × Occurrence} (hx : x.2.events = []) (n : ℕ) :
    (Record.mk r.count r.num (r.log ++ [x])).traceOf n = r.traceOf n := by
  rw [traceOf, List.flatMap_append, List.flatMap_singleton, hx, ite_self, List.append_nil, traceOf]

theorem traceOf_accept (p : Ptr) (n : ℕ) : (r.accept p).traceOf n = r.traceOf n :=
  traceOf_quiet rfl n

theorem traceOf_close (p : Ptr) (n : ℕ) : (r.close p).traceOf n = r.traceOf n :=
  traceOf_quiet rfl n

theorem traceOf_add_self (p : Ptr) (es : List NetEvent) :
    (r.add p es).traceOf (r.num p) = r.traceOf (r.num p) ++ es := by
  rw [traceOf, Record.add, List.flatMap_append, traceOf, List.flatMap_map]
  congr 1
  simp only [if_true, Occurrence.events]
  exact List.flatMap_singleton' es

theorem traceOf_add_ne {p : Ptr} {n : ℕ} (h : n ≠ r.num p) (es : List NetEvent) :
    (r.add p es).traceOf n = r.traceOf n := by
  rw [traceOf, Record.add, List.flatMap_append, traceOf, List.flatMap_map]
  simp [Ne.symm h]

section Handled

variable (p : Ptr) (es : List NetEvent) (isOpen : Bool)

@[simp] theorem handled_num : (r.handled p es isOpen).num = r.num := by
  cases isOpen with
  | true => rfl
  | false => rfl

@[simp] theorem handled_count : (r.handled p es isOpen).count = r.count := by
  cases isOpen with
  | true => rfl
  | false => rfl

theorem traceOf_handled (n : ℕ) :
    (r.handled p es isOpen).traceOf n = (r.add p es).traceOf n := by
  cases isOpen with
  | true => rfl
  | false => exact traceOf_close p n

variable {p}

theorem Known.handled (h : r.Known) (hp : r.num p < r.count) : (r.handled p es isOpen).Known := by
  cases isOpen with
  | true => exact h.add hp es
  | false => exact (h.add hp es).close hp

end Handled

end Record

end RedisInC
