import RedisInC.Ownership
import RedisInC.Readback
import RedisInC.Service

/-!
# A connection is a client of the service

What the handlers of a connection do is a run of the service: what is read is received,
what is served is executed, what is written is sent, in the same order. The events on the
record of the connection are the actions of the service.

* `peerOf`, `NetState.shown` — what the service sees of a connection.
* `NetEvent.Enacts` — which action of the service an event on the record is.
* `execute_executes` — executing a request, under every pattern of allocation failures.
* `ReadCall.follows`, `WriteCall.follows` — the handlers.
* `netDispatch_follows` — an event of a client socket.
-/

namespace RedisInC

open Bytebuf Transition Service

/-! ## One connection -/

/-- A connection as the service sees it. -/
def peerOf (conn : Conn) (trace : List NetEvent) (gone : Bool) : Peer where
  received := readBytes trace
  pending := conn.inBuf.live
  sent := wroteBytes trace
  unsent := conn.outBuf.live
  closing := conn.closeAfterDrain
  gone := gone

/-- A connection that is client `n` among the others. -/
def NetState.shown (s : NetState) (ps : List Peer) (n : ℕ) (gone starved : Bool) : Service :=
  ⟨s.store.toMap, ps.set n (peerOf s.conn s.trace gone), starved⟩

/-- A connection at work: its buffers and the store are in order, and if a request has
been refused for want of memory, then memory has run short. -/
structure Settled (s : NetState) (starved : Bool) : Prop extends Buffers s where
  store_inv : s.store.Inv
  store_fits : s.store.Fits
  failed : starved = true → s.heap.failed = true

/-- What the service is asked for: client `n` is there. -/
theorem peer_shown (s : NetState) {ps : List Peer} {n : ℕ} (hn : n < ps.length)
    (gone starved : Bool) :
    (s.shown ps n gone starved).peers[n]? = some (peerOf s.conn s.trace gone) :=
  List.getElem?_set_self hn

/-- Nothing can be read off malformed input any more. -/
theorem hopeless_of_protocolErr {input : Bytes} (h : respParseRequest input = .protocolErr) :
    Hopeless input := by
  rintro t argv text hframe ⟨rest, hrest⟩
  obtain ⟨slices, hparse, -⟩ := respParseRequest_frame hframe rest
  rw [hrest, respParseRequest_append (by rw [h]; simp) t, h] at hparse
  cases hparse

/-- **Executing a request** is what the service calls executing it. -/
theorem execute_executes {s : NetState} {req : RespRequest} {ps : List Peer} {n : ℕ}
    {starved : Bool} (hs : Settled s starved)
    (hparse : respParseRequest s.conn.inBuf.live = .ok req) :
    ∃ r starved',
      (s.shown ps n false starved).Executes req.argv r (s.execute req).2.store.toMap starved' ∧
      s.appended req <+: r.encode ∧ ((s.execute req).1 = 0 → s.appended req = r.encode) ∧
      (s.execute req).2.store.Inv ∧ (s.execute req).2.store.Fits ∧
      (starved' = true → (s.execute req).2.heap.failed = true) := by
  obtain ⟨hmap, hreply⟩ := replyTo_refines hs.store_inv hs.store_fits (callOf hparse)
  change (replyTo s.store req).1.toMap = _ at hmap
  change (refStep s.store.toMap req.argv).2 (replyTo s.store req).2 at hreply
  have hanswered := @commandExecute_answered ⟨s.store, s.conn.outBuf, s.heap⟩ req hs.out_inv
  have hmono := @commandExecute_failed_mono ⟨s.store, s.conn.outBuf, s.heap⟩ req hs.out_inv
  rw [NetState.appended, NetState.execute]
  generalize commandExecute ⟨s.store, s.conn.outBuf, s.heap⟩ req = res at hanswered hmono ⊢
  -- what is appended is a part of the reply, and all of it if the result is 0
  have hpart : ∀ {text : Bytes} {h : Heap} {r : Int × Bytebuf × Heap},
      AppendOutcome s.conn.outBuf text h r →
      r.2.1.live.drop s.conn.outBuf.live.length <+: text ∧
        (r.1 = 0 → r.2.1.live.drop s.conn.outBuf.live.length = text) := by
    intro text h r hr
    cases hr with
    | done inv live_eq failed_eq ample =>
      rw [live_eq, List.drop_left]
      exact ⟨List.prefix_rfl, fun _ => rfl⟩
    | short inv is_part live_eq refused ample =>
      rw [live_eq, List.drop_left]
      exact ⟨is_part, fun hrc => absurd hrc (show (-1 : ℤ) ≠ 0 by decide)⟩
  cases hanswered with
  | served failed_eq ample fits outcome =>
    obtain ⟨hshare, hfull⟩ := hpart outcome
    refine ⟨_, starved, ?_, hshare, hfull, replyTo_inv hs.store_inv req,
      fits hs.store_inv hs.store_fits, fun hst => ?_⟩
    · change Executes _ _ _ (replyTo s.store req).1.toMap _
      rw [hmap]
      exact .done hreply
    · by_contra hf
      have hbefore := hmono (Bool.eq_false_of_not_eq_true hf)
      rw [hs.failed hst] at hbefore
      cases hbefore
  | @oom h r failed notSized outcome =>
    obtain ⟨hshare, hfull⟩ := hpart outcome
    refine ⟨_, true, .starved, hshare, hfull, hs.store_inv, hs.store_fits, fun _ => ?_⟩
    by_contra hf
    have hbefore := outcome.failed_mono (Bool.eq_false_of_not_eq_true hf)
    rw [failed] at hbefore
    cases hbefore

/-! ## The record and the actions -/

/-- **An event on the record of client `n` is this action of the service.** -/
inductive NetEvent.Enacts (n : ℕ) : NetEvent → Action → Prop
  /-- what is read is received -/
  | read (bytes : Bytes) : Enacts n (.read bytes) (.receive n bytes)
  /-- a request that is served is executed, with this reply -/
  | served (frame : Bytes) (req : RespRequest) {r : Reply} {reply : Bytes}
      (encode_eq : r.encode = reply) :
      Enacts n (.served frame req reply) (.execute n req.argv r)
  /-- a request that is dropped is executed, with a part of this reply -/
  | dropped (frame : Bytes) (req : RespRequest) {r : Reply} {part : Bytes}
      (is_part : part <+: r.encode) :
      Enacts n (.dropped frame req part) (.abandon n req.argv r)
  /-- an error outside any request -/
  | errorReply (complete : Bool) {msg part : Bytes} (is_part : part <+: (Reply.error msg).encode) :
      Enacts n (.errorReply complete part) (.complain n msg)
  /-- what is written is sent -/
  | wrote (bytes : Bytes) : Enacts n (.wrote bytes) (.send n bytes)

/-- The service knows of this event. How reading ends it does not know. -/
def NetEvent.visible : NetEvent → Bool
  | .eof => false
  | .readError => false
  | .refused _ => false
  | _ => true

/-- The end of a connection, if it has been closed. -/
def ending (n : ℕ) (isOpen : Bool) : List Action := if isOpen then [] else [.disconnect n]

/-- A connection, open or not, stands for a state of the service, and what has come on its
record since `before` for the actions that have come since `prior`. -/
def NetRun.Shows (ps : List Peer) (n : ℕ) (before : List NetEvent) (prior : List Action)
    (r : NetRun) (past : List Action) (v : Service) : Prop :=
  ∃ starved es new, Settled r.state starved ∧ v = r.state.shown ps n (!r.isOpen) starved ∧
    r.state.trace = before ++ es ∧ past = prior ++ (new ++ ending n r.isOpen) ∧
    List.Forall₂ (NetEvent.Enacts n) (es.filter NetEvent.visible) new

theorem stays_open {v v' : Service} {as : List Action} {n : ℕ}
    (h : system.Run v as v') : system.Run v (as ++ ending n true) v' := by
  rwa [ending, if_pos rfl, List.append_nil]

theorem ReadEnd.mark_visible (stop : ReadEnd) : stop.mark.filter NetEvent.visible = [] := by
  cases stop with
  | drained => rfl
  | refused msg => rfl
  | eof => rfl
  | error => rfl

/-- Chunks are received one by one. -/
theorem enacts_reads (n : ℕ) (chunks : List Bytes) :
    List.Forall₂ (NetEvent.Enacts n) ((chunks.map NetEvent.read).filter NetEvent.visible)
      (chunks.map (Action.receive n)) := by
  induction chunks with
  | nil => exact .nil
  | cons c chunks ih => exact .cons (.read c) ih

/-- Pieces are sent one by one. -/
theorem enacts_wrote (n : ℕ) (pieces : List Bytes) :
    List.Forall₂ (NetEvent.Enacts n) ((pieces.map NetEvent.wrote).filter NetEvent.visible)
      (pieces.map (Action.send n)) := by
  induction pieces with
  | nil => exact .nil
  | cons c pieces ih => exact .cons (.wrote c) ih

section Handlers

variable {s s' s₁ : NetState} {ps : List Peer} {n : ℕ} {before : List NetEvent}
  {prior : List Action} {isOpen : Bool}

/-- A failure on record stays on record. -/
theorem Settled.failed_of_mono {starved : Bool} (hs : Settled s starved)
    (hmono : s'.heap.failed = false → s.heap.failed = false) (h : starved = true) :
    s'.heap.failed = true := by
  by_contra hf
  have hbefore := hmono (Bool.eq_false_of_not_eq_true hf)
  rw [hs.failed h] at hbefore
  cases hbefore

/-- A handler does what is a run of the service for client `n`: it leaves these events on
the record, and they are these actions. -/
theorem follows_run
    (h : ∀ starved, Settled s starved → ∃ es new map q starved',
      system.Run (s.shown ps n false starved) (new ++ ending n isOpen)
        ⟨map, (s.shown ps n false starved).peers.set n q, starved'⟩ ∧
      s'.trace = s.trace ++ es ∧
      List.Forall₂ (NetEvent.Enacts n) (es.filter NetEvent.visible) new ∧
      map = s'.store.toMap ∧ q = peerOf s'.conn s'.trace (!isOpen) ∧ Settled s' starved') :
    Follows system (NetRun.Shows ps n before prior) ⟨s, true⟩ ⟨s', isOpen⟩ := by
  rintro past v ⟨starved, es, new, hs, rfl, htrace, rfl, henacts⟩
  obtain ⟨es', new', map, q, starved', hrun, htrace', henacts', rfl, rfl, hs'⟩ := h starved hs
  rw [NetState.shown, List.set_set] at hrun
  refine ⟨_, _, hrun, starved', es ++ es', new ++ new', hs', rfl, ?_, ?_, ?_⟩
  · have heq : s.trace = before ++ es := htrace
    change s'.trace = before ++ (es ++ es')
    rw [htrace', heq, List.append_assoc]
  · rw [show ending n (NetRun.mk s true).isOpen = [] from rfl]
    simp only [List.append_nil, List.append_assoc]
  · rw [List.filter_append]
    exact List.rel_append henacts henacts'

/-- One event, which is one step of the service. -/
theorem follows_step
    (h : ∀ starved, Settled s starved → ∃ e a map q starved',
      Step (s.shown ps n false starved) a
        ⟨map, (s.shown ps n false starved).peers.set n q, starved'⟩ ∧
      s'.trace = s.trace ++ [e] ∧ e.visible = true ∧ e.Enacts n a ∧
      map = s'.store.toMap ∧ q = peerOf s'.conn s'.trace false ∧ Settled s' starved') :
    Follows system (NetRun.Shows ps n before prior) ⟨s, true⟩ ⟨s', true⟩ := by
  refine follows_run fun starved hs => ?_
  obtain ⟨e, a, map, q, starved', hstep, htrace, hvisible, henacts, hmap, hq, hs'⟩ := h starved hs
  refine ⟨[e], [a], map, q, starved', .single hstep, htrace, ?_, hmap, hq, hs'⟩
  rw [List.filter_cons_of_pos hvisible]
  exact .cons henacts .nil

/-- A handler does what the service does not see. -/
theorem follows_silent (hstore : s'.store = s.store) (hheap : s'.heap = s.heap)
    (htrace : s'.trace = s.trace)
    (hpeer : peerOf s'.conn s'.trace false = peerOf s.conn s.trace false)
    (hin : s'.conn.inBuf = s.conn.inBuf) (hout : s'.conn.outBuf = s.conn.outBuf) :
    Follows system (NetRun.Shows ps n before prior) ⟨s, true⟩ ⟨s', true⟩ := by
  refine .silent ?_
  rintro past v ⟨starved, es, new, ⟨⟨hi, ho⟩, hinv, hfits, hfailed⟩, rfl, hes, hpast, henacts⟩
  refine ⟨starved, es, new,
    ⟨⟨hin ▸ hi, hout ▸ ho⟩, hstore ▸ hinv, hstore ▸ hfits, hheap ▸ hfailed⟩, ?_,
    htrace.trans hes, hpast, henacts⟩
  rw [NetState.shown, NetState.shown, hstore]
  exact congrArg (fun p => (⟨s.store.toMap, ps.set n p, starved⟩ : Service)) hpeer.symm

theorem Adjusted.follows {ctl : Bool} {r : Int × NetState} (hr : Adjusted s ctl r) :
    Follows system (NetRun.Shows ps n before prior) ⟨s, true⟩ ⟨r.2, true⟩ := by
  rw [hr.state_eq]
  exact follows_silent rfl rfl rfl rfl rfl rfl

/-- Reading does not wind a connection down. -/
theorem ReadOutcome.normal {script : List ReadResult} {chunks : List Bytes} {stop : ReadEnd}
    (hr : ReadOutcome s script chunks (stop, s₁)) (hopen : s.conn.closeAfterDrain = false) :
    s₁.conn.closeAfterDrain = false := by
  have hconn : s₁.conn = { s.conn with inBuf := s₁.conn.inBuf } := hr.conn_eq
  rw [hconn]
  exact hopen

section There

variable (hn : n < ps.length)
include hn

/-- What is read is received. -/
theorem ReadOutcome.follows {script : List ReadResult} {chunks : List Bytes} {stop : ReadEnd}
    (hr : ReadOutcome s script chunks (stop, s₁)) (hopen : s.conn.closeAfterDrain = false) :
    Follows system (NetRun.Shows ps n before prior) ⟨s, true⟩ ⟨s₁, true⟩ := by
  refine follows_run fun starved hs => ?_
  obtain ⟨hb, hout, hclosing⟩ := hr.buffers hs.toBuffers
  have hstore : s₁.store = s.store := hr.store_eq
  have htrace : s₁.trace = s.trace ++ (chunks.map .read ++ stop.mark) := hr.trace_eq
  have hlive : s₁.conn.inBuf.live = s.conn.inBuf.live ++ chunks.flatten := hr.live_eq
  obtain ⟨hread, -, -, -, hwrote⟩ := parts_reads chunks
  obtain ⟨mread, -, -, -, mwrote⟩ := stop.parts_mark
  have hrun := receive_run (peer_shown s hn false starved) rfl hopen chunks
  refine ⟨_, chunks.map (.receive n), _, _, starved, stays_open hrun, htrace, ?_,
    congrArg Hashtable.toMap hstore.symm, ?_, hb, hstore ▸ hs.store_inv, hstore ▸ hs.store_fits,
    hs.failed_of_mono hr.failed_mono⟩
  · rw [List.filter_append, stop.mark_visible, List.append_nil]
    exact enacts_reads n chunks
  · simp only [peerOf, htrace, hlive, hout, hclosing, readBytes_append, wroteBytes_append, hread,
      hwrote, mread, mwrote, List.append_nil, Bool.not_true]

/-- What is served is executed. -/
theorem serve_follows {req : RespRequest} (hparse : respParseRequest s.conn.inBuf.live = .ok req)
    (hopen : s.conn.closeAfterDrain = false) (hrc : (s.execute req).1 = 0) :
    Follows system (NetRun.Shows ps n before prior) ⟨s, true⟩ ⟨s.serve req, true⟩ := by
  refine follows_step fun starved hs => ?_
  obtain ⟨r, starved', hexec, -, hfull, hinv, hfits, hfailed⟩ :=
    @execute_executes s req ps n starved hs hparse
  obtain ⟨text, rest, hinput, hframe, hlen⟩ := respParseRequest_sound hparse
  obtain ⟨hb, hlive⟩ := hs.toBuffers.serve req
  obtain ⟨-, hout⟩ := execute_spec hs.out_inv req
  have hunsent : (s.serve req).conn.outBuf.live = s.conn.outBuf.live ++ r.encode := by
    rw [← hfull hrc]
    exact hout
  have hroom := hb.out_inv.length_live_le
  rw [hunsent, List.length_append] at hroom
  refine ⟨_, _, _, _, starved',
    .execute (peer_shown s hn false starved) rfl hopen hframe hinput hexec hroom, rfl, rfl,
    .served _ req (hfull hrc).symm, rfl, ?_, hb, hinv, hfits, hfailed⟩
  have hrest : (s.serve req).conn.inBuf.live = rest := by
    rw [hlive, hinput, hlen, List.drop_left]
  simp only [peerOf, hrest, hunsent]
  simp [NetState.serve, readBytes, wroteBytes, NetEvent.readPart, NetEvent.wrotePart]

/-- What is dropped is executed, and the client abandoned. -/
theorem drop_follows {req : RespRequest} (hparse : respParseRequest s.conn.inBuf.live = .ok req)
    (hopen : s.conn.closeAfterDrain = false) :
    Follows system (NetRun.Shows ps n before prior) ⟨s, true⟩ ⟨s.drop req, false⟩ := by
  refine follows_run fun starved hs => ?_
  obtain ⟨r, starved', hexec, hpart, -, hinv, hfits, hfailed⟩ :=
    @execute_executes s req ps n starved hs hparse
  obtain ⟨text, rest, hinput, hframe, -⟩ := respParseRequest_sound hparse
  obtain ⟨hout_inv, hout⟩ := execute_spec hs.out_inv req
  have habandon :=
    Step.abandon (peer_shown s hn false starved) rfl hopen hframe hinput hexec hpart
  have hlt : n < (s.shown ps n false starved).peers.length := by
    rwa [NetState.shown, List.length_set]
  have hrun := (System.Run.single (S := system) habandon).append
    (.single (.disconnect (List.getElem?_set_self hlt)))
  rw [List.set_set] at hrun
  refine ⟨_, [.abandon n req.argv r], _, _, starved', hrun, rfl, .cons (.dropped _ req hpart) .nil,
    rfl, ?_, ⟨hs.in_inv, hout_inv⟩, hinv, hfits, hfailed⟩
  have hunsent : (s.drop req).conn.outBuf.live = s.conn.outBuf.live ++ s.appended req := hout
  simp only [peerOf, hunsent]
  simp [NetState.drop, readBytes, wroteBytes, NetEvent.readPart, NetEvent.wrotePart]

/-- An error outside any request is a complaint. -/
theorem queueError_follows {msg : Bytes} (hreason : msg ∈ readErrors ∨
      msg = ascii "ERR Protocol error" ∧ Hopeless s.conn.inBuf.live) :
    Follows system (NetRun.Shows ps n before prior) ⟨s, true⟩ ⟨s.queueError msg, true⟩ := by
  refine follows_step fun starved hs => ?_
  have houtcome := respReplyError_spec hs.out_inv msg s.heap
  obtain ⟨part, hlive, hpart⟩ := houtcome.appended
  have hunsent : (s.queueError msg).conn.outBuf.live = s.conn.outBuf.live ++ part := hlive
  have happended : (s.queueError msg).conn.outBuf.live.drop s.conn.outBuf.live.length = part := by
    rw [hunsent, List.drop_left]
  refine ⟨_, _, _, _, starved, .complain (peer_shown s hn false starved) rfl hpart hreason, rfl,
    rfl, .errorReply _ (happended ▸ hpart), rfl, ?_, ⟨hs.in_inv, houtcome.inv⟩, hs.store_inv,
    hs.store_fits, hs.failed_of_mono houtcome.failed_mono⟩
  simp only [peerOf, hunsent]
  simp [NetState.queueError, readBytes, wroteBytes, NetEvent.readPart, NetEvent.wrotePart]

/-- What is written is sent. -/
theorem WriteOutcome.follows {script : List WriteResult} {pieces : List Bytes} {stop : WriteEnd}
    (hw : WriteOutcome s script pieces (stop, s₁)) :
    Follows system (NetRun.Shows ps n before prior) ⟨s, true⟩ ⟨s₁, true⟩ := by
  refine follows_run fun starved hs => ?_
  have hconn : s₁.conn = { s.conn with outBuf := s₁.conn.outBuf } := hw.conn_eq
  have hin : s₁.conn.inBuf = s.conn.inBuf := by rw [hconn]
  have hclosing : s₁.conn.closeAfterDrain = s.conn.closeAfterDrain := by rw [hconn]
  have hstore : s₁.store = s.store := hw.store_eq
  have hheap : s₁.heap = s.heap := hw.heap_eq
  have htrace : s₁.trace = s.trace ++ pieces.map .wrote := hw.trace_eq
  obtain ⟨hread, -, -, -, hwrote⟩ := parts_wrote pieces
  have hrun := send_run (peer_shown s hn false starved) rfl pieces hw.live_eq
  refine ⟨_, pieces.map (.send n), _, _, starved, stays_open hrun, htrace, enacts_wrote n pieces,
    congrArg Hashtable.toMap hstore.symm, ?_, ⟨hin ▸ hs.in_inv, hw.out_inv⟩, hstore ▸ hs.store_inv,
    hstore ▸ hs.store_fits, hheap ▸ hs.failed⟩
  simp only [peerOf, htrace, hin, hclosing, readBytes_append, wroteBytes_append, hread, hwrote,
    List.append_nil, Bool.not_true]

/-- A connection is closed. -/
theorem close_follows : Follows system (NetRun.Shows ps n before prior) ⟨s, true⟩ ⟨s, false⟩ :=
  follows_run fun starved hs =>
    ⟨[], [], _, _, starved, .single (.disconnect (peer_shown s hn false starved)),
      (List.append_nil _).symm, .nil, rfl, rfl, hs⟩

/-- The dispatch loop. -/
theorem DispatchRun.follows {r : Int × NetState} (h : DispatchRun s r)
    (hopen : s.conn.closeAfterDrain = false) :
    (r.1 = 0 → Follows system (NetRun.Shows ps n before prior) ⟨s, true⟩ ⟨r.2, true⟩) ∧
      (r.1 = -1 → Follows system (NetRun.Shows ps n before prior) ⟨s, true⟩ ⟨r.2, false⟩) := by
  induction h with
  | more parse => exact ⟨fun _ => .refl _ _ _, fun hrc => absurd hrc (by simp)⟩
  | bad parse =>
    exact ⟨fun _ => queueError_follows hn (Or.inr ⟨rfl, hopeless_of_protocolErr parse⟩),
      fun hrc => absurd hrc (by simp)⟩
  | drop parse rc => exact ⟨fun hrc => absurd hrc (by simp), fun _ => drop_follows hn parse hopen⟩
  | @serve s req r parse rc rest ih =>
    have hserve := @serve_follows s ps n before prior hn req parse hopen rc
    obtain ⟨hzero, hneg⟩ := ih hopen
    exact ⟨fun hrc => hserve.trans (hzero hrc), fun hrc => hserve.trans (hneg hrc)⟩

/-- The end of a handler: a negative result closes the connection. -/
theorem afterHandler_follows {r : Int × NetState}
    (h : Follows system (NetRun.Shows ps n before prior) ⟨s, true⟩ ⟨r.2, true⟩) :
    Follows system (NetRun.Shows ps n before prior) ⟨s, true⟩ (afterHandler r) := by
  rw [afterHandler]
  by_cases hrc : r.1 < 0
  · rw [decide_eq_true hrc]
    exact h.trans (close_follows hn)
  · rw [decide_eq_false hrc]
    exact h

/-- **A call of `handle_read`.** -/
theorem ReadCall.follows {script : List ReadResult} {ctl : Bool} {r : Int × NetState}
    (h : ReadCall s script ctl r) :
    Follows system (NetRun.Shows ps n before prior) ⟨s, true⟩ (afterHandler r) := by
  cases h with
  | winding closing adjusted => exact afterHandler_follows hn adjusted.follows
  | stopped open_ read stop_eq => exact (read.follows hn open_).trans (close_follows hn)
  | dropped open_ read run =>
    exact (read.follows hn open_).trans ((run.follows hn (read.normal open_)).2 rfl)
  | dispatched open_ read run adjusted =>
    refine afterHandler_follows hn ((read.follows hn open_).trans ?_)
    exact ((run.follows hn (read.normal open_)).1 rfl).trans adjusted.follows
  | refused open_ read run adjusted =>
    refine afterHandler_follows hn ((read.follows hn open_).trans ?_)
    refine (((run.follows hn (read.normal open_)).1 rfl).trans ?_).trans adjusted.follows
    exact queueError_follows hn (Or.inl (read.message _ rfl))

/-- **A call of `handle_write`.** -/
theorem WriteCall.follows {script : List WriteResult} {r : Int × NetState}
    (h : WriteCall s script r) :
    Follows system (NetRun.Shows ps n before prior) ⟨s, true⟩ (afterHandler r) := by
  obtain ⟨hwrite, hstate, -, -⟩ := h
  refine afterHandler_follows hn ((hwrite.follows hn).trans ?_)
  rw [hstate]
  exact follows_silent rfl rfl rfl rfl rfl rfl

/-- **An event of a client socket**: no more happens than the service knows of. -/
theorem netDispatch_follows (hs : IsRun s) (ev : UInt32) (reads : List ReadResult)
    (ctlRead : Bool) (writes : List WriteResult) (ctlWrite : Bool) :
    Follows system (NetRun.Shows ps n before prior) ⟨s, true⟩
      (netDispatch ev reads ctlRead writes ctlWrite s) := by
  have hread : Follows system (NetRun.Shows ps n before prior) ⟨s, true⟩
      (NetRun.step ⟨s, true⟩ (.read reads ctlRead)) :=
    (handleRead_call reads ctlRead hs.inv.ledger.toBuffers).follows hn
  have hwrite : ∀ r : NetRun, r.Inv → Follows system (NetRun.Shows ps n before prior) r
      (r.step (.write writes ctlWrite)) := by
    rintro ⟨t, o⟩ hr
    cases o with
    | false => exact .refl _ _ _
    | true => exact (handleWrite_call writes ctlWrite hr.ledger.out_inv).follows hn
  rw [netDispatch_eq_run, wakeupSteps]
  split
  · exact close_follows hn
  · split
    · split
      · exact hread.trans (hwrite _ (hs.inv.step _))
      · exact hread
    · split
      · exact hwrite _ hs.inv
      · exact .refl _ _ _

end There

end Handlers

end RedisInC
