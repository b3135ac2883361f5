import RedisInC.ReadLimit

/-!
# Winding down

A malformed frame and a failure to read are found in different phases of one call
of `handle_read`, and each of them queues an error reply and sets the flag that
both handlers consult afterwards.

* `MeetsMalformed`, `MeetsReadFailure` — the two errors a call can meet.
* `OneError` — the record of a connection that winds down: whole replies, one
  error reply, and then nothing but writes.
* `WindsDown` — the state of a connection whose calls have met one error at most;
  kept by every step (`WindsDown.step`). `AnswersError` — what a call does about the
  error that it meets.
* `Orderly` — a run in which winding down goes as it should.
* `Collides`, `MayCollide` — what a call has to find for both errors, as a matter of
  the input, the unsent output, the store and the allocator.
* `orderly_iff` — winding down goes as it should exactly as long as no call finds
  that.
* `twice_answered` — a call that does.
-/

namespace RedisInC

open Bytebuf

/-! ## The errors of a call -/

/-- Complete frames are served until the parser says this of the rest. -/
def ServesUntil (s : NetState) (verdict : RespStatus RespRequest) : Prop :=
  ∃ s', FramesServed s s' ∧ respParseRequest s'.conn.inBuf.live = verdict

/-- `handle_read` gets to a malformed frame. -/
def MeetsMalformed (s : NetState) (script : List ReadResult) : Prop :=
  s.conn.closeAfterDrain = false ∧
    ((readLoop script s).1 = .drained ∨ ∃ msg, (readLoop script s).1 = .refused msg) ∧
    ServesUntil (readLoop script s).2 .protocolErr

/-- `handle_read` cannot read on, and serves what it has. -/
def MeetsReadFailure (s : NetState) (script : List ReadResult) : Prop :=
  s.conn.closeAfterDrain = false ∧ (∃ msg, (readLoop script s).1 = .refused msg) ∧
    (ServesUntil (readLoop script s).2 .needMore ∨ ServesUntil (readLoop script s).2 .protocolErr)

/-- The dispatch loop is a function of the state. -/
theorem DispatchRun.unique {s : NetState} {r r' : Int × NetState} (h : DispatchRun s r)
    (h' : DispatchRun s r') : r = r' := by
  induction h generalizing r' with
  | more parse =>
    cases h' with
    | more parse' => rfl
    | bad parse' => cases parse.symm.trans parse'
    | drop parse' rc' => cases parse.symm.trans parse'
    | serve parse' rc' rest' => cases parse.symm.trans parse'
  | bad parse =>
    cases h' with
    | more parse' => cases parse.symm.trans parse'
    | bad parse' => rfl
    | drop parse' rc' => cases parse.symm.trans parse'
    | serve parse' rc' rest' => cases parse.symm.trans parse'
  | drop parse rc =>
    cases h' with
    | more parse' => cases parse.symm.trans parse'
    | bad parse' => cases parse.symm.trans parse'
    | drop parse' rc' =>
      cases parse.symm.trans parse'
      rfl
    | serve parse' rc' rest' =>
      cases parse.symm.trans parse'
      exact absurd (rc.symm.trans rc') (by decide)
  | serve parse rc rest ih =>
    cases h' with
    | more parse' => cases parse.symm.trans parse'
    | bad parse' => cases parse.symm.trans parse'
    | drop parse' rc' =>
      cases parse.symm.trans parse'
      exact absurd (rc.symm.trans rc') (by decide)
    | serve parse' rc' rest' =>
      cases parse.symm.trans parse'
      exact ih rest'

/-- Frames served are the first part of the dispatch loop. -/
theorem FramesServed.run {s s' : NetState} {r : Int × NetState} (h : FramesServed s s')
    (hend : DispatchEnd s' r) : DispatchRun s r := by
  induction h with
  | none =>
    cases hend with
    | more parse => exact .more parse
    | bad parse => exact .bad parse
    | drop parse rc => exact .drop parse rc
  | frame parse rc rest ih => exact .serve parse rc (ih hend)

theorem FramesServed.ledger {s s' : NetState} (h : FramesServed s s') (hl : Ledger s) :
    Ledger s' := by
  induction h with
  | none => exact hl
  | frame parse rc rest ih => exact ih (hl.serve _)

theorem FramesServed.plain {s s' : NetState} (h : FramesServed s s') (hp : Plain s) :
    Plain s' := by
  induction h with
  | none => exact hp
  | @frame s s' req parse rc rest ih =>
    refine ih fun hopen => ?_
    have htrace : (s.serve req).trace = s.trace ++ [.served (s.frame req) req (s.appended req)] :=
      rfl
    rw [htrace, appendedBytes_append, replyBytes_append, hp hopen]
    rfl

/-! ## One error -/

/-- The error replies of `handle_read`. -/
def errorMessages : List Bytes := ascii "ERR Protocol error" :: readErrors

/-- No error reply. -/
abbrev Errorless (trace : List NetEvent) : Prop := Lacks NetEvent.isErrorReply trace

/-- **The record of a connection that winds down**: the replies to the requests
executed, one error reply, and after it only writes. -/
inductive OneError : List NetEvent → Prop
  /-- The error reply may be cut off. -/
  | mk {before after : List NetEvent} {complete : Bool} {part msg : Bytes}
      (before_errorless : Errorless before) (before_eq : appendedBytes before = replyBytes before)
      (after_wrote : ∀ e ∈ after, e.isWrote = true) (msg_mem : msg ∈ errorMessages)
      (is_part : part <+: (Reply.error msg).encode)
      (full : complete = true → part = (Reply.error msg).encode) :
      OneError (before ++ .errorReply complete part :: after)

namespace OneError

variable {trace : List NetEvent}

/-- Exactly one. -/
theorem count (h : OneError trace) : trace.countP NetEvent.isErrorReply = 1 := by
  cases h with
  | @mk before after complete part msg before_errorless before_eq after_wrote msg_mem =>
    have hafter : Errorless after := by
      intro e he
      have hwrote := after_wrote e he
      cases e <;> simp_all [NetEvent.isWrote, NetEvent.isErrorReply]
    have hzero : ∀ t : List NetEvent, Errorless t → t.countP NetEvent.isErrorReply = 0 := by
      intro t ht
      rw [List.countP_eq_zero]
      intro e he
      simp [ht e he]
    rw [List.countP_append, List.countP_cons, hzero _ before_errorless, hzero _ hafter]
    rfl

/-- More bytes are written. -/
theorem wrote (h : OneError trace) (pieces : List Bytes) :
    OneError (trace ++ pieces.map .wrote) := by
  cases h with
  | mk before_errorless before_eq after_wrote msg_mem is_part full =>
    rw [List.append_assoc, List.cons_append]
    refine .mk before_errorless before_eq ?_ msg_mem is_part full
    intro e he
    rcases List.mem_append.mp he with hmem | hmem
    · exact after_wrote e hmem
    · obtain ⟨p, -, rfl⟩ := List.mem_map.mp hmem
      rfl

end OneError

/-- An allocation is refused in the course of appending this very error reply. -/
def NetState.ErrorRefused (s : NetState) (msg : Bytes) : Prop :=
  (respReplyError s.conn.outBuf msg (s.heap.recorded false)).2.2.failed = true

/-- **An error reply** is appended in full unless there is no room for it, or no memory
for this very reply. -/
theorem queueError_reply {s : NetState} (ho : s.conn.outBuf.Inv) (msg : Bytes) :
    ∃ complete part,
      (s.queueError msg).trace = s.trace ++ [.errorReply complete part] ∧
      part <+: (Reply.error msg).encode ∧
      (complete = true → part = (Reply.error msg).encode) ∧
      (complete = false →
        BYTEBUF_MAX < s.conn.outBuf.live.length + (Reply.error msg).encode.length ∨
          s.ErrorRefused msg) := by
  obtain ⟨complete, part, htrace, -, hlive, hfull, -⟩ := queueError_spec ho msg
  obtain ⟨part', hlive', hpart⟩ := (respReplyError_spec ho msg s.heap).appended
  obtain rfl : part = part' := List.append_cancel_left (hlive.symm.trans hlive')
  refine ⟨complete, part, htrace, hpart, hfull, fun hcut => ?_⟩
  by_contra hroom
  rw [not_or] at hroom
  -- with a clean record, the reply is appended in full
  obtain ⟨failed, hclean⟩ := respReplyError_recorded s.conn.outBuf msg s.heap false
  have hspec := respReplyError_spec ho msg (s.heap.recorded false)
  rcases hspec.complete_iff (Bool.eq_false_of_not_eq_true hroom.2) with ⟨hzero, -⟩ | ⟨-, hmax⟩
  · rw [hclean] at hzero
    have hcomplete : complete = decide ((respReplyError s.conn.outBuf msg s.heap).1 = 0) := by
      have hevent := List.append_cancel_left htrace.symm
      cases hevent
      rfl
    rw [hcut] at hcomplete
    exact absurd hzero (of_decide_eq_false hcomplete.symm)
  · exact hroom.1 hmax

/-- The error reply of a connection in normal operation. -/
theorem oneError_queueError {s : NetState} (hl : Ledger s) (hp : Plain s)
    (hnormal : s.conn.closeAfterDrain = false) (herrorless : Errorless s.trace) {msg : Bytes}
    (hmsg : msg ∈ errorMessages) : OneError (s.queueError msg).trace := by
  obtain ⟨complete, part, htrace, hpart, hfull, -⟩ := queueError_reply hl.out_inv msg
  rw [htrace]
  exact .mk herrorless (hp hnormal) nofun hmsg hpart hfull

/-! ## The state -/

/-- **A connection whose calls have met one error at most.** -/
structure WindsDown (r : NetRun) : Prop where
  /-- in normal operation there is no error reply -/
  normal : r.state.conn.closeAfterDrain = false → Errorless r.state.trace
  /-- winding down there is exactly one, and then only writes -/
  winding : r.state.conn.closeAfterDrain = true → OneError r.state.trace
  /-- it is not open any more when all is written -/
  pending : r.isOpen = true → ¬ r.state.conn.Done

theorem windsDown_accepted (store : Hashtable) (h : Heap) :
    WindsDown ⟨accepted store h, true⟩ :=
  ⟨fun _ => nofun, nofun, fun _ hdone => absurd hdone.1 (by simp [accepted])⟩

/-- A handler that leaves the connection open leaves something to wait for. -/
theorem Adjusted.not_done {s : NetState} {ctl : Bool} {r : Int × NetState}
    (hr : Adjusted s ctl r) (hrc : ¬ r.1 < 0) : ¬ r.2.conn.Done := by
  obtain ⟨hdone, -⟩ := hr.armed (hr.rc_zero hrc)
  rw [hr.state_eq]
  exact hdone

theorem Adjusted.windsDown {s : NetState} {ctl : Bool} {r : Int × NetState}
    (hr : Adjusted s ctl r) (hnormal : s.conn.closeAfterDrain = false → Errorless s.trace)
    (hwinding : s.conn.closeAfterDrain = true → OneError s.trace) :
    WindsDown (afterHandler r) := by
  refine ⟨?_, ?_, fun hopen => hr.not_done (isOpen_afterHandler.mp hopen)⟩
  · rw [afterHandler, hr.state_eq]
    exact hnormal
  · rw [afterHandler, hr.state_eq]
    exact hwinding

/-- Serving frames puts no error on record. -/
theorem FramesServed.errorless {s s₁ s' : NetState} {script : List ReadResult}
    {chunks : List Bytes} {stop : ReadEnd} (h : FramesServed s₁ s') (hb : Buffers s)
    (hread : ReadOutcome s script chunks (stop, s₁)) (herrorless : Errorless s.trace) :
    Errorless s'.trace ∧ s'.conn.closeAfterDrain = s.conn.closeAfterDrain := by
  obtain ⟨hb₁, -, hclosing₁⟩ := hread.buffers hb
  obtain ⟨-, hclosing, -, -, -, events, htrace, hserved⟩ := h.spec hb₁
  have hmark : Errorless stop.mark := by
    cases stop <;> simp [Lacks, ReadEnd.mark, NetEvent.isErrorReply]
  rw [htrace]
  exact ⟨(hread.lacks herrorless (fun _ => rfl) hmark).append
    (lacks_served (fun _ _ _ => rfl) hserved), hclosing.trans hclosing₁⟩

/-- **A call that does not meet both errors.** -/
theorem ReadCall.windsDown {s : NetState} {script : List ReadResult} {ctl : Bool}
    {r : Int × NetState} (h : ReadCall s script ctl r) (hl : Ledger s) (hp : Plain s)
    (hw : WindsDown ⟨s, true⟩)
    (honce : ¬ (MeetsMalformed s script ∧ MeetsReadFailure s script)) :
    WindsDown (afterHandler r) := by
  have hb := hl.toBuffers
  cases h with
  | winding closing adjusted => exact adjusted.windsDown hw.normal hw.winding
  | stopped open_ read stop_eq =>
    obtain ⟨herrorless, hclosing⟩ := FramesServed.none.errorless hb read (hw.normal open_)
    have hnormal := hclosing.trans open_
    exact ⟨fun _ => herrorless, fun hc => absurd (hnormal.symm.trans hc) (by simp),
      fun hopen => by cases hopen⟩
  | dropped open_ read run =>
    obtain ⟨s', hserved, hend⟩ := run.split
    obtain ⟨herrorless, hclosing⟩ := hserved.errorless hb read (hw.normal open_)
    cases hend with
    | drop parse rc =>
      have hnormal := hclosing.trans open_
      refine ⟨fun _ => herrorless.append ?_, fun hc => absurd (hnormal.symm.trans hc) (by simp),
        fun hopen => by cases hopen⟩
      simp [Lacks, NetEvent.isErrorReply]
  | dispatched open_ read run adjusted =>
    obtain ⟨s', hserved, hend⟩ := run.split
    obtain ⟨herrorless, hclosing⟩ := hserved.errorless hb read (hw.normal open_)
    have hnormal := hclosing.trans open_
    cases hend with
    | more parse =>
      exact adjusted.windsDown (fun _ => herrorless) fun hc =>
        absurd (hnormal.symm.trans hc) (by simp)
    | bad parse =>
      have hone := oneError_queueError (hserved.ledger (hl.received read))
        (hserved.plain (read.plain hp)) hnormal herrorless (List.mem_cons_self ..)
      exact adjusted.windsDown (fun hc => by cases hc) fun _ => hone
  | @refused chunks msg s₁ s₂ r open_ read run adjusted =>
    obtain ⟨s', hserved, hend⟩ := run.split
    obtain ⟨herrorless, hclosing⟩ := hserved.errorless hb read (hw.normal open_)
    have hnormal := hclosing.trans open_
    cases hend with
    | more parse =>
      have hone := oneError_queueError (hserved.ledger (hl.received read))
        (hserved.plain (read.plain hp)) hnormal herrorless
        (List.mem_cons_of_mem _ (read.message msg rfl))
      exact adjusted.windsDown (fun hc => by cases hc) fun _ => hone
    | bad parse =>
      -- both errors are met
      refine absurd ⟨⟨open_, Or.inr ⟨msg, ?_⟩, ?_⟩, open_, ⟨msg, ?_⟩, Or.inr ?_⟩ honce
      · rw [read.loop_eq]
      · rw [read.loop_eq]
        exact ⟨s', hserved, parse⟩
      · rw [read.loop_eq]
      · rw [read.loop_eq]
        exact ⟨s', hserved, parse⟩

theorem WriteCall.windsDown {s : NetState} {script : List WriteResult} {r : Int × NetState}
    (h : WriteCall s script r) (hw : WindsDown ⟨s, true⟩) : WindsDown (afterHandler r) := by
  obtain ⟨-, -, -, -, -, hclosing, -, -⟩ := h.same
  obtain ⟨pieces, htrace⟩ := h.trace_eq
  refine ⟨fun hc => ?_, fun hc => ?_, fun hopen => ?_⟩
  · change Errorless r.2.trace
    rw [htrace]
    exact (hw.normal (hclosing.symm.trans hc)).append (lacks_wrote (fun _ => rfl) pieces)
  · change OneError r.2.trace
    rw [htrace]
    exact (hw.winding (hclosing.symm.trans hc)).wrote pieces
  · obtain @⟨_, stop, s₁, hwrite, -, -, hstay⟩ := h
    rcases hstay (isOpen_afterHandler.mp hopen) with ⟨hstop, hsame⟩ | ⟨ctl, hadjusted⟩
    · change ¬ r.2.conn.Done
      rw [hsame]
      exact fun hdone => hwrite.blocked hstop hdone.2
    · exact hadjusted.not_done (isOpen_afterHandler.mp hopen)

/-- **Every step keeps a connection winding down as it should**, unless it is a
call that meets both errors. -/
theorem WindsDown.step {r : NetRun} (hw : WindsDown r) (hr : r.Inv) {st : NetStep}
    (honce : ∀ script ctl, st = .read script ctl → r.isOpen = true →
      ¬ (MeetsMalformed r.state script ∧ MeetsReadFailure r.state script)) :
    WindsDown (r.step st) := by
  obtain ⟨s, isOpen⟩ := r
  cases isOpen with
  | false => exact hw
  | true =>
    cases st with
    | read script ctl =>
      have hcall := handleRead_call script ctl hr.ledger.toBuffers
      exact hcall.windsDown hr.ledger (hr.plain rfl) hw (honce script ctl rfl rfl)
    | write script ctl => exact (handleWrite_call script ctl hr.ledger.out_inv).windsDown hw
    | hangup => exact ⟨hw.normal, hw.winding, nofun⟩
    | elsewhere store heap => exact ⟨hw.normal, hw.winding, hw.pending⟩

/-! ## What a call does about the errors it meets -/

/-- **How an error is answered**: behind the replies to the frames served before it, by
one reply, which is complete unless there is no room for it or no memory for this
very reply. The connection winds down, and it is closed only if there is nothing to
send any more, or if `epoll_ctl` fails. -/
structure AnswersError (s : NetState) (script : List ReadResult) (ctl : Bool) : Prop where
  /-- the reply is the last event on record -/
  reply : ∃ s' msg complete part, FramesServed (readLoop script s).2 s' ∧
    ((msg = ascii "ERR Protocol error" ∧ respParseRequest s'.conn.inBuf.live = .protocolErr) ∨
      ((readLoop script s).1 = .refused msg ∧
        respParseRequest s'.conn.inBuf.live = .needMore)) ∧
    (handleRead script ctl s).2.trace = s'.trace ++ [.errorReply complete part] ∧
    part <+: (Reply.error msg).encode ∧ (complete = true → part = (Reply.error msg).encode) ∧
    (complete = false →
      BYTEBUF_MAX < s'.conn.outBuf.live.length + (Reply.error msg).encode.length ∨
        s'.ErrorRefused msg)
  /-- the connection winds down -/
  winds : (handleRead script ctl s).2.conn.closeAfterDrain = true
  /-- the reply is not thrown away -/
  kept : (handleRead script ctl s).1 < 0 → Flushed (handleRead script ctl s).2 ∨ ctl = false

/-- A connection closed at the end of a handler is flushed, unless `epoll_ctl` fails. -/
theorem Adjusted.kept {s : NetState} {ctl : Bool} {r : Int × NetState} (hr : Adjusted s ctl r)
    (hl : Ledger s) (hneg : r.1 < 0) : Flushed r.2 ∨ ctl = false := by
  rcases hr.rc with hzero | hrc
  · exact absurd (hzero ▸ hneg) (Int.lt_irrefl 0)
  · rcases hr.close hrc with ⟨-, hout⟩ | hctl
    · rw [hr.state_eq]
      exact Or.inl (hl.flushed hout)
    · exact Or.inr hctl

/-- The dispatch loop gets to the end of the frames if they are served. -/
theorem ServesUntil.not_dropped {s s₂ : NetState} {verdict : RespStatus RespRequest}
    (h : ServesUntil s verdict) (hverdict : verdict = .needMore ∨ verdict = .protocolErr) :
    ¬ DispatchRun s (-1, s₂) := by
  intro run
  obtain ⟨s', hserved, parse⟩ := h
  rcases hverdict with rfl | rfl
  · exact absurd (congrArg Prod.fst (run.unique (hserved.run (.more parse)))) (by simp)
  · exact absurd (congrArg Prod.fst (run.unique (hserved.run (.bad parse)))) (by simp)

/-- **A call that meets one error answers it.** -/
theorem handleRead_met {s : NetState} {script : List ReadResult} (ctl : Bool) (hl : Ledger s)
    (hmet : MeetsMalformed s script ∨ MeetsReadFailure s script)
    (honce : ¬ (MeetsMalformed s script ∧ MeetsReadFailure s script)) :
    AnswersError s script ctl := by
  have hopen : s.conn.closeAfterDrain = false := hmet.elim (fun h => h.1) fun h => h.1
  have hstop : (readLoop script s).1 = .drained ∨ ∃ msg, (readLoop script s).1 = .refused msg :=
    hmet.elim (fun h => h.2.1) fun h => Or.inr h.2.1
  have hcall := handleRead_call script ctl hl.toBuffers
  generalize hr : handleRead script ctl s = r at hcall
  cases hcall with
  | winding closing adjusted => exact absurd (hopen.symm.trans closing) (by simp)
  | stopped open_ read stop_eq =>
    rw [read.loop_eq] at hstop
    rcases stop_eq with rfl | rfl
    · exact absurd hstop (by simp)
    · exact absurd hstop (by simp)
  | dropped open_ read run =>
    -- all frames are served
    rcases hmet with ⟨-, -, hbad⟩ | ⟨-, -, hmore | hbad⟩
    · rw [read.loop_eq] at hbad
      exact absurd run (hbad.not_dropped (Or.inr rfl))
    · rw [read.loop_eq] at hmore
      exact absurd run (hmore.not_dropped (Or.inl rfl))
    · rw [read.loop_eq] at hbad
      exact absurd run (hbad.not_dropped (Or.inr rfl))
  | @dispatched chunks s₁ s₂ r open_ read run adjusted =>
    rcases hmet with ⟨-, -, hbad⟩ | ⟨-, ⟨msg, hrefused⟩, -⟩
    · rw [read.loop_eq] at hbad
      obtain ⟨s', hserved, parse⟩ := hbad
      cases run.unique (hserved.run (.bad parse))
      have hl' := hserved.ledger (hl.received read)
      obtain ⟨complete, part, htrace, hpart, hfull, hcut⟩ :=
        queueError_reply hl'.out_inv (ascii "ERR Protocol error")
      constructor
      · refine ⟨s', _, complete, part, ?_, Or.inl ⟨rfl, parse⟩, ?_, hpart, hfull, hcut⟩
        · rw [read.loop_eq]
          exact hserved
        · rw [hr, adjusted.trace_eq, htrace]
      · rw [hr, adjusted.state_eq]
        rfl
      · rw [hr]
        exact adjusted.kept (hl'.queueError _)
    · rw [read.loop_eq] at hrefused
      cases hrefused
  | @refused chunks msg s₁ s₂ r open_ read run adjusted =>
    obtain ⟨s', hserved, hend⟩ := run.split
    have hl' := hserved.ledger (hl.received read)
    cases hend with
    | more parse =>
      obtain ⟨complete, part, htrace, hpart, hfull, hcut⟩ := queueError_reply hl'.out_inv msg
      constructor
      · refine ⟨s₂, msg, complete, part, ?_, Or.inr ⟨?_, parse⟩, ?_, hpart, hfull, hcut⟩
        · rw [read.loop_eq]
          exact hserved
        · rw [read.loop_eq]
        · rw [hr, adjusted.trace_eq, htrace]
      · rw [hr, adjusted.state_eq]
        rfl
      · rw [hr]
        exact adjusted.kept (hl'.queueError _)
    | bad parse =>
      have hbad : ServesUntil (readLoop script s).2 .protocolErr := by
        rw [read.loop_eq]
        exact ⟨s', hserved, parse⟩
      have hrefused : ∃ msg, (readLoop script s).1 = .refused msg := ⟨msg, by rw [read.loop_eq]⟩
      exact absurd ⟨⟨hopen, Or.inr hrefused, hbad⟩, hopen, hrefused, Or.inr hbad⟩ honce

/-- A call that meets both errors answers both of them. -/
theorem ReadCall.twice {s : NetState} {script : List ReadResult} {ctl : Bool} {r : Int × NetState}
    (h : ReadCall s script ctl r) (hb : Buffers s) (hmalformed : MeetsMalformed s script)
    (hfailure : MeetsReadFailure s script) : 1 < r.2.trace.countP NetEvent.isErrorReply := by
  obtain ⟨hopen, -, hbad⟩ := hmalformed
  obtain ⟨-, ⟨msg, hrefused⟩, -⟩ := hfailure
  cases h with
  | winding closing adjusted => exact absurd (hopen.symm.trans closing) (by simp)
  | stopped open_ read stop_eq =>
    rw [read.loop_eq] at hrefused
    rcases stop_eq with rfl | rfl
    · cases hrefused
    · cases hrefused
  | dropped open_ read run =>
    rw [read.loop_eq] at hbad
    obtain ⟨s', hserved, parse⟩ := hbad
    exact absurd (congrArg Prod.fst (run.unique (hserved.run (.bad parse)))) (by simp)
  | dispatched open_ read run adjusted =>
    rw [read.loop_eq] at hrefused
    cases hrefused
  | @refused chunks msg' s₁ s₂ r open_ read run adjusted =>
    rw [read.loop_eq] at hbad
    obtain ⟨s', hserved, parse⟩ := hbad
    have hb' := (hserved.spec (read.buffers hb).1).1
    cases run.unique (hserved.run (.bad parse))
    obtain ⟨c₁, part₁, htrace₁, hinv₁, -⟩ :=
      queueError_spec hb'.out_inv (ascii "ERR Protocol error")
    obtain ⟨c₂, part₂, htrace₂, -⟩ := queueError_spec hinv₁ msg'
    rw [adjusted.trace_eq, htrace₂, htrace₁, List.countP_append, List.countP_append]
    simp [NetEvent.isErrorReply]

/-- What makes a socket fail in a step. -/
def NetStep.Fails : NetStep → Prop
  | .read _ ctl => ctl = false
  | .write script _ => .epipe ∈ script ∨ .error ∈ script
  | .hangup => True
  | .elsewhere _ _ => False

/-- A connection that winds down is closed when all is written, or when the socket
fails. -/
theorem NetRun.closed_flushed {r : NetRun} (hr : r.Inv) (st : NetStep) (hopen : r.isOpen = true)
    (hwinding : r.state.conn.closeAfterDrain = true) (hclosed : (r.step st).isOpen = false) :
    Flushed (r.step st).state ∨ st.Fails := by
  obtain ⟨s, isOpen⟩ := r
  obtain rfl : isOpen = true := hopen
  cases st with
  | read script ctl =>
    cases ctl with
    | false => exact Or.inr rfl
    | true =>
      have hcall := handleRead_call script true hr.ledger.toBuffers
      change Flushed (handleRead script true s).2 ∨ _
      change (afterHandler (handleRead script true s)).isOpen = false at hclosed
      generalize handleRead script true s = res at hcall hclosed ⊢
      have hneg : res.1 < 0 := by simpa [afterHandler] using hclosed
      cases hcall with
      | winding closing adjusted =>
        rcases adjusted.rc with hzero | hrc
        · exact absurd (hzero ▸ hneg) (by decide)
        · exact Or.inl (adjusted.flushed hr.ledger hrc)
      | stopped open_ read stop_eq => exact absurd (hwinding.symm.trans open_) (by simp)
      | dropped open_ read run => exact absurd (hwinding.symm.trans open_) (by simp)
      | dispatched open_ read run adjusted => exact absurd (hwinding.symm.trans open_) (by simp)
      | refused open_ read run adjusted => exact absurd (hwinding.symm.trans open_) (by simp)
  | write script ctl =>
    have hcall := handleWrite_call script ctl hr.ledger.out_inv
    have hl := hcall.ledger hr.ledger
    change Flushed (handleWrite script ctl s).2 ∨ _
    change (afterHandler (handleWrite script ctl s)).isOpen = false at hclosed
    generalize handleWrite script ctl s = res at hcall hl hclosed ⊢
    obtain @⟨pieces, stop, s₁, hwrite, hstate, hclose, -⟩ := hcall
    rcases hclose (by simpa [afterHandler] using hclosed) with hfailed | hdrained
    · exact Or.inr (hwrite.failed_mem hfailed)
    · refine Or.inl (hl.flushed ?_)
      rw [hstate]
      exact hwrite.drained hdrained
  | hangup => exact Or.inr trivial
  | elsewhere store heap => cases hclosed

/-! ## Runs -/

namespace NetRun

/-- **Winding down as it should**, over a whole run. -/
structure Orderly (r : NetRun) (steps : List NetStep) : Prop where
  /-- every state reached -/
  reached : ∀ before, before <+: steps → WindsDown (r.run before)
  /-- a call that meets an error answers it, and makes the connection wind down -/
  met : ∀ s script ctl, r.Reads steps s script ctl →
    MeetsMalformed s script ∨ MeetsReadFailure s script → AnswersError s script ctl
  /-- which is closed when all is written, and not before unless the socket fails -/
  closed : ∀ before st, before ++ [st] <+: steps → (r.run before).isOpen = true →
    (r.run before).state.conn.closeAfterDrain = true →
    (r.run (before ++ [st])).isOpen = false →
    Flushed (r.run (before ++ [st])).state ∨ st.Fails

theorem Reads.mono {r : NetRun} {before steps : List NetStep} {s : NetState}
    {script : List ReadResult} {ctl : Bool} (h : r.Reads before s script ctl)
    (hsteps : before <+: steps) : r.Reads steps s script ctl := by
  obtain ⟨rest, rfl⟩ := hsteps
  obtain ⟨b, a, rfl, hrun⟩ := h
  exact ⟨b, a ++ rest, by rw [List.append_assoc, List.cons_append], hrun⟩

end NetRun

/-- In a run without a call that meets both errors, every state winds down as it
should. -/
theorem netRun_windsDown (store : Hashtable) (h : Heap) (steps : List NetStep)
    (honce : ∀ s script ctl, NetRun.Reads ⟨accepted store h, true⟩ steps s script ctl →
      ¬ (MeetsMalformed s script ∧ MeetsReadFailure s script)) :
    WindsDown (netRun store h steps) := by
  induction steps using List.reverseRecOn with
  | nil => exact windsDown_accepted store h
  | append_singleton steps st ih =>
    have hrun : netRun store h (steps ++ [st]) = (netRun store h steps).step st :=
      NetRun.run_concat _ steps st
    rw [hrun]
    have hbefore := ih fun s script ctl hreads =>
      honce s script ctl (hreads.mono (List.prefix_append _ _))
    refine hbefore.step (netRun_inv store h steps) ?_
    rintro script ctl rfl hopen
    refine honce _ script ctl (NetRun.reads_concat.mpr (Or.inr ⟨rfl, ?_⟩))
    change netRun store h steps = _
    rw [← hopen]

/-- A run that goes as it should has no call that meets both errors. -/
theorem NetRun.Orderly.once {store : Hashtable} {h : Heap} {steps : List NetStep}
    (hord : NetRun.Orderly ⟨accepted store h, true⟩ steps) {s : NetState}
    {script : List ReadResult} {ctl : Bool}
    (hreads : NetRun.Reads ⟨accepted store h, true⟩ steps s script ctl) :
    ¬ (MeetsMalformed s script ∧ MeetsReadFailure s script) := by
  rintro ⟨hmalformed, hfailure⟩
  have hclosing := (hord.met s script ctl hreads (Or.inl hmalformed)).winds
  obtain ⟨before, after, rfl, hrun⟩ := hreads
  have hstate : netRun store h before = ⟨s, true⟩ := hrun
  have hfirst : before ++ [.read script ctl] <+: before ++ .read script ctl :: after :=
    ⟨after, by rw [List.append_assoc, List.singleton_append]⟩
  have hb := (netRun_inv store h before).ledger.toBuffers
  rw [hstate] at hb
  have htwice := (handleRead_call script ctl hb).twice hb hmalformed hfailure
  have hwinds := hord.reached _ hfirst
  rw [NetRun.run_concat, hrun] at hwinds
  have hone := (hwinds.winding hclosing).count
  exact absurd hone (Nat.ne_of_gt htwice)

/-- **Winding down**, call by call: it goes as it should exactly if no call meets both
errors. -/
theorem orderly_iff_once (store : Hashtable) (h : Heap) (steps : List NetStep) :
    NetRun.Orderly ⟨accepted store h, true⟩ steps ↔
      ∀ s script ctl, NetRun.Reads ⟨accepted store h, true⟩ steps s script ctl →
        ¬ (MeetsMalformed s script ∧ MeetsReadFailure s script) := by
  constructor
  · intro hord s script ctl hreads
    exact hord.once hreads
  · intro honce
    refine ⟨fun before hbefore => ?_, ?_, ?_⟩
    · exact netRun_windsDown store h before fun s script ctl hreads =>
        honce s script ctl (hreads.mono hbefore)
    · intro s script ctl hreads hmet
      refine handleRead_met ctl ?_ hmet (honce s script ctl hreads)
      obtain ⟨before, after, rfl, hrun⟩ := hreads
      have hl := (netRun_inv store h before).ledger
      rw [show netRun store h before = ⟨s, true⟩ from hrun] at hl
      exact hl
    · intro before st _ hopen hwinding hclosed
      rw [NetRun.run_concat] at hclosed ⊢
      exact NetRun.closed_flushed (netRun_inv store h before) st hopen hwinding hclosed

/-! ## What brings both errors together -/

/-- **A collision**, if no allocation fails: a crowded wake-up whose input is malformed
behind complete frames, the replies to which fit behind the unsent output. -/
structure Collides (s : NetState) (script : List ReadResult) : Prop where
  /-- the connection is not winding down yet -/
  normal : s.conn.closeAfterDrain = false
  /-- there is no room for all that arrives -/
  crowded : Crowded s script
  /-- what there is room for is malformed -/
  malformed : (respFramer.split (wakeInput s script)).bad = true
  /-- and so are the replies before that -/
  fits : ¬ Overflows s script

/-- The allocator refuses one of the requests that the read loop can make. -/
def Starved (s : NetState) (script : List ReadResult) : Prop :=
  ∃ k, k ≤ script.length ∧ s.heap.grants k = false

/-- What a collision takes, with any allocator. -/
structure MayCollide (s : NetState) (script : List ReadResult) : Prop where
  /-- the connection is not winding down yet -/
  normal : s.conn.closeAfterDrain = false
  /-- there is no room for all that arrives, or no memory -/
  hindered : Crowded s script ∨ Starved s script
  /-- what arrives is malformed -/
  malformed : (respFramer.split (s.conn.inBuf.live ++ delivered script)).bad = true

/-- A round asks for memory once at most, and it is refused for want of room or because
this request is refused. -/
theorem reserveTail_asksOnce {s : NetState} (hi : s.conn.inBuf.Inv) :
    (∀ msg, (reserveTail s).1 = .error msg →
      BYTEBUF_MAX < s.conn.inBuf.live.length + READ_CHUNK ∨ s.heap.grants 0 = false) ∧
    ∃ k, k ≤ 1 ∧ ∀ n, (reserveTail s).2.heap.grants n = s.heap.grants (n + k) := by
  rw [reserveTail, hi.bytebufLen_eq]
  split
  · next hfull =>
    exact ⟨fun _ _ => Or.inl (Nat.lt_of_le_of_lt hfull (Nat.lt_add_of_pos_right (by decide))),
      0, Nat.zero_le _, fun n => rfl⟩
  · obtain ⟨hrefused, hused⟩ := ensureTailCap_asksOnce hi READ_CHUNK s.heap
    rw [bytebufReserve]
    dsimp only
    by_cases hneg : (ensureTailCap s.conn.inBuf READ_CHUNK s.heap).1 < 0
    · rw [if_pos hneg]
      exact ⟨fun _ _ => hrefused hneg, hused⟩
    · rw [if_neg hneg]
      refine ⟨fun msg hmsg => ?_, hused⟩
      cases hmsg

/-- Why there is no room at the top of a round. -/
theorem readLoop_hindered_here (script : List ReadResult) {s : NetState} (hi : s.conn.inBuf.Inv)
    {msg : Bytes} {b : Bytebuf} {h : Heap} (hres : reserveTail s = (.error msg, s.reserved b h))
    (hlive : b.live = s.conn.inBuf.live) :
    BYTEBUF_MAX < (readLoop script s).2.conn.inBuf.live.length + READ_CHUNK ∨ Starved s script := by
  obtain ⟨hasks, -⟩ := reserveTail_asksOnce hi
  rw [hres] at hasks
  rw [readLoop_refused script hres]
  refine (hasks msg rfl).imp (fun hmax => ?_) fun hno => ⟨0, Nat.zero_le _, hno⟩
  rw [← hlive] at hmax
  exact hmax

/-- **Why reading is refused**: the wake-up is crowded, or the allocator refuses. -/
theorem readLoop_hindered (script : List ReadResult) {s : NetState} (hi : s.conn.inBuf.Inv)
    {msg : Bytes} (hrefused : (readLoop script s).1 = .refused msg) :
    BYTEBUF_MAX < (readLoop script s).2.conn.inBuf.live.length + READ_CHUNK ∨ Starved s script := by
  induction script generalizing s with
  | nil =>
    obtain ⟨room, b, h, hres, -, hlive, -⟩ := reserveTail_spec hi
    cases room with
    | error msg' => exact readLoop_hindered_here [] hi hres hlive
    | ok tail =>
      rw [readLoop, hres] at hrefused
      cases hrefused
  | cons result script ih =>
    obtain ⟨-, k, hk, hused⟩ := reserveTail_asksOnce hi
    obtain ⟨room, b, h, hres, hb, hlive, -, -, htail⟩ := reserveTail_spec hi
    rw [hres] at hused
    -- what is refused later on is refused by the same allocator
    have hlater : ∀ s' : NetState, s'.heap = h → Starved s' script →
        Starved s (result :: script) := by
      rintro s' hheap ⟨n, hn, hno⟩
      refine ⟨n + k, Nat.add_le_add hn hk, ?_⟩
      rw [← hused n, ← hno, hheap]
      rfl
    cases room with
    | error msg' => exact readLoop_hindered_here (result :: script) hi hres hlive
    | ok tail =>
      cases result with
      | data chunk =>
        rw [readLoop_data hres] at hrefused ⊢
        exact (@ih (takeChunk tail chunk (s.reserved b h)) ((htail tail rfl).2 chunk).1
          hrefused).imp_right (hlater _ rfl)
      | eintr =>
        rw [readLoop_eintr hres] at hrefused ⊢
        exact (@ih (s.reserved b h) hb hrefused).imp_right (hlater _ rfl)
      | eof | eagain | error =>
        rw [readLoop, hres] at hrefused
        cases hrefused

/-- Frames are served until a malformed one only if there is one. -/
theorem ServesUntil.malformed {s : NetState} (h : ServesUntil s .protocolErr) (hb : Buffers s) :
    (respFramer.split s.conn.inBuf.live).bad = true := by
  obtain ⟨s', hserved, parse⟩ := h
  obtain ⟨-, -, -, -, hbad, -⟩ := hserved.spec hb
  rw [← hbad, Framing.Framer.split_bad (parse_bad parse)]

/-- **A call that meets both errors** has found what a collision takes. -/
theorem mayCollide_of_meets {s : NetState} {script : List ReadResult} (hb : Buffers s)
    (hmalformed : MeetsMalformed s script) (hfailure : MeetsReadFailure s script) :
    MayCollide s script := by
  obtain ⟨hnormal, -, hbad⟩ := hmalformed
  obtain ⟨-, ⟨msg, hrefused⟩, -⟩ := hfailure
  obtain ⟨chunks, hread⟩ := readLoop_spec script hb.in_inv
  have hlive := hread.live_eq
  have hpart := (List.prefix_append_right_inj s.conn.inBuf.live).mpr hread.part
  refine ⟨hnormal, (readLoop_hindered script hb.in_inv hrefused).imp_left fun hmax => ?_, ?_⟩
  · have hlen := hpart.length_le
    rw [← hlive, List.length_append] at hlen
    rw [Crowded]
    omega
  · have hmalformed := hbad.malformed (hread.buffers hb).1
    rw [hlive] at hmalformed
    obtain ⟨rest, hrest⟩ := hpart
    rw [← hrest]
    exact (respFramer.split_bad_append hmalformed rest).2

/-- **A call in which no allocation fails** meets both errors exactly in a collision. -/
theorem meets_iff_collides {s : NetState} {script : List ReadResult} (ctl : Bool) (hb : Buffers s)
    (hf : (handleRead script ctl s).2.heap.failed = false) :
    MeetsMalformed s script ∧ MeetsReadFailure s script ↔ Collides s script := by
  have hcall := handleRead_call script ctl hb
  generalize handleRead script ctl s = r at hf hcall
  cases hcall with
  | winding closing adjusted =>
    refine ⟨fun hmet => ?_, fun hcollides => ?_⟩
    · exact absurd (closing.symm.trans hmet.1.1) (by simp)
    · exact absurd (closing.symm.trans hcollides.normal) (by simp)
  | @stopped chunks stop s₁ open_ read stop_eq =>
    -- the end of the input or an error is found only if reading is not refused
    have hrefused : ¬ ∃ msg, stop = .refused msg := by
      rintro ⟨msg, rfl⟩
      exact absurd stop_eq (by simp)
    refine ⟨fun hmet => ?_, fun hcollides => ?_⟩
    · obtain ⟨-, -, ⟨msg, hstop⟩, -⟩ := hmet
      rw [read.loop_eq] at hstop
      exact absurd ⟨msg, hstop⟩ hrefused
    · exact absurd ((read.refused_iff hf).mpr hcollides.crowded) hrefused
  | @dropped chunks stop s₁ s₂ open_ read run =>
    obtain ⟨hb₁, hout, -⟩ := read.buffers hb
    have hstore : s₁.store = s.store := read.store_eq
    refine ⟨fun hmet => ?_, fun hcollides => ?_⟩
    · have hbad := hmet.1.2.2
      rw [read.loop_eq] at hbad
      exact absurd run (hbad.not_dropped (Or.inr rfl))
    · obtain ⟨hf₁, hanswers⟩ := run.answers hb₁ hf
      rw [read.wakeInput_eq hb.in_inv hf₁, hout, hstore] at hanswers
      rcases hanswers with ⟨hzero, -⟩ | ⟨-, hmax⟩
      · exact absurd hzero (by simp)
      · exact absurd ⟨open_, hmax⟩ hcollides.fits
  | @dispatched chunks s₁ s₂ r open_ read run adjusted =>
    rw [adjusted.state_eq] at hf
    have hf₁ := run.failed_mono (read.buffers hb).1 hf
    refine ⟨fun hmet => ?_, fun hcollides => ?_⟩
    · obtain ⟨-, -, ⟨msg, hstop⟩, -⟩ := hmet
      rw [read.loop_eq] at hstop
      cases hstop
    · obtain ⟨msg, hstop⟩ := (read.refused_iff hf₁).mpr hcollides.crowded
      cases hstop
  | @refused chunks msg s₁ s₂ r open_ read run adjusted =>
    obtain ⟨hb₁, -, -⟩ := read.buffers hb
    rw [adjusted.state_eq] at hf
    obtain ⟨-, -, -, -, -, -, hmono⟩ := queueError_spec (run.buffers hb₁).out_inv msg
    have hf₁ := run.failed_mono hb₁ (hmono hf)
    have hinput := read.wakeInput_eq hb.in_inv hf₁
    have hstop : ∃ msg, (readLoop script s).1 = .refused msg := ⟨msg, by rw [read.loop_eq]⟩
    refine ⟨fun hmet => ?_, fun hcollides => ?_⟩
    · refine ⟨open_, (read.refused_iff hf₁).mp ⟨msg, rfl⟩, ?_, run.fits read hb (hmono hf)⟩
      have hbad := hmet.1.2.2
      rw [read.loop_eq] at hbad
      rw [← hinput]
      exact hbad.malformed hb₁
    · have hserves : ServesUntil (readLoop script s).2 .protocolErr := by
        rw [read.loop_eq]
        obtain ⟨s', hserved, hend⟩ := run.split
        obtain ⟨-, -, -, -, hbad, -⟩ := hserved.spec hb₁
        cases hend with
        | more parse =>
          have hmalformed := hcollides.malformed
          rw [← hinput, ← hbad, Framing.Framer.split_more (parse_more parse)] at hmalformed
          cases hmalformed
        | bad parse => exact ⟨s', hserved, parse⟩
      exact ⟨⟨open_, Or.inr hstop, hserves⟩, open_, hstop, Or.inr hserves⟩

/-- No allocation has failed in a call if none has at the end of the run. -/
theorem NetRun.Reads.clean {store : Hashtable} {h : Heap} {steps : List NetStep} {s : NetState}
    {script : List ReadResult} {ctl : Bool}
    (hreads : NetRun.Reads ⟨accepted store h, true⟩ steps s script ctl)
    (hf : (netRun store h steps).state.heap.failed = false) :
    Buffers s ∧ (handleRead script ctl s).2.heap.failed = false := by
  induction steps using List.reverseRecOn with
  | nil => exact absurd hreads NetRun.not_reads_nil
  | append_singleton steps st ih =>
    have hr := netRun_inv store h steps
    have hrun : netRun store h (steps ++ [st]) = (netRun store h steps).step st :=
      NetRun.run_concat _ steps st
    rw [hrun] at hf
    rcases NetRun.reads_concat.mp hreads with hearlier | ⟨rfl, hstate⟩
    · exact ih hearlier (NetRun.failed_mono hr st hf)
    · have hstate' : netRun store h steps = ⟨s, true⟩ := hstate
      rw [hstate'] at hr hf
      exact ⟨hr.ledger.toBuffers, hf⟩

/-- **Winding down.** In a run of a connection, with any scripts of the kernel and any
allocator: an error that `handle_read` meets is answered by one error reply, behind
the replies to all requests executed before it, and complete unless there is no room
or no memory for it; after that the connection reads, executes and appends nothing,
and it is closed as soon as its output is drained and not before, unless the socket
fails. If no allocation fails, this is so exactly if no call is a collision; with any
allocator, it is so if no call has what a collision takes. -/
theorem orderly_iff (store : Hashtable) (h : Heap) (steps : List NetStep) :
    ((netRun store h steps).state.heap.failed = false →
      (NetRun.Orderly ⟨accepted store h, true⟩ steps ↔
        ∀ s script ctl, NetRun.Reads ⟨accepted store h, true⟩ steps s script ctl →
          ¬ Collides s script)) ∧
    ((∀ s script ctl, NetRun.Reads ⟨accepted store h, true⟩ steps s script ctl →
        ¬ MayCollide s script) →
      NetRun.Orderly ⟨accepted store h, true⟩ steps) := by
  rw [orderly_iff_once]
  constructor
  · intro hf
    have hcall : ∀ s script ctl, NetRun.Reads ⟨accepted store h, true⟩ steps s script ctl →
        (MeetsMalformed s script ∧ MeetsReadFailure s script ↔ Collides s script) := by
      intro s script ctl hreads
      obtain ⟨hb, hclean⟩ := hreads.clean hf
      exact meets_iff_collides ctl hb hclean
    constructor
    · intro honce s script ctl hreads hcollides
      exact honce s script ctl hreads ((hcall s script ctl hreads).mpr hcollides)
    · intro hfree s script ctl hreads hmet
      exact hfree s script ctl hreads ((hcall s script ctl hreads).mp hmet)
  · rintro hfree s script ctl hreads ⟨hmalformed, hfailure⟩
    refine hfree s script ctl hreads (mayCollide_of_meets ?_ hmalformed hfailure)
    obtain ⟨before, after, rfl, hrun⟩ := hreads
    have hb := (netRun_inv store h before).ledger.toBuffers
    rw [show netRun store h before = ⟨s, true⟩ from hrun] at hb
    exact hb

/-- The only call of a run of one step. -/
theorem NetRun.Reads.only {r : NetRun} {script script' : List ReadResult} {ctl ctl' : Bool}
    {s : NetState} (h : r.Reads [.read script ctl] s script' ctl') :
    r.state = s ∧ script' = script := by
  obtain ⟨before, after, heq, hrun⟩ := h
  cases before with
  | nil =>
    have hstate : r = ⟨s, true⟩ := hrun
    cases heq
    rw [hstate]
    exact ⟨rfl, rfl⟩
  | cons st before => exact absurd (congrArg List.length heq) (by simp)

/-- A request and a malformed frame. -/
def pingThenBad : List ReadResult :=
  [.data ⟨ascii "PING\r\n*x\r\n", by decide, by decide⟩]

/-- A request. -/
def onePing : List ReadResult := [.data ⟨ascii "PING\r\n", ping_pos, ping_le⟩]

/-- Nothing is granted. -/
def Heap.barren : Heap := ⟨fun _ => false, fun _ => 0, false⟩

/-- One error at a time: a malformed frame, and a chunk that cannot be reserved. -/
theorem orderly_iff_one :
    NetRun.Orderly ⟨accepted htInit Heap.ample, true⟩ [.read pingThenBad true] ∧
      NetRun.Orderly ⟨accepted htInit Heap.barren, true⟩ [.read onePing true] := by
  constructor
  · refine ((orderly_iff htInit Heap.ample [.read pingThenBad true]).1 (by decide)).mpr ?_
    rintro s script ctl hreads hcollides
    obtain ⟨rfl, rfl⟩ := hreads.only
    exact absurd hcollides.crowded (by unfold Crowded; decide)
  · refine (orderly_iff htInit Heap.barren [.read onePing true]).2 ?_
    rintro s script ctl hreads hcollides
    obtain ⟨rfl, rfl⟩ := hreads.only
    exact absurd hcollides.malformed (by decide)

/-! ## Two errors at once -/

/-- A chunk of stars. -/
def starChunk : Chunk where
  bytes := List.replicate READ_CHUNK 42
  pos := by
    rw [List.length_replicate]
    decide
  le := Nat.le_of_eq List.length_replicate

/-- Two stars are malformed, and so is anything that begins with them. -/
theorem parse_stars (n : ℕ) : respParseRequest (List.replicate (n + 2) 42) = .protocolErr := by
  have htwo : respParseRequest [42, 42] = .protocolErr := by rfl
  rw [List.replicate_succ, List.replicate_succ]
  exact (@respParseRequest_append [42, 42] (by rw [htwo]; simp) _).trans htwo

/-- Sixteen mebibytes of stars in one wake-up: reading is refused. -/
theorem stars_refused {s s₁ : NetState} {chunks : List Bytes} {stop : ReadEnd}
    (hread : ReadOutcome s (List.replicate 4096 (.data starChunk)) chunks (stop, s₁))
    (hin : s.conn.inBuf.live = []) (ha : s.heap.Ample) :
    (∃ msg, stop = .refused msg) ∧ respParseRequest s₁.conn.inBuf.live = .protocolErr := by
  have hlive : s₁.conn.inBuf.live = s.conn.inBuf.live ++ chunks.flatten := hread.live_eq
  have hdelivered : delivered (List.replicate 4096 (.data starChunk)) =
      List.replicate (4096 * READ_CHUNK) 42 := by
    rw [delivered_replicate]
    exact List.flatten_replicate_replicate
  have hcrowded : Crowded s (List.replicate 4096 (.data starChunk)) := by
    rw [Crowded, hdelivered, hin, List.length_replicate]
    decide
  obtain ⟨msg, rfl⟩ := (hread.refused_iff (hread.ample ha).2).mpr hcrowded
  have hpart := hread.part
  rw [hdelivered, List.prefix_replicate_iff] at hpart
  -- what has been read of them is nearly all
  have hlong : BYTEBUF_MAX < s₁.conn.inBuf.live.length + READ_CHUNK := by
    rcases hread.refused msg rfl with hfailed | hmax
    · exact absurd (hfailed.symm.trans (hread.ample ha).2) (by decide)
    · exact hmax
  rw [hin, List.nil_append] at hlive
  rw [hlive, BYTEBUF_MAX, READ_CHUNK] at hlong
  refine ⟨⟨msg, rfl⟩, ?_⟩
  obtain ⟨n, hn⟩ : ∃ n, chunks.flatten.length = n + 2 := ⟨chunks.flatten.length - 2, by omega⟩
  rw [hlive, hpart.2, hn]
  exact parse_stars n

/-- Both errors are met, and both replies are appended in full. -/
theorem stars_twice {s : NetState} {script : List ReadResult} (hb : Buffers s)
    (hscript : script = List.replicate 4096 (.data starChunk))
    (hnormal : s.conn.closeAfterDrain = false) (hin : s.conn.inBuf.live = [])
    (hout : s.conn.outBuf.live = []) (ha : s.heap.Ample) :
    MeetsMalformed s script ∧ MeetsReadFailure s script ∧
      ∃ before msg, (handleRead script true s).2.trace =
        before ++ [.errorReply true (Reply.error (ascii "ERR Protocol error")).encode,
          .errorReply true (Reply.error msg).encode] := by
  have hstars : ∀ {chunks stop s₁}, ReadOutcome s script chunks (stop, s₁) →
      (∃ msg, stop = .refused msg) ∧ respParseRequest s₁.conn.inBuf.live = .protocolErr :=
    fun hread => stars_refused (hscript ▸ hread) hin ha
  obtain ⟨chunks, hread⟩ := readLoop_spec script hb.in_inv
  obtain ⟨⟨msg, hstop⟩, hparse⟩ := hstars hread
  refine ⟨⟨hnormal, Or.inr ⟨msg, hstop⟩, _, .none, hparse⟩,
    ⟨hnormal, ⟨msg, hstop⟩, Or.inr ⟨_, .none, hparse⟩⟩, ?_⟩
  have hcall := handleRead_call script true hb
  generalize handleRead script true s = r at hcall ⊢
  cases hcall with
  | winding closing adjusted => exact absurd (hnormal.symm.trans closing) (by simp)
  | stopped open_ read stop_eq =>
    obtain ⟨⟨msg, rfl⟩, -⟩ := hstars read
    exact absurd stop_eq (by simp)
  | dropped open_ read run =>
    obtain ⟨-, hparse⟩ := hstars read
    exact absurd (congrArg Prod.fst (run.unique (.bad hparse))) (by simp)
  | dispatched open_ read run adjusted =>
    obtain ⟨⟨msg, hstop⟩, -⟩ := hstars read
    cases hstop
  | @refused chunks msg s₁ s₂ r open_ read run adjusted =>
    obtain ⟨-, hparse⟩ := hstars read
    obtain ⟨hb₁, hout₁, -⟩ := read.buffers hb
    cases run.unique (.bad hparse)
    have hlen₁ : s₁.conn.outBuf.live.length = 0 := by rw [hout₁, hout, List.length_nil]
    have hfirst := respReplyError_spec hb₁.out_inv (ascii "ERR Protocol error") s₁.heap
    have ha₂ := hfirst.ample (read.ample ha)
    have htrace₁ := @queueError_complete s₁ hb₁.out_inv (ascii "ERR Protocol error") ha₂.2
      (by rw [hlen₁]; decide)
    have hshort : ∀ msg ∈ errorMessages, (Reply.error msg).encode.length ≤ 30 := by decide
    have hproto := hshort _ (List.mem_cons_self ..)
    have hmsg := hshort msg (List.mem_cons_of_mem _ (read.message msg rfl))
    rcases hfirst.complete_iff ha₂.2 with ⟨-, hlive, -⟩ | ⟨-, hmax⟩
    · have hlen₂ : (s₁.queueError (ascii "ERR Protocol error")).conn.outBuf.live.length =
          s₁.conn.outBuf.live.length + (Reply.error (ascii "ERR Protocol error")).encode.length :=
        (congrArg List.length hlive).trans List.length_append
      have htrace₂ := @queueError_complete (s₁.queueError (ascii "ERR Protocol error")) hfirst.inv
        msg ((respReplyError_spec hfirst.inv msg _).ample ha₂).2
        (by rw [hlen₂, hlen₁, BYTEBUF_MAX]; omega)
      refine ⟨s₁.trace, msg, ?_⟩
      rw [adjusted.trace_eq, htrace₂, htrace₁, List.append_assoc, List.singleton_append]
    · rw [hlen₁, BYTEBUF_MAX] at hmax
      omega

/-- **Two error replies.** One wake-up brings sixteen mebibytes that are malformed
from the first byte on. No allocation fails and there is room, but the server
answers twice. -/
theorem twice_answered :
    ¬ NetRun.Orderly ⟨accepted htInit Heap.ample, true⟩
        [.read (List.replicate 4096 (.data starChunk)) true] ∧
      ∃ before msg,
        (netRun htInit Heap.ample
            [.read (List.replicate 4096 (.data starChunk)) true]).state.trace =
          before ++ [.errorReply true (Reply.error (ascii "ERR Protocol error")).encode,
            .errorReply true (Reply.error msg).encode] := by
  have hl : Ledger (accepted htInit Heap.ample) := ledger_accepted htInit Heap.ample
  obtain ⟨script, hscript⟩ : ∃ script, script = List.replicate 4096 (ReadResult.data starChunk) :=
    ⟨_, rfl⟩
  rw [← hscript]
  obtain ⟨hmalformed, hfailure, htrace⟩ :=
    stars_twice hl.toBuffers hscript rfl rfl rfl Heap.ample_ample
  exact ⟨fun hord => hord.once ⟨[], [], rfl, rfl⟩ ⟨hmalformed, hfailure⟩, htrace⟩

end RedisInC
