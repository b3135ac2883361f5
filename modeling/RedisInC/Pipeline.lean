import RedisInC.Connection
import RedisInC.Readback

/-!
# A wake-up as a pipeline

A readable wake-up serves all complete frames of the input at once, before
anything is written. What it does is therefore a function of the frames: the
framer says which they are, and the answers follow one after the other.

* `answerAll` — requests answered one after the other: the store they leave and
  the bytes of their replies.
* `DispatchRun.frames`, `DispatchRun.answers` — the dispatch loop against these.
* `FramesServed`, `DispatchEnd` — the frames it serves, and then why it stops.
* `Overflows` — a wake-up whose replies do not fit behind the unsent output.
* `close_keeps_replies` — the server closes a connection with unsent replies exactly
  in such a wake-up.
* `pipeline_overflows` — two requests of six bytes are one.
-/

namespace RedisInC

open Bytebuf

/-! ## Answers in a row -/

/-- Requests answered one after the other. -/
def answerAll : List RespRequest → Hashtable → Hashtable × Bytes
  | [], ht => (ht, [])
  | req :: reqs, ht =>
    let rest := answerAll reqs (replyTo ht req).1
    (rest.1, (replyTo ht req).2.encode ++ rest.2)

theorem answerAll_append (xs ys : List RespRequest) (ht : Hashtable) :
    answerAll (xs ++ ys) ht = ((answerAll ys (answerAll xs ht).1).1,
      (answerAll xs ht).2 ++ (answerAll ys (answerAll xs ht).1).2) := by
  induction xs generalizing ht with
  | nil => rfl
  | cons x xs ih =>
    rw [List.cons_append, answerAll, answerAll, ih]
    simp only [List.append_assoc]

/-- The requests at the head of an input. -/
def requests (input : Bytes) : List RespRequest := (respFramer.split input).frames.map Prod.snd

/-- More input, no fewer requests. -/
theorem requests_append (s t : Bytes) :
    requests (s ++ t) = requests s ++ requests ((respFramer.split s).rest ++ t) := by
  obtain ⟨hframes, -, -⟩ := respFramer.split_append s t
  rw [requests, requests, requests, hframes, List.map_append]

/-! ## Verdicts -/

theorem parse_frame {input : Bytes} {req : RespRequest} (h : respParseRequest input = .ok req) :
    respFramer.parse input = .frame req.bytesConsumed req := by
  change respVerdict input = _
  rw [respVerdict, h]

theorem parse_more {input : Bytes} (h : respParseRequest input = .needMore) :
    respFramer.parse input = .more := by
  change respVerdict input = _
  rw [respVerdict, h]

theorem parse_bad {input : Bytes} (h : respParseRequest input = .protocolErr) :
    respFramer.parse input = .bad := by
  change respVerdict input = _
  rw [respVerdict, h]

/-- The request of a frame, and then those behind it. -/
theorem requests_frame {input : Bytes} {req : RespRequest}
    (h : respParseRequest input = .ok req) :
    requests input = req :: requests (input.drop req.bytesConsumed) := by
  rw [requests, Framing.Framer.split_frame (parse_frame h)]
  rfl

/-! ## The dispatch loop -/

/-- Nothing is taken off the record. -/
theorem DispatchRun.trace_grows {s : NetState} {r : Int × NetState} (h : DispatchRun s r)
    (hb : Buffers s) : s.trace <+: r.2.trace ∧ readBytes r.2.trace = readBytes s.trace := by
  induction h with
  | more parse => exact ⟨List.prefix_rfl, rfl⟩
  | @bad s parse =>
    obtain ⟨complete, part, htrace, -⟩ := queueError_spec hb.out_inv (ascii "ERR Protocol error")
    simp only [htrace]
    exact ⟨List.prefix_append _ _, by rw [readBytes_append]; exact List.append_nil _⟩
  | @drop s req parse rc =>
    exact ⟨List.prefix_append _ _, (readBytes_append _ _).trans (List.append_nil _)⟩
  | @serve s req r parse rc rest ih =>
    obtain ⟨hgrown, hread⟩ := ih (hb.serve req).1
    refine ⟨(List.prefix_append _ _).trans hgrown, hread.trans ?_⟩
    exact (readBytes_append _ _).trans (List.append_nil _)

/-- **Which frames are served**: all complete ones, up to the first malformed
one. -/
theorem DispatchRun.frames {s : NetState} {r : Int × NetState} (h : DispatchRun s r)
    (hb : Buffers s) (hrc : r.1 = 0) :
    servedFrames r.2.trace =
        servedFrames s.trace ++ (respFramer.split s.conn.inBuf.live).frames ∧
      r.2.conn.inBuf.live = (respFramer.split s.conn.inBuf.live).rest ∧
      r.2.conn.closeAfterDrain =
        (s.conn.closeAfterDrain || (respFramer.split s.conn.inBuf.live).bad) := by
  induction h with
  | more parse =>
    rw [Framing.Framer.split_more (parse_more parse)]
    exact ⟨(List.append_nil _).symm, rfl, (Bool.or_false _).symm⟩
  | bad parse =>
    obtain ⟨complete, part, htrace, -⟩ := queueError_spec hb.out_inv (ascii "ERR Protocol error")
    rw [Framing.Framer.split_bad (parse_bad parse)]
    refine ⟨?_, rfl, (Bool.or_true _).symm⟩
    simp only [htrace, servedFrames_append]
    rfl
  | drop parse rc => exact absurd hrc (by simp)
  | @serve s req r parse rc rest ih =>
    obtain ⟨hb', hlive⟩ := hb.serve req
    obtain ⟨hframes, hrest, hclosing⟩ := ih hb' hrc
    rw [hlive] at hframes hrest hclosing
    rw [Framing.Framer.split_frame (parse_frame parse)]
    refine ⟨?_, hrest, hclosing⟩
    have htrace : servedFrames (s.serve req).trace =
        servedFrames s.trace ++ [(s.frame req, req)] := servedFrames_append _ _
    rw [hframes, htrace, List.append_assoc, List.singleton_append]
    rfl

/-- The error that a malformed frame is answered with. -/
def protocolError : Reply := .error (ascii "ERR Protocol error")

/-- **What the frames are answered with**, if no allocation fails: the loop serves
them all exactly if their replies fit behind the unsent output. -/
theorem DispatchRun.answers {s : NetState} {r : Int × NetState} (h : DispatchRun s r)
    (hb : Buffers s) (hf : r.2.heap.failed = false) :
    s.heap.failed = false ∧
    ((r.1 = 0 ∧ r.2.store = (answerAll (requests s.conn.inBuf.live) s.store).1 ∧
        s.conn.outBuf.live.length + (answerAll (requests s.conn.inBuf.live) s.store).2.length ≤
          BYTEBUF_MAX ∧
        (Smooth r.2.trace → appendedBytes r.2.trace = appendedBytes s.trace ++
          ((answerAll (requests s.conn.inBuf.live) s.store).2 ++
            if (respFramer.split s.conn.inBuf.live).bad then protocolError.encode else []))) ∨
      (r.1 = -1 ∧
        BYTEBUF_MAX < s.conn.outBuf.live.length +
          (answerAll (requests s.conn.inBuf.live) s.store).2.length)) := by
  induction h with
  | @more s parse =>
    have hlen := hb.out_inv.length_live_le
    rw [requests, Framing.Framer.split_more (parse_more parse)]
    refine ⟨hf, Or.inl ⟨rfl, rfl, hlen, fun _ => ?_⟩⟩
    exact (List.append_nil _).symm
  | @bad s parse =>
    have hlen := hb.out_inv.length_live_le
    obtain ⟨complete, part, htrace, -, -, hpart, hmono⟩ :=
      queueError_spec hb.out_inv (ascii "ERR Protocol error")
    rw [requests, Framing.Framer.split_bad (parse_bad parse)]
    refine ⟨hmono hf, Or.inl ⟨rfl, rfl, hlen, fun hsmooth => ?_⟩⟩
    simp only [htrace] at hsmooth ⊢
    have hcomplete := hsmooth _ (List.mem_append_right _ (List.mem_singleton_self _))
    rw [NetEvent.failure, Bool.not_eq_false'] at hcomplete
    rw [appendedBytes_append, hpart hcomplete]
    exact congrArg _ (List.append_nil _)
  | @drop s req parse rc =>
    have halloc : (s.execute req).2.heap.failed = false := hf
    obtain ⟨-, hreply⟩ := commandExecute_reply hb.out_inv halloc
    rw [requests_frame parse, answerAll]
    refine ⟨commandExecute_failed_mono req hb.out_inv halloc, Or.inr ⟨rfl, ?_⟩⟩
    rcases hreply with ⟨hzero, -, -⟩ | ⟨-, hmax⟩
    · exact absurd (rc.symm.trans hzero) (by decide)
    · refine Nat.lt_of_lt_of_le hmax (Nat.add_le_add_left ?_ _)
      rw [List.length_append]
      exact Nat.le_add_right _ _
  | @serve s req r parse rc rest ih =>
    obtain ⟨hb', hlive⟩ := hb.serve req
    obtain ⟨hf', hrest⟩ := ih hb' hf
    have halloc : (s.execute req).2.heap.failed = false := hf'
    obtain ⟨hstore, hreply⟩ := commandExecute_reply hb.out_inv halloc
    rcases hreply with ⟨-, hout, -⟩ | ⟨hneg, -⟩
    · have hstore' : (s.serve req).store = (replyTo s.store req).1 := hstore
      have hout' : (s.serve req).conn.outBuf.live =
          s.conn.outBuf.live ++ (replyTo s.store req).2.encode := hout
      have happended : appendedBytes (s.serve req).trace =
          appendedBytes s.trace ++ (replyTo s.store req).2.encode := by
        have hpart : s.appended req = (replyTo s.store req).2.encode :=
          List.append_cancel_left ((execute_spec hb.out_inv req).2.symm.trans hout)
        rw [← hpart]
        exact (appendedBytes_append _ _).trans (congrArg _ (List.append_nil _))
      rw [hlive, hstore', hout', happended, List.length_append] at hrest
      rw [requests_frame parse, answerAll, Framing.Framer.split_frame (parse_frame parse)]
      simp only [List.length_append]
      refine ⟨commandExecute_failed_mono req hb.out_inv halloc, ?_⟩
      rcases hrest with ⟨hzero, hfinal, hroom, htrace⟩ | ⟨hneg, hmax⟩
      · refine Or.inl ⟨hzero, hfinal, by omega, fun hsmooth => ?_⟩
        rw [htrace hsmooth]
        simp only [List.append_assoc]
      · exact Or.inr ⟨hneg, by omega⟩
    · exact absurd (rc.symm.trans hneg) (by decide)

/-- Some frames are served, one after the other. -/
inductive FramesServed : NetState → NetState → Prop
  /-- none -/
  | none {s : NetState} : FramesServed s s
  /-- one, and then the others -/
  | frame {s s' : NetState} {req : RespRequest}
      (parse : respParseRequest s.conn.inBuf.live = .ok req) (rc : (s.execute req).1 = 0)
      (rest : FramesServed (s.serve req) s') : FramesServed s s'

/-- How the dispatch loop ends. -/
inductive DispatchEnd (s : NetState) : Int × NetState → Prop
  /-- no complete frame -/
  | more (parse : respParseRequest s.conn.inBuf.live = .needMore) : DispatchEnd s (0, s)
  /-- a malformed frame -/
  | bad (parse : respParseRequest s.conn.inBuf.live = .protocolErr) :
      DispatchEnd s (0, s.queueError (ascii "ERR Protocol error"))
  /-- the reply cannot be appended -/
  | drop {req : RespRequest} (parse : respParseRequest s.conn.inBuf.live = .ok req)
      (rc : (s.execute req).1 = -1) : DispatchEnd s (-1, s.drop req)

/-- **The dispatch loop in two parts**: the frames served, and why it stops. -/
theorem DispatchRun.split {s : NetState} {r : Int × NetState} (h : DispatchRun s r) :
    ∃ s', FramesServed s s' ∧ DispatchEnd s' r := by
  induction h with
  | more parse => exact ⟨_, .none, .more parse⟩
  | bad parse => exact ⟨_, .none, .bad parse⟩
  | drop parse rc => exact ⟨_, .none, .drop parse rc⟩
  | serve parse rc rest ih =>
    obtain ⟨s', hserved, hend⟩ := ih
    exact ⟨s', .frame parse rc hserved, hend⟩

/-- What serving frames comes to. -/
theorem FramesServed.spec {s s' : NetState} (h : FramesServed s s') (hb : Buffers s) :
    Buffers s' ∧ s'.conn.closeAfterDrain = s.conn.closeAfterDrain ∧ s'.mask = s.mask ∧
      s'.conn.events = s.conn.events ∧
      (respFramer.split s'.conn.inBuf.live).bad = (respFramer.split s.conn.inBuf.live).bad ∧
      ∃ events : List NetEvent, s'.trace = s.trace ++ events ∧ ∀ e ∈ events, e.isServed = true := by
  induction h with
  | none => exact ⟨hb, rfl, rfl, rfl, rfl, [], (List.append_nil _).symm, nofun⟩
  | @frame s s' req parse rc rest ih =>
    obtain ⟨hb', hlive⟩ := hb.serve req
    obtain ⟨hbuffers, hclosing, hmask, hevents, hbad, events, htrace, hserved⟩ := ih hb'
    rw [hlive] at hbad
    rw [Framing.Framer.split_frame (parse_frame parse)]
    refine ⟨hbuffers, hclosing, hmask, hevents, hbad,
      .served (s.frame req) req (s.appended req) :: events, ?_, ?_⟩
    · rw [htrace]
      exact List.append_assoc _ _ _
    · intro e he
      rcases List.mem_cons.mp he with rfl | hmem
      · rfl
      · exact hserved e hmem

/-! ## Two requests of six bytes -/

/-- Twice `GET k`. -/
def twoGets : Chunk := ⟨ascii "GET k\r\nGET k\r\n", by decide, by decide⟩

/-- `GET k` as it is parsed. -/
def getRequest : RespRequest := commitArgs [⟨0, ascii "GET"⟩, ⟨4, ascii "k"⟩] 7

theorem twoGets_frame : respParseRequest twoGets.bytes = .ok getRequest := by rfl

theorem get_frame : respParseRequest (twoGets.bytes.drop 7) = .ok getRequest := by rfl

section Overflow

variable {s : NetState} {r : Int × NetState} {big : Bytes}

/-- What the request gets. -/
theorem execute_get (ho : s.conn.outBuf.Inv) (ha : s.heap.Ample) (hbig : big.length = 10000000)
    (hone : HoldsOne s.store big) :
    (s.execute getRequest).2.heap.Ample ∧ (s.execute getRequest).2.store = s.store ∧
      (((s.execute getRequest).1 = 0 ∧
          (s.execute getRequest).2.out.live = s.conn.outBuf.live ++ (Reply.bulk big).encode ∧
          s.conn.outBuf.live.length + (Reply.bulk big).encode.length ≤ BYTEBUF_MAX) ∨
        ((s.execute getRequest).1 = -1 ∧
          BYTEBUF_MAX < s.conn.outBuf.live.length + (Reply.bulk big).encode.length)) := by
  have hget := hone.2 (ascii "k")
  rw [if_pos rfl] at hget
  have hreply : replyTo s.store getRequest = (s.store, .bulk big) :=
    replyTo_get (by decide) (by decide) hget
  have hsized : Sized s.store getRequest :=
    @sized_words [ascii "GET", ascii "k"] (by decide) _ (commitArgs_bytes _ _) _ big (by omega)
      fun key v hv => hone.unique hv
  have hample : (s.execute getRequest).2.heap.Ample := commandExecute_ample ho ha hsized
  obtain ⟨hstore, hrest⟩ := commandExecute_reply ho hample.2
  rw [hreply] at hstore hrest
  exact ⟨hample, hstore, hrest⟩

/-- The second reply does not fit behind the first one, and both are lost. -/
theorem overflow_run (hrun : DispatchRun s r) (hb : Buffers s)
    (hlive : s.conn.inBuf.live = twoGets.bytes) (hout : s.conn.outBuf.live = [])
    (ha : s.heap.Ample) (hbig : big.length = 10000000) (hone : HoldsOne s.store big) :
    r.1 = -1 ∧ r.2.heap.failed = false ∧ r.2.conn.outBuf.live ≠ [] := by
  have hbulk : (Reply.bulk big).encode.length = 10000013 := by
    rw [Reply.encode, length_encodeBulk_eq, hbig]
    rfl
  obtain ⟨hample, hstore, hfirst⟩ := execute_get hb.out_inv ha hbig hone
  rw [hout, hbulk, List.length_nil, Nat.zero_add, List.nil_append] at hfirst
  obtain ⟨hzero, hlive₁, -⟩ | ⟨-, hmax⟩ := hfirst
  · -- the first request is served
    have hrest : DispatchRun (s.serve getRequest) r := by
      cases hrun with
      | more parse => rw [hlive, twoGets_frame] at parse; cases parse
      | bad parse => rw [hlive, twoGets_frame] at parse; cases parse
      | drop parse rc =>
        rw [hlive, twoGets_frame] at parse
        cases parse
        exact absurd (rc.symm.trans hzero) (by decide)
      | serve parse rc rest =>
        rw [hlive, twoGets_frame] at parse
        cases parse
        exact rest
    obtain ⟨hb', hin⟩ := hb.serve getRequest
    have hin' : (s.serve getRequest).conn.inBuf.live = twoGets.bytes.drop 7 := by
      rw [hin, hlive]
      rfl
    have hout' : (s.serve getRequest).conn.outBuf.live = (Reply.bulk big).encode := hlive₁
    have hone' : HoldsOne (s.serve getRequest).store big := by
      change HoldsOne (s.execute getRequest).2.store big
      rw [hstore]
      exact hone
    obtain ⟨hample', -, hsecond⟩ := execute_get hb'.out_inv hample hbig hone'
    rw [hout', hbulk] at hsecond
    obtain ⟨-, -, hfits⟩ | ⟨hneg, -⟩ := hsecond
    · exact absurd hfits (by decide)
    · -- the second one is not
      cases hrest with
      | more parse => rw [hin', get_frame] at parse; cases parse
      | bad parse => rw [hin', get_frame] at parse; cases parse
      | drop parse rc =>
        rw [hin', get_frame] at parse
        cases parse
        refine ⟨rfl, hample'.2, fun hnil => ?_⟩
        have hgrown := (execute_spec hb'.out_inv getRequest).2
        rw [hout'] at hgrown
        have hlen := congrArg List.length (hgrown.symm.trans hnil)
        rw [List.length_append, hbulk, List.length_nil] at hlen
        omega
      | serve parse rc rest =>
        rw [hin', get_frame] at parse
        cases parse
        exact absurd (hneg.symm.trans rc) (by decide)
  · exact absurd hmax (by decide)

/-- The same from the read loop on. -/
theorem twoGets_overflow {s₁ : NetState} {chunks : List Bytes} {stop : ReadEnd}
    (hread : ReadOutcome s [.data twoGets] chunks (stop, s₁)) (hrun : DispatchRun s₁ r)
    (hb : Buffers s)
    (hempty : s.conn.inBuf.live = [] ∧ s.conn.outBuf.live = [] ∧ s.heap.Ample)
    (hbig : big.length = 10000000) (hone : HoldsOne s.store big) :
    r.1 = -1 ∧ r.2.heap.failed = false ∧ r.2.conn.outBuf.live ≠ [] := by
  obtain ⟨hin, hout, ha⟩ := hempty
  obtain ⟨hb₁, hsame, -⟩ := hread.buffers hb
  have hample : s₁.heap.Ample := hread.ample ha
  have hlive : s₁.conn.inBuf.live = chunks.flatten := by
    have hlive := hread.live_eq
    rw [hin, List.nil_append] at hlive
    exact hlive
  -- there is room for fourteen bytes
  have hroom : ∀ msg, stop ≠ .refused msg := by
    intro msg hstop
    rcases hread.refused msg hstop with hfailed | hmax
    · exact absurd (hfailed.symm.trans hample.2) (by decide)
    · have hlen : chunks.flatten.length ≤ 14 := hread.part.length_le
      change BYTEBUF_MAX < s₁.conn.inBuf.live.length + READ_CHUNK at hmax
      rw [hlive, BYTEBUF_MAX, READ_CHUNK] at hmax
      omega
  have hall : s₁.conn.inBuf.live = twoGets.bytes := by
    rw [hlive, hread.whole hroom]
    rfl
  have hstore : s₁.store = s.store := hread.store_eq
  exact overflow_run hrun hb₁ hall (hsame ▸ hout) hample hbig (hstore ▸ hone)

end Overflow

/-- Another connection has stored ten million bytes. -/
def bigElsewhere (big : Bytes) : List NetStep :=
  [.elsewhere (htInit.put (ascii "k") big) Heap.ample]

theorem holdsOne_bigElsewhere (big : Bytes) :
    HoldsOne (netRun htInit Heap.ample (bigElsewhere big)).state.store big := by
  refine ⟨(Hashtable.inv_init.put _ _).1, fun key => ?_⟩
  change htGet (htInit.put _ _) key = _
  rw [Hashtable.inv_init.htGet_put, Hashtable.htGet_init]

/-- What the wake-up comes to: it is closed on unsent replies. -/
theorem twoGets_call {big : Bytes} (hbig : big.length = 10000000) :
    (handleRead [.data twoGets] true (netRun htInit Heap.ample (bigElsewhere big)).state).1 = -1 ∧
    (handleRead [.data twoGets] true
      (netRun htInit Heap.ample (bigElsewhere big)).state).2.heap.failed = false ∧
    (handleRead [.data twoGets] true
      (netRun htInit Heap.ample (bigElsewhere big)).state).2.conn.outBuf.live ≠ [] := by
  obtain ⟨hl, -⟩ := netRun_inv htInit Heap.ample (bigElsewhere big)
  have hone := holdsOne_bigElsewhere big
  have hempty : (netRun htInit Heap.ample (bigElsewhere big)).state.conn.inBuf.live = [] ∧
      (netRun htInit Heap.ample (bigElsewhere big)).state.conn.outBuf.live = [] ∧
      (netRun htInit Heap.ample (bigElsewhere big)).state.heap.Ample :=
    ⟨rfl, rfl, Heap.ample_ample⟩
  have hnormal : (netRun htInit Heap.ample (bigElsewhere big)).state.conn.closeAfterDrain = false :=
    rfl
  generalize (netRun htInit Heap.ample (bigElsewhere big)).state = s at hl hone hempty hnormal ⊢
  have hcall := handleRead_call [.data twoGets] true hl.toBuffers
  generalize handleRead [.data twoGets] true s = r at hcall ⊢
  cases hcall with
  | winding closing adjusted => exact absurd (hnormal.symm.trans closing) (by simp)
  | stopped open_ read stop_eq =>
    rcases stop_eq with hstop | hstop
    · exact absurd (read.eof_mem hstop) (by simp)
    · exact absurd (read.error_mem hstop) (by simp)
  | dropped open_ read run => exact twoGets_overflow read run hl.toBuffers hempty hbig hone
  | dispatched open_ read run adjusted =>
    have hover := twoGets_overflow read run hl.toBuffers hempty hbig hone
    exact absurd (show (0 : ℤ) = -1 from hover.1) (by decide)
  | refused open_ read run adjusted =>
    have hover := twoGets_overflow read run hl.toBuffers hempty hbig hone
    exact absurd (show (0 : ℤ) = -1 from hover.1) (by decide)

/-! ## Closing -/

/-- Everything appended so far has been handed to `write`. -/
def Flushed (s : NetState) : Prop :=
  s.conn.outBuf.live = [] ∧ wroteBytes s.trace = appendedBytes s.trace

theorem Ledger.flushed {s : NetState} (hl : Ledger s) (hout : s.conn.outBuf.live = []) :
    Flushed s := by
  have hwrote := hl.wrote_eq
  rw [hout, List.append_nil] at hwrote
  exact ⟨hout, hwrote⟩

/-- A connection that is closed at the end of a handler is flushed. -/
theorem Adjusted.flushed {s : NetState} {r : Int × NetState} (hr : Adjusted s true r)
    (hl : Ledger s) (hrc : r.1 = -1) : Flushed r.2 := by
  rcases hr.close hrc with ⟨-, hout⟩ | hctl
  · rw [hr.state_eq]
    exact hl.flushed hout
  · cases hctl

/-- The input a wake-up has to work on, if no allocation fails: what is unparsed, and
what is read. -/
def wakeInput (s : NetState) (reads : List ReadResult) : Bytes :=
  s.conn.inBuf.live ++ taken s.conn.inBuf.live.length reads

/-- The replies of a wake-up do not fit behind the unsent output. -/
def Overflows (s : NetState) (reads : List ReadResult) : Prop :=
  s.conn.closeAfterDrain = false ∧ BYTEBUF_MAX <
    s.conn.outBuf.live.length + (answerAll (requests (wakeInput s reads)) s.store).2.length

/-- Each of the replies alone is smaller than a buffer may be. -/
def EachFits : List RespRequest → Hashtable → Prop
  | [], _ => True
  | req :: reqs, ht =>
    (replyTo ht req).2.encode.length < BYTEBUF_MAX ∧ EachFits reqs (replyTo ht req).1

/-- **Why the server gives a connection up**: a request has been executed, and
`command_execute` has returned -1. Its frame is the last event on record. -/
def GivesUp (reads : List ReadResult) (s : NetState) : Prop :=
  ∃ s' req, FramesServed (readLoop reads s).2 s' ∧
    respParseRequest s'.conn.inBuf.live = .ok req ∧ (s'.execute req).1 = -1 ∧
    handleRead reads true s = (-1, s'.drop req)

/-- Nothing is written before a connection is given up. -/
theorem GivesUp.wrote {s : NetState} {reads : List ReadResult} (h : GivesUp reads s)
    (hb : Buffers s) : wroteBytes (handleRead reads true s).2.trace = wroteBytes s.trace := by
  obtain ⟨s', req, hserved, -, -, hcall⟩ := h
  obtain ⟨chunks, hread⟩ := readLoop_spec reads hb.in_inv
  obtain ⟨-, -, -, -, -, events, htrace, hevents⟩ := hserved.spec (hread.buffers hb).1
  have hnone : wroteBytes events = [] := by
    refine List.flatMap_eq_nil_iff.mpr fun e he => ?_
    have hkind := hevents e he
    cases e <;> first | rfl | cases hkind
  obtain ⟨-, -, -, -, hreads⟩ := parts_reads chunks
  obtain ⟨-, -, -, -, hmark⟩ := (readLoop reads s).1.parts_mark
  have hdropped : wroteBytes (s'.drop req).trace = wroteBytes s'.trace :=
    (wroteBytes_append _ _).trans (List.append_nil _)
  rw [hcall, hdropped, htrace, hread.trace_eq]
  simp only [wroteBytes_append, hreads, hmark, hnone, List.append_nil]

/-- A reply that fits a buffer is lost only behind others. -/
theorem DispatchRun.lost {s : NetState} {r : Int × NetState} (h : DispatchRun s r)
    (hb : Buffers s) (hf : r.2.heap.failed = false) (hrc : r.1 = -1)
    (hfits : EachFits (requests s.conn.inBuf.live) s.store) : r.2.conn.outBuf.live ≠ [] := by
  induction h with
  | more parse => exact absurd hrc (by simp)
  | bad parse => exact absurd hrc (by simp)
  | @drop s req parse rc =>
    rw [requests_frame parse] at hfits
    have halloc : (s.execute req).2.heap.failed = false := hf
    rcases (commandExecute_reply hb.out_inv halloc).2 with ⟨hzero, -, -⟩ | ⟨-, hmax⟩
    · exact absurd (rc.symm.trans hzero) (by decide)
    · -- the output was not empty before
      change BYTEBUF_MAX < s.conn.outBuf.live.length + (replyTo s.store req).2.encode.length at hmax
      intro hnil
      have hgrown := (execute_spec hb.out_inv req).2.symm.trans hnil
      have hempty := congrArg List.length (List.append_eq_nil_iff.mp hgrown).1
      rw [List.length_nil] at hempty
      have hone := hfits.1
      omega
  | @serve s req r parse rc rest ih =>
    obtain ⟨hb', hlive⟩ := hb.serve req
    obtain ⟨hf', -⟩ := rest.answers hb' hf
    obtain ⟨hstore, -⟩ := commandExecute_reply hb.out_inv hf'
    have hstore' : (s.serve req).store = (replyTo s.store req).1 := hstore
    rw [requests_frame parse] at hfits
    refine ih hb' hf hrc ?_
    rw [hlive, hstore']
    exact hfits.2

/-- The input of the dispatch loop. -/
theorem ReadOutcome.wakeInput_eq {s s₁ : NetState} {reads : List ReadResult}
    {chunks : List Bytes} {stop : ReadEnd} (hr : ReadOutcome s reads chunks (stop, s₁))
    (hi : s.conn.inBuf.Inv) (hf : s₁.heap.failed = false) :
    s₁.conn.inBuf.live = wakeInput s reads := by
  have htaken := readLoop_taken reads hi
  rw [hr.loop_eq] at htaken
  exact htaken hf

/-- If all frames are served, their replies fit. -/
theorem DispatchRun.fits {s s₁ s₂ : NetState} {reads : List ReadResult} {chunks : List Bytes}
    {stop : ReadEnd} (run : DispatchRun s₁ (0, s₂))
    (read : ReadOutcome s reads chunks (stop, s₁)) (hb : Buffers s)
    (hf : s₂.heap.failed = false) : ¬ Overflows s reads := by
  obtain ⟨hb₁, hout, -⟩ := read.buffers hb
  obtain ⟨hf₁, hanswers⟩ := run.answers hb₁ hf
  have hstore : s₁.store = s.store := read.store_eq
  rw [read.wakeInput_eq hb.in_inv hf₁, hout, hstore] at hanswers
  rcases hanswers with ⟨-, -, hroom, -⟩ | ⟨hneg, -⟩
  · exact fun hover => absurd hroom (Nat.not_le.mpr hover.2)
  · exact absurd hneg (by simp)

/-- **A call of `handle_read`**, as long as the peer stays and nothing fails: either the
replies fit, and a connection that is closed is flushed, or they do not, and it is
given up. -/
theorem handleRead_closing {s : NetState} (hl : Ledger s) {reads : List ReadResult}
    (hreads : .eof ∉ reads ∧ .error ∉ reads)
    (halloc : (handleRead reads true s).2.heap.failed = false) :
    (¬ Overflows s reads ∧
      ((handleRead reads true s).1 = -1 → Flushed (handleRead reads true s).2)) ∨
    (Overflows s reads ∧ GivesUp reads s ∧
      (EachFits (requests (wakeInput s reads)) s.store →
        ¬ Flushed (handleRead reads true s).2)) := by
  have hcall := handleRead_call reads true hl.toBuffers
  generalize hr : handleRead reads true s = r at halloc hcall
  cases hcall with
  | winding closing adjusted =>
    refine Or.inl ⟨fun hover => ?_, adjusted.flushed hl⟩
    exact absurd (closing.symm.trans hover.1) (by decide)
  | stopped open_ read stop_eq =>
    rcases stop_eq with hstop | hstop
    · exact absurd (read.eof_mem hstop) hreads.1
    · exact absurd (read.error_mem hstop) hreads.2
  | @dropped chunks stop s₁ s₂ open_ read run =>
    obtain ⟨hb, hout, -⟩ := read.buffers hl.toBuffers
    obtain ⟨hf₁, hanswers⟩ := run.answers hb halloc
    have hstore : s₁.store = s.store := read.store_eq
    have hinput := read.wakeInput_eq hl.in_inv hf₁
    obtain ⟨s', hserved, hend⟩ := run.split
    refine Or.inr ⟨⟨open_, ?_⟩, ?_, fun hfits hflushed => ?_⟩
    · rw [hinput, hout, hstore] at hanswers
      rcases hanswers with ⟨hzero, -⟩ | ⟨-, hmax⟩
      · exact absurd hzero (by simp)
      · exact hmax
    · cases hend with
      | @drop req parse rc =>
        refine ⟨s', req, ?_, parse, rc, hr⟩
        rw [read.loop_eq]
        exact hserved
    · rw [← hinput, ← hstore] at hfits
      exact run.lost hb halloc rfl hfits hflushed.1
  | dispatched open_ read run adjusted =>
    refine Or.inl ⟨run.fits read hl.toBuffers ?_,
      adjusted.flushed (run.ledger (hl.received read))⟩
    rw [adjusted.state_eq] at halloc
    exact halloc
  | @refused chunks msg s₁ s₂ r open_ read run adjusted =>
    have hl₂ := run.ledger (hl.received read)
    obtain ⟨-, -, -, -, -, -, hmono⟩ := queueError_spec hl₂.out_inv msg
    refine Or.inl ⟨run.fits read hl.toBuffers (hmono ?_), adjusted.flushed (hl₂.queueError _)⟩
    rw [adjusted.state_eq] at halloc
    exact halloc

/-- A connection that `handle_write` closes is flushed, unless the socket fails. -/
theorem handleWrite_closing {s : NetState} (hl : Ledger s) {writes : List WriteResult} (ctl : Bool)
    (hwrites : .epipe ∉ writes ∧ .error ∉ writes) (hrc : (handleWrite writes ctl s).1 = -1) :
    Flushed (handleWrite writes ctl s).2 := by
  have hcall := handleWrite_call writes ctl hl.out_inv
  have hl' := hcall.ledger hl
  generalize handleWrite writes ctl s = r at hrc hcall hl' ⊢
  obtain @⟨pieces, stop, s₁, hwrite, hstate, hclose⟩ := hcall
  rcases hclose (hrc ▸ neg_one_lt_zero) with hstop | hstop
  · rcases hwrite.failed_mem hstop with hmem | hmem
    · exact absurd hmem hwrites.1
    · exact absurd hmem hwrites.2
  · refine hl'.flushed ?_
    rw [hstate]
    exact hwrite.drained hstop

/-- **When unsent replies are given up.** At any point in the life of a
connection, as long as the peer does not close, the system calls succeed and no
allocation fails: if `handle_write` closes the connection, the output is flushed, and
so it is if `handle_read` does, unless the replies to the requests in the input of this
wake-up do not fit behind the unsent output. In that case `command_execute` returns -1
and the connection is closed at once; if each reply alone would fit, it is closed on
unsent replies in that case, and in no other. -/
theorem close_keeps_replies (store : Hashtable) (h : Heap) (steps : List NetStep)
    (reads : List ReadResult) (writes : List WriteResult) (ctl : Bool)
    (hreads : .eof ∉ reads ∧ .error ∉ reads) (hwrites : .epipe ∉ writes ∧ .error ∉ writes)
    (halloc : (handleRead reads true (netRun store h steps).state).2.heap.failed = false) :
    ((handleRead reads true (netRun store h steps).state).1 = -1 →
      Flushed (handleRead reads true (netRun store h steps).state).2 ∨
        Overflows (netRun store h steps).state reads) ∧
    (Overflows (netRun store h steps).state reads →
      GivesUp reads (netRun store h steps).state ∧
        wroteBytes (handleRead reads true (netRun store h steps).state).2.trace =
          wroteBytes (netRun store h steps).state.trace) ∧
    (EachFits (requests (wakeInput (netRun store h steps).state reads))
        (netRun store h steps).state.store →
      (Overflows (netRun store h steps).state reads ↔
        (handleRead reads true (netRun store h steps).state).1 = -1 ∧
          ¬ Flushed (handleRead reads true (netRun store h steps).state).2)) ∧
    ((handleWrite writes ctl (netRun store h steps).state).1 = -1 →
      Flushed (handleWrite writes ctl (netRun store h steps).state).2) := by
  obtain ⟨hl, -⟩ := netRun_inv store h steps
  generalize (netRun store h steps).state = s at hl halloc ⊢
  refine ⟨?_, ?_, ?_, handleWrite_closing hl ctl hwrites⟩
  · intro hrc
    rcases handleRead_closing hl hreads halloc with ⟨-, hflushed⟩ | ⟨hover, -⟩
    · exact Or.inl (hflushed hrc)
    · exact Or.inr hover
  · intro hover
    rcases handleRead_closing hl hreads halloc with ⟨hroom, -⟩ | ⟨-, hgives, -⟩
    · exact absurd hover hroom
    · exact ⟨hgives, hgives.wrote hl.toBuffers⟩
  · intro hfits
    rcases handleRead_closing hl hreads halloc with ⟨hroom, hflushed⟩ | ⟨hover, hgives, hlost⟩
    · refine ⟨fun hover => absurd hover hroom, fun hclosed => ?_⟩
      exact absurd (hflushed hclosed.1) hclosed.2
    · obtain ⟨s', req, -, -, -, hcall⟩ := hgives
      exact ⟨fun _ => ⟨by rw [hcall], hlost hfits⟩, fun _ => hover⟩

/-- Two requests and a malformed frame, in two reads. -/
def pipelineSteps : List NetStep :=
  [.read [.data ⟨ascii "PING\r\nPI", by decide, by decide⟩,
    .data ⟨ascii "NG\r\n*x\r\n", by decide, by decide⟩] true]

/-- The two requests of the wake-up that does not fit. -/
theorem requests_twoGets {s : NetState} (hin : s.conn.inBuf.live = []) :
    requests (wakeInput s [.data twoGets]) = [getRequest, getRequest] := by
  have hinput : wakeInput s [.data twoGets] = twoGets.bytes := by
    rw [wakeInput, hin, taken, if_pos (by decide), taken, List.append_nil, List.nil_append]
  have hsecond : requests (twoGets.bytes.drop 7) = [getRequest] := requests_frame get_frame
  have hboth : requests twoGets.bytes = getRequest :: requests (twoGets.bytes.drop 7) :=
    requests_frame twoGets_frame
  rw [hinput, hboth, hsecond]

/-- Each of the two replies fits a buffer, and they do not fit together. -/
theorem overflows_twoGets {s : NetState} {big : Bytes} (hnormal : s.conn.closeAfterDrain = false)
    (hin : s.conn.inBuf.live = []) (hbig : big.length = 10000000) (hone : HoldsOne s.store big) :
    Overflows s [.data twoGets] ∧
      EachFits (requests (wakeInput s [.data twoGets])) s.store := by
  have hget := hone.2 (ascii "k")
  rw [if_pos rfl] at hget
  have hreply : replyTo s.store getRequest = (s.store, .bulk big) :=
    replyTo_get (by decide) (by decide) hget
  have hlen : (Reply.bulk big).encode.length = 10000013 := by
    rw [Reply.encode, length_encodeBulk_eq, hbig]
    rfl
  have hanswers : (answerAll [getRequest, getRequest] s.store).2 =
      (Reply.bulk big).encode ++ (Reply.bulk big).encode := by
    simp only [answerAll, hreply, List.append_nil]
  have hfits : EachFits [getRequest, getRequest] s.store := by
    simp only [EachFits, hreply, hlen]
    decide
  rw [Overflows, requests_twoGets hin, hanswers, List.length_append, hlen]
  exact ⟨⟨hnormal, Nat.lt_of_lt_of_le (by decide) (Nat.le_add_left _ _)⟩, hfits⟩

/-- All replies of the pipeline are delivered, with the error that closes the
connection; two large ones are given up. -/
theorem close_keeps_replies_pipeline :
    (Flushed (handleWrite [.accepted 100 (by decide)] true
        (netRun htInit Heap.ample pipelineSteps).state).2 ∧
      wroteBytes (handleWrite [.accepted 100 (by decide)] true
          (netRun htInit Heap.ample pipelineSteps).state).2.trace =
        ascii "+PONG\r\n+PONG\r\n-ERR Protocol error\r\n") ∧
    ∃ big : Bytes,
      GivesUp [.data twoGets] (netRun htInit Heap.ample (bigElsewhere big)).state ∧
      ¬ Flushed (handleRead [.data twoGets] true
        (netRun htInit Heap.ample (bigElsewhere big)).state).2 := by
  refine ⟨⟨(close_keeps_replies htInit Heap.ample pipelineSteps [] [.accepted 100 (by decide)] true
    ⟨by simp, by simp⟩ ⟨by simp, by simp⟩ (by decide)).2.2.2 (by decide), by decide⟩, ?_⟩
  obtain ⟨big, hbig⟩ : ∃ big : Bytes, big.length = 10000000 :=
    ⟨List.replicate 10000000 97, List.length_replicate⟩
  have hone := holdsOne_bigElsewhere big
  have hnormal : (netRun htInit Heap.ample (bigElsewhere big)).state.conn.closeAfterDrain = false :=
    rfl
  have hin : (netRun htInit Heap.ample (bigElsewhere big)).state.conn.inBuf.live = [] := rfl
  have hcall := close_keeps_replies htInit Heap.ample (bigElsewhere big) [.data twoGets] [] true
    ⟨by simp, by simp⟩ ⟨by simp, by simp⟩ (twoGets_call hbig).2.1
  refine ⟨big, ?_⟩
  generalize (netRun htInit Heap.ample (bigElsewhere big)).state = s at hone hnormal hin hcall ⊢
  obtain ⟨-, hcloses, hiff, -⟩ := hcall
  obtain ⟨hover, hfits⟩ := overflows_twoGets hnormal hin hbig hone
  exact ⟨(hcloses hover).1, ((hiff hfits).mp hover).2⟩

/-- **A pipeline that does not fit.** One wake-up delivers fourteen bytes, two
requests for a value whose reply fits a buffer well. Nothing fails and the peer
stays, but `handle_read` closes the connection on unsent replies. -/
theorem pipeline_overflows : ∃ big : Bytes, (Reply.bulk big).encode.length < BYTEBUF_MAX ∧
    (netRun htInit Heap.ample (bigElsewhere big)).isOpen = true ∧
    (handleRead [.data twoGets] true (netRun htInit Heap.ample (bigElsewhere big)).state).1 = -1 ∧
    (handleRead [.data twoGets] true
      (netRun htInit Heap.ample (bigElsewhere big)).state).2.heap.failed = false ∧
    (handleRead [.data twoGets] true
      (netRun htInit Heap.ample (bigElsewhere big)).state).2.conn.outBuf.live ≠ [] := by
  obtain ⟨big, hbig⟩ : ∃ big : Bytes, big.length = 10000000 :=
    ⟨List.replicate 10000000 97, List.length_replicate⟩
  have hbulk : (Reply.bulk big).encode.length < BYTEBUF_MAX := by
    rw [Reply.encode, length_encodeBulk_eq, hbig]
    decide
  exact ⟨big, hbulk, rfl, twoGets_call hbig⟩

end RedisInC
