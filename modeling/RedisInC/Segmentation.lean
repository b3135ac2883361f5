import RedisInC.Pipeline

/-!
# What a connection has done is a function of what it has read

The server parses the input from scratch at every wake-up, so it could matter how
the bytes were cut into reads and wake-ups. It does not, as long as every
wake-up that reads also dispatches.

* `Framed` — the state of a connection as the framer sees all the bytes it has
  read; kept by every call that fails in no way (`ReadCall.framed`).
* `Tracks` — the store and the output as the answers to the requests in these
  bytes.
* `segmentation_independence` — two runs that take in the same stream serve the
  same frames, append the same bytes and leave the same store.
* `eof_serves_all_iff` — the wake-up in which the peer closes does not dispatch:
  frames that it completes are lost. `eof_drops_ping` is the shortest such case.
-/

namespace RedisInC

open Bytebuf

/-! ## The record of an undisturbed connection -/

/-- Nothing has failed, and the peer has not closed. -/
def Clean (trace : List NetEvent) : Prop :=
  ∀ e ∈ trace, e.failure = false ∧ e.isEof = false

instance (trace : List NetEvent) : Decidable (Clean trace) :=
  inferInstanceAs (Decidable (∀ e ∈ trace, e.failure = false ∧ e.isEof = false))

theorem Clean.of_prefix {t u : List NetEvent} (hu : Clean u) (ht : t <+: u) : Clean t :=
  fun e he => hu e (ht.subset he)

theorem Clean.smooth {t : List NetEvent} (ht : Clean t) : Smooth t := fun e he => (ht e he).1

theorem clean_append {t u : List NetEvent} : Clean (t ++ u) ↔ Clean t ∧ Clean u := by
  constructor
  · intro h
    exact ⟨fun e he => h e (List.mem_append_left _ he),
      fun e he => h e (List.mem_append_right _ he)⟩
  · rintro ⟨ht, hu⟩ e he
    rcases List.mem_append.mp he with hmem | hmem
    · exact ht e hmem
    · exact hu e hmem

theorem clean_reads (chunks : List Bytes) : Clean (chunks.map .read) := by
  intro e he
  obtain ⟨c, -, rfl⟩ := List.mem_map.mp he
  exact ⟨rfl, rfl⟩

theorem clean_wrote (pieces : List Bytes) : Clean (pieces.map .wrote) := by
  intro e he
  obtain ⟨p, -, rfl⟩ := List.mem_map.mp he
  exact ⟨rfl, rfl⟩

/-- A clean record of the read loop shows that the input was drained. -/
theorem ReadEnd.drained_of_clean {stop : ReadEnd} (h : Clean stop.mark) : stop = .drained := by
  cases stop with
  | drained => rfl
  | refused msg => exact absurd (h _ (List.mem_singleton_self _)).1 (by simp [NetEvent.failure])
  | eof => exact absurd (h _ (List.mem_singleton_self _)).2 (by decide)
  | error => exact absurd (h _ (List.mem_singleton_self _)).1 (by decide)

/-- A reply that could not be appended is on record. -/
theorem DispatchRun.dropped {s : NetState} {r : Int × NetState} (h : DispatchRun s r)
    (hrc : r.1 = -1) : ¬ Clean r.2.trace := by
  induction h with
  | more parse => exact absurd hrc (by simp)
  | bad parse => exact absurd hrc (by simp)
  | @drop s req parse rc =>
    intro hclean
    have hlast := hclean _ (List.mem_append_right _ (List.mem_singleton_self _))
    exact absurd hlast.1 (by simp [NetEvent.failure])
  | serve parse rc rest ih => exact ih hrc

/-! ## The record grows -/

theorem ReadOutcome.trace_grows {s s₁ : NetState} {script : List ReadResult}
    {chunks : List Bytes} {stop : ReadEnd} (hr : ReadOutcome s script chunks (stop, s₁)) :
    s.trace <+: s₁.trace := by
  have htrace : s₁.trace = s.trace ++ (chunks.map .read ++ stop.mark) := hr.trace_eq
  rw [htrace]
  exact List.prefix_append _ _

theorem Adjusted.trace_eq {s : NetState} {ctl : Bool} {r : Int × NetState}
    (hr : Adjusted s ctl r) : r.2.trace = s.trace := by
  rw [hr.state_eq]

theorem queueError_trace_grows {s : NetState} (ho : s.conn.outBuf.Inv) (msg : Bytes) :
    s.trace <+: (s.queueError msg).trace := by
  obtain ⟨complete, part, htrace, -⟩ := queueError_spec ho msg
  rw [htrace]
  exact List.prefix_append _ _

theorem ReadCall.trace_grows {s : NetState} {script : List ReadResult} {ctl : Bool}
    {r : Int × NetState} (h : ReadCall s script ctl r) (hb : Buffers s) :
    s.trace <+: r.2.trace := by
  cases h with
  | winding closing adjusted =>
    rw [adjusted.trace_eq]
  | stopped open_ read stop_eq => exact read.trace_grows
  | dropped open_ read run =>
    exact read.trace_grows.trans (run.trace_grows (read.buffers hb).1).1
  | dispatched open_ read run adjusted =>
    rw [adjusted.trace_eq]
    exact read.trace_grows.trans (run.trace_grows (read.buffers hb).1).1
  | refused open_ read run adjusted =>
    have hb₁ := (read.buffers hb).1
    rw [adjusted.trace_eq]
    exact (read.trace_grows.trans (run.trace_grows hb₁).1).trans
      (queueError_trace_grows (run.buffers hb₁).out_inv _)

theorem WriteCall.trace_eq {s : NetState} {script : List WriteResult} {r : Int × NetState}
    (h : WriteCall s script r) :
    ∃ pieces : List Bytes, r.2.trace = s.trace ++ pieces.map .wrote := by
  obtain @⟨pieces, stop, s₁, hwrite, hstate, -⟩ := h
  refine ⟨pieces, ?_⟩
  rw [hstate]
  exact hwrite.trace_eq

theorem NetRun.trace_grows {r : NetRun} (hr : r.Inv) (st : NetStep) :
    r.state.trace <+: (r.step st).state.trace := by
  rw [NetRun.step]
  split
  · cases st with
    | read script ctl =>
      exact (handleRead_call script ctl hr.ledger.toBuffers).trace_grows hr.ledger.toBuffers
    | write script ctl =>
      obtain ⟨pieces, htrace⟩ := (handleWrite_call script ctl hr.ledger.out_inv).trace_eq
      change r.state.trace <+: (handleWrite script ctl r.state).2.trace
      rw [htrace]
      exact List.prefix_append _ _
    | hangup => exact List.prefix_rfl
    | elsewhere store heap => exact List.prefix_rfl
  · exact List.prefix_rfl

/-- A read loop with a clean record has drained the input. -/
theorem ReadOutcome.drained_of_clean {s s₁ : NetState} {script : List ReadResult}
    {chunks : List Bytes} {stop : ReadEnd} (hr : ReadOutcome s script chunks (stop, s₁))
    (hclean : Clean s₁.trace) : stop = .drained := by
  have htrace : s₁.trace = s.trace ++ (chunks.map .read ++ stop.mark) := hr.trace_eq
  rw [htrace, clean_append, clean_append] at hclean
  exact ReadEnd.drained_of_clean hclean.2.2

/-- **A call that fails in no way** reads nothing, or it drains the input and
dispatches. -/
theorem ReadCall.clean_cases {s : NetState} {script : List ReadResult} {ctl : Bool}
    {r : Int × NetState} (h : ReadCall s script ctl r) (hb : Buffers s) (hclean : Clean r.2.trace) :
    Adjusted s ctl r ∨ ∃ chunks s₁ s₂, s.conn.closeAfterDrain = false ∧
      ReadOutcome s script chunks (.drained, s₁) ∧ DispatchRun s₁ (0, s₂) ∧ Adjusted s₂ ctl r := by
  cases h with
  | winding closing adjusted => exact Or.inl adjusted
  | stopped open_ read stop_eq =>
    have hmark := read.drained_of_clean hclean
    rcases stop_eq with rfl | rfl
    · cases hmark
    · cases hmark
  | dropped open_ read run => exact absurd hclean (run.dropped rfl)
  | @dispatched chunks s₁ s₂ r open_ read run adjusted =>
    exact Or.inr ⟨chunks, s₁, s₂, open_, read, run, adjusted⟩
  | refused open_ read run adjusted =>
    -- what the read loop has put on record is still there at the end
    obtain ⟨hb₁, -, -⟩ := read.buffers hb
    rw [adjusted.trace_eq] at hclean
    have hclean₁ := hclean.of_prefix
      ((run.trace_grows hb₁).1.trans (queueError_trace_grows (run.buffers hb₁).out_inv _))
    cases read.drained_of_clean hclean₁

/-! ## Frames -/

/-- **The state as the framer sees it.** All complete frames of the bytes read
have been served; what is left of them is in the input; and the connection winds
down if that is malformed. -/
structure Framed (s : NetState) : Prop where
  /-- the frames served -/
  served_eq : servedFrames s.trace = (respFramer.split (readBytes s.trace)).frames
  /-- the input -/
  rest_eq : s.conn.inBuf.live = (respFramer.split (readBytes s.trace)).rest
  /-- the mark for winding down -/
  closing_eq : s.conn.closeAfterDrain = (respFramer.split (readBytes s.trace)).bad

theorem framed_accepted (store : Hashtable) (h : Heap) : Framed (accepted store h) := by
  have hnil : respFramer.split [] = ⟨[], [], false⟩ := Framing.Framer.split_more rfl
  constructor
  · exact (congrArg Framing.Split.frames hnil).symm
  · exact (congrArg Framing.Split.rest hnil).symm
  · exact (congrArg Framing.Split.bad hnil).symm

/-- Reading some bytes and dispatching: the framer sees the longer input. -/
theorem Framed.dispatched {s s₁ : NetState} {script : List ReadResult} {chunks : List Bytes}
    {r : Int × NetState} (hf : Framed s) (hb : Buffers s)
    (hread : ReadOutcome s script chunks (.drained, s₁)) (hrun : DispatchRun s₁ r)
    (hopen : s.conn.closeAfterDrain = false) (hrc : r.1 = 0) :
    readBytes r.2.trace = readBytes s.trace ++ chunks.flatten ∧ Framed r.2 := by
  obtain ⟨hb₁, -, hclosing₁⟩ := hread.buffers hb
  obtain ⟨hreads, hserved, -, -, -⟩ := parts_reads chunks
  obtain ⟨hframes, hrest, hbad⟩ := hrun.frames hb₁ hrc
  have htrace : s₁.trace = s.trace ++ (chunks.map .read ++ []) := hread.trace_eq
  have hlive : s₁.conn.inBuf.live = s.conn.inBuf.live ++ chunks.flatten := hread.live_eq
  have hbytes : readBytes r.2.trace = readBytes s.trace ++ chunks.flatten := by
    rw [(hrun.trace_grows hb₁).2, htrace, List.append_nil, readBytes_append, hreads]
  obtain ⟨sframes, srest, sbad⟩ :=
    respFramer.split_append (readBytes s.trace) chunks.flatten
  rw [← hbytes, ← hf.rest_eq, ← hlive] at sframes srest sbad
  refine ⟨hbytes, ?_, hrest.trans srest.symm, ?_⟩
  · rw [sframes, hframes, htrace, List.append_nil, servedFrames_append, hserved, List.append_nil,
      hf.served_eq]
  · rw [sbad, hbad, hclosing₁, hopen, Bool.false_or]

/-- **Every clean call keeps the state framed.** -/
theorem ReadCall.framed {s : NetState} {script : List ReadResult} {ctl : Bool} {r : Int × NetState}
    (h : ReadCall s script ctl r) (hb : Buffers s) (hf : Framed s) (hclean : Clean r.2.trace) :
    Framed r.2 := by
  rcases h.clean_cases hb hclean with adjusted | ⟨chunks, s₁, s₂, hopen, read, run, adjusted⟩
  · rw [adjusted.state_eq]
    exact ⟨hf.served_eq, hf.rest_eq, hf.closing_eq⟩
  · obtain ⟨-, hf₂⟩ := hf.dispatched hb read run hopen rfl
    rw [adjusted.state_eq]
    exact ⟨hf₂.served_eq, hf₂.rest_eq, hf₂.closing_eq⟩

theorem WriteCall.framed {s : NetState} {script : List WriteResult} {r : Int × NetState}
    (h : WriteCall s script r) (hf : Framed s) : Framed r.2 := by
  obtain ⟨hread, hserved, -, -, hin, hclosing, -, -⟩ := h.same
  constructor
  · rw [hread, hserved, hf.served_eq]
  · rw [hread, hin, hf.rest_eq]
  · rw [hread, hclosing, hf.closing_eq]

theorem NetRun.framed_step {r : NetRun} (hr : r.Inv) (hf : Framed r.state) (st : NetStep)
    (hclean : Clean (r.step st).state.trace) : Framed (r.step st).state := by
  rw [NetRun.step] at hclean ⊢
  split
  · next hopen =>
    rw [if_pos hopen] at hclean
    cases st with
    | read script ctl =>
      have hcall := handleRead_call script ctl hr.ledger.toBuffers
      exact hcall.framed hr.ledger.toBuffers hf hclean
    | write script ctl => exact (handleWrite_call script ctl hr.ledger.out_inv).framed hf
    | hangup => exact hf
    | elsewhere store heap => exact ⟨hf.served_eq, hf.rest_eq, hf.closing_eq⟩
  · exact hf

/-! ## Answers -/

/-- **The store and the output as answers** to the requests in the bytes read. -/
structure Tracks (ht : Hashtable) (s : NetState) : Prop where
  /-- the store -/
  store_eq : s.store = (answerAll (requests (readBytes s.trace)) ht).1
  /-- the bytes appended -/
  appended_eq : appendedBytes s.trace = (answerAll (requests (readBytes s.trace)) ht).2 ++
    if (respFramer.split (readBytes s.trace)).bad then protocolError.encode else []

theorem tracks_accepted (store : Hashtable) (h : Heap) : Tracks store (accepted store h) := by
  have hnil : respFramer.split [] = ⟨[], [], false⟩ := Framing.Framer.split_more rfl
  constructor
  · change store = (answerAll (requests []) store).1
    rw [requests, hnil]
    rfl
  · change [] = (answerAll (requests []) store).2 ++
      if (respFramer.split []).bad then protocolError.encode else []
    rw [requests, hnil]
    rfl

/-- Reading some bytes and dispatching: the answers go on where they left off. -/
theorem Tracks.dispatched {ht : Hashtable} {s s₁ s₂ : NetState} {script : List ReadResult}
    {chunks : List Bytes} (ht₀ : Tracks ht s) (hb : Buffers s) (hf : Framed s)
    (hread : ReadOutcome s script chunks (.drained, s₁)) (hrun : DispatchRun s₁ (0, s₂))
    (hopen : s.conn.closeAfterDrain = false) (hclean : Clean s₂.trace)
    (halloc : s₂.heap.failed = false) : Tracks ht s₂ := by
  obtain ⟨hb₁, -, -⟩ := hread.buffers hb
  obtain ⟨-, -, -, happended, -⟩ := parts_reads chunks
  obtain ⟨hbytes, -⟩ := hf.dispatched hb hread hrun hopen rfl
  obtain ⟨-, hanswers⟩ := hrun.answers hb₁ halloc
  have htrace : s₁.trace = s.trace ++ (chunks.map .read ++ []) := hread.trace_eq
  have hlive : s₁.conn.inBuf.live = s.conn.inBuf.live ++ chunks.flatten := hread.live_eq
  have hstore : s₁.store = s.store := hread.store_eq
  -- the new requests are those in what was left of the input and the new bytes
  have hmore := requests_append (readBytes s.trace) chunks.flatten
  obtain ⟨-, -, sbad⟩ := respFramer.split_append (readBytes s.trace) chunks.flatten
  rw [← hbytes, ← hf.rest_eq, ← hlive] at hmore sbad
  -- no error reply has been appended before
  have hnormal : (respFramer.split (readBytes s.trace)).bad = false :=
    hf.closing_eq.symm.trans hopen
  have hbefore := ht₀.appended_eq
  rw [hnormal, if_neg (by decide), List.append_nil] at hbefore
  rcases hanswers with ⟨-, hfinal, -, hreplies⟩ | ⟨hneg, -⟩
  · constructor
    · rw [hmore, answerAll_append, hfinal, hstore, ht₀.store_eq]
    · rw [hmore, answerAll_append, sbad, hreplies hclean.smooth, hstore, ht₀.store_eq, htrace,
        List.append_nil, appendedBytes_append, happended, List.append_nil, hbefore]
      simp only [List.append_assoc]
  · exact absurd hneg (by simp)

theorem ReadCall.tracks {ht : Hashtable} {s : NetState} {script : List ReadResult} {ctl : Bool}
    {r : Int × NetState} (h : ReadCall s script ctl r) (hb : Buffers s) (hf : Framed s)
    (ht₀ : Tracks ht s) (hclean : Clean r.2.trace) (halloc : r.2.heap.failed = false) :
    Tracks ht r.2 := by
  rcases h.clean_cases hb hclean with adjusted | ⟨chunks, s₁, s₂, hopen, read, run, adjusted⟩
  · rw [adjusted.state_eq]
    exact ⟨ht₀.store_eq, ht₀.appended_eq⟩
  · rw [adjusted.trace_eq] at hclean
    rw [adjusted.state_eq] at halloc ⊢
    have ht₂ := ht₀.dispatched hb hf read run hopen hclean halloc
    exact ⟨ht₂.store_eq, ht₂.appended_eq⟩

theorem WriteCall.tracks {ht : Hashtable} {s : NetState} {script : List WriteResult}
    {r : Int × NetState} (h : WriteCall s script r) (ht₀ : Tracks ht s) : Tracks ht r.2 := by
  obtain ⟨hread, -, -, happended, -, -, hstore, -⟩ := h.same
  constructor
  · rw [hread, hstore, ht₀.store_eq]
  · rw [hread, happended, ht₀.appended_eq]

/-! ## No failure at the end, no failure before -/

theorem DispatchRun.failed_mono {s : NetState} {r : Int × NetState} (h : DispatchRun s r)
    (hb : Buffers s) (hf : r.2.heap.failed = false) : s.heap.failed = false :=
  (h.answers hb hf).1

theorem ReadCall.failed_mono {s : NetState} {script : List ReadResult} {ctl : Bool}
    {r : Int × NetState} (h : ReadCall s script ctl r) (hb : Buffers s)
    (hf : r.2.heap.failed = false) : s.heap.failed = false := by
  cases h with
  | winding closing adjusted =>
    rw [adjusted.state_eq] at hf
    exact hf
  | stopped open_ read stop_eq => exact read.failed_mono hf
  | dropped open_ read run => exact read.failed_mono (run.failed_mono (read.buffers hb).1 hf)
  | dispatched open_ read run adjusted =>
    rw [adjusted.state_eq] at hf
    exact read.failed_mono (run.failed_mono (read.buffers hb).1 hf)
  | @refused chunks msg s₁ s₂ r open_ read run adjusted =>
    rw [adjusted.state_eq] at hf
    obtain ⟨hb₁, -, -⟩ := read.buffers hb
    obtain ⟨complete, part, -, -, -, -, hmono⟩ := queueError_spec (run.buffers hb₁).out_inv msg
    exact read.failed_mono (run.failed_mono hb₁ (hmono hf))

theorem NetRun.failed_mono {r : NetRun} (hr : r.Inv) (st : NetStep)
    (hf : (r.step st).state.heap.failed = false) : r.state.heap.failed = false := by
  rw [NetRun.step] at hf
  split at hf
  · cases st with
    | read script ctl =>
      have hcall := handleRead_call script ctl hr.ledger.toBuffers
      exact hcall.failed_mono hr.ledger.toBuffers hf
    | write script ctl =>
      obtain ⟨-, -, -, -, -, -, -, hheap⟩ := (handleWrite_call script ctl hr.ledger.out_inv).same
      change (handleWrite script ctl r.state).2.heap.failed = false at hf
      rw [← hheap]
      exact hf
    | hangup => exact hf
    | elsewhere store heap => exact (Bool.or_eq_false_iff.mp hf).1
  · exact hf

/-! ## Segmentation -/

/-- The store is left alone by other connections. -/
def NetStep.alone : NetStep → Bool
  | .elsewhere _ _ => false
  | _ => true

/-- **One connection on its own.** If nothing has failed and the peer has not
closed, all that the connection has done is a function of the bytes it has
read. -/
theorem netRun_tracks (store : Hashtable) (h : Heap) {steps : List NetStep}
    (halone : ∀ st ∈ steps, st.alone = true)
    (hclean : Clean (netRun store h steps).state.trace)
    (halloc : (netRun store h steps).state.heap.failed = false) :
    Framed (netRun store h steps).state ∧ Tracks store (netRun store h steps).state := by
  have hrun : (netRun store h steps).Inv ∧
      (Clean (netRun store h steps).state.trace →
        (netRun store h steps).state.heap.failed = false →
        Framed (netRun store h steps).state ∧ Tracks store (netRun store h steps).state) := by
    refine List.foldlRecOn
      (motive := fun r : NetRun => r.Inv ∧ (Clean r.state.trace → r.state.heap.failed = false →
        Framed r.state ∧ Tracks store r.state)) steps NetRun.step ?_ ?_
    · exact ⟨netRun_inv store h [],
        fun _ _ => ⟨framed_accepted store h, tracks_accepted store h⟩⟩
    · rintro r ⟨hr, ih⟩ st hst
      refine ⟨hr.step st, fun hclean halloc => ?_⟩
      obtain ⟨hf, ht⟩ :=
        ih (hclean.of_prefix (NetRun.trace_grows hr st)) (NetRun.failed_mono hr st halloc)
      refine ⟨NetRun.framed_step hr hf st hclean, ?_⟩
      rw [NetRun.step] at hclean halloc ⊢
      split
      · next hopen =>
        rw [if_pos hopen] at hclean halloc
        cases st with
        | read script ctl =>
          have hcall := handleRead_call script ctl hr.ledger.toBuffers
          exact hcall.tracks hr.ledger.toBuffers hf ht hclean halloc
        | write script ctl => exact (handleWrite_call script ctl hr.ledger.out_inv).tracks ht
        | hangup => exact ht
        | elsewhere store heap => exact absurd (halone _ hst) (by simp [NetStep.alone])
      · exact ht
  exact hrun.2 hclean halloc

/-- A connection that has taken in a stream: all of it, or a part of it that is
malformed, upon which it stops reading. -/
def TakesIn (s : NetState) (stream : Bytes) : Prop :=
  readBytes s.trace <+: stream ∧
    (readBytes s.trace = stream ∨ s.conn.closeAfterDrain = true)

/-- **Segmentation does not matter.** Two runs of a connection on its own, with
any scripts of the kernel and any allocators, that take in the same stream; no
read error, no end of file, no full buffer and no failed allocation in either.
They serve the same frames, append the same bytes, and leave the same store. -/
theorem segmentation_independence (store : Hashtable) (stream : Bytes) (h₁ h₂ : Heap)
    (steps₁ steps₂ : List NetStep)
    (halone₁ : ∀ st ∈ steps₁, st.alone = true) (halone₂ : ∀ st ∈ steps₂, st.alone = true)
    (htakes₁ : TakesIn (netRun store h₁ steps₁).state stream)
    (htakes₂ : TakesIn (netRun store h₂ steps₂).state stream)
    (hclean₁ : Clean (netRun store h₁ steps₁).state.trace)
    (hclean₂ : Clean (netRun store h₂ steps₂).state.trace)
    (halloc₁ : (netRun store h₁ steps₁).state.heap.failed = false)
    (halloc₂ : (netRun store h₂ steps₂).state.heap.failed = false) :
    servedFrames (netRun store h₁ steps₁).state.trace =
        servedFrames (netRun store h₂ steps₂).state.trace ∧
      appendedBytes (netRun store h₁ steps₁).state.trace =
        appendedBytes (netRun store h₂ steps₂).state.trace ∧
      (netRun store h₁ steps₁).state.store = (netRun store h₂ steps₂).state.store := by
  have hside : ∀ {s : NetState}, TakesIn s stream → Framed s ∧ Tracks store s →
      servedFrames s.trace = (respFramer.split stream).frames ∧
      appendedBytes s.trace = (answerAll (requests stream) store).2 ++
        (if (respFramer.split stream).bad then protocolError.encode else []) ∧
      s.store = (answerAll (requests stream) store).1 := by
    rintro s ⟨hpart, hstop⟩ ⟨hf, ht⟩
    rw [hf.closing_eq] at hstop
    obtain ⟨hframes, hbad⟩ := Framing.Framer.split_of_stop hpart hstop
    have hrequests : requests (readBytes s.trace) = requests stream := by
      rw [requests, requests, hframes]
    refine ⟨hf.served_eq.trans hframes, ?_, ?_⟩
    · rw [ht.appended_eq, hrequests, hbad]
    · rw [ht.store_eq, hrequests]
  obtain ⟨hserved₁, happended₁, hstore₁⟩ :=
    hside htakes₁ (netRun_tracks store h₁ halone₁ hclean₁ halloc₁)
  obtain ⟨hserved₂, happended₂, hstore₂⟩ :=
    hside htakes₂ (netRun_tracks store h₂ halone₂ hclean₂ halloc₂)
  exact ⟨hserved₁.trans hserved₂.symm, happended₁.trans happended₂.symm,
    hstore₁.trans hstore₂.symm⟩

/-- A request and a malformed frame. -/
def setThenBad : Bytes := ascii "SET k v\r\n*x\r\n"

/-- All of it in one read. -/
def inOneRead : List NetStep := [.read [.data ⟨setThenBad, by decide, by decide⟩] true]

/-- Cut within the request and within its line end, in two wake-ups and with an
interrupted call. -/
def inThreeReads : List NetStep :=
  [.read [.data ⟨ascii "SE", by decide, by decide⟩, .eintr,
      .data ⟨ascii "T k v\r", by decide, by decide⟩] true,
    .read [.data ⟨ascii "\n*x\r\n", by decide, by decide⟩] true]

theorem segmentation_independence_set :
    servedFrames (netRun htInit Heap.ample inOneRead).state.trace =
        servedFrames (netRun htInit Heap.ample inThreeReads).state.trace ∧
      appendedBytes (netRun htInit Heap.ample inOneRead).state.trace =
        appendedBytes (netRun htInit Heap.ample inThreeReads).state.trace ∧
      (netRun htInit Heap.ample inOneRead).state.store =
        (netRun htInit Heap.ample inThreeReads).state.store :=
  segmentation_independence htInit setThenBad Heap.ample Heap.ample inOneRead inThreeReads
    (by simp [inOneRead, NetStep.alone]) (by simp [inThreeReads, NetStep.alone])
    ⟨by decide, Or.inl (by decide)⟩ ⟨by decide, Or.inl (by decide)⟩ (by decide) (by decide)
    (by decide) (by decide)

/-! ## The end of the input -/

/-- Serving frames leaves a clean record clean, unless the connection winds
down. -/
theorem DispatchRun.clean {s : NetState} {r : Int × NetState} (h : DispatchRun s r)
    (hrc : r.1 = 0) (hopen : r.2.conn.closeAfterDrain = false) (hclean : Clean s.trace) :
    Clean r.2.trace := by
  induction h with
  | more parse => exact hclean
  | bad parse => cases hopen
  | drop parse rc => exact absurd hrc (by simp)
  | @serve s req r parse rc rest ih =>
    refine ih hrc hopen (clean_append.mpr ⟨hclean, fun e he => ?_⟩)
    obtain rfl := List.mem_singleton.mp he
    exact ⟨rfl, rfl⟩

/-- A call that leaves the connection open and in normal operation keeps the
record clean. -/
theorem ReadCall.clean {s : NetState} {script : List ReadResult} {ctl : Bool} {r : Int × NetState}
    (h : ReadCall s script ctl r) (hrc : ¬ r.1 < 0) (hopen : r.2.conn.closeAfterDrain = false)
    (hclean : s.conn.closeAfterDrain = false → Clean s.trace) : Clean r.2.trace := by
  cases h with
  | winding closing adjusted =>
    rw [adjusted.state_eq] at hopen
    exact absurd (closing.symm.trans hopen) (by decide)
  | stopped open_ read stop_eq => exact absurd neg_one_lt_zero hrc
  | dropped open_ read run => exact absurd neg_one_lt_zero hrc
  | @dispatched chunks s₁ s₂ r open_ read run adjusted =>
    have htrace : s₁.trace = s.trace ++ (chunks.map .read ++ []) := read.trace_eq
    rw [adjusted.state_eq] at hopen
    rw [adjusted.trace_eq]
    refine run.clean rfl hopen ?_
    rw [htrace, List.append_nil]
    exact clean_append.mpr ⟨hclean open_, clean_reads chunks⟩
  | refused open_ read run adjusted =>
    rw [adjusted.state_eq] at hopen
    cases hopen

/-- The record of an open connection in normal operation is clean. -/
theorem NetRun.clean_step {r : NetRun} (hr : r.Inv)
    (hclean : r.isOpen = true → r.state.conn.closeAfterDrain = false → Clean r.state.trace)
    (st : NetStep) (hopen : (r.step st).isOpen = true)
    (hnormal : (r.step st).state.conn.closeAfterDrain = false) :
    Clean (r.step st).state.trace := by
  rw [NetRun.step] at hopen hnormal ⊢
  split
  · next hbefore =>
    rw [if_pos hbefore] at hopen hnormal
    cases st with
    | read script ctl =>
      have hcall := handleRead_call script ctl hr.ledger.toBuffers
      exact hcall.clean (isOpen_afterHandler.mp hopen) hnormal (hclean hbefore)
    | write script ctl =>
      have hcall := handleWrite_call script ctl hr.ledger.out_inv
      obtain ⟨pieces, htrace⟩ := hcall.trace_eq
      obtain ⟨-, -, -, -, -, hsame, -, -⟩ := hcall.same
      change Clean (handleWrite script ctl r.state).2.trace
      rw [htrace]
      exact clean_append.mpr ⟨hclean hbefore (hsame.symm.trans hnormal), clean_wrote pieces⟩
    | hangup => cases hopen
    | elsewhere store heap => exact hclean hbefore hnormal
  · next hbefore =>
    rw [if_neg hbefore] at hopen
    exact absurd hopen hbefore

/-- **An open connection in normal operation is framed**, whatever has happened
to the store and the allocator. -/
theorem netRun_framed (store : Hashtable) (h : Heap) (steps : List NetStep)
    (hopen : (netRun store h steps).isOpen = true)
    (hnormal : (netRun store h steps).state.conn.closeAfterDrain = false) :
    Framed (netRun store h steps).state := by
  have hrun : (netRun store h steps).Inv ∧
      ((netRun store h steps).isOpen = true →
        (netRun store h steps).state.conn.closeAfterDrain = false →
        Clean (netRun store h steps).state.trace) ∧
      (Clean (netRun store h steps).state.trace → Framed (netRun store h steps).state) := by
    refine List.foldlRecOn
      (motive := fun r : NetRun => r.Inv ∧
        (r.isOpen = true → r.state.conn.closeAfterDrain = false → Clean r.state.trace) ∧
        (Clean r.state.trace → Framed r.state)) steps NetRun.step ?_ ?_
    · exact ⟨netRun_inv store h [], fun _ _ => nofun, fun _ => framed_accepted store h⟩
    · rintro r ⟨hr, hclean, hframed⟩ st -
      refine ⟨hr.step st, NetRun.clean_step hr hclean st, fun hclean' => ?_⟩
      have hf := hframed (hclean'.of_prefix (NetRun.trace_grows hr st))
      exact NetRun.framed_step hr hf st hclean'
  obtain ⟨-, hclean, hframed⟩ := hrun
  exact hframed (hclean hopen hnormal)

/-- The wake-up in which the peer closes: its bytes are read, nothing is
dispatched. -/
theorem handleRead_eof {s : NetState} {script : List ReadResult} {ctl : Bool} (hb : Buffers s)
    (hnormal : s.conn.closeAfterDrain = false) (heof : (readLoop script s).1 = .eof) :
    (handleRead script ctl s).1 = -1 ∧
      readBytes (handleRead script ctl s).2.trace = readBytes s.trace ++ delivered script ∧
      servedFrames (handleRead script ctl s).2.trace = servedFrames s.trace := by
  obtain ⟨chunks, hread⟩ := readLoop_spec script hb.in_inv
  rw [handleRead, hnormal, if_neg (by decide)]
  generalize readLoop script s = res at heof hread ⊢
  obtain ⟨stop, s₁⟩ := res
  obtain rfl : stop = .eof := heof
  obtain ⟨hreads, hserved, -, -, -⟩ := parts_reads chunks
  have hmark := ReadEnd.parts_mark .eof
  have htrace : s₁.trace = s.trace ++ (chunks.map .read ++ ReadEnd.eof.mark) := hread.trace_eq
  have hwhole : chunks.flatten = delivered script := hread.whole (by simp)
  refine ⟨rfl, ?_, ?_⟩
  · simp only [htrace, readBytes_append, hreads, hmark.1, List.append_nil, hwhole]
  · simp only [htrace, servedFrames_append, hserved, hmark.2.1, List.append_nil]

/-- An input has no complete frame at its head exactly if it has none at all. -/
theorem split_frames_eq_nil_iff (input : Bytes) :
    (respFramer.split input).frames = [] ↔ ∀ req, respParseRequest input ≠ .ok req := by
  cases hparse : respParseRequest input with
  | ok req =>
    rw [Framing.Framer.split_frame (parse_frame hparse)]
    exact ⟨nofun, fun h => absurd rfl (h req)⟩
  | needMore =>
    rw [Framing.Framer.split_more (parse_more hparse)]
    exact ⟨fun _ => nofun, fun _ => rfl⟩
  | protocolErr =>
    rw [Framing.Framer.split_bad (parse_bad hparse)]
    exact ⟨fun _ => nofun, fun _ => rfl⟩

/-- **When the end of the input comes too early.** After any run of a connection,
a wake-up in which `read` delivers some bytes and then returns 0. The connection
is closed, and every complete frame of the bytes read, up to the first malformed
one, has been served exactly if this last wake-up has not completed any: what was
left of the input, with the bytes it has delivered, does not start with one. -/
theorem eof_serves_all_iff (store : Hashtable) (h : Heap) (steps : List NetStep)
    (script : List ReadResult) (ctl : Bool) (hopen : (netRun store h steps).isOpen = true)
    (hnormal : (netRun store h steps).state.conn.closeAfterDrain = false)
    (heof : (readLoop script (netRun store h steps).state).1 = .eof) :
    ((netRun store h steps).step (.read script ctl)).isOpen = false ∧
      (servedFrames ((netRun store h steps).step (.read script ctl)).state.trace =
          (respFramer.split
            (readBytes ((netRun store h steps).step (.read script ctl)).state.trace)).frames ↔
        ∀ req, respParseRequest
          ((netRun store h steps).state.conn.inBuf.live ++ delivered script) ≠ .ok req) := by
  have hr := netRun_inv store h steps
  have hf := netRun_framed store h steps hopen hnormal
  generalize netRun store h steps = r at hopen hnormal heof hr hf ⊢
  obtain ⟨hrc, hread, hserved⟩ := @handleRead_eof _ script ctl hr.ledger.toBuffers hnormal heof
  rw [NetRun.step, if_pos hopen]
  constructor
  · change (!decide ((handleRead script ctl r.state).1 < 0)) = false
    rw [hrc]
    rfl
  · change servedFrames (handleRead script ctl r.state).2.trace =
      (respFramer.split (readBytes (handleRead script ctl r.state).2.trace)).frames ↔ _
    obtain ⟨hframes, -, -⟩ := respFramer.split_append (readBytes r.state.trace) (delivered script)
    rw [hread, hserved, hf.served_eq, hframes, ← hf.rest_eq, ← split_frames_eq_nil_iff]
    exact List.self_eq_append_right

/-- A frame in an earlier wake-up than the end of the input. -/
theorem eof_serves_all_iff_ping :
    ((netRun htInit Heap.ample pingSteps).step (.read [.eof] true)).isOpen = false ∧
      (servedFrames ((netRun htInit Heap.ample pingSteps).step (.read [.eof] true)).state.trace =
          (respFramer.split (readBytes
            ((netRun htInit Heap.ample pingSteps).step (.read [.eof] true)).state.trace)).frames ↔
        ∀ req, respParseRequest
          ((netRun htInit Heap.ample pingSteps).state.conn.inBuf.live ++ delivered [.eof]) ≠
            .ok req) :=
  eof_serves_all_iff htInit Heap.ample pingSteps [.eof] true (by decide) (by decide) (by decide)

theorem ping_pos : 0 < (ascii "PING\r\n").length := by decide

theorem ping_le : (ascii "PING\r\n").length ≤ READ_CHUNK := by decide

/-- `PING` and the end of the input in one wake-up. -/
def pingThenEof : List ReadResult := [.data ⟨ascii "PING\r\n", ping_pos, ping_le⟩, .eof]

/-- **The last request is lost.** A peer sends `PING` and closes its side before
the server wakes up: the frame is complete, the connection is closed, and the
request has not been executed. -/
theorem eof_drops_ping :
    (readLoop pingThenEof (netRun htInit Heap.ample []).state).1 = .eof ∧
    readBytes ((netRun htInit Heap.ample []).step (.read pingThenEof true)).state.trace =
      ascii "PING\r\n" ∧
    (requests (ascii "PING\r\n")).map RespRequest.argv = [[ascii "PING"]] ∧
    servedFrames ((netRun htInit Heap.ample []).step (.read pingThenEof true)).state.trace = [] ∧
    ((netRun htInit Heap.ample []).step (.read pingThenEof true)).isOpen = false ∧
    ((netRun htInit Heap.ample []).step (.read pingThenEof true)).state.heap.failed = false := by
  refine ⟨by decide, by decide, by decide, rfl, by decide, by decide⟩

end RedisInC
