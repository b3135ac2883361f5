import RedisInC.Serializability

/-!
# No request is left behind

The event loop is level-triggered, but nothing wakes it for bytes that it has read
already. So whatever is complete in an input buffer has to be served before the loop
waits again.

* `CaughtUp` — no complete request waits in the input, unless the connection winds
  down. Every step of a connection that leaves it open keeps this
  (`NetRun.caughtUp_step`).
* `no_request_left_behind` — so whenever `net_run` gets back to `epoll_wait`, every
  connection in normal operation has got replies to all the requests it has sent.
-/

namespace RedisInC

open LinkedList Transition Service

/-! ## One connection -/

/-- No complete request waits in the input. -/
def CaughtUp (s : NetState) : Prop :=
  s.conn.closeAfterDrain = false → respParseRequest s.conn.inBuf.live = .needMore

/-- Then none is to be found at its head. -/
theorem no_frame_of_needMore {input : Bytes} (h : respParseRequest input = .needMore)
    {argv : List Bytes} {text : Bytes} (hframe : Frame argv text) : ¬ text <+: input := by
  rintro ⟨rest, rfl⟩
  obtain ⟨slices, hparse, -⟩ := respParseRequest_frame hframe rest
  rw [hparse] at h
  cases h

theorem caughtUp_accepted (store : Hashtable) (h : Heap) : CaughtUp (accepted store h) :=
  fun _ => rfl

/-- **The dispatch loop ends for want of a complete request**, or it winds the
connection down. -/
theorem DispatchRun.caughtUp {s : NetState} {r : Int × NetState} (h : DispatchRun s r)
    (hrc : r.1 = 0) : CaughtUp r.2 := by
  induction h with
  | more parse => exact fun _ => parse
  | bad parse => exact nofun
  | drop parse rc => cases hrc
  | serve parse rc rest ih => exact ih hrc

theorem Adjusted.caughtUp {s : NetState} {ctl : Bool} {r : Int × NetState} (hr : Adjusted s ctl r)
    (hs : CaughtUp s) : CaughtUp r.2 := by
  rw [hr.state_eq]
  exact hs

/-- What was read before is not needed: a call that dispatches leaves nothing. -/
theorem ReadCall.caughtUp {s : NetState} {script : List ReadResult} {ctl : Bool}
    {r : Int × NetState} (h : ReadCall s script ctl r) (hrc : ¬ r.1 < 0) (hs : CaughtUp s) :
    CaughtUp r.2 := by
  cases h with
  | winding closing adjusted => exact adjusted.caughtUp hs
  | stopped open_ read stop_eq => exact absurd neg_one_lt_zero hrc
  | dropped open_ read run => exact absurd neg_one_lt_zero hrc
  | dispatched open_ read run adjusted => exact adjusted.caughtUp (run.caughtUp rfl)
  | refused open_ read run adjusted => exact adjusted.caughtUp nofun

theorem WriteCall.caughtUp {s : NetState} {script : List WriteResult} {r : Int × NetState}
    (h : WriteCall s script r) (hs : CaughtUp s) : CaughtUp r.2 := by
  obtain ⟨-, -, -, -, hin, hclosing, -, -⟩ := h.same
  rw [CaughtUp, hin, hclosing]
  exact hs

/-- **Every step leaves no complete request behind**, or the connection closed. -/
theorem NetRun.caughtUp_step {r : NetRun} (hr : r.Inv) (hc : r.isOpen = true → CaughtUp r.state)
    (st : NetStep) : (r.step st).isOpen = true → CaughtUp (r.step st).state := by
  obtain ⟨s, isOpen⟩ := r
  cases isOpen with
  | false => exact hc
  | true =>
    have hs : CaughtUp s := hc rfl
    have hb := hr.ledger.toBuffers
    intro hopen
    cases st with
    | read script ctl =>
      exact (handleRead_call script ctl hb).caughtUp (isOpen_afterHandler.mp hopen) hs
    | write script ctl => exact (handleWrite_call script ctl hb.out_inv).caughtUp hs
    | hangup => cases hopen
    | elsewhere store heap => exact hs

/-- A connection that is open has caught up. -/
theorem IsRun.caughtUp {t : NetState} (h : IsRun t) : CaughtUp t := by
  obtain ⟨store, heap, steps, hrun⟩ := h
  have hinv : NetRun.Inv (netRun store heap steps) ∧
      ((netRun store heap steps).isOpen = true → CaughtUp (netRun store heap steps).state) := by
    refine List.foldlRecOn
      (motive := fun r : NetRun => r.Inv ∧ (r.isOpen = true → CaughtUp r.state)) steps NetRun.step
      ⟨netRun_inv store heap [], fun _ => caughtUp_accepted store heap⟩ ?_
    rintro r ⟨hr, hc⟩ st -
    exact ⟨hr.step st, NetRun.caughtUp_step hr hc st⟩
  rw [hrun] at hinv
  exact hinv.2 rfl

/-! ## The server -/

namespace Server

/-- **No request is left behind.** All requests on record are executed in one order, each
with the reply of the reference machine or, if memory has run short, refused. Whatever has
happened, whenever `net_run` gets back to `epoll_wait`, what a connection in normal operation
has sent is the requests it was answered, in order, and then no complete request; and the
replies to them are all that has been written to it or is to be written. -/
theorem no_request_left_behind (h : Heap) (others : Finset Fd) (listen epoll : Fresh)
    (turns : List Turn) :
    ∃ (s : Server) (left : Bool) (as : List Action) (r : Record),
      (netInit (startup h).store (startup h).heap others listen epoll).netRun turns =
        some (s, left) ∧
      (netInit (startup h).store (startup h).heap others listen epoll).record turns = r ∧
      Serialized (startup h).store.toMap r s as ∧
      (left = false → ∀ p c, s.conns.data p = some c → c.conn.closeAfterDrain = false →
        c.trace = r.traceOf (r.num p) ∧
        (∃ texts, List.Forall₂ (fun a text => Frame a.1 text) (answeredTo (r.num p) as) texts ∧
          readBytes c.trace = texts.flatten ++ c.conn.inBuf.live) ∧
        (∀ argv text, Frame argv text → ¬ text <+: c.conn.inBuf.live) ∧
        wroteBytes c.trace ++ c.conn.outBuf.live =
          (answeredTo (r.num p) as).flatMap fun a => a.2.encode) := by
  obtain ⟨hi, hf⟩ := startup_keeps h
  obtain ⟨s, left, as, v, hrun, hsteps, hv, -⟩ :=
    netRun_recorded hi hf (startup h).heap others listen epoll turns
  obtain ⟨s', left', hrun', hsound, -⟩ :=
    netRun_sound (startup h).store (startup h).heap others listen epoll turns
  cases hrun.symm.trans hrun'
  refine ⟨s, left, as, _, hrun, rfl, hv.serialized hsteps, fun hleft p c hc hnormal => ?_⟩
  obtain ⟨lfd, efd, -, halive⟩ := hsound hleft
  obtain ⟨hreceived, tail, hsent, htail⟩ := (run_balanced hsteps).1 _ _ (hv.client p c hc)
  have hmore := (halive p c hc).caughtUp hnormal
  rw [htail hnormal rfl, List.append_nil] at hsent
  exact ⟨hv.trace_eq p c hc, hreceived, fun argv text => no_frame_of_needMore hmore, hsent⟩

end Server

end RedisInC
