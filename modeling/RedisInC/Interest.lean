import RedisInC.Ownership
import RedisInC.Pipeline

/-!
# What a connection waits for

* `Armed` — the mask that is registered is the one of the connection, it is the one
  that the state of the connection asks for, and there is something to wait for.
  Every step of a connection that leaves it open keeps this (`NetRun.armed_step`).
* `Server.Waits` — the same of a connection of the server, told by the bits of the
  mask.
* `event_interest` — so it is for all connections whenever `net_run` gets back to
  `epoll_wait`.
-/

namespace RedisInC

open LinkedList

/-! ## One connection -/

/-- **The mask is right**, in the kernel and in the connection. -/
structure Armed (s : NetState) : Prop where
  /-- the kernel knows the mask of the connection -/
  mask_eq : s.mask = s.conn.events
  /-- it is the one that is needed -/
  events_eq : s.conn.events = s.conn.interest
  /-- the connection is not done -/
  pending : ¬ s.conn.Done

theorem armed_accepted (store : Hashtable) (h : Heap) : Armed (accepted store h) where
  mask_eq := rfl
  events_eq := by
    have hout : (accepted store h).conn.outBuf.live = [] := rfl
    rw [Conn.interest, if_neg (not_not_intro hout)]
    simp [accepted]
  pending hdone := absurd hdone.1 (by simp [accepted])

/-- Wherever the mask is adjusted, it is right afterwards. -/
theorem Adjusted.armedAfter {s : NetState} {ctl : Bool} {r : Int × NetState}
    (hr : Adjusted s ctl r) (hmask : s.mask = s.conn.events) (hrc : ¬ r.1 < 0) : Armed r.2 := by
  obtain ⟨hdone, hevents⟩ := hr.armed (hr.rc_zero hrc)
  -- the mask needed depends on nothing that has changed
  have hsame : r.2.conn.interest = s.conn.interest ∧ (r.2.conn.Done ↔ s.conn.Done) := by
    rw [hr.state_eq]
    exact ⟨rfl, Iff.rfl⟩
  exact ⟨hr.mask_eq hmask, hevents.trans hsame.1.symm, fun h => hdone (hsame.2.mp h)⟩

/-- Reading and dispatching do not touch the mask. -/
theorem DispatchRun.mask_events {s s₁ s₂ : NetState} {script : List ReadResult}
    {chunks : List Bytes} {stop : ReadEnd} {rc : Int} (hb : Buffers s)
    (hread : ReadOutcome s script chunks (stop, s₁)) (hrun : DispatchRun s₁ (rc, s₂))
    (hmask : s.mask = s.conn.events) : s₂.mask = s₂.conn.events := by
  obtain ⟨hb₁, -, -⟩ := hread.buffers hb
  have hconn : s₁.conn = { s.conn with inBuf := s₁.conn.inBuf } := hread.conn_eq
  have hevents₁ : s₁.conn.events = s.conn.events := by rw [hconn]
  have hmask₁ : s₁.mask = s.mask := hread.mask_eq
  obtain ⟨s', hserved, hend⟩ := hrun.split
  obtain ⟨-, -, hmask', hevents', -⟩ := hserved.spec hb₁
  have hsame : s'.mask = s'.conn.events := by
    rw [hmask', hmask₁, hmask, hevents', hevents₁]
  cases hend with
  | more parse => exact hsame
  | bad parse => exact hsame
  | drop parse rc => exact hsame

theorem ReadCall.armed {s : NetState} {script : List ReadResult} {ctl : Bool} {r : Int × NetState}
    (h : ReadCall s script ctl r) (hb : Buffers s) (ha : Armed s) (hrc : ¬ r.1 < 0) :
    Armed r.2 := by
  have hneg : ¬ ¬ (-1 : ℤ) < 0 := not_not_intro neg_one_lt_zero
  cases h with
  | winding closing adjusted => exact adjusted.armedAfter ha.mask_eq hrc
  | stopped open_ read stop_eq => exact absurd hrc hneg
  | dropped open_ read run => exact absurd hrc hneg
  | dispatched open_ read run adjusted =>
    exact adjusted.armedAfter (run.mask_events hb read ha.mask_eq) hrc
  | @refused chunks msg s₁ s₂ r open_ read run adjusted =>
    have hmask : s₂.mask = s₂.conn.events := run.mask_events hb read ha.mask_eq
    exact adjusted.armedAfter hmask hrc

/-- The early return of `handle_write` leaves the mask alone, and that is right:
there still is something to write. -/
theorem WriteCall.armed {s : NetState} {script : List WriteResult} {r : Int × NetState}
    (h : WriteCall s script r) (ha : Armed s) (hrc : ¬ r.1 < 0) : Armed r.2 := by
  obtain @⟨pieces, stop, s₁, hwrite, -, -, hstay⟩ := h
  have hconn : s₁.conn = { s.conn with outBuf := s₁.conn.outBuf } := hwrite.conn_eq
  have hevents : s₁.conn.events = s.conn.events := by rw [hconn]
  have hclosing : s₁.conn.closeAfterDrain = s.conn.closeAfterDrain := by rw [hconn]
  have hmask : s₁.mask = s₁.conn.events := by
    rw [hevents, ← ha.mask_eq]
    exact hwrite.mask_eq
  rcases hstay hrc with ⟨hstop, hsame⟩ | ⟨ctl, hadjusted⟩
  · have hleft : s₁.conn.outBuf.live ≠ [] := hwrite.blocked hstop
    have hbefore : s.conn.outBuf.live ≠ [] := by
      rw [hwrite.live_eq]
      exact List.append_ne_nil_of_right_ne_nil _ hleft
    rw [hsame]
    refine ⟨hmask, ?_, fun hdone => hleft hdone.2⟩
    rw [hevents, ha.events_eq, Conn.interest, Conn.interest, if_pos hbefore, if_pos hleft, hclosing]
  · exact hadjusted.armedAfter hmask hrc

/-- **Every step leaves the mask right**, or the connection closed. -/
theorem NetRun.armed_step {r : NetRun} (hr : r.Inv) (ha : r.isOpen = true → Armed r.state)
    (st : NetStep) : (r.step st).isOpen = true → Armed (r.step st).state := by
  obtain ⟨s, isOpen⟩ := r
  cases isOpen with
  | false => exact ha
  | true =>
    have harmed : Armed s := ha rfl
    have hb := hr.ledger.toBuffers
    intro hopen
    cases st with
    | read script ctl =>
      exact (handleRead_call script ctl hb).armed hb harmed (isOpen_afterHandler.mp hopen)
    | write script ctl =>
      have hcall := handleWrite_call script ctl hb.out_inv
      exact hcall.armed harmed (isOpen_afterHandler.mp hopen)
    | hangup => cases hopen
    | elsewhere store heap => exact ⟨harmed.mask_eq, harmed.events_eq, harmed.pending⟩

/-- A connection that is open is armed. -/
theorem IsRun.armed {t : NetState} (h : IsRun t) : Armed t := by
  obtain ⟨store, heap, steps, hrun⟩ := h
  have hinv : NetRun.Inv (netRun store heap steps) ∧
      ((netRun store heap steps).isOpen = true → Armed (netRun store heap steps).state) := by
    refine List.foldlRecOn
      (motive := fun r : NetRun => r.Inv ∧ (r.isOpen = true → Armed r.state)) steps NetRun.step
      ⟨netRun_inv store heap [], fun _ => armed_accepted store heap⟩ ?_
    rintro r ⟨hr, ha⟩ st -
    exact ⟨hr.step st, NetRun.armed_step hr ha st⟩
  rw [hrun] at hinv
  exact hinv.2 rfl

/-! ## The bits of the mask -/

namespace Conn

variable {c : Conn}

theorem interest_reads : c.interest &&& EPOLLIN ≠ 0 ↔ c.closeAfterDrain = false := by
  have hbits : ∀ closing : Bool,
      (((if !closing then EPOLLIN else 0) ||| EPOLLOUT) &&& EPOLLIN ≠ 0 ↔ closing = false) ∧
      (((if !closing then EPOLLIN else 0) ||| 0) &&& EPOLLIN ≠ 0 ↔ closing = false) := by
    decide
  obtain ⟨hfull, hempty⟩ := hbits c.closeAfterDrain
  rw [Conn.interest]
  by_cases hout : c.outBuf.live = []
  · rw [if_neg (not_not_intro hout)]
    exact hempty
  · rw [if_pos hout]
    exact hfull

theorem interest_writes : c.interest &&& EPOLLOUT ≠ 0 ↔ c.outBuf.live ≠ [] := by
  have hbits : ∀ closing : Bool,
      (((if !closing then EPOLLIN else 0) ||| EPOLLOUT) &&& EPOLLOUT ≠ 0) ∧
      (((if !closing then EPOLLIN else 0) ||| 0) &&& EPOLLOUT = 0) := by
    decide
  obtain ⟨hset, hclear⟩ := hbits c.closeAfterDrain
  rw [Conn.interest]
  by_cases hout : c.outBuf.live = []
  · rw [if_neg (not_not_intro hout), hclear]
    exact iff_of_false (not_not_intro rfl) (not_not_intro hout)
  · rw [if_pos hout]
    exact iff_of_true hset hout

end Conn

/-- Only a mask with `EPOLLOUT` in it lets a wake-up for writing through. -/
theorem mask_of_report {ev mask : UInt32}
    (h : (ev &&& (mask ||| (EPOLLERR ||| EPOLLHUP))) &&& EPOLLOUT ≠ 0) :
    mask &&& EPOLLOUT ≠ 0 := by
  intro hmask
  apply h
  have hboth : (mask ||| (EPOLLERR ||| EPOLLHUP)) &&& EPOLLOUT =
      (mask &&& EPOLLOUT) ||| ((EPOLLERR ||| EPOLLHUP) &&& EPOLLOUT) := by
    rw [← UInt32.toBitVec_inj]
    simp only [UInt32.toBitVec_and, UInt32.toBitVec_or]
    exact BitVec.and_or_distrib_right
  rw [UInt32.and_assoc, hboth, hmask]
  exact UInt32.and_zero

/-! ## The server -/

namespace Server

/-- **What a connection of the server waits for.** -/
structure Waits (s : Server) (p : Ptr) (c : Client) : Prop where
  /-- it is registered with the mask it remembers -/
  registered : s.kernel.epoll.lookup c.fd = some ⟨c.conn.events, some p⟩
  /-- it waits for input unless it winds down -/
  reads : c.conn.events &&& EPOLLIN ≠ 0 ↔ c.conn.closeAfterDrain = false
  /-- it waits for writing if there is something to write -/
  writes : c.conn.events &&& EPOLLOUT ≠ 0 ↔ c.conn.outBuf.live ≠ []
  /-- if it winds down, there is something to write -/
  winding : c.conn.closeAfterDrain = true → c.conn.outBuf.live ≠ []
  /-- it does wait for something -/
  waits : c.conn.events ≠ 0
  /-- when it is woken for writing, there is something to write -/
  woken : ∀ r e, r.fd = c.fd → s.kernel.report r = some e → e.events &&& EPOLLOUT ≠ 0 →
    c.conn.outBuf.live ≠ []

variable {s : Server} {others : Finset Fd} {lfd efd : Fd} {ps : List Ptr} {p : Ptr} {c : Client}

theorem Owns.waits (h : s.Owns others lfd efd ps) (ha : s.Alive p)
    (hc : s.conns.data p = some c) : s.Waits p c := by
  have harmed := (ha c hc).armed
  obtain ⟨i, hi, hptr⟩ := Option.map_eq_some_iff.mp (h.registered p c hc)
  have hmask : i.mask = c.conn.events := by
    have hview : s.kernel.mask c.fd = c.conn.events := harmed.mask_eq
    rw [Kernel.mask, hi] at hview
    exact hview
  have hevents : c.conn.events = c.conn.interest := harmed.events_eq
  have hwrites : c.conn.events &&& EPOLLOUT ≠ 0 ↔ c.conn.outBuf.live ≠ [] := by
    rw [hevents]
    exact Conn.interest_writes
  refine ⟨?_, ?_, hwrites, fun hclosing hout => harmed.pending ⟨hclosing, hout⟩, ?_, ?_⟩
  · obtain ⟨mask, ptr⟩ := i
    obtain rfl : mask = c.conn.events := hmask
    obtain rfl : ptr = some p := hptr
    exact hi
  · rw [hevents]
    exact Conn.interest_reads
  · rw [hevents]
    exact interest_ne_zero harmed.pending
  · intro r e hfd he hout
    apply hwrites.mp
    rw [Kernel.report, hfd, hi] at he
    simp only [Option.ite_none_left_eq_some, Option.some.injEq] at he
    obtain ⟨-, rfl⟩ := he
    rw [← hmask]
    exact mask_of_report hout

/-- **The event interest is right.** Whatever has happened, whenever `net_run` gets
back to `epoll_wait` every connection waits for what it needs, and for nothing
else. -/
theorem event_interest (store : Hashtable) (heap : Heap) (others : Finset Fd)
    (listen epoll : Fresh) (turns : List Turn) :
    ∃ s left, (netInit store heap others listen epoll).netRun turns = some (s, left) ∧
      (left = false → ∃ ps, s.conns.Holds ps ∧
        ∀ p, (p ∈ ps ↔ s.conns.data p ≠ none) ∧
          ∀ c, s.conns.data p = some c → s.Waits p c) := by
  obtain ⟨s, left, hrun, hsound, -⟩ := netRun_sound store heap others listen epoll turns
  refine ⟨s, left, hrun, fun hleft => ?_⟩
  obtain ⟨lfd, efd, ⟨ps, h⟩, halive⟩ := hsound hleft
  exact ⟨ps, h.chain, fun p => ⟨(h.memory p).symm, fun c hc => h.waits (halive p) hc⟩⟩

end Server

end RedisInC
