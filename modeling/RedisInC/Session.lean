import RedisInC.CommandEffect

/-!
# Runs of requests

Requests executed one after the other against one store, each with an output
buffer of its own; nothing is assumed of the requests beyond what the parser and
the C types guarantee, nor of the allocator.

* `Call` — a request with the buffer its reply goes to.
* `Session` — store and allocator between two requests; `Session.next`,
  `Session.run` — one request, and a list of them.
* `Session.run_store` — the induction rule: what every answer preserves holds of
  the store after a run. `Session.run_inv` — the table stays in order.
* `Session.Room`, `Session.Serves` — every reply has room; every request is
  served with the given reply.
-/

namespace RedisInC

/-- A request, and the buffer its reply is appended to. -/
structure Call where
  /-- the request -/
  req : RespRequest
  /-- the buffer -/
  out : Bytebuf
  /-- the buffer is in order -/
  out_inv : out.Inv
  /-- there is a command name -/
  argc_pos : 1 ≤ req.argc
  /-- the slots suffice -/
  argc_le : req.argc ≤ RESP_MAX_ARGC
  /-- arguments are objects in memory -/
  arg_le : ∀ i < req.argc, (req.arg i).length ≤ PTRDIFF_MAX

/-- What is left behind by one request and found by the next. -/
structure Session where
  /-- the store -/
  store : Hashtable
  /-- the allocator -/
  heap : Heap

namespace Session

/-- Execute a request. -/
def exec (s : Session) (c : Call) : Int × CommandCtx :=
  commandExecute ⟨s.store, c.out, s.heap⟩ c.req

/-- The session after a request. -/
def next (s : Session) (c : Call) : Session := ⟨(s.exec c).2.store, (s.exec c).2.heap⟩

/-- The session after some requests. -/
def run (s : Session) (calls : List Call) : Session := calls.foldl next s

/-- Every reply has room in its buffer. -/
def Room : Session → List Call → Prop
  | _, [] => True
  | s, c :: calls =>
    c.out.live.length + (replyTo s.store c.req).2.encode.length ≤ BYTEBUF_MAX ∧
      (s.next c).Room calls

/-- The requests are served with these replies: each returns 0 and has appended
the encoding of its reply. -/
def Serves : Session → List Call → List Reply → Prop
  | _, [], [] => True
  | s, c :: calls, r :: replies =>
    (s.exec c).1 = 0 ∧ (s.exec c).2.out.live = c.out.live ++ r.encode ∧
      (s.next c).Serves calls replies
  | _, _, _ => False

end Session

/-! ## One request -/

/-- The store after a request is the one of the answer, or the one before. -/
theorem commandExecute_store {ctx : CommandCtx} (req : RespRequest) (hout : ctx.out.Inv) :
    (commandExecute ctx req).2.store = (replyTo ctx.store req).1 ∨
      (commandExecute ctx req).2.store = ctx.store := by
  obtain ⟨part, r, -, -, hstore⟩ := commandExecute_appended req hout
  rcases hstore with heq | ⟨heq, -⟩
  · exact Or.inl (by rw [← heq])
  · exact Or.inr heq

/-- Stored values stay objects. -/
theorem commandExecute_fits {ctx : CommandCtx} (req : RespRequest) (hout : ctx.out.Inv)
    (hi : ctx.store.Inv) (hfits : ctx.store.Fits) : (commandExecute ctx req).2.store.Fits := by
  have hanswered := commandExecute_answered req hout
  generalize commandExecute ctx req = res at hanswered
  cases hanswered with
  | served failed_eq ample fits outcome => exact fits hi hfits
  | oom failed notSized outcome => exact hfits

/-! ## Runs -/

namespace Session

/-- One request leaves the store of the answer, or the one before. -/
theorem next_store (s : Session) (c : Call) :
    (s.next c).store = (replyTo s.store c.req).1 ∨ (s.next c).store = s.store :=
  @commandExecute_store ⟨s.store, c.out, s.heap⟩ c.req c.out_inv

/-- A served request: the answer's store, its reply in full. -/
theorem next_served {s : Session} {c : Call}
    (hroom : c.out.live.length + (replyTo s.store c.req).2.encode.length ≤ BYTEBUF_MAX)
    (halloc : (s.next c).heap.failed = false) :
    (s.exec c).1 = 0 ∧ (s.exec c).2.out.live = c.out.live ++ (replyTo s.store c.req).2.encode ∧
      (s.next c).store = (replyTo s.store c.req).1 :=
  commandExecute_served c.out_inv hroom halloc

/-- An ample allocator serves ordinary requests, and stays ample. -/
theorem next_ample {s : Session} {c : Call} (ha : s.heap.Ample) (hs : Sized s.store c.req)
    (hroom : c.out.live.length + (replyTo s.store c.req).2.encode.length ≤ BYTEBUF_MAX) :
    (s.next c).heap.Ample ∧ (s.next c).store = (replyTo s.store c.req).1 := by
  have hample : (s.next c).heap.Ample := commandExecute_ample c.out_inv ha hs
  obtain ⟨-, -, hstore⟩ := next_served hroom hample.2
  exact ⟨hample, hstore⟩

/-- No failure at the end of a run, no failure before. -/
theorem run_failed_mono {s : Session} (calls : List Call)
    (h : (s.run calls).heap.failed = false) : s.heap.failed = false := by
  induction calls generalizing s with
  | nil => exact h
  | cons c calls ih => exact commandExecute_failed_mono c.req c.out_inv (ih h)

/-- **What every answer preserves holds after a run.** -/
theorem run_store {P : Hashtable → Prop} {s : Session} (calls : List Call)
    (hstep : ∀ ht, P ht → ∀ c ∈ calls, P (replyTo ht c.req).1) (h : P s.store) :
    P (s.run calls).store := by
  refine List.foldlRecOn (motive := fun s => P s.store) calls next h fun s hs c hc => ?_
  rcases s.next_store c with heq | heq
  · rw [heq]
    exact hstep s.store hs c hc
  · rw [heq]
    exact hs

/-- The table stays in order. -/
theorem run_inv {s : Session} (calls : List Call) (h : s.store.Inv) : (s.run calls).store.Inv :=
  run_store calls (fun _ hi c _ => replyTo_inv hi c.req) h

end Session

end RedisInC
