import RedisInC.Locality
import RedisInC.Session

/-!
# What the server starts with (`main.c`)

`main` brings up the one global store and runs three smoke tests before it enters
the event loop. The parser's test does not see the store; the other two work on
the store that the clients get afterwards.

* `smokeTest` — the table's own test.
* `smokeRequests`, `commandSmokeTest` — the requests the dispatcher's test
  executes, in order.
* `startup` — the session that `net_run` begins with.
* `startup_store` — without a failed allocation two keys are left, `sk` and `gs`:
  the last flush is followed by six more requests.
-/

namespace RedisInC

/-! ## The smoke tests -/

/-- `smoke_test`: three keys, one overwritten, one deleted; given up at the first
of the three that cannot be stored. -/
def smokeTest (s : Session) : Session :=
  let r := htSet s.store (ascii "hello") (ascii "world") s.heap
  if r.1 ≠ 0 then ⟨r.2.1, r.2.2⟩
  else
    let r := htSet r.2.1 (ascii "name") (ascii "redis-in-c") r.2.2
    if r.1 ≠ 0 then ⟨r.2.1, r.2.2⟩
    else
      let r := htSet r.2.1 [97, 0, 98] [1, 2, 0, 255] r.2.2
      if r.1 ≠ 0 then ⟨r.2.1, r.2.2⟩
      else
        let r := htSet r.2.1 (ascii "hello") (ascii "WORLD!") r.2.2
        ⟨(htDel r.2.1 (ascii "name")).2, r.2.2⟩

/-- Cases 1 to 11: the dispatcher. -/
def dispatchCases : List (List Bytes) :=
  [ [ascii "PING"],
    [ascii "PING", ascii "hello"],
    [ascii "SET", ascii "smoke_foo", ascii "bar"],
    [ascii "GET", ascii "smoke_foo"],
    [ascii "GET", ascii "smoke_nope"],
    [ascii "EXISTS", ascii "smoke_foo", ascii "smoke_nope", ascii "smoke_foo"],
    [ascii "DEL", ascii "smoke_foo"],
    [ascii "GET", ascii "smoke_foo"],
    [ascii "COMMAND"],
    [ascii "XYZ"],
    [ascii "SET", ascii "only_key"] ]

/-- Cases 12 to 24: counters and strings. -/
def valueCases : List (List Bytes) :=
  [ [ascii "FLUSHDB"],
    [ascii "INCR", ascii "counter"],
    [ascii "INCR", ascii "counter"],
    [ascii "INCRBY", ascii "counter", ascii "10"],
    [ascii "DECRBY", ascii "counter", ascii "5"],
    [ascii "DECR", ascii "counter"],
    [ascii "SET", ascii "not_int", ascii "hello"],
    [ascii "INCR", ascii "not_int"],
    [ascii "STRLEN", ascii "counter"],
    [ascii "STRLEN", ascii "missing"],
    [ascii "APPEND", ascii "greeting", ascii "Hello"],
    [ascii "APPEND", ascii "greeting", ascii " World"],
    [ascii "GET", ascii "greeting"] ]

/-- Cases 25 to 33: the keyspace. -/
def keyspaceCases : List (List Bytes) :=
  [ [ascii "FLUSHDB"],
    [ascii "DBSIZE"],
    [ascii "SET", ascii "k1", ascii "v1"],
    [ascii "SET", ascii "k2", ascii "v2"],
    [ascii "SET", ascii "k3", ascii "v3"],
    [ascii "DBSIZE"],
    [ascii "KEYS", ascii "k1"],
    [ascii "KEYS", ascii "nope*"],
    [ascii "KEYS", ascii "*"] ]

/-- Cases 34 to 41: the store is flushed, and then the atomic variants. -/
def atomicCases : List (List Bytes) :=
  [ [ascii "FLUSHDB"],
    [ascii "DBSIZE"],
    [ascii "SETNX", ascii "sk", ascii "first"],
    [ascii "SETNX", ascii "sk", ascii "second"],
    [ascii "GET", ascii "sk"],
    [ascii "GETSET", ascii "gs", ascii "v1"],
    [ascii "GETSET", ascii "gs", ascii "v2"],
    [ascii "GET", ascii "gs"] ]

/-- The requests of `command_smoke_test`. -/
def smokeRequests : List (List Bytes) :=
  dispatchCases ++ (valueCases ++ (keyspaceCases ++ atomicCases))

/-- A `resp_request_t` as the test writes it down. -/
def smokeRequest (args : List Bytes) : RespRequest :=
  commitArgs (args.map fun bytes => ⟨0, bytes⟩) 0

/-- One case: execute, compare the reply (not modelled), reset the buffer. -/
def smokeCase (s : Session × Bytebuf) (args : List Bytes) : Session × Bytebuf :=
  let r := commandExecute ⟨s.1.store, s.2, s.1.heap⟩ (smokeRequest args)
  (⟨r.2.store, r.2.heap⟩, bytebufReset r.2.out)

/-- `command_smoke_test` -/
def commandSmokeTest (s : Session) : Session :=
  (smokeRequests.foldl smokeCase (s, bytebufInit)).1

/-- `main` up to `net_run`. -/
def startup (h : Heap) : Session := commandSmokeTest (smokeTest ⟨htInit, h⟩)

/-! ## What they leave -/

/-- The store after some cases that met no failed allocation. -/
def storeAfter (ht : Hashtable) (cases : List (List Bytes)) : Hashtable :=
  cases.foldl (fun ht args => (replyTo ht (smokeRequest args)).1) ht

/-- Cases that met no failed allocation. -/
theorem smokeCases_store {cases : List (List Bytes)} {s : Session × Bytebuf} (hout : s.2.Inv)
    (halloc : (cases.foldl smokeCase s).1.heap.failed = false) :
    s.1.heap.failed = false ∧ (cases.foldl smokeCase s).1.store = storeAfter s.1.store cases := by
  induction cases generalizing s with
  | nil => exact ⟨halloc, rfl⟩
  | cons args cases ih =>
    have hinv : (smokeCase s args).2.Inv :=
      (commandExecute_out (smokeRequest args) hout).reset
    obtain ⟨hfailed, hstore⟩ := ih hinv halloc
    have hreply := commandExecute_reply hout hfailed
    refine ⟨commandExecute_failed_mono (smokeRequest args) hout hfailed, ?_⟩
    rw [List.foldl_cons, hstore, storeAfter, storeAfter, List.foldl_cons]
    exact congrArg (fun ht => storeAfter ht cases) hreply.1

/-- The keys that are left, and their values. -/
def leftover (key : Bytes) : Option Bytes :=
  if key = ascii "gs" then some (ascii "v2")
  else if key = ascii "sk" then some (ascii "first") else none

/-- One case that is dispatched. -/
theorem storeAfter_cons {c : Cmd} {args : List Bytes} (hc : (smokeRequest args).dispatched = some c)
    (ht : Hashtable) (cases : List (List Bytes)) :
    storeAfter ht (args :: cases) = storeAfter (answer ht (smokeRequest args) c).1 cases := by
  rw [storeAfter, List.foldl_cons, replyTo_dispatched, hc]
  rfl

/-- The store after the last eight cases, whatever was there before. -/
theorem storeAfter_atomicCases (ht : Hashtable) :
    (storeAfter ht atomicCases).Inv ∧
      ∀ key, htGet (storeAfter ht atomicCases) key = leftover key := by
  have hsk := Hashtable.inv_init.put (ascii "sk") (ascii "first")
  have hgs := hsk.1.put (ascii "gs") (ascii "v1")
  have hfinal := hgs.1.put (ascii "gs") (ascii "v2")
  have hpresent : (htGet (htInit.put (ascii "sk") (ascii "first")) (ascii "sk")).isSome = true := by
    rw [Hashtable.inv_init.htGet_put, if_pos rfl]
    rfl
  -- the second `SETNX` finds the key, both `GETSET` store
  have hsetnx : (answer htInit (smokeRequest [ascii "SETNX", ascii "sk", ascii "first"]) .setnx).1 =
      htInit.put (ascii "sk") (ascii "first") := rfl
  have hsetnx' : (answer (htInit.put (ascii "sk") (ascii "first"))
      (smokeRequest [ascii "SETNX", ascii "sk", ascii "second"]) .setnx).1 =
        htInit.put (ascii "sk") (ascii "first") := by
    rw [answer]
    exact congrArg Prod.fst (if_pos hpresent)
  have hstore : storeAfter ht atomicCases =
      ((htInit.put (ascii "sk") (ascii "first")).put (ascii "gs") (ascii "v1")).put (ascii "gs")
        (ascii "v2") := by
    rw [atomicCases, storeAfter_cons (by decide : _ = some Cmd.flushdb),
      storeAfter_cons (by decide : _ = some Cmd.dbsize)]
    change storeAfter htInit _ = _
    rw [storeAfter_cons (by decide : _ = some Cmd.setnx), hsetnx,
      storeAfter_cons (by decide : _ = some Cmd.setnx), hsetnx',
      storeAfter_cons (by decide : _ = some Cmd.get),
      storeAfter_cons (by decide : _ = some Cmd.getset),
      storeAfter_cons (by decide : _ = some Cmd.getset),
      storeAfter_cons (by decide : _ = some Cmd.get)]
    rfl
  rw [hstore]
  refine ⟨hfinal.1, fun key => ?_⟩
  rw [hgs.1.htGet_put, hsk.1.htGet_put, Hashtable.inv_init.htGet_put, Hashtable.htGet_init,
    leftover]
  by_cases hkey : key = ascii "gs"
  · rw [if_pos hkey, if_pos hkey]
  · rw [if_neg hkey, if_neg hkey, if_neg hkey]

/-- **The store the clients find**: two keys of the last smoke test cases. -/
theorem startup_store {h : Heap} (halloc : (startup h).heap.failed = false) :
    (startup h).store.Inv ∧ ∀ key, htGet (startup h).store key = leftover key := by
  obtain ⟨-, hstore⟩ := smokeCases_store Bytebuf.inv_init halloc
  have hsplit : (startup h).store = storeAfter
      (storeAfter (smokeTest ⟨htInit, h⟩).store (dispatchCases ++ (valueCases ++ keyspaceCases)))
      atomicCases := by
    rw [startup, commandSmokeTest, hstore, storeAfter, storeAfter, storeAfter, ← List.foldl_append,
      smokeRequests]
    simp only [List.append_assoc]
  rw [hsplit]
  exact storeAfter_atomicCases _

/-! ## Whatever is allocated -/

/-- `ht_set` keeps the table in order, stored or refused. -/
theorem htSet_keeps {ht : Hashtable} (hk : ht.Inv ∧ ht.Fits) (key val : Bytes) (h : Heap) :
    (htSet ht key val h).2.1.Inv ∧ (htSet ht key val h).2.1.Fits := by
  have hset := Hashtable.htSet_spec ht key val h
  generalize htSet ht key val h = r at hset
  cases hset with
  | stored failed_eq fits ample => exact ⟨(hk.1.put key val).1, hk.2.put hk.1 key fits⟩
  | refused failed => exact hk

theorem htDel_keeps {ht : Hashtable} (hk : ht.Inv ∧ ht.Fits) (key : Bytes) :
    (htDel ht key).2.Inv ∧ (htDel ht key).2.Fits :=
  ⟨(hk.1.htDel key).1, hk.2.del hk.1 key⟩

theorem smokeTest_keeps {s : Session} (hk : s.store.Inv ∧ s.store.Fits) :
    (smokeTest s).store.Inv ∧ (smokeTest s).store.Fits := by
  have h₁ := htSet_keeps hk (ascii "hello") (ascii "world") s.heap
  rw [smokeTest]
  dsimp only
  split
  · exact h₁
  · split
    · exact htSet_keeps h₁ ..
    · split
      · exact htSet_keeps (htSet_keeps h₁ ..) ..
      · exact htDel_keeps (htSet_keeps (htSet_keeps (htSet_keeps h₁ ..) ..) ..) _

/-- One case of the dispatcher's test. -/
theorem smokeCase_keeps {s : Session × Bytebuf} (args : List Bytes) (hi : s.1.store.Inv)
    (hf : s.1.store.Fits) (hout : s.2.Inv) :
    (smokeCase s args).1.store.Inv ∧ (smokeCase s args).1.store.Fits ∧ (smokeCase s args).2.Inv := by
  refine ⟨?_, commandExecute_fits (smokeRequest args) hout hi hf,
    (commandExecute_out (smokeRequest args) hout).reset⟩
  rcases @commandExecute_store ⟨s.1.store, s.2, s.1.heap⟩ (smokeRequest args) hout with heq | heq
  · rw [smokeCase, heq]
    exact replyTo_inv hi _
  · rw [smokeCase, heq]
    exact hi

/-- **The store the clients find is in order**, whatever allocations failed before. -/
theorem startup_keeps (h : Heap) : (startup h).store.Inv ∧ (startup h).store.Fits := by
  have hstart := @smokeTest_keeps ⟨htInit, h⟩ ⟨Hashtable.inv_init, Hashtable.fits_init⟩
  have hall : ∀ cases : List (List Bytes), ∀ s : Session × Bytebuf, s.1.store.Inv →
      s.1.store.Fits → s.2.Inv →
        (cases.foldl smokeCase s).1.store.Inv ∧ (cases.foldl smokeCase s).1.store.Fits := by
    intro cases
    induction cases with
    | nil => exact fun s hi hf _ => ⟨hi, hf⟩
    | cons args cases ih =>
      intro s hi hf hout
      obtain ⟨hi', hf', hout'⟩ := smokeCase_keeps args hi hf hout
      exact ih _ hi' hf' hout'
  exact hall smokeRequests _ hstart.1 hstart.2 Bytebuf.inv_init

end RedisInC
