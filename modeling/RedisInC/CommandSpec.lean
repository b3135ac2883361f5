import RedisInC.Command
import RedisInC.RespFramer

/-!
# What a command does

One specification for all commands, from which every later result is derived.

* `answer`, `replyTo` — the store a request leaves and the reply it gets when no
  allocation fails, as a pure function of the store and the request.
* `Answered` — what executing a request can come to: the answer, with its reply
  appended as far as there is room; or, after a failed allocation, the store as
  it was and the out-of-memory error.
* `commandExecute_answered` — every request is answered, whatever the store, the
  buffer and the allocator.
-/

namespace RedisInC

open DecimalText Bytebuf

/-! ## Answers -/

/-- The value a counter command starts from; `none` when the text is refused. -/
def counterValue (ht : Hashtable) (key : Bytes) : Option ℤ :=
  match htGet ht key with
  | some val => parseInt64 val
  | none => some 0

/-- `"ERR value is not an integer or out of range"` -/
def notInteger : Reply := .error (ascii "ERR value is not an integer or out of range")
/-- `"ERR increment or decrement would overflow"` -/
def wouldOverflow : Reply := .error (ascii "ERR increment or decrement would overflow")
/-- `"ERR out of memory"` -/
def outOfMemory : Reply := .error (ascii "ERR out of memory")

/-- The answer of the counter commands. -/
def answerIncrby (ht : Hashtable) (key : Bytes) (delta : ℤ) : Hashtable × Reply :=
  match counterValue ht key with
  | none => (ht, notInteger)
  | some cur =>
    if INT64_MIN ≤ cur + delta ∧ cur + delta ≤ INT64_MAX then
      (ht.put key (intText (cur + delta)), .integer (cur + delta))
    else (ht, wouldOverflow)

/-- The answer of `APPEND`. -/
def answerAppend (ht : Hashtable) (key val : Bytes) : Hashtable × Reply :=
  match htGet ht key with
  | none => (ht.put key val, .integer val.length)
  | some old =>
    if val.length > SIZE_MAX - old.length then
      (ht, .error (ascii "ERR string exceeds maximum allowed size"))
    else (ht.put key (old ++ val), .integer (old.length + val.length : ℕ))

/-- The bulk reply of a hit and the nil reply of a miss. -/
def bulkOrNil : Option Bytes → Reply
  | some val => .bulk val
  | none => .nil

/-- The keys a pattern matches, in bucket order. -/
def matchingKeys (ht : Hashtable) (pattern : Bytes) : List Bytes :=
  (ht.entries.map Sigma.fst).filter fun key => globMatch pattern key

/-- The answer of each handler. -/
def answer (ht : Hashtable) (req : RespRequest) : Cmd → Hashtable × Reply
  | .ping => (ht, if req.argc = 1 then .simple (ascii "PONG") else .bulk (req.arg 1))
  | .get => (ht, bulkOrNil (htGet ht (req.arg 1)))
  | .set => (ht.put (req.arg 1) (req.arg 2), .simple (ascii "OK"))
  | .del => ((delKeys req.keys 0 ht).2, .integer (delKeys req.keys 0 ht).1)
  | .exists => (ht, .integer (countKeys req.keys 0 ht))
  | .command => (ht, .array [])
  | .incr => answerIncrby ht (req.arg 1) 1
  | .decr => answerIncrby ht (req.arg 1) (-1)
  | .incrby =>
    match parseInt64 (req.arg 2) with
    | none => (ht, notInteger)
    | some delta => answerIncrby ht (req.arg 1) delta
  | .decrby =>
    match parseInt64 (req.arg 2) with
    | none => (ht, notInteger)
    | some delta => answerIncrby ht (req.arg 1) (-delta)
  | .strlen => (ht, .integer ((htGet ht (req.arg 1)).getD []).length)
  | .append => answerAppend ht (req.arg 1) (req.arg 2)
  | .keys => (ht, .array (matchingKeys ht (req.arg 1)))
  | .dbsize => (ht, .integer ht.count)
  | .flushdb => (htInit, .simple (ascii "OK"))
  | .setnx =>
    if (htGet ht (req.arg 1)).isSome then (ht, .integer 0)
    else (ht.put (req.arg 1) (req.arg 2), .integer 1)
  | .getset => (ht.put (req.arg 1) (req.arg 2), bulkOrNil (htGet ht (req.arg 1)))

/-- The answer to a request. -/
def replyTo (ht : Hashtable) (req : RespRequest) : Hashtable × Reply :=
  if req.argc = 0 then (ht, .error (ascii "ERR empty command"))
  else
    match lookupCommand (req.arg 0) with
    | some e =>
      if e.badArity req.argc then (ht, .error (arityMessage e)) else answer ht req e.handler
    | none => (ht, .error (unknownMessage (req.arg 0)))

/-- Keys, values and arguments below a quarter of the address space: an ample
allocator refuses nothing. -/
structure Sized (ht : Hashtable) (req : RespRequest) : Prop where
  /-- arguments are small -/
  arg_le : ∀ i, (req.arg i).length ≤ 2 ^ 62 - 1
  /-- stored values are small -/
  val_le : ∀ key val, htGet ht key = some val → val.length ≤ 2 ^ 62 - 1

/-- What executing a request can come to. -/
inductive Answered (ctx : CommandCtx) (req : RespRequest) (want : Hashtable × Reply) :
    Int × CommandCtx → Prop
  /-- no allocation failed before the reply was begun -/
  | served {h : Heap} {r : Int × Bytebuf × Heap} (failed_eq : h.failed = ctx.heap.failed)
      (ample : ctx.heap.Ample → h.Ample)
      (fits : ctx.store.Inv → ctx.store.Fits → want.1.Fits)
      (outcome : AppendOutcome ctx.out want.2.encode h r) :
      Answered ctx req want (r.1, ⟨want.1, r.2.1, r.2.2⟩)
  /-- an allocation failed, and the store is as it was -/
  | oom {h : Heap} {r : Int × Bytebuf × Heap} (failed : h.failed = true)
      (notSized : ctx.heap.Ample → ¬ Sized ctx.store req)
      (outcome : AppendOutcome ctx.out outOfMemory.encode h r) :
      Answered ctx req want (r.1, ⟨ctx.store, r.2.1, r.2.2⟩)

/-- The store is the one of the answer, or the one it was. -/
theorem Answered.store_or {ctx : CommandCtx} {req : RespRequest} {want : Hashtable × Reply}
    {r : Int × CommandCtx} (ha : Answered ctx req want r) :
    r.2.store = want.1 ∨ r.2.store = ctx.store := by
  cases ha with
  | served failed_eq ample fits outcome => exact Or.inl rfl
  | oom failed notSized outcome => exact Or.inr rfl

/-- Without a failed allocation, the answer is given. -/
theorem Answered.given {ctx : CommandCtx} {req : RespRequest} {want : Hashtable × Reply}
    {r : Int × CommandCtx} (ha : Answered ctx req want r) (hf : r.2.heap.failed = false) :
    r.2.store = want.1 ∧ ∃ h, AppendOutcome ctx.out want.2.encode h (r.1, r.2.out, r.2.heap) := by
  cases ha with
  | served failed_eq ample fits outcome => exact ⟨rfl, _, outcome⟩
  | oom failed notSized outcome =>
    exact absurd (failed.symm.trans (outcome.failed_mono hf)) (by decide)

/-! ## The helpers -/

/-- The digit loop is the guarded loop. -/
theorem parseInt64Loop_eq (cs : Bytes) (v : ℕ) :
    parseInt64Loop cs v = (readGuarded DIGIT_GUARD cs v).map Nat.cast := by
  induction cs generalizing v with
  | nil => rfl
  | cons c cs ih =>
    rw [parseInt64Loop, readGuarded]
    by_cases hc : IsDigit c
    · have hrange : ¬ (c < 48 ∨ c > 57) := mt not_isDigit_iff.mpr (not_not_intro hc)
      rw [if_neg hrange, if_neg (not_not_intro hc), digit_guard_eq]
      by_cases hguard : v > DIGIT_GUARD
      · rw [if_pos (by omega), if_pos hguard, Option.map_none]
      · rw [if_neg (by omega), if_neg hguard, cast_digit hc, ih]
    · rw [if_pos (not_isDigit_iff.mp hc), if_pos hc, Option.map_none]

/-- **The language of `parse_int64`**: decimal integers up to the guard. -/
theorem parseInt64_eq_some {s : Bytes} {v : ℤ} :
    parseInt64 s = some v ↔ readInt s = some v ∧ v.natAbs ≤ 10 * DIGIT_GUARD + 9 := by
  have hloop : ∀ cs, parseInt64Loop cs 0 = (readGuarded DIGIT_GUARD cs 0).map Nat.cast :=
    fun cs => parseInt64Loop_eq cs 0
  cases s with
  | nil => simp [parseInt64, readInt]
  | cons c cs =>
    rw [parseInt64, readInt]
    by_cases hminus : c = 45
    · rw [if_pos hminus, if_pos hminus, hloop, Option.map_map]
      by_cases hnil : cs = []
      · simp [hnil, readNat]
      · rw [if_neg (mt List.length_eq_zero_iff.mp hnil), Option.map_eq_some_iff,
          Option.map_eq_some_iff]
        constructor
        · rintro ⟨n, hn, rfl⟩
          obtain ⟨hread, hle⟩ := (readGuarded_iff_readNat hnil).mp hn
          exact ⟨⟨n, hread, rfl⟩, by simpa using hle⟩
        · rintro ⟨⟨n, hread, rfl⟩, hle⟩
          exact ⟨n, (readGuarded_iff_readNat hnil).mpr ⟨hread, by simpa using hle⟩, rfl⟩
    · rw [if_neg hminus, if_neg hminus, hloop, Option.map_eq_some_iff, Option.map_eq_some_iff]
      constructor
      · rintro ⟨n, hn, rfl⟩
        obtain ⟨hread, hle⟩ := (readGuarded_iff_readNat (List.cons_ne_nil c cs)).mp hn
        exact ⟨⟨n, hread, rfl⟩, hle⟩
      · rintro ⟨⟨n, hread, rfl⟩, hle⟩
        exact ⟨n, (readGuarded_iff_readNat (List.cons_ne_nil c cs)).mpr ⟨hread, hle⟩, rfl⟩

/-- What `parse_int64` accepts is an `int64_t`, and not even close to the limits:
the guard stops at `10 * DIGIT_GUARD + 9`. -/
theorem parseInt64_bounds {s : Bytes} {v : ℤ} (h : parseInt64 s = some v) :
    v.natAbs ≤ 10 * DIGIT_GUARD + 9 := (parseInt64_eq_some.mp h).2

theorem counterValue_bounds {ht : Hashtable} {key : Bytes} {cur : ℤ}
    (h : counterValue ht key = some cur) : cur.natAbs ≤ 10 * DIGIT_GUARD + 9 := by
  rw [counterValue] at h
  cases hget : htGet ht key with
  | some val =>
    rw [hget] at h
    exact parseInt64_bounds h
  | none =>
    rw [hget] at h
    cases h
    exact Nat.zero_le _

/-- ASCII lower case to upper case, any other byte as it is. -/
def upperByte (c : UInt8) : UInt8 := if c ≥ 97 ∧ c ≤ 122 then c - 97 + 65 else c

/-- The comparison is equality after mapping to upper case. -/
theorem sliceEqCi_iff {s name : Bytes} : sliceEqCi s name = true ↔ s.map upperByte = name := by
  induction s generalizing name with
  | nil =>
    cases name with
    | nil => simp [sliceEqCi]
    | cons u name => simp [sliceEqCi]
  | cons c s ih =>
    cases name with
    | nil => simp [sliceEqCi]
    | cons u name =>
      rw [sliceEqCi, List.map_cons, List.cons.injEq, ← ih]
      change (if upperByte c ≠ u then false else sliceEqCi s name) = true ↔ _
      by_cases hc : upperByte c = u
      · rw [if_neg (not_not_intro hc)]
        exact ⟨fun h => ⟨hc, h⟩, fun h => h.2⟩
      · rw [if_pos hc]
        exact ⟨fun h => (by cases h), fun h => absurd h.1 hc⟩

theorem lookupCommand_mem {name : Bytes} {e : CmdEntry} (h : lookupCommand name = some e) :
    e ∈ commands := List.mem_of_find?_eq_some h

theorem lookupCommand_name {name : Bytes} {e : CmdEntry} (h : lookupCommand name = some e) :
    sliceEqCi name e.name = true :=
  List.find?_some (p := fun e : CmdEntry => sliceEqCi name e.name) h

/-- **The order of the table is irrelevant**: no two entries have the same name,
so an entry is found exactly by its name. -/
theorem lookupCommand_eq_some {name : Bytes} {e : CmdEntry} (he : e ∈ commands) :
    lookupCommand name = some e ↔ sliceEqCi name e.name = true := by
  have hnodup : (commands.map CmdEntry.name).Nodup := by decide
  refine ⟨lookupCommand_name, fun h => ?_⟩
  cases hfind : lookupCommand name with
  | none =>
    rw [lookupCommand, List.find?_eq_none] at hfind
    exact absurd h (hfind e he)
  | some e' =>
    have hname : e'.name = e.name :=
      (sliceEqCi_iff.mp (lookupCommand_name hfind)).symm.trans (sliceEqCi_iff.mp h)
    rw [List.inj_on_of_nodup_map hnodup (lookupCommand_mem hfind) he hname]

/-- A request that names an entry of the table and has the right arity is
answered by its handler. -/
theorem replyTo_eq_answer {ht : Hashtable} {req : RespRequest} {e : CmdEntry} (he : e ∈ commands)
    (hname : sliceEqCi (req.arg 0) e.name = true) (hargc : req.argc ≠ 0)
    (harity : e.badArity req.argc = false) : replyTo ht req = answer ht req e.handler := by
  rw [replyTo, if_neg hargc, (lookupCommand_eq_some he).mpr hname]
  simp only [harity, Bool.false_eq_true, if_false]

/-- A `GET` of a key that is present. -/
theorem replyTo_get {ht : Hashtable} {req : RespRequest} {val : Bytes}
    (hname : sliceEqCi (req.arg 0) (ascii "GET") = true) (hargc : req.argc = 2)
    (hval : htGet ht (req.arg 1) = some val) : replyTo ht req = (ht, .bulk val) := by
  have hmem : (⟨ascii "GET", 2, 2, .get⟩ : CmdEntry) ∈ commands := by simp [commands]
  rw [replyTo_eq_answer hmem hname (by rw [hargc]; decide) (by rw [hargc]; decide), answer, hval]
  rfl

/-! ## The building blocks of the handlers -/

/-- The context after granted allocations: nothing else has changed. -/
structure CommandCtx.Grown (ctx ctx' : CommandCtx) : Prop where
  store_eq : ctx'.store = ctx.store
  out_eq : ctx'.out = ctx.out
  failed_eq : ctx'.heap.failed = ctx.heap.failed
  ample : ctx.heap.Ample → ctx'.heap.Ample

section Handlers

variable {ctx ctx' : CommandCtx} {req : RespRequest}

theorem CommandCtx.Grown.refl (ctx : CommandCtx) : ctx.Grown ctx := ⟨rfl, rfl, rfl, fun ha => ha⟩

/-- A serializer that appends a reply, whatever the buffer and the allocator. -/
def Serializes (f : Bytebuf → Heap → Int × Bytebuf × Heap) (r : Reply) : Prop :=
  ∀ out h, out.Inv → AppendOutcome out r.encode h (f out h)

/-- Replying without touching the store. -/
theorem answered_reply {f : Bytebuf → Heap → Int × Bytebuf × Heap} {r : Reply}
    (hf : Serializes f r) (hout : ctx.out.Inv) : Answered ctx req (ctx.store, r) (ctx.reply f) :=
  .served rfl (fun ha => ha) (fun _ hfits => hfits) (hf ctx.out ctx.heap hout)

theorem serializes_error (msg : Bytes) :
    Serializes (fun out h => respReplyError out msg h) (.error msg) :=
  fun _ h hout => respReplyError_spec hout msg h

theorem serializes_simple (s : Bytes) :
    Serializes (fun out h => respReplySimpleString out s h) (.simple s) :=
  fun _ h hout => respReplySimpleString_spec hout s h

theorem serializes_integer (n : ℤ) :
    Serializes (fun out h => respReplyInteger out n h) (.integer n) :=
  fun _ h hout => respReplyInteger_spec hout n h

theorem serializes_bulk (bytes : Bytes) :
    Serializes (fun out h => respReplyBulk out bytes h) (.bulk bytes) :=
  fun _ h hout => respReplyBulk_spec hout bytes h

theorem serializes_nil : Serializes respReplyNil .nil := fun _ h hout => respReplyNil_spec hout h

/-- Giving up after a failed allocation. -/
theorem answered_oom {want : Hashtable × Reply} (hstore : ctx'.store = ctx.store)
    (hout_eq : ctx'.out = ctx.out) (hfailed : ctx'.heap.failed = true)
    (hsized : ctx.heap.Ample → ¬ Sized ctx.store req) (hout : ctx.out.Inv) :
    Answered ctx req want (ctx'.replyError (ascii "ERR out of memory")) := by
  have houtcome := serializes_error (ascii "ERR out of memory") ctx.out ctx'.heap hout
  rw [CommandCtx.replyError, CommandCtx.reply, hstore, hout_eq]
  exact .oom hfailed hsized houtcome

/-- `ht_set` on a context: the key is set, or an allocation failed. -/
theorem htSet_cases (ctx : CommandCtx) (key val : Bytes) :
    (∃ h', ctx.htSet key val = (0, ⟨ctx.store.put key val, ctx.out, h'⟩) ∧
      h'.failed = ctx.heap.failed ∧ (ctx.heap.Ample → h'.Ample) ∧ val.length ≤ PTRDIFF_MAX) ∨
    (∃ h', ctx.htSet key val = (-1, ⟨ctx.store, ctx.out, h'⟩) ∧ h'.failed = true ∧
      (ctx.heap.Ample → key.length ≤ PTRDIFF_MAX → ¬ val.length ≤ PTRDIFF_MAX)) := by
  have hspec := Hashtable.htSet_spec ctx.store key val ctx.heap
  rw [CommandCtx.htSet]
  generalize htSet ctx.store key val ctx.heap = s at hspec ⊢
  cases hspec with
  | stored failed_eq size_le ample => exact Or.inl ⟨_, rfl, failed_eq, ample, size_le⟩
  | refused failed notAmple => exact Or.inr ⟨_, rfl, failed, notAmple⟩

/-- **Storing and replying**, possibly after granted scratch allocations. -/
theorem answered_set {key val : Bytes} {f : Bytebuf → Heap → Int × Bytebuf × Heap} {r : Reply}
    (hgrown : ctx.Grown ctx') (hf : Serializes f r) (hout : ctx.out.Inv)
    (hkey : Sized ctx.store req → key.length ≤ PTRDIFF_MAX)
    (hval : Sized ctx.store req → val.length ≤ PTRDIFF_MAX) :
    Answered ctx req (ctx.store.put key val, r)
      (if (ctx'.htSet key val).1 ≠ 0 then
        (ctx'.htSet key val).2.replyError (ascii "ERR out of memory")
      else (ctx'.htSet key val).2.reply f) := by
  rcases htSet_cases ctx' key val with
    ⟨h', heq, failed_eq, ample, size_le⟩ | ⟨h', heq, failed, notAmple⟩
  · rw [heq, if_neg (not_not_intro rfl), hgrown.store_eq, hgrown.out_eq]
    exact .served (failed_eq.trans hgrown.failed_eq) (fun ha => ample (hgrown.ample ha))
      (fun hi hfits => hfits.put hi key size_le) (hf ctx.out h' hout)
  · rw [heq, if_pos (show (-1 : Int) ≠ 0 by decide)]
    exact answered_oom hgrown.store_eq hgrown.out_eq failed
      (fun ha hs => notAmple (hgrown.ample ha) (hkey hs) (hval hs)) hout

/-- A scratch allocation is granted, or it is recorded as refused. -/
theorem malloc_cases (ctx : CommandCtx) (size : ℕ) :
    ((ctx.malloc size).1 = true ∧ ctx.Grown (ctx.malloc size).2) ∨
    ((ctx.malloc size).1 = false ∧ (ctx.malloc size).2.store = ctx.store ∧
      (ctx.malloc size).2.out = ctx.out ∧ (ctx.malloc size).2.heap.failed = true ∧
      (ctx.heap.Ample → ¬ size ≤ PTRDIFF_MAX)) := by
  cases hm : (ctx.heap.malloc size).1 with
  | true =>
    obtain ⟨hfailed, hsize⟩ := Heap.malloc_granted hm
    exact Or.inl ⟨hm, rfl, rfl, hfailed, fun ha => (ha.malloc hsize).2⟩
  | false =>
    refine Or.inr ⟨hm, rfl, rfl, Heap.malloc_refused hm, fun ha hsize => ?_⟩
    rw [(ha.malloc hsize).1] at hm
    cases hm

theorem sized_arg (hs : Sized ctx.store req) (i : ℕ) : (req.arg i).length ≤ PTRDIFF_MAX := by
  have := hs.arg_le i
  simp only [PTRDIFF_MAX]
  omega

/-! ## The handlers -/

theorem cmdSet_answered (hout : ctx.out.Inv) :
    Answered ctx req (answer ctx.store req .set) (cmdSet ctx req) :=
  answered_set (.refl ctx) (serializes_simple _) hout (fun hs => sized_arg hs 1)
    fun hs => sized_arg hs 2

theorem cmdGet_answered (hout : ctx.out.Inv) :
    Answered ctx req (answer ctx.store req .get) (cmdGet ctx req) := by
  rw [cmdGet, answer]
  cases htGet ctx.store (req.arg 1) with
  | some val => exact answered_reply (serializes_bulk val) hout
  | none => exact answered_reply serializes_nil hout

theorem cmdPing_answered (hout : ctx.out.Inv) :
    Answered ctx req (answer ctx.store req .ping) (cmdPing ctx req) := by
  rw [cmdPing, answer]
  split
  · exact answered_reply (serializes_simple _) hout
  · exact answered_reply (serializes_bulk _) hout

/-- Deleting keys keeps the invariant and adds no values. -/
theorem delKeys_inv {ht : Hashtable} (hi : ht.Inv) (keys : List Bytes) (deleted : ℤ) :
    (delKeys keys deleted ht).2.Inv ∧ (ht.Fits → (delKeys keys deleted ht).2.Fits) := by
  induction keys generalizing ht deleted with
  | nil => exact ⟨hi, fun hfits => hfits⟩
  | cons key keys ih =>
    obtain ⟨hinv, hfits⟩ :=
      ih (hi.htDel key).1 (if (htDel ht key).1 ≠ 0 then deleted + 1 else deleted)
    exact ⟨hinv, fun hf => hfits (hf.del hi key)⟩

theorem cmdDel_answered (hout : ctx.out.Inv) :
    Answered ctx req (answer ctx.store req .del) (cmdDel ctx req) :=
  .served rfl (fun ha => ha) (fun hi => (delKeys_inv hi req.keys 0).2)
    (serializes_integer _ ctx.out ctx.heap hout)

theorem cmdFlushdb_answered (hout : ctx.out.Inv) :
    Answered ctx req (answer ctx.store req .flushdb) (cmdFlushdb ctx req) :=
  .served rfl (fun ha => ha) (fun _ _ => Hashtable.fits_init)
    (serializes_simple _ ctx.out ctx.heap hout)

theorem cmdCommand_answered (hout : ctx.out.Inv) :
    Answered ctx req (answer ctx.store req .command) (cmdCommand ctx req) :=
  .served rfl (fun ha => ha) (fun _ hfits => hfits) (respReplyArrayHeader_spec hout 0 ctx.heap)

theorem cmdDbsize_answered (hout : ctx.out.Inv) :
    Answered ctx req (answer ctx.store req .dbsize) (cmdDbsize ctx req) := by
  rw [cmdDbsize, answer]
  exact answered_reply (serializes_integer ctx.store.count) hout

theorem cmdStrlen_answered (hout : ctx.out.Inv) :
    Answered ctx req (answer ctx.store req .strlen) (cmdStrlen ctx req) := by
  rw [cmdStrlen, answer]
  cases htGet ctx.store (req.arg 1) with
  | some val => exact answered_reply (serializes_integer val.length) hout
  | none => exact answered_reply (serializes_integer 0) hout

theorem cmdSetnx_answered (hout : ctx.out.Inv) :
    Answered ctx req (answer ctx.store req .setnx) (cmdSetnx ctx req) := by
  rw [cmdSetnx, answer]
  split
  · exact answered_reply (serializes_integer 0) hout
  · exact answered_set (.refl ctx) (serializes_integer 1) hout (fun hs => sized_arg hs 1)
      fun hs => sized_arg hs 2

/-- The two overflow tests of the counter core are one range test, because the
current value is far from the limits. -/
theorem overflow_test_iff {ht : Hashtable} {key : Bytes} {cur : ℤ}
    (hcur : counterValue ht key = some cur) (delta : ℤ) :
    ((delta > 0 ∧ cur > INT64_MAX - delta) ∨ (delta < 0 ∧ cur < INT64_MIN - delta)) ↔
      ¬ (INT64_MIN ≤ cur + delta ∧ cur + delta ≤ INT64_MAX) := by
  have hbounds := counterValue_bounds hcur
  simp only [DIGIT_GUARD] at hbounds
  simp only [INT64_MIN, INT64_MAX]
  omega

/-- The text of an `int64_t` has at most twenty bytes. -/
theorem length_intText_le_twenty {z : ℤ} (hrange : INT64_MIN ≤ z ∧ z ≤ INT64_MAX) :
    (intText z).length ≤ 20 := by
  rw [← int64_of_bounds hrange.1 hrange.2]
  exact length_intText_int64 z

/-- **The counter core.** -/
theorem incrbyOp_answered (hout : ctx.out.Inv) (i : ℕ) (delta : ℤ) :
    Answered ctx req (answerIncrby ctx.store (req.arg i) delta)
      (incrbyOp ctx (req.arg i) delta) := by
  rw [incrbyOp, answerIncrby]
  change Answered ctx req _ (match counterValue ctx.store (req.arg i) with
    | none => _
    | some cur => _)
  cases hcur : counterValue ctx.store (req.arg i) with
  | none => exact answered_reply (serializes_error _) hout
  | some cur =>
    have htest := overflow_test_iff hcur delta
    simp only
    by_cases hrange : INT64_MIN ≤ cur + delta ∧ cur + delta ≤ INT64_MAX
    · have hlen := length_intText_le_twenty hrange
      have hfmt : (snprintf 24 (intText (cur + delta))).take (intText (cur + delta)).length =
          intText (cur + delta) := by
        have hwhole : snprintf 24 (intText (cur + delta)) = intText (cur + delta) :=
          List.take_of_length_le (by omega)
        rw [hwhole, List.take_length]
      rw [if_neg (mt htest.mp (not_not_intro hrange)), if_pos hrange, if_neg (by omega), hfmt]
      refine answered_set (.refl ctx) (serializes_integer (cur + delta)) hout
        (fun hs => sized_arg hs i) fun _ => Nat.le_trans hlen ?_
      decide
    · rw [if_pos (htest.mpr hrange), if_neg hrange]
      exact answered_reply (serializes_error _) hout

theorem cmdIncrby_answered (hout : ctx.out.Inv) :
    Answered ctx req (answer ctx.store req .incrby) (cmdIncrby ctx req) := by
  rw [cmdIncrby, answer]
  cases parseInt64 (req.arg 2) with
  | none => exact answered_reply (serializes_error _) hout
  | some delta => exact incrbyOp_answered hout 1 delta

/-- The test for `INT64_MIN` in `cmd_decrby` never fires. -/
theorem cmdDecrby_answered (hout : ctx.out.Inv) :
    Answered ctx req (answer ctx.store req .decrby) (cmdDecrby ctx req) := by
  rw [cmdDecrby, answer]
  cases hparse : parseInt64 (req.arg 2) with
  | none => exact answered_reply (serializes_error _) hout
  | some delta =>
    have hbounds := parseInt64_bounds hparse
    have hmin : delta ≠ INT64_MIN := by
      simp only [DIGIT_GUARD] at hbounds
      simp only [INT64_MIN]
      omega
    simp only [if_neg hmin]
    exact incrbyOp_answered hout 1 (-delta)

theorem cmdAppend_answered (hout : ctx.out.Inv) :
    Answered ctx req (answer ctx.store req .append) (cmdAppend ctx req) := by
  rw [cmdAppend, answer, answerAppend]
  simp only
  cases hget : htGet ctx.store (req.arg 1) with
  | none =>
    exact answered_set (.refl ctx) (serializes_integer _) hout (fun hs => sized_arg hs 1)
      fun hs => sized_arg hs 2
  | some old =>
    simp only
    split
    · exact answered_reply (serializes_error _) hout
    · have hlen : Sized ctx.store req → old.length + (req.arg 2).length ≤ PTRDIFF_MAX := by
        intro hs
        have harg := hs.arg_le 2
        have hold := hs.val_le _ _ hget
        simp only [PTRDIFF_MAX]
        omega
      -- the code asks for at least one byte
      set size := if old.length + (req.arg 2).length = 0 then 1
        else old.length + (req.arg 2).length with hsize
      rcases malloc_cases ctx size with ⟨hok, hgrown⟩ | ⟨hno, hstore, hout_eq, hfailed, hample⟩
      · rw [if_pos hok]
        exact answered_set hgrown (serializes_integer _) hout (fun hs => sized_arg hs 1)
          fun hs => by rw [List.length_append]; exact hlen hs
      · rw [if_neg (by rw [hno]; decide)]
        refine answered_oom hstore hout_eq hfailed (fun ha hs => hample ha ?_) hout
        have hle := hlen hs
        have hone : 1 ≤ PTRDIFF_MAX := by decide
        rw [hsize]
        split
        · exact hone
        · exact hle

theorem cmdGetset_answered (hout : ctx.out.Inv) :
    Answered ctx req (answer ctx.store req .getset) (cmdGetset ctx req) := by
  rw [cmdGetset, answer]
  simp only
  -- the snapshot of the old value, if there is one and it is not empty
  set m := if (htGet ctx.store (req.arg 1)).isSome ∧
      ((htGet ctx.store (req.arg 1)).getD []).length > 0 then
    ctx.malloc ((htGet ctx.store (req.arg 1)).getD []).length else (true, ctx) with hm
  have hcases : (m.1 = true ∧ ctx.Grown m.2) ∨
      (m.1 = false ∧ m.2.store = ctx.store ∧ m.2.out = ctx.out ∧ m.2.heap.failed = true ∧
        (ctx.heap.Ample → ¬ Sized ctx.store req)) := by
    rw [hm]
    split
    · next hhit =>
      obtain ⟨old, hold⟩ := Option.isSome_iff_exists.mp hhit.1
      rcases malloc_cases ctx ((htGet ctx.store (req.arg 1)).getD []).length with
        hok | ⟨hno, hstore, hout_eq, hfailed, hample⟩
      · exact Or.inl hok
      · refine Or.inr ⟨hno, hstore, hout_eq, hfailed, fun ha hs => hample ha ?_⟩
        have hle := hs.val_le _ _ hold
        rw [hold, Option.getD_some]
        simp only [PTRDIFF_MAX]
        omega
    · exact Or.inl ⟨rfl, .refl ctx⟩
  rcases hcases with ⟨hok, hgrown⟩ | ⟨hno, hstore, hout_eq, hfailed, hsized⟩
  · rw [hok, if_neg (by decide)]
    cases htGet ctx.store (req.arg 1) with
    | some snapshot =>
      exact answered_set hgrown (serializes_bulk snapshot) hout (fun hs => sized_arg hs 1)
        fun hs => sized_arg hs 2
    | none =>
      exact answered_set hgrown serializes_nil hout (fun hs => sized_arg hs 1)
        fun hs => sized_arg hs 2
  · rw [hno, if_pos (by decide)]
    exact answered_oom hstore hout_eq hfailed hsized hout

/-! ### `KEYS` -/

/-- The keys of some entries that a pattern matches. -/
def matching (pattern : Bytes) (l : List HtEntry) : List Bytes :=
  (l.map Sigma.fst).filter fun key => globMatch pattern key

theorem matching_cons (pattern : Bytes) (e : HtEntry) (l : List HtEntry) :
    matching pattern (e :: l) =
      if globMatch pattern e.1 then e.1 :: matching pattern l else matching pattern l := by
  rw [matching, List.map_cons, List.filter_cons]
  rfl

/-- The first pass counts the matches and does nothing else. -/
theorem keys_count_pass (l : List HtEntry) (visited : ℕ) (kc : KeysCtx) (hw : kc.write = false) :
    (scanEntries keysCb l visited kc).2 =
      ⟨kc.out, kc.heap, kc.pattern, kc.matched + (matching kc.pattern l).length, false,
        kc.emitFailed⟩ := by
  induction l generalizing visited kc with
  | nil =>
    obtain ⟨out, heap, pattern, matched, write, emitFailed⟩ := kc
    obtain rfl : write = false := hw
    rfl
  | cons e l ih =>
    rw [scanEntries, keysCb, matching_cons]
    cases hmatch : globMatch kc.pattern e.1 with
    | false => exact ih (visited + 1) kc hw
    | true =>
      simp only [hw, Bool.not_true, Bool.false_eq_true, if_false, if_true]
      rw [ih _ _ rfl, List.length_cons, Nat.add_assoc, Nat.add_comm 1]

/-- The second pass appends the matches, up to the first append that fails. -/
theorem keys_emit_pass (l : List HtEntry) (visited : ℕ) (kc : KeysCtx) (hw : kc.write = true)
    (he : kc.emitFailed = false) (hout : kc.out.Inv) :
    AppendOutcome kc.out ((matching kc.pattern l).flatMap encodeBulk) kc.heap
      (if (scanEntries keysCb l visited kc).2.emitFailed then -1 else 0,
        (scanEntries keysCb l visited kc).2.out, (scanEntries keysCb l visited kc).2.heap) := by
  induction l generalizing visited kc with
  | nil =>
    rw [scanEntries]
    simp only [he, Bool.false_eq_true, if_false]
    exact .done hout (List.append_nil _).symm rfl fun ha => ha
  | cons e l ih =>
    rw [scanEntries, keysCb, matching_cons]
    cases hmatch : globMatch kc.pattern e.1 with
    | false => exact ih (visited + 1) kc hw he hout
    -- a bulk in full and the rest of the pass, or the bulk that does not fit
    | true =>
      have hbulk := respReplyBulk_spec hout e.1 kc.heap
      simp only [hw, he, Bool.not_true, Bool.false_eq_true, if_false, if_true]
      rw [List.flatMap_cons]
      generalize respReplyBulk kc.out e.1 kc.heap = r at hbulk ⊢
      cases hbulk with
      | @done b' h' inv live_eq failed_eq ample =>
        simp only [ne_eq, not_true_eq_false, if_false, if_true]
        exact (ih (visited + 1) ⟨b', h', kc.pattern, kc.matched, true, false⟩ rfl rfl inv).after
          live_eq failed_eq ample
      | short inv is_part live_eq refused ample =>
        have hshort := (AppendOutcome.short inv is_part live_eq refused ample).cut
          ((matching kc.pattern l).flatMap encodeBulk)
        simpa [Reply.encode] using hshort

/-- **`KEYS` is one append**: the array of the matches. -/
theorem cmdKeys_outcome (hout : ctx.out.Inv) :
    ∃ r, cmdKeys ctx req = (r.1, ⟨ctx.store, r.2.1, r.2.2⟩) ∧
      AppendOutcome ctx.out (Reply.array (matchingKeys ctx.store (req.arg 1))).encode ctx.heap r := by
  set pattern := req.arg 1 with hpattern
  set found := matching pattern ctx.store.entries with hfound
  have hcount : (htScan ctx.store keysCb ⟨ctx.out, ctx.heap, pattern, 0, false, false⟩).2 =
      ⟨ctx.out, ctx.heap, pattern, found.length, false, false⟩ := by
    rw [Hashtable.htScan_eq, keys_count_pass _ _ _ rfl, Nat.zero_add]
  -- the second pass starts behind the header, with whatever buffer that leaves
  have hemit : ∀ out h, out.Inv → ∃ kc,
      (htScan ctx.store keysCb ⟨out, h, pattern, found.length, true, false⟩).2 = kc ∧
        AppendOutcome out (found.flatMap encodeBulk) h
          (if kc.emitFailed then -1 else 0, kc.out, kc.heap) := by
    intro out h hinv
    rw [Hashtable.htScan_eq]
    exact ⟨_, rfl, keys_emit_pass ctx.store.entries 0
      ⟨out, h, pattern, found.length, true, false⟩ rfl rfl hinv⟩
  have hheader := respReplyArrayHeader_spec hout found.length ctx.heap
  change ∃ r, cmdKeys ctx req = (r.1, ⟨ctx.store, r.2.1, r.2.2⟩) ∧
    AppendOutcome ctx.out (encodeArrayHeader found.length ++ found.flatMap encodeBulk) ctx.heap r
  rw [cmdKeys, ← hpattern, hcount]
  dsimp only
  generalize respReplyArrayHeader ctx.out found.length ctx.heap = r at hheader ⊢
  cases hheader with
  | @done b' h' inv live_eq failed_eq ample =>
    obtain ⟨kc, hkc, hrest⟩ := hemit b' h' inv
    rw [if_neg (show ¬ (0 : Int) ≠ 0 by decide), hkc]
    exact ⟨_, rfl, hrest.after live_eq failed_eq ample⟩
  | @short b' h' part inv is_part live_eq refused ample =>
    rw [if_pos (show (-1 : Int) ≠ 0 by decide)]
    exact ⟨(-1, b', h'), rfl, (AppendOutcome.short inv is_part live_eq refused ample).cut
      (found.flatMap encodeBulk)⟩

theorem cmdKeys_answered (hout : ctx.out.Inv) :
    Answered ctx req (answer ctx.store req .keys) (cmdKeys ctx req) := by
  obtain ⟨r, heq, houtcome⟩ := @cmdKeys_outcome ctx req hout
  rw [heq]
  exact .served rfl (fun ha => ha) (fun _ hfits => hfits) houtcome

/-- Every handler answers. -/
theorem run_answered (hout : ctx.out.Inv) (c : Cmd) :
    Answered ctx req (answer ctx.store req c) (c.run ctx req) := by
  cases c with
  | ping => exact cmdPing_answered hout
  | get => exact cmdGet_answered hout
  | set => exact cmdSet_answered hout
  | del => exact cmdDel_answered hout
  | «exists» => exact answered_reply (serializes_integer _) hout
  | command => exact cmdCommand_answered hout
  | incr => exact incrbyOp_answered hout 1 1
  | decr => exact incrbyOp_answered hout 1 (-1)
  | incrby => exact cmdIncrby_answered hout
  | decrby => exact cmdDecrby_answered hout
  | strlen => exact cmdStrlen_answered hout
  | append => exact cmdAppend_answered hout
  | keys => exact cmdKeys_answered hout
  | dbsize => exact cmdDbsize_answered hout
  | flushdb => exact cmdFlushdb_answered hout
  | setnx => exact cmdSetnx_answered hout
  | getset => exact cmdGetset_answered hout

/-- **Every request is answered**, whatever the store, the buffer and the
allocator. -/
theorem commandExecute_answered (req : RespRequest) (hout : ctx.out.Inv) :
    Answered ctx req (replyTo ctx.store req) (commandExecute ctx req) := by
  rw [commandExecute, replyTo]
  split
  · exact answered_reply (serializes_error _) hout
  · cases lookupCommand (req.arg 0) with
    | none => exact answered_reply (serializes_error _) hout
    | some e =>
      simp only
      split
      · exact answered_reply (serializes_error _) hout
      · exact run_answered hout e.handler

end Handlers

/-- The same as one append: its text is the reply of the answer, or, after a
failed allocation, the out-of-memory error. -/
theorem commandExecute_outcome {ctx : CommandCtx} (req : RespRequest) (hout : ctx.out.Inv) :
    ∃ r h, AppendOutcome ctx.out r.encode h
        ((commandExecute ctx req).1, (commandExecute ctx req).2.out,
          (commandExecute ctx req).2.heap) ∧
      ((h.failed = ctx.heap.failed ∧
          ((commandExecute ctx req).2.store, r) = replyTo ctx.store req) ∨
        (h.failed = true ∧ (commandExecute ctx req).2.store = ctx.store ∧ r = outOfMemory)) := by
  have hanswered := commandExecute_answered req hout
  generalize commandExecute ctx req = res at hanswered
  cases hanswered with
  | served failed_eq ample fits outcome =>
    exact ⟨_, _, outcome, Or.inl ⟨failed_eq, rfl⟩⟩
  | oom failed notSized outcome => exact ⟨_, _, outcome, Or.inr ⟨failed, rfl, rfl⟩⟩

/-- The buffer stays in order. -/
theorem commandExecute_out {ctx : CommandCtx} (req : RespRequest) (hout : ctx.out.Inv) :
    (commandExecute ctx req).2.out.Inv := by
  obtain ⟨r, h, houtcome, -⟩ := commandExecute_outcome req hout
  exact houtcome.inv

/-- The allocator never forgets a failure. -/
theorem commandExecute_failed_mono {ctx : CommandCtx} (req : RespRequest) (hout : ctx.out.Inv)
    (hf : (commandExecute ctx req).2.heap.failed = false) : ctx.heap.failed = false := by
  obtain ⟨r, h, houtcome, hcase⟩ := commandExecute_outcome req hout
  have hh := houtcome.failed_mono hf
  rcases hcase with ⟨hfailed, -⟩ | ⟨hfailed, -⟩
  · exact hfailed.symm.trans hh
  · exact absurd (hfailed.symm.trans hh) (by decide)

/-- An ample allocator grants all that an ordinary request asks for. -/
theorem commandExecute_ample {ctx : CommandCtx} {req : RespRequest} (hout : ctx.out.Inv)
    (ha : ctx.heap.Ample) (hs : Sized ctx.store req) : (commandExecute ctx req).2.heap.Ample := by
  have hanswered := commandExecute_answered req hout
  generalize commandExecute ctx req = res at hanswered
  cases hanswered with
  | served failed_eq ample fits outcome => exact outcome.ample (ample ha)
  | oom failed notSized outcome => exact absurd hs (notSized ha)

/-- What was appended is a part of one reply, and the store has changed only if
it is the reply of the answer. -/
theorem commandExecute_appended {ctx : CommandCtx} (req : RespRequest) (hout : ctx.out.Inv) :
    ∃ part r, (commandExecute ctx req).2.out.live = ctx.out.live ++ part ∧ part <+: r.encode ∧
      (((commandExecute ctx req).2.store, r) = replyTo ctx.store req ∨
        ((commandExecute ctx req).2.store = ctx.store ∧ r = outOfMemory)) := by
  obtain ⟨r, h, houtcome, hcase⟩ := commandExecute_outcome req hout
  obtain ⟨part, hlive, hpart⟩ := houtcome.appended
  refine ⟨part, r, hlive, hpart, ?_⟩
  rcases hcase with ⟨-, heq⟩ | ⟨-, hkeep⟩
  · exact Or.inl heq
  · exact Or.inr hkeep

/-- **Without a failed allocation** the answer is given; its reply is complete,
or does not fit. -/
theorem commandExecute_reply {ctx : CommandCtx} {req : RespRequest} (hout : ctx.out.Inv)
    (halloc : (commandExecute ctx req).2.heap.failed = false) :
    (commandExecute ctx req).2.store = (replyTo ctx.store req).1 ∧
      (((commandExecute ctx req).1 = 0 ∧
          (commandExecute ctx req).2.out.live = ctx.out.live ++ (replyTo ctx.store req).2.encode ∧
          ctx.out.live.length + (replyTo ctx.store req).2.encode.length ≤ BYTEBUF_MAX) ∨
        ((commandExecute ctx req).1 = -1 ∧
          BYTEBUF_MAX < ctx.out.live.length + (replyTo ctx.store req).2.encode.length)) := by
  obtain ⟨r, h, houtcome, hcase⟩ := commandExecute_outcome req hout
  rcases hcase with ⟨-, heq⟩ | ⟨hfailed, -⟩
  · rw [← heq]
    exact ⟨rfl, houtcome.complete_iff halloc⟩
  · exact absurd (hfailed.symm.trans (houtcome.failed_mono halloc)) (by decide)

/-- With room and memory, the reply is complete. -/
theorem commandExecute_served {ctx : CommandCtx} {req : RespRequest} (hout : ctx.out.Inv)
    (hroom : ctx.out.live.length + (replyTo ctx.store req).2.encode.length ≤ BYTEBUF_MAX)
    (halloc : (commandExecute ctx req).2.heap.failed = false) :
    (commandExecute ctx req).1 = 0 ∧
      (commandExecute ctx req).2.out.live = ctx.out.live ++ (replyTo ctx.store req).2.encode ∧
      (commandExecute ctx req).2.store = (replyTo ctx.store req).1 := by
  obtain ⟨hstore, hreply⟩ := commandExecute_reply hout halloc
  rcases hreply with ⟨hrc, hlive, -⟩ | ⟨-, hmax⟩
  · exact ⟨hrc, hlive, hstore⟩
  · omega

end RedisInC
