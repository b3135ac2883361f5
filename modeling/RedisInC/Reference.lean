import Mathlib.Data.List.Count
import RedisInC.Session

/-!
# The reference machine

What the store is for, without buckets, counters and buffers: a finite map from
byte strings to byte strings, and for every request what it does to the map and
which replies it may get.

* `refCommand`, `refStep`, `RefRun` — the machine. Only `KEYS` leaves a choice,
  the order of the keys.
* `answer_refines` — on a table in order, every answer is a step of the machine
  on the map the table denotes.
* `refines_reference` — hence so is every run of requests from the empty store.
-/

namespace RedisInC

open DecimalText

/-- A finite map from byte strings to byte strings. -/
abbrev RefMap : Type := Finmap fun _ : Bytes => Bytes

/-! ## The machine -/

/-- Remove the listed keys in turn, counting those that are present when
reached. -/
def refDel : List Bytes → RefMap → ℕ × RefMap
  | [], m => (0, m)
  | key :: keys, m =>
    let r := refDel keys (m.erase key)
    ((if key ∈ m then 1 else 0) + r.1, r.2)

/-- Add `delta` to the number a key holds, zero when it is absent. `none` for an
unreadable number. -/
def refIncrby (m : RefMap) (key : Bytes) (delta : Option ℤ) : RefMap × Reply :=
  match delta, (m.lookup key).elim (some 0) parseInt64 with
  | some delta, some cur =>
    if INT64_MIN ≤ cur + delta ∧ cur + delta ≤ INT64_MAX then
      (m.insert key (intText (cur + delta)), .integer (cur + delta))
    else (m, wouldOverflow)
  | _, _ => (m, notInteger)

/-- Only this reply. -/
def exactly (r : Reply) : Reply → Prop := fun r' => r' = r

/-- The keys of the map that a pattern matches, each once, in some order. -/
def someOrder (m : RefMap) (pattern : Bytes) : Reply → Prop := fun r =>
  ∃ items : List Bytes, r = .array items ∧ items.Nodup ∧
    ∀ key, key ∈ items ↔ key ∈ m ∧ globMatch pattern key = true

/-- A command of the right arity on the map: the map after it and the replies it
may get. `argv` are all its words, the name included. -/
def refCommand (m : RefMap) (argv : List Bytes) : Cmd → RefMap × (Reply → Prop)
  | .ping =>
    (m, exactly (if argv.length = 1 then .simple (ascii "PONG") else .bulk (argv.getD 1 [])))
  | .get => (m, exactly (bulkOrNil (m.lookup (argv.getD 1 []))))
  | .set => (m.insert (argv.getD 1 []) (argv.getD 2 []), exactly (.simple (ascii "OK")))
  | .del => ((refDel argv.tail m).2, exactly (.integer (refDel argv.tail m).1))
  | .exists => (m, exactly (.integer (argv.tail.countP fun key => key ∈ m)))
  | .command => (m, exactly (.array []))
  | .incr =>
    let r := refIncrby m (argv.getD 1 []) (some 1)
    (r.1, exactly r.2)
  | .decr =>
    let r := refIncrby m (argv.getD 1 []) (some (-1))
    (r.1, exactly r.2)
  | .incrby =>
    let r := refIncrby m (argv.getD 1 []) (parseInt64 (argv.getD 2 []))
    (r.1, exactly r.2)
  | .decrby =>
    let r := refIncrby m (argv.getD 1 []) ((parseInt64 (argv.getD 2 [])).map fun d => -d)
    (r.1, exactly r.2)
  | .strlen => (m, exactly (.integer ((m.lookup (argv.getD 1 [])).getD []).length))
  | .append =>
    let val := (m.lookup (argv.getD 1 [])).getD [] ++ argv.getD 2 []
    (m.insert (argv.getD 1 []) val, exactly (.integer val.length))
  | .keys => (m, someOrder m (argv.getD 1 []))
  | .dbsize => (m, exactly (.integer m.keys.card))
  | .flushdb => (∅, exactly (.simple (ascii "OK")))
  | .setnx =>
    if argv.getD 1 [] ∈ m then (m, exactly (.integer 0))
    else (m.insert (argv.getD 1 []) (argv.getD 2 []), exactly (.integer 1))
  | .getset =>
    (m.insert (argv.getD 1 []) (argv.getD 2 []), exactly (bulkOrNil (m.lookup (argv.getD 1 []))))

/-- A request on the map. Unknown commands and wrong arities get their errors
and leave the map alone. -/
def refStep (m : RefMap) (argv : List Bytes) : RefMap × (Reply → Prop) :=
  match lookupCommand (argv.getD 0 []) with
  | some e =>
    if e.badArity argv.length then (m, exactly (.error (arityMessage e)))
    else refCommand m argv e.handler
  | none => (m, exactly (.error (unknownMessage (argv.getD 0 []))))

/-- A run of the machine: the requests, the replies they get, the map at the
end. -/
inductive RefRun : RefMap → List (List Bytes) → List Reply → RefMap → Prop
  /-- no requests -/
  | done (m : RefMap) : RefRun m [] [] m
  /-- one request and the others -/
  | step {m m' : RefMap} {argv : List Bytes} {argvs : List (List Bytes)} {r : Reply}
      {replies : List Reply} (reply : (refStep m argv).2 r)
      (rest : RefRun (refStep m argv).1 argvs replies m') :
      RefRun m (argv :: argvs) (r :: replies) m'

/-! ## Arguments -/

theorem length_argv (req : RespRequest) : req.argv.length = req.argc := by
  rw [RespRequest.argv, List.length_map, List.length_range]

theorem argv_getD {req : RespRequest} {i : ℕ} (hi : i < req.argc) :
    req.argv.getD i [] = req.arg i := by
  rw [List.getD_eq_getElem?_getD, RespRequest.argv, List.getElem?_map, List.getElem?_range hi]
  rfl

theorem keys_eq_tail (req : RespRequest) : req.keys = req.argv.tail := by
  rw [RespRequest.keys, RespRequest.argv, ← List.map_tail, List.range_eq_range', List.tail_range']

/-! ## Loops -/

theorem countKeys_eq {ht : Hashtable} (hi : ht.Inv) (keys : List Bytes) (found : ℤ) :
    countKeys keys found ht = found + (keys.countP fun key => key ∈ ht.toMap : ℕ) := by
  induction keys generalizing found with
  | nil => simp [countKeys]
  | cons key keys ih =>
    have hmem : (htGet ht key).isSome = true ↔ key ∈ ht.toMap := (hi.mem_toMap key).symm
    rw [countKeys, ih, List.countP_cons]
    by_cases hk : key ∈ ht.toMap
    · rw [if_pos (hmem.mpr hk), if_pos (by simpa using hk)]
      omega
    · rw [if_neg (mt hmem.mp hk), if_neg (by simpa using hk)]
      omega

theorem delKeys_eq {ht : Hashtable} (hi : ht.Inv) (keys : List Bytes) (deleted : ℤ) :
    (delKeys keys deleted ht).1 = deleted + (refDel keys ht.toMap).1 ∧
      (delKeys keys deleted ht).2.toMap = (refDel keys ht.toMap).2 := by
  induction keys generalizing ht deleted with
  | nil => exact ⟨by simp [delKeys, refDel], rfl⟩
  | cons key keys ih =>
    obtain ⟨hinv, hmap, hrc⟩ := hi.htDel key
    obtain ⟨hcount, hstore⟩ := ih hinv (if (htDel ht key).1 ≠ 0 then deleted + 1 else deleted)
    rw [hmap] at hcount hstore
    rw [delKeys, refDel]
    refine ⟨?_, hstore⟩
    simp only
    rw [hcount, hrc]
    by_cases hk : key ∈ ht.toMap
    · simp only [if_pos hk, ne_eq, one_ne_zero, not_false_eq_true, if_true]
      omega
    · simp only [if_neg hk, ne_eq, not_true_eq_false, if_false]
      omega

/-- The scan finds the keys of the map, each once. -/
theorem matchingKeys_spec {ht : Hashtable} (hi : ht.Inv) (pattern : Bytes) :
    (matchingKeys ht pattern).Nodup ∧ ∀ key, key ∈ matchingKeys ht pattern ↔
      key ∈ ht.toMap ∧ globMatch pattern key = true := by
  obtain ⟨hnodup, hentries⟩ := hi.entries_spec
  refine ⟨List.Nodup.filter _ hnodup, fun key => ?_⟩
  rw [matchingKeys, List.mem_filter, hi.mem_toMap, Option.isSome_iff_exists, List.mem_map]
  constructor
  · rintro ⟨⟨e, he, rfl⟩, hmatch⟩
    exact ⟨⟨e.2, (hentries e.1 e.2).mp he⟩, hmatch⟩
  · rintro ⟨⟨val, hval⟩, hmatch⟩
    exact ⟨⟨⟨key, val⟩, (hentries key val).mpr hval, rfl⟩, hmatch⟩

/-! ## Refinement -/

section Refinement

variable {ht : Hashtable}

theorem answerIncrby_refines (hi : ht.Inv) (key : Bytes) (delta : ℤ) :
    (answerIncrby ht key delta).1.toMap = (refIncrby ht.toMap key (some delta)).1 ∧
      (answerIncrby ht key delta).2 = (refIncrby ht.toMap key (some delta)).2 := by
  have hcur : counterValue ht key = (ht.toMap.lookup key).elim (some 0) parseInt64 := by
    rw [counterValue, hi.htGet_eq]
    cases ht.toMap.lookup key with
    | none => rfl
    | some val => rfl
  simp only [answerIncrby, refIncrby, hcur]
  cases (ht.toMap.lookup key).elim (some 0) parseInt64 with
  | none => exact ⟨rfl, rfl⟩
  | some cur =>
    simp only
    split
    · exact ⟨(hi.put _ _).2, rfl⟩
    · exact ⟨rfl, rfl⟩

/-- `APPEND` of objects never meets the size check. -/
theorem answerAppend_refines (hi : ht.Inv) (hfits : ht.Fits) (key : Bytes) {val : Bytes}
    (hval : val.length ≤ PTRDIFF_MAX) :
    (answerAppend ht key val).1.toMap =
        ht.toMap.insert key ((ht.toMap.lookup key).getD [] ++ val) ∧
      (answerAppend ht key val).2 =
        .integer (((ht.toMap.lookup key).getD [] ++ val).length : ℕ) := by
  rw [answerAppend, ← hi.htGet_eq]
  cases hget : htGet ht key with
  | none =>
    rw [Option.getD_none, List.nil_append]
    exact ⟨(hi.put key val).2, rfl⟩
  | some old =>
    have hold := hfits key old hget
    have hsize : ¬ val.length > SIZE_MAX - old.length := by
      simp only [PTRDIFF_MAX] at hval hold
      simp only [SIZE_MAX]
      omega
    simp only [if_neg hsize]
    rw [Option.getD_some, List.length_append]
    exact ⟨(hi.put key _).2, rfl⟩

/-- **Every answer is a step of the machine.** -/
theorem answer_refines (hi : ht.Inv) (hfits : ht.Fits) {req : RespRequest} (c : Cmd)
    (hpos : 1 ≤ req.argc) (hneeds : c.needs ≤ req.argc)
    (hargs : ∀ i < req.argc, (req.arg i).length ≤ PTRDIFF_MAX) :
    (answer ht req c).1.toMap = (refCommand ht.toMap req.argv c).1 ∧
      (refCommand ht.toMap req.argv c).2 (answer ht req c).2 := by
  have harg1 : 2 ≤ req.argc → req.argv.getD 1 [] = req.arg 1 := fun h => argv_getD h
  have harg2 : 3 ≤ req.argc → req.argv.getD 2 [] = req.arg 2 := fun h => argv_getD h
  cases c with
  | ping =>
    refine ⟨rfl, ?_⟩
    rw [answer, refCommand, length_argv]
    by_cases hone : req.argc = 1
    · rw [if_pos hone, if_pos hone]
      rfl
    · rw [if_neg hone, if_neg hone, harg1 (by omega)]
      rfl
  | get =>
    rw [answer, refCommand, harg1 hneeds, hi.htGet_eq]
    exact ⟨rfl, rfl⟩
  | set =>
    rw [answer, refCommand, harg1 (Nat.le_of_succ_le hneeds), harg2 hneeds]
    exact ⟨(hi.put _ _).2, rfl⟩
  | del =>
    obtain ⟨hcount, hstore⟩ := delKeys_eq hi req.keys 0
    rw [answer, refCommand, ← keys_eq_tail]
    exact ⟨hstore, by rw [hcount, zero_add]; rfl⟩
  | «exists» =>
    rw [answer, refCommand, ← keys_eq_tail, countKeys_eq hi, zero_add]
    exact ⟨rfl, rfl⟩
  | command =>
    rw [answer, refCommand]
    exact ⟨rfl, rfl⟩
  | incr =>
    rw [answer, refCommand, harg1 hneeds]
    exact answerIncrby_refines hi _ _
  | decr =>
    rw [answer, refCommand, harg1 hneeds]
    exact answerIncrby_refines hi _ _
  | incrby =>
    rw [answer, refCommand, harg1 (Nat.le_of_succ_le hneeds), harg2 hneeds]
    cases parseInt64 (req.arg 2) with
    | none => exact ⟨rfl, rfl⟩
    | some delta => exact answerIncrby_refines hi _ _
  | decrby =>
    rw [answer, refCommand, harg1 (Nat.le_of_succ_le hneeds), harg2 hneeds]
    cases parseInt64 (req.arg 2) with
    | none => exact ⟨rfl, rfl⟩
    | some delta => exact answerIncrby_refines hi _ _
  | strlen =>
    rw [answer, refCommand, harg1 hneeds, hi.htGet_eq]
    exact ⟨rfl, rfl⟩
  | append =>
    rw [answer, refCommand, harg1 (Nat.le_of_succ_le hneeds), harg2 hneeds]
    exact answerAppend_refines hi hfits _ (hargs 2 hneeds)
  | keys =>
    rw [answer, refCommand, harg1 hneeds]
    obtain ⟨hnodup, hmem⟩ := matchingKeys_spec hi (req.arg 1)
    exact ⟨rfl, _, rfl, hnodup, hmem⟩
  | dbsize =>
    rw [answer, refCommand, hi.count_eq_card]
    exact ⟨rfl, rfl⟩
  | flushdb => exact ⟨Hashtable.toMap_init, rfl⟩
  | setnx =>
    rw [answer, refCommand, harg1 (Nat.le_of_succ_le hneeds), harg2 hneeds]
    have hmem := hi.mem_toMap (req.arg 1)
    by_cases hk : req.arg 1 ∈ ht.toMap
    · rw [if_pos (hmem.mp hk), if_pos hk]
      exact ⟨rfl, rfl⟩
    · rw [if_neg (mt hmem.mpr hk), if_neg hk]
      exact ⟨(hi.put _ _).2, rfl⟩
  | getset =>
    rw [answer, refCommand, harg1 (Nat.le_of_succ_le hneeds), harg2 hneeds, hi.htGet_eq]
    exact ⟨(hi.put _ _).2, rfl⟩

/-- The same for requests. -/
theorem replyTo_refines (hi : ht.Inv) (hfits : ht.Fits) (c : Call) :
    (replyTo ht c.req).1.toMap = (refStep ht.toMap c.req.argv).1 ∧
      (refStep ht.toMap c.req.argv).2 (replyTo ht c.req).2 := by
  have hpos := c.argc_pos
  rw [replyTo, refStep, if_neg (by omega), argv_getD (by omega), length_argv]
  cases hlookup : lookupCommand (c.req.arg 0) with
  | none => exact ⟨rfl, rfl⟩
  | some e =>
    simp only
    have he := lookupCommand_mem hlookup
    cases harity : e.badArity c.req.argc with
    | true => exact ⟨rfl, rfl⟩
    | false => exact answer_refines hi hfits e.handler hpos (needs_le_argc he harity) c.arg_le

end Refinement

/-- **A run from any store** that is in order and holds objects, by induction on
the requests: what is left after the first one is such a store again. -/
theorem Session.refines_run {s : Session} (calls : List Call) (hi : s.store.Inv)
    (hfits : s.store.Fits) (hroom : s.Room calls) (halloc : (s.run calls).heap.failed = false) :
    ∃ replies, s.Serves calls replies ∧
      RefRun s.store.toMap (calls.map fun c => c.req.argv) replies (s.run calls).store.toMap := by
  induction calls generalizing s with
  | nil => exact ⟨[], trivial, .done _⟩
  | cons c calls ih =>
    obtain ⟨hroom, hrooms⟩ := hroom
    obtain ⟨hrc, hlive, hstore⟩ := Session.next_served hroom (Session.run_failed_mono calls halloc)
    obtain ⟨hmap, hreply⟩ := replyTo_refines hi hfits c
    have hi' : (s.next c).store.Inv := by
      rw [hstore]
      exact replyTo_inv hi c.req
    have hfits' : (s.next c).store.Fits := commandExecute_fits c.req c.out_inv hi hfits
    obtain ⟨replies, hserves, hrest⟩ := ih hi' hfits' hrooms halloc
    refine ⟨_ :: replies, ⟨hrc, hlive, hserves⟩, .step hreply ?_⟩
    rw [← hmap, ← hstore]
    exact hrest

/-- **The server refines the reference machine.** A run of requests from the
empty store, with room for the replies and no failed allocation: the requests
are served with replies the machine gives them, and the store denotes the map
the machine ends with. -/
theorem refines_reference (h : Heap) (calls : List Call) (hroom : Session.Room ⟨htInit, h⟩ calls)
    (halloc : (Session.run ⟨htInit, h⟩ calls).heap.failed = false) :
    ∃ replies, Session.Serves ⟨htInit, h⟩ calls replies ∧
      RefRun ∅ (calls.map fun c => c.req.argv) replies
        (Session.run ⟨htInit, h⟩ calls).store.toMap := by
  rw [← Hashtable.toMap_init]
  exact Session.refines_run calls Hashtable.inv_init Hashtable.fits_init hroom halloc

/-- `SET k v` into an empty buffer. -/
def setCall : Call :=
  ⟨requestOf [ascii "SET", ascii "k", ascii "v"], bytebufInit, Bytebuf.inv_init, by decide,
    by decide, by decide⟩

/-- `get k` into an empty buffer. -/
def getCall : Call :=
  ⟨requestOf [ascii "get", ascii "k"], bytebufInit, Bytebuf.inv_init, by decide, by decide,
    by decide⟩

theorem refines_reference_set_get :
    ∃ replies, Session.Serves ⟨htInit, Heap.ample⟩ [setCall, getCall] replies ∧
      RefRun ∅ ([setCall, getCall].map fun c => c.req.argv) replies
        (Session.run ⟨htInit, Heap.ample⟩ [setCall, getCall]).store.toMap :=
  refines_reference Heap.ample [setCall, getCall] ⟨by decide, by decide, trivial⟩ (by decide)

end RedisInC
