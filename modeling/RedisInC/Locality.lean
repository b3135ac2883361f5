import RedisInC.CommandEffect

/-!
# The keys a request works on

* `RespRequest.dispatched` — the handler a request gets to, if it gets to one.
* `Cmd.keysIn` — the keys a handler works on; `Cmd.writes` — whether it may store
  or delete them.
* `Spares`, `replyTo_spares` — a request that does not write a key, and is no
  `FLUSHDB`, leaves the key as it is.
* `Keyed`, `replyTo_agree` — every command but `KEYS`, `DBSIZE` and `FLUSHDB` looks
  at its own keys only: its reply and what it stores are the same for all stores
  that agree on them, whatever their chains look like.
-/

namespace RedisInC

open DecimalText

/-- The handler a request is dispatched to: its command is known and its arity is
right. -/
def RespRequest.dispatched (req : RespRequest) : Option Cmd :=
  if req.argc = 0 then none
  else
    match lookupCommand (req.arg 0) with
    | some e => if e.badArity req.argc then none else some e.handler
    | none => none

/-- The error of a request that is not dispatched. -/
def undispatched (req : RespRequest) : Reply :=
  if req.argc = 0 then .error (ascii "ERR empty command")
  else
    match lookupCommand (req.arg 0) with
    | some e => .error (arityMessage e)
    | none => .error (unknownMessage (req.arg 0))

namespace Cmd

/-- The keys a handler works on. -/
def keysIn (c : Cmd) (req : RespRequest) : List Bytes :=
  match c with
  | .ping | .command | .keys | .dbsize | .flushdb => []
  | .del | .exists => req.keys
  | .get | .set | .incr | .decr | .incrby | .decrby | .strlen | .append | .setnx | .getset =>
    [req.arg 1]

/-- The handlers that may store or delete the keys they work on. -/
def writes : Cmd → Bool
  | .set | .del | .incr | .decr | .incrby | .decrby | .append | .setnx | .getset => true
  | .ping | .get | .exists | .command | .strlen | .keys | .dbsize | .flushdb => false

end Cmd

/-- A request that does not touch the value of a key: it neither names the key in
a writing command nor flushes the store. -/
def Spares (req : RespRequest) (key : Bytes) : Prop :=
  ∀ c, req.dispatched = some c → c ≠ .flushdb ∧ (c.writes = true → key ∉ c.keysIn req)

/-- A request that works on keys of its own only, if on any. -/
def Keyed (req : RespRequest) : Prop :=
  ∀ c, req.dispatched = some c → c ≠ .keys ∧ c ≠ .dbsize ∧ c ≠ .flushdb

/-- The keys a request works on. -/
def RespRequest.footprint (req : RespRequest) : List Bytes :=
  (req.dispatched.map fun c => c.keysIn req).getD []

/-- A request is answered by the handler it is dispatched to. -/
theorem replyTo_dispatched (ht : Hashtable) (req : RespRequest) :
    replyTo ht req =
      match req.dispatched with
      | some c => answer ht req c
      | none => (ht, undispatched req) := by
  rw [replyTo, RespRequest.dispatched, undispatched]
  by_cases hargc : req.argc = 0
  · rw [if_pos hargc, if_pos hargc, if_pos hargc]
  · rw [if_neg hargc, if_neg hargc, if_neg hargc]
    cases lookupCommand (req.arg 0) with
    | none => rfl
    | some e =>
      simp only
      by_cases harity : e.badArity req.argc = true
      · rw [if_pos harity, if_pos harity]
      · rw [if_neg harity, if_neg harity]

/-- A handler that is reached finds the words it reads. -/
theorem dispatched_needs {req : RespRequest} {c : Cmd} (h : req.dispatched = some c) :
    c.needs ≤ req.argc := by
  rw [RespRequest.dispatched] at h
  split at h
  · cases h
  · cases hlookup : lookupCommand (req.arg 0) with
    | none =>
      rw [hlookup] at h
      cases h
    | some e =>
      rw [hlookup] at h
      simp only at h
      split at h
      · cases h
      · next harity =>
        obtain rfl := Option.some.inj h
        exact needs_le_argc (lookupCommand_mem hlookup) (Bool.eq_false_iff.mpr harity)

/-! ## Keys that are not written -/

section Frame

variable {ht : Hashtable} {req : RespRequest} {key : Bytes}

theorem htGet_delKeys (hi : ht.Inv) (keys : List Bytes) (deleted : ℤ) (key : Bytes) :
    htGet (delKeys keys deleted ht).2 key = if key ∈ keys then none else htGet ht key := by
  induction keys generalizing ht deleted with
  | nil => simp [delKeys]
  | cons k keys ih =>
    rw [delKeys, ih (hi.htDel k).1, hi.htGet_del]
    by_cases hk : key = k
    · simp [hk]
    · simp [hk]

theorem answerIncrby_frame (hi : ht.Inv) {k : Bytes} (hk : key ≠ k) (delta : ℤ) :
    htGet (answerIncrby ht k delta).1 key = htGet ht key := by
  rw [answerIncrby]
  cases counterValue ht k with
  | none => rfl
  | some cur =>
    simp only
    split
    · rw [hi.htGet_put, if_neg hk]
    · rfl

theorem answer_frame (hi : ht.Inv) {c : Cmd} (hflush : c ≠ .flushdb)
    (hkey : c.writes = true → key ∉ c.keysIn req) :
    htGet (answer ht req c).1 key = htGet ht key := by
  have hput : ∀ val, c.keysIn req = [req.arg 1] → c.writes = true →
      htGet (ht.put (req.arg 1) val) key = htGet ht key := by
    intro val hkeys hwrites
    have hne := hkey hwrites
    rw [hkeys, List.mem_singleton] at hne
    rw [hi.htGet_put, if_neg hne]
  have hincr : ∀ delta, c.keysIn req = [req.arg 1] → c.writes = true →
      htGet (answerIncrby ht (req.arg 1) delta).1 key = htGet ht key := by
    intro delta hkeys hwrites
    have hne := hkey hwrites
    rw [hkeys, List.mem_singleton] at hne
    exact answerIncrby_frame hi hne delta
  cases c with
  | ping => rfl
  | get => rfl
  | set => exact hput _ rfl rfl
  | del =>
    have hne : key ∉ req.keys := hkey rfl
    rw [answer, htGet_delKeys hi, if_neg hne]
  | «exists» => rfl
  | command => rfl
  | incr => exact hincr 1 rfl rfl
  | decr => exact hincr (-1) rfl rfl
  | incrby =>
    rw [answer]
    cases parseInt64 (req.arg 2) with
    | none => rfl
    | some delta => exact hincr delta rfl rfl
  | decrby =>
    rw [answer]
    cases parseInt64 (req.arg 2) with
    | none => rfl
    | some delta => exact hincr (-delta) rfl rfl
  | strlen => rfl
  | append =>
    rw [answer, answerAppend]
    cases htGet ht (req.arg 1) with
    | none => exact hput _ rfl rfl
    | some old =>
      simp only
      split
      · rfl
      · exact hput _ rfl rfl
  | keys => rfl
  | dbsize => rfl
  | flushdb => exact absurd rfl hflush
  | setnx =>
    rw [answer]
    split
    · rfl
    · exact hput _ rfl rfl
  | getset => exact hput _ rfl rfl

/-- **A spared key** keeps its value. -/
theorem replyTo_spares (hi : ht.Inv) (hs : Spares req key) :
    htGet (replyTo ht req).1 key = htGet ht key := by
  rw [replyTo_dispatched]
  cases hd : req.dispatched with
  | none => rfl
  | some c =>
    obtain ⟨hflush, hkey⟩ := hs c hd
    exact answer_frame hi hflush hkey

/-- A keyed request spares all keys but its own. -/
theorem Keyed.spares (hk : Keyed req) (hkey : key ∉ req.footprint) : Spares req key := by
  intro c hd
  rw [RespRequest.footprint, hd] at hkey
  exact ⟨(hk c hd).2.2, fun _ => hkey⟩

end Frame

/-! ## Stores that agree on the keys of a request -/

section Agree

variable {ht ht' : Hashtable} {req : RespRequest}

theorem countKeys_agree {keys : List Bytes} (h : ∀ k ∈ keys, htGet ht k = htGet ht' k)
    (found : ℤ) : countKeys keys found ht = countKeys keys found ht' := by
  induction keys generalizing found with
  | nil => rfl
  | cons k keys ih =>
    rw [List.forall_mem_cons] at h
    rw [countKeys, countKeys, h.1, ih h.2]

/-- Whether a key is deleted depends on whether it is there. -/
theorem htDel_agree (hi : ht.Inv) (hi' : ht'.Inv) {k : Bytes} (h : htGet ht k = htGet ht' k) :
    (htDel ht k).1 = (htDel ht' k).1 := by
  have hmem : k ∈ ht.toMap ↔ k ∈ ht'.toMap := by
    rw [hi.mem_toMap, hi'.mem_toMap, h]
  rw [(hi.htDel k).2.2, (hi'.htDel k).2.2]
  simp only [hmem]

theorem delKeys_agree (hi : ht.Inv) (hi' : ht'.Inv) {keys : List Bytes}
    (h : ∀ k ∈ keys, htGet ht k = htGet ht' k) (deleted : ℤ) :
    (delKeys keys deleted ht).1 = (delKeys keys deleted ht').1 := by
  induction keys generalizing ht ht' deleted with
  | nil => rfl
  | cons k keys ih =>
    rw [List.forall_mem_cons] at h
    rw [delKeys, delKeys, htDel_agree hi hi' h.1]
    refine ih (hi.htDel k).1 (hi'.htDel k).1 (fun k' hk' => ?_) _
    rw [hi.htGet_del, hi'.htGet_del, h.2 k' hk']

theorem counterValue_agree {k : Bytes} (h : htGet ht k = htGet ht' k) :
    counterValue ht k = counterValue ht' k := by
  rw [counterValue, counterValue, h]

/-- Storing at a key of both. -/
theorem htGet_put_agree (hi : ht.Inv) (hi' : ht'.Inv) {k : Bytes} (val : Bytes) :
    htGet (ht.put k val) k = htGet (ht'.put k val) k := by
  rw [hi.htGet_put, hi'.htGet_put, if_pos rfl, if_pos rfl]

theorem answerIncrby_agree (hi : ht.Inv) (hi' : ht'.Inv) {k : Bytes}
    (h : htGet ht k = htGet ht' k) (delta : ℤ) :
    (answerIncrby ht k delta).2 = (answerIncrby ht' k delta).2 ∧
      htGet (answerIncrby ht k delta).1 k = htGet (answerIncrby ht' k delta).1 k := by
  rw [answerIncrby, answerIncrby, counterValue_agree h]
  cases counterValue ht' k with
  | none => exact ⟨rfl, h⟩
  | some cur =>
    simp only
    split
    · exact ⟨rfl, htGet_put_agree hi hi' _⟩
    · exact ⟨rfl, h⟩

theorem answerAppend_agree (hi : ht.Inv) (hi' : ht'.Inv) {k : Bytes}
    (h : htGet ht k = htGet ht' k) (val : Bytes) :
    (answerAppend ht k val).2 = (answerAppend ht' k val).2 ∧
      htGet (answerAppend ht k val).1 k = htGet (answerAppend ht' k val).1 k := by
  rw [answerAppend, answerAppend, h]
  cases hget : htGet ht' k with
  | none => exact ⟨rfl, htGet_put_agree hi hi' _⟩
  | some old =>
    simp only
    split
    · exact ⟨rfl, h⟩
    · exact ⟨rfl, htGet_put_agree hi hi' _⟩

/-- **A handler sees its keys only.** -/
theorem answer_agree (hi : ht.Inv) (hi' : ht'.Inv) {c : Cmd}
    (hkeyed : c ≠ .keys ∧ c ≠ .dbsize ∧ c ≠ .flushdb)
    (h : ∀ k ∈ c.keysIn req, htGet ht k = htGet ht' k) :
    (answer ht req c).2 = (answer ht' req c).2 ∧
      ∀ k ∈ c.keysIn req, htGet (answer ht req c).1 k = htGet (answer ht' req c).1 k := by
  have hone : ∀ {r r' : Hashtable × Reply},
      r.2 = r'.2 ∧ htGet r.1 (req.arg 1) = htGet r'.1 (req.arg 1) →
        r.2 = r'.2 ∧ ∀ k ∈ [req.arg 1], htGet r.1 k = htGet r'.1 k := by
    intro r r' hr
    refine ⟨hr.1, fun k hk => ?_⟩
    obtain rfl := List.mem_singleton.mp hk
    exact hr.2
  cases c with
  | ping => exact ⟨rfl, h⟩
  | get =>
    rw [answer, answer, h _ (List.mem_singleton_self _)]
    exact ⟨rfl, h⟩
  | set => exact hone ⟨rfl, htGet_put_agree hi hi' _⟩
  | del =>
    have hkeys : ∀ k ∈ req.keys, htGet ht k = htGet ht' k := h
    rw [answer, answer, delKeys_agree hi hi' hkeys]
    refine ⟨rfl, fun k hk => ?_⟩
    rw [htGet_delKeys hi, htGet_delKeys hi', hkeys k hk]
  | «exists» =>
    have hkeys : ∀ k ∈ req.keys, htGet ht k = htGet ht' k := h
    rw [answer, answer, countKeys_agree hkeys]
    exact ⟨rfl, h⟩
  | command => exact ⟨rfl, h⟩
  | incr => exact hone (answerIncrby_agree hi hi' (h _ (List.mem_singleton_self _)) 1)
  | decr => exact hone (answerIncrby_agree hi hi' (h _ (List.mem_singleton_self _)) (-1))
  | incrby =>
    rw [answer, answer]
    cases parseInt64 (req.arg 2) with
    | none => exact ⟨rfl, h⟩
    | some delta =>
      exact hone (answerIncrby_agree hi hi' (h _ (List.mem_singleton_self _)) delta)
  | decrby =>
    rw [answer, answer]
    cases parseInt64 (req.arg 2) with
    | none => exact ⟨rfl, h⟩
    | some delta =>
      exact hone (answerIncrby_agree hi hi' (h _ (List.mem_singleton_self _)) (-delta))
  | strlen =>
    rw [answer, answer, h _ (List.mem_singleton_self _)]
    exact ⟨rfl, h⟩
  | append => exact hone (answerAppend_agree hi hi' (h _ (List.mem_singleton_self _)) _)
  | keys => exact absurd rfl hkeyed.1
  | dbsize => exact absurd rfl hkeyed.2.1
  | flushdb => exact absurd rfl hkeyed.2.2
  | setnx =>
    rw [answer, answer, h _ (List.mem_singleton_self _)]
    split
    · exact ⟨rfl, h⟩
    · exact hone ⟨rfl, htGet_put_agree hi hi' _⟩
  | getset =>
    rw [answer, answer, h _ (List.mem_singleton_self _)]
    exact hone ⟨rfl, htGet_put_agree hi hi' _⟩

/-- **A keyed request sees its keys only**: stores that agree on them give the same
reply and agree on them afterwards. -/
theorem replyTo_agree (hi : ht.Inv) (hi' : ht'.Inv) (hkeyed : Keyed req)
    (h : ∀ k ∈ req.footprint, htGet ht k = htGet ht' k) :
    (replyTo ht req).2 = (replyTo ht' req).2 ∧
      ∀ k ∈ req.footprint, htGet (replyTo ht req).1 k = htGet (replyTo ht' req).1 k := by
  rw [replyTo_dispatched, replyTo_dispatched]
  rw [RespRequest.footprint] at h ⊢
  cases hd : req.dispatched with
  | none => exact ⟨rfl, fun k hk => absurd hk (by simp)⟩
  | some c =>
    rw [hd] at h
    exact answer_agree hi hi' (hkeyed c hd) h

end Agree

end RedisInC
