import RedisInC.CommandSpec

/-!
# What a request does to the store

An answer leaves the store alone, stores one value, deletes some keys or flushes.
`Effect` lists these cases with all that is known in each; facts about the store
after a request are read off it, command by command only here.

* `Cmd.needs`, `needs_le_argc` — the words a handler reads without looking at
  `argc` are there.
* `replyTo_effect` — every answer is one of the cases.
* `replyTo_inv`, `replyTo_error` — the table stays in order, and an answer that is
  an error leaves the store alone.
-/

namespace RedisInC

open DecimalText

/-- What a request can do to the store, and what it then replies. -/
inductive Effect (ht : Hashtable) (req : RespRequest) : Hashtable × Reply → Prop
  /-- nothing -/
  | kept (r : Reply) : Effect ht req (ht, r)
  /-- a word of the request is stored -/
  | stored {r : Reply} (argc_le : 3 ≤ req.argc) (plain : ∀ msg, r ≠ .error msg) :
      Effect ht req (ht.put (req.arg 1) (req.arg 2), r)
  /-- a counter is stored -/
  | counted {n : ℤ} (lower : INT64_MIN ≤ n) (upper : n ≤ INT64_MAX) :
      Effect ht req (ht.put (req.arg 1) (intText n), .integer n)
  /-- `APPEND` to a key that is there -/
  | appended {old : Bytes} (name : sliceEqCi (req.arg 0) (ascii "APPEND") = true)
      (argc_eq : req.argc = 3) (present : htGet ht (req.arg 1) = some old) :
      Effect ht req (ht.put (req.arg 1) (old ++ req.arg 2),
        .integer (old.length + (req.arg 2).length : ℕ))
  /-- `DEL` -/
  | deleted :
      Effect ht req ((delKeys req.keys 0 ht).2, .integer (delKeys req.keys 0 ht).1)
  /-- `FLUSHDB` -/
  | flushed : Effect ht req (htInit, .simple (ascii "OK"))

/-! ## The table -/

/-- How many words a handler reads without looking at `argc`. -/
def Cmd.needs : Cmd → ℕ
  | .get | .incr | .decr | .strlen | .keys => 2
  | .set | .incrby | .decrby | .append | .setnx | .getset => 3
  | .ping | .del | .exists | .command | .dbsize | .flushdb => 1

/-- **The table protects the handlers**: the words they read are there. -/
theorem needs_le_argc {e : CmdEntry} (he : e ∈ commands) {argc : ℕ}
    (harity : e.badArity argc = false) : e.handler.needs ≤ argc := by
  have hmin : ∀ e ∈ commands, (e.handler.needs : Int) ≤ e.minArgc := by decide
  have hle := hmin e he
  have hargc : ¬ (argc : Int) < e.minArgc := by
    intro hlt
    rw [CmdEntry.badArity, decide_eq_true hlt, Bool.true_or] at harity
    cases harity
  omega

/-- The one entry of the table that appends. -/
theorem append_entry {e : CmdEntry} (he : e ∈ commands) (hhandler : e.handler = .append)
    {argc : ℕ} (harity : e.badArity argc = false) : e.name = ascii "APPEND" ∧ argc = 3 := by
  have hentry : ∀ e ∈ commands, e.handler = .append →
      e.name = ascii "APPEND" ∧ e.minArgc = 3 ∧ e.maxArgc = 3 := by
    decide
  obtain ⟨hname, hmin, hmax⟩ := hentry e he hhandler
  refine ⟨hname, ?_⟩
  rw [CmdEntry.badArity, hmin, hmax] at harity
  simp at harity
  omega

/-! ## Every answer is one of the cases -/

section Answers

variable {ht : Hashtable} {req : RespRequest}

theorem answerIncrby_effect (delta : ℤ) : Effect ht req (answerIncrby ht (req.arg 1) delta) := by
  rw [answerIncrby]
  cases counterValue ht (req.arg 1) with
  | none => exact .kept _
  | some cur =>
    simp only
    split
    · next hrange => exact .counted hrange.1 hrange.2
    · exact .kept _

theorem bulkOrNil_plain (hit : Option Bytes) (msg : Bytes) : bulkOrNil hit ≠ .error msg := by
  cases hit with
  | none => exact nofun
  | some val => exact nofun

/-- What each handler answers with; `APPEND` is the one whose name is needed. -/
theorem answer_effect {c : Cmd} (hargc : c.needs ≤ req.argc)
    (happend : c = .append → sliceEqCi (req.arg 0) (ascii "APPEND") = true ∧ req.argc = 3) :
    Effect ht req (answer ht req c) := by
  cases c with
  | ping => exact .kept _
  | get => exact .kept _
  | set => exact .stored hargc fun _ h => by cases h
  | del => exact .deleted
  | «exists» => exact .kept _
  | command => exact .kept _
  | incr => exact answerIncrby_effect 1
  | decr => exact answerIncrby_effect (-1)
  | incrby =>
    rw [answer]
    cases parseInt64 (req.arg 2) with
    | none => exact .kept _
    | some delta => exact answerIncrby_effect delta
  | decrby =>
    rw [answer]
    cases parseInt64 (req.arg 2) with
    | none => exact .kept _
    | some delta => exact answerIncrby_effect (-delta)
  | strlen => exact .kept _
  | append =>
    rw [answer, answerAppend]
    cases hget : htGet ht (req.arg 1) with
    | none => exact .stored hargc fun _ h => by cases h
    | some old =>
      obtain ⟨hname, hthree⟩ := happend rfl
      simp only
      split
      · exact .kept _
      · exact .appended hname hthree hget
  | keys => exact .kept _
  | dbsize => exact .kept _
  | flushdb => exact .flushed
  | setnx =>
    rw [answer]
    split
    · exact .kept _
    · exact .stored hargc fun _ h => by cases h
  | getset => exact .stored hargc (bulkOrNil_plain _)

/-- **What a request does to the store.** -/
theorem replyTo_effect (ht : Hashtable) (req : RespRequest) : Effect ht req (replyTo ht req) := by
  rw [replyTo]
  split
  · exact .kept _
  · cases hlookup : lookupCommand (req.arg 0) with
    | none => exact .kept _
    | some e =>
      simp only
      split
      · exact .kept _
      · next harity =>
        have he := lookupCommand_mem hlookup
        have harity' := Bool.eq_false_iff.mpr harity
        refine answer_effect (needs_le_argc he harity') fun hhandler => ?_
        obtain ⟨hname, hthree⟩ := append_entry he hhandler harity'
        rw [← hname]
        exact ⟨lookupCommand_name hlookup, hthree⟩

/-- The table stays in order. -/
theorem replyTo_inv (hi : ht.Inv) (req : RespRequest) : (replyTo ht req).1.Inv := by
  have heffect := replyTo_effect ht req
  generalize replyTo ht req = res at heffect ⊢
  cases heffect with
  | kept r => exact hi
  | stored argc_le plain => exact (hi.put _ _).1
  | counted lower upper => exact (hi.put _ _).1
  | appended name argc_eq present => exact (hi.put _ _).1
  | deleted => exact (delKeys_inv hi req.keys 0).1
  | flushed => exact Hashtable.inv_init

/-- An answer that is an error leaves the store as it is. -/
theorem replyTo_error {msg : Bytes} (h : (replyTo ht req).2 = .error msg) :
    (replyTo ht req).1 = ht := by
  have heffect := replyTo_effect ht req
  generalize replyTo ht req = res at h heffect ⊢
  cases heffect with
  | kept r => rfl
  | stored argc_le plain => exact absurd h (plain msg)
  | counted lower upper => cases h
  | appended name argc_eq present => cases h
  | deleted => cases h
  | flushed => cases h

end Answers

end RedisInC
