import Mathlib.Data.List.Find
import RedisInC.Bounded
import RedisInC.Locality
import RedisInC.Reference

/-!
# Handlers find their arguments

Behind the last argument the slots of a request hold whatever was on the stack. The
dispatcher and the handlers are stated here a second time, on the list of exactly the
arguments there are, so that a slot beyond them cannot be read.

* `checkedSliceEqCi` — the comparison with a C string, up to its NUL.
* `argvPing` … `argvGetset` — the handlers on the list, with their reads in the order
  of the source; `none` where an argument that is not there is read.
* `argvExecute` — the dispatcher, over any table, with the handler that it calls.
* `dispatch_safe` — no handler reads beyond the arguments; and a handler is called
  exactly for its name and its arity, in whichever order the table is.
-/

namespace RedisInC

open Bounded DecimalText

/-! ## The code, on the arguments there are -/

/-- `slice_eq_ci`, with the name as an array; `none` where it is read behind its end. -/
def checkedSliceEqCi : Bytes → Bytes → Option Bool
  | _, [] => none
  | s, u :: upper =>
    if u = 0 then some (s.length = 0)
    else
      match s with
      | [] => some false
      | c :: s =>
        let c := if c ≥ 97 ∧ c ≤ 122 then c - 97 + 65 else c
        if c ≠ u then some false else checkedSliceEqCi s upper

/-- `(int)n` -/
def intOf (n : ℕ) : Option ℤ := if n ≤ INT_MAX then some n else none

section Handlers

variable (ctx : CommandCtx) (argv : List Bytes)

def argvPing : Option (Int × CommandCtx) :=
  if argv.length = 1 then some (ctx.replySimpleString (ascii "PONG"))
  else (argv[1]?).map fun message => ctx.replyBulk message

def argvGet : Option (Int × CommandCtx) :=
  (argv[1]?).map fun key =>
    match htGet ctx.store key with
    | some val => ctx.replyBulk val
    | none => ctx.replyNil

def argvSet : Option (Int × CommandCtx) :=
  (argv[1]?).bind fun key =>
    (argv[2]?).map fun val =>
      let r := ctx.htSet key val
      if r.1 ≠ 0 then r.2.replyError (ascii "ERR out of memory")
      else r.2.replySimpleString (ascii "OK")

/-- The body of the loop of `cmd_del`. -/
def delKey (key : Bytes) (s : ℤ × Hashtable) : ℤ × Hashtable :=
  let r := htDel s.2 key
  (if r.1 ≠ 0 then s.1 + 1 else s.1, r.2)

def argvDel : Option (Int × CommandCtx) :=
  (each delKey argv argv.length argv.length 1 (0, ctx.store)).map fun r =>
    CommandCtx.replyInteger ⟨r.2, ctx.out, ctx.heap⟩ r.1

/-- The body of the loop of `cmd_exists`. -/
def countKey (store : Hashtable) (key : Bytes) (found : ℤ) : ℤ :=
  if (htGet store key).isSome then found + 1 else found

def argvExists : Option (Int × CommandCtx) :=
  (each (countKey ctx.store) argv argv.length argv.length 1 0).map ctx.replyInteger

def argvCommand : Option (Int × CommandCtx) :=
  some (ctx.reply fun out h => respReplyArrayHeader out 0 h)

def argvIncr : Option (Int × CommandCtx) := (argv[1]?).map fun key => incrbyOp ctx key 1

def argvDecr : Option (Int × CommandCtx) := (argv[1]?).map fun key => incrbyOp ctx key (-1)

def argvIncrby : Option (Int × CommandCtx) :=
  (argv[2]?).bind fun number =>
    match parseInt64 number with
    | none => some (ctx.replyError (ascii "ERR value is not an integer or out of range"))
    | some delta => (argv[1]?).map fun key => incrbyOp ctx key delta

def argvDecrby : Option (Int × CommandCtx) :=
  (argv[2]?).bind fun number =>
    match parseInt64 number with
    | none => some (ctx.replyError (ascii "ERR value is not an integer or out of range"))
    | some delta =>
      if delta = INT64_MIN then
        some (ctx.replyError (ascii "ERR increment or decrement would overflow"))
      else (argv[1]?).map fun key => incrbyOp ctx key (-delta)

def argvStrlen : Option (Int × CommandCtx) :=
  (argv[1]?).map fun key =>
    match htGet ctx.store key with
    | some val => ctx.replyInteger val.length
    | none => ctx.replyInteger 0

def argvAppend : Option (Int × CommandCtx) :=
  (argv[1]?).bind fun key =>
    (argv[2]?).map fun val =>
      match htGet ctx.store key with
      | none =>
        let r := ctx.htSet key val
        if r.1 ≠ 0 then r.2.replyError (ascii "ERR out of memory")
        else r.2.replyInteger val.length
      | some old =>
        if val.length > SIZE_MAX - old.length then
          ctx.replyError (ascii "ERR string exceeds maximum allowed size")
        else
          let newlen := old.length + val.length
          let m := ctx.malloc (if newlen = 0 then 1 else newlen)
          if m.1 then
            let r := m.2.htSet key (old ++ val)
            if r.1 ≠ 0 then r.2.replyError (ascii "ERR out of memory")
            else r.2.replyInteger newlen
          else m.2.replyError (ascii "ERR out of memory")

def argvKeys : Option (Int × CommandCtx) :=
  (argv[1]?).map fun pattern =>
    let kc := (htScan ctx.store keysCb ⟨ctx.out, ctx.heap, pattern, 0, false, false⟩).2
    let r := respReplyArrayHeader kc.out kc.matched kc.heap
    if r.1 ≠ 0 then (-1, ⟨ctx.store, r.2.1, r.2.2⟩)
    else
      let kc := (htScan ctx.store keysCb
        ⟨r.2.1, r.2.2, kc.pattern, kc.matched, true, kc.emitFailed⟩).2
      (if kc.emitFailed then -1 else 0, ⟨ctx.store, kc.out, kc.heap⟩)

def argvDbsize : Option (Int × CommandCtx) := some (ctx.replyInteger ctx.store.count)

def argvFlushdb : Option (Int × CommandCtx) :=
  some (CommandCtx.replySimpleString ⟨htInit, ctx.out, ctx.heap⟩ (ascii "OK"))

/-- The value is not looked at if the key is present. -/
def argvSetnx : Option (Int × CommandCtx) :=
  (argv[1]?).bind fun key =>
    if (htGet ctx.store key).isSome then some (ctx.replyInteger 0)
    else
      (argv[2]?).map fun val =>
        let r := ctx.htSet key val
        if r.1 ≠ 0 then r.2.replyError (ascii "ERR out of memory") else r.2.replyInteger 1

/-- The value is not looked at if there is no room for a snapshot. -/
def argvGetset : Option (Int × CommandCtx) :=
  (argv[1]?).bind fun key =>
    let hit := htGet ctx.store key
    let olen := (hit.getD []).length
    let m := if hit.isSome ∧ olen > 0 then ctx.malloc olen else (true, ctx)
    if !m.1 then some (m.2.replyError (ascii "ERR out of memory"))
    else
      (argv[2]?).map fun val =>
        let r := m.2.htSet key val
        if r.1 ≠ 0 then r.2.replyError (ascii "ERR out of memory")
        else
          match hit with
          | some snapshot => r.2.replyBulk snapshot
          | none => r.2.replyNil

/-- Call a handler. -/
def Cmd.argvRun : Cmd → Option (Int × CommandCtx)
  | .ping => argvPing ctx argv
  | .get => argvGet ctx argv
  | .set => argvSet ctx argv
  | .del => argvDel ctx argv
  | .exists => argvExists ctx argv
  | .command => argvCommand ctx
  | .incr => argvIncr ctx argv
  | .decr => argvDecr ctx argv
  | .incrby => argvIncrby ctx argv
  | .decrby => argvDecrby ctx argv
  | .strlen => argvStrlen ctx argv
  | .append => argvAppend ctx argv
  | .keys => argvKeys ctx argv
  | .dbsize => argvDbsize ctx
  | .flushdb => argvFlushdb ctx
  | .setnx => argvSetnx ctx argv
  | .getset => argvGetset ctx argv

/-- The loop of `command_execute` over the table, with the handler it calls. -/
def argvDispatch : List CmdEntry → Option (Option Cmd × Int × CommandCtx)
  | [] => (argv[0]?).map fun name => (none, ctx.replyError (unknownMessage name))
  | e :: table =>
    (argv[0]?).bind fun name =>
      (checkedSliceEqCi name (e.name ++ [0])).bind fun same =>
        if !same then argvDispatch table
        else
          (intOf argv.length).bind fun argc =>
            if argc < e.minArgc ∨ (e.maxArgc ≠ -1 ∧ argc > e.maxArgc) then
              some (none, ctx.replyError (arityMessage e))
            else (e.handler.argvRun ctx argv).map fun r => (some e.handler, r)

/-- `command_execute`, over any table. -/
def argvExecute (table : List CmdEntry) : Option (Option Cmd × Int × CommandCtx) :=
  if argv.length = 0 then some (none, ctx.replyError (ascii "ERR empty command"))
  else argvDispatch ctx argv table

end Handlers

/-! ## The arguments are there -/

theorem argv_get {req : RespRequest} {i : ℕ} (hi : i < req.argc) :
    req.argv[i]? = some (req.arg i) := by
  rw [RespRequest.argv, List.getElem?_map, List.getElem?_range hi]
  rfl

theorem delKeys_eq_foldl (keys : List Bytes) (deleted : ℤ) (store : Hashtable) :
    delKeys keys deleted store = keys.foldl (fun s key => delKey key s) (deleted, store) := by
  induction keys generalizing deleted store with
  | nil => rfl
  | cons key keys ih => exact ih _ _

theorem countKeys_eq_foldl (keys : List Bytes) (found : ℤ) (store : Hashtable) :
    countKeys keys found store = keys.foldl (fun found key => countKey store key found) found := by
  induction keys generalizing found with
  | nil => rfl
  | cons key keys ih => exact ih _

/-- A loop over the arguments from the second one on. -/
theorem each_argv {σ : Type} (body : Bytes → σ → σ) {req : RespRequest} (hargc : 1 ≤ req.argc)
    (s : σ) : each body req.argv req.argv.length req.argv.length 1 s =
      some (req.keys.foldl (fun s key => body key s) s) := by
  rw [each_eq (by rw [length_argv]; exact hargc) (Nat.lt_one_add_iff.mpr (Nat.le_refl _)),
    keys_eq_tail, List.drop_one]

/-- **A handler reads only the arguments that it needs.** -/
theorem argvRun_eq {c : Cmd} {req : RespRequest} (hpos : 1 ≤ req.argc) (hneeds : c.needs ≤ req.argc)
    (ctx : CommandCtx) : c.argvRun ctx req.argv = some (c.run ctx req) := by
  cases c with
  | ping =>
    rw [Cmd.argvRun, argvPing, Cmd.run, cmdPing, length_argv]
    by_cases hone : req.argc = 1
    · rw [if_pos hone, if_pos hone]
    · rw [if_neg hone, if_neg hone, argv_get (by omega), Option.map_some]
  | command | dbsize | flushdb => rfl
  | del =>
    rw [Cmd.argvRun, argvDel, each_argv delKey hpos, ← delKeys_eq_foldl]
    rfl
  | «exists» =>
    rw [Cmd.argvRun, argvExists, each_argv (countKey ctx.store) hpos, ← countKeys_eq_foldl]
    rfl
  | get | incr | decr | strlen | keys =>
    have h1 : req.argv[1]? = some (req.arg 1) := argv_get hneeds
    simp only [Cmd.argvRun, argvGet, argvIncr, argvDecr, argvStrlen, argvKeys, h1, Option.map_some]
    rfl
  | set | append =>
    have h1 : req.argv[1]? = some (req.arg 1) := argv_get (Nat.lt_of_succ_lt hneeds)
    have h2 : req.argv[2]? = some (req.arg 2) := argv_get hneeds
    simp only [Cmd.argvRun, argvSet, argvAppend, h1, h2, Option.bind_some, Option.map_some]
    rfl
  | incrby =>
    have h1 : req.argv[1]? = some (req.arg 1) := argv_get (Nat.lt_of_succ_lt hneeds)
    have h2 : req.argv[2]? = some (req.arg 2) := argv_get hneeds
    rw [Cmd.argvRun, argvIncrby, h1, h2, Option.bind_some, Cmd.run, cmdIncrby]
    cases parseInt64 (req.arg 2) with
    | none => rfl
    | some delta => rfl
  | decrby =>
    have h1 : req.argv[1]? = some (req.arg 1) := argv_get (Nat.lt_of_succ_lt hneeds)
    have h2 : req.argv[2]? = some (req.arg 2) := argv_get hneeds
    rw [Cmd.argvRun, argvDecrby, h1, h2, Option.bind_some, Cmd.run, cmdDecrby]
    cases parseInt64 (req.arg 2) with
    | none => rfl
    | some delta =>
      simp only
      by_cases hmin : delta = INT64_MIN
      · rw [if_pos hmin, if_pos hmin]
      · rw [if_neg hmin, if_neg hmin, Option.map_some]
  | setnx =>
    have h1 : req.argv[1]? = some (req.arg 1) := argv_get (Nat.lt_of_succ_lt hneeds)
    have h2 : req.argv[2]? = some (req.arg 2) := argv_get hneeds
    rw [Cmd.argvRun, argvSetnx, h1, h2, Option.bind_some, Cmd.run, cmdSetnx]
    by_cases hhit : (htGet ctx.store (req.arg 1)).isSome = true
    · rw [if_pos hhit, if_pos hhit]
    · rw [if_neg hhit, if_neg hhit, Option.map_some]
  | getset =>
    have h1 : req.argv[1]? = some (req.arg 1) := argv_get (Nat.lt_of_succ_lt hneeds)
    have h2 : req.argv[2]? = some (req.arg 2) := argv_get hneeds
    rw [Cmd.argvRun, argvGetset, h1, h2, Option.bind_some, Cmd.run, cmdGetset]
    simp only [Option.map_some]
    generalize (if (htGet ctx.store (req.arg 1)).isSome = true ∧
      ((htGet ctx.store (req.arg 1)).getD []).length > 0 then
        ctx.malloc ((htGet ctx.store (req.arg 1)).getD []).length else (true, ctx)) = m
    by_cases hrefused : (!m.1) = true
    · rw [if_pos hrefused, if_pos hrefused]
    · exact (if_neg hrefused).trans (congrArg some (if_neg hrefused).symm)

/-! ## Names and arities -/

/-- Up to its NUL the comparison with a C string reads nothing else. -/
theorem checkedSliceEqCi_eq {name : Bytes} (hname : (0 : UInt8) ∉ name) (s : Bytes) :
    checkedSliceEqCi s (name ++ [0]) = some (sliceEqCi s name) := by
  induction name generalizing s with
  | nil =>
    cases s with
    | nil => rfl
    | cons c s => rfl
  | cons u name ih =>
    rw [List.mem_cons, not_or] at hname
    cases s with
    | nil => simp only [List.cons_append, checkedSliceEqCi, if_neg (Ne.symm hname.1), sliceEqCi]
    | cons c s =>
      simp only [List.cons_append, checkedSliceEqCi, if_neg (Ne.symm hname.1), sliceEqCi,
        ih hname.2 s]
      exact (apply_ite some _ _ _).symm

theorem commands_name_no_nul : ∀ e ∈ commands, (0 : UInt8) ∉ e.name := by decide

theorem badArity_iff {e : CmdEntry} {argc : ℕ} : e.badArity argc = true ↔
    (argc : ℤ) < e.minArgc ∨ (e.maxArgc ≠ -1 ∧ (argc : ℤ) > e.maxArgc) := by
  simp [CmdEntry.badArity]

/-- **The order of the table is irrelevant** for what is found. -/
theorem find_table {table : List CmdEntry} (htable : table.Perm commands) (name : Bytes) :
    (table.find? fun e => sliceEqCi name e.name) = lookupCommand name := by
  refine (List.find?_eq_find?_of_perm htable.symm ?_).symm
  rintro e ⟨he, hname⟩ e' ⟨he', hname'⟩
  have hfound := (lookupCommand_eq_some he).mpr hname
  rw [(lookupCommand_eq_some he').mpr hname', Option.some.injEq] at hfound
  exact hfound.symm

/-- The loop over a table calls the first entry that has the name, if its arity is
right. -/
theorem argvDispatch_eq {req : RespRequest} (hpos : 1 ≤ req.argc) (hmax : req.argc ≤ INT_MAX)
    (ctx : CommandCtx) {table : List CmdEntry} (hnul : ∀ e ∈ table, (0 : UInt8) ∉ e.name) :
    argvDispatch ctx req.argv table =
      match table.find? fun e => sliceEqCi (req.arg 0) e.name with
      | some e =>
        if e.badArity req.argc then some (none, ctx.replyError (arityMessage e))
        else (e.handler.argvRun ctx req.argv).map fun r => (some e.handler, r)
      | none => some (none, ctx.replyError (unknownMessage (req.arg 0))) := by
  have h0 : req.argv[0]? = some (req.arg 0) := argv_get hpos
  induction table with
  | nil =>
    rw [argvDispatch, h0]
    rfl
  | cons e table ih =>
    obtain ⟨hname, htable⟩ := List.forall_mem_cons.mp hnul
    rw [argvDispatch, h0, Option.bind_some, checkedSliceEqCi_eq hname, Option.bind_some,
      List.find?_cons, length_argv, intOf, if_pos hmax, Option.bind_some]
    cases sliceEqCi (req.arg 0) e.name with
    | false => exact ih htable
    | true =>
      simp only [Bool.not_true, Bool.false_eq_true, if_false]
      by_cases harity : e.badArity req.argc = true
      · rw [if_pos harity, if_pos (badArity_iff.mp harity)]
      · rw [if_neg harity, if_neg (mt badArity_iff.mpr harity)]

/-- A request is dispatched by its name and its arity. -/
theorem dispatched_iff {req : RespRequest} (hpos : 1 ≤ req.argc) {c : Cmd} :
    req.dispatched = some c ↔ ∃ e ∈ commands, e.handler = c ∧ (req.arg 0).map upperByte = e.name ∧
      e.minArgc ≤ req.argc ∧ (e.maxArgc = -1 ∨ (req.argc : ℤ) ≤ e.maxArgc) := by
  have harity_iff : ∀ e : CmdEntry, ¬ e.badArity req.argc = true ↔
      e.minArgc ≤ req.argc ∧ (e.maxArgc = -1 ∨ (req.argc : ℤ) ≤ e.maxArgc) := by
    intro e
    rw [badArity_iff, not_or, not_lt, not_and_or, not_not, gt_iff_lt, not_lt]
  rw [RespRequest.dispatched, if_neg (Nat.one_le_iff_ne_zero.mp hpos)]
  constructor
  · intro h
    cases hlookup : lookupCommand (req.arg 0) with
    | none =>
      rw [hlookup] at h
      cases h
    | some e =>
      rw [hlookup] at h
      simp only at h
      split at h
      · cases h
      · next harity =>
        exact ⟨e, lookupCommand_mem hlookup, Option.some.inj h,
          sliceEqCi_iff.mp (lookupCommand_name hlookup), (harity_iff e).mp harity⟩
  · rintro ⟨e, he, rfl, hname, harity⟩
    rw [(lookupCommand_eq_some he).mpr (sliceEqCi_iff.mpr hname)]
    simp only
    rw [if_neg ((harity_iff e).mpr harity)]

/-- **The dispatcher on the arguments there are**, over the table in any order, is
`command_execute`. -/
theorem argvExecute_eq {req : RespRequest} (hpos : 1 ≤ req.argc) (hmax : req.argc ≤ RESP_MAX_ARGC)
    (ctx : CommandCtx) {table : List CmdEntry} (htable : table.Perm commands) :
    argvExecute ctx req.argv table = some (req.dispatched, commandExecute ctx req) := by
  have hint : RESP_MAX_ARGC ≤ INT_MAX := by decide
  have hne : ¬ req.argc = 0 := Nat.one_le_iff_ne_zero.mp hpos
  have hnul : ∀ e ∈ table, (0 : UInt8) ∉ e.name :=
    fun e he => commands_name_no_nul e (htable.subset he)
  rw [argvExecute, length_argv, if_neg hne, argvDispatch_eq hpos (Nat.le_trans hmax hint) ctx hnul,
    find_table htable, RespRequest.dispatched, if_neg hne, commandExecute, if_neg hne]
  cases hlookup : lookupCommand (req.arg 0) with
  | none => rfl
  | some e =>
    simp only
    by_cases harity : e.badArity req.argc = true
    · rw [if_pos harity, if_pos harity, if_pos harity]
    · have hneeds := needs_le_argc (lookupCommand_mem hlookup) (Bool.eq_false_iff.mpr harity)
      rw [if_neg harity, if_neg harity, if_neg harity, argvRun_eq hpos hneeds, Option.map_some]

/-- **Dispatch and argument safety.** For every request with 1 to 32 arguments, and the
table in any order, `command_execute` reads no slot beyond the arguments; and it
calls a handler exactly if the first argument is the handler's name, after mapping to
upper case, and the number of arguments is in the range of its entry. A name with a
NUL in it is none of the table's. -/
theorem dispatch_safe (ctx : CommandCtx) (req : RespRequest) (hpos : 1 ≤ req.argc)
    (hmax : req.argc ≤ RESP_MAX_ARGC) {table : List CmdEntry} (htable : table.Perm commands) :
    ∃ called, argvExecute ctx req.argv table = some (called, commandExecute ctx req) ∧
      (∀ c, called = some c ↔ ∃ e ∈ commands, e.handler = c ∧
        (req.arg 0).map upperByte = e.name ∧ e.minArgc ≤ req.argc ∧
        (e.maxArgc = -1 ∨ (req.argc : ℤ) ≤ e.maxArgc)) ∧
      ((0 : UInt8) ∈ req.arg 0 → called = none) := by
  refine ⟨req.dispatched, argvExecute_eq hpos hmax ctx htable, fun c => dispatched_iff hpos,
    fun hmem => ?_⟩
  cases hcalled : req.dispatched with
  | none => rfl
  | some c =>
    obtain ⟨e, he, -, hname, -⟩ := (dispatched_iff hpos).mp hcalled
    have hnul : (0 : UInt8) ∈ (req.arg 0).map upperByte := List.mem_map.mpr ⟨0, hmem, rfl⟩
    exact absurd (hname ▸ hnul) (commands_name_no_nul e he)

/-- A lower-case name, and the table back to front. -/
theorem dispatch_safe_del :
    argvExecute ⟨htInit, bytebufInit, Heap.ample⟩
        (requestOf [ascii "del", ascii "k", ascii "k"]).argv commands.reverse =
      some (some .del, commandExecute ⟨htInit, bytebufInit, Heap.ample⟩
        (requestOf [ascii "del", ascii "k", ascii "k"])) := by
  obtain ⟨called, hrun, hcalled, -⟩ := dispatch_safe ⟨htInit, bytebufInit, Heap.ample⟩
    (requestOf [ascii "del", ascii "k", ascii "k"]) (by decide) (by decide)
    (List.reverse_perm commands)
  have hdel : called = some .del := (hcalled .del).mpr
    ⟨⟨ascii "DEL", 2, -1, .del⟩, by simp [commands], rfl, by decide, by decide, Or.inl rfl⟩
  rw [hrun, hdel]

end RedisInC
