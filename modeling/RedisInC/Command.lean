import RedisInC.Hashtable
import RedisInC.Resp

/-!
# Commands (`command.c`)

The dispatcher, its table and the 17 handlers, as the code computes them. A
handler takes the context (store, output buffer, allocator) and the request and
returns its C return code and the context after it.

* `sliceEqCi`, `parseInt64`, `globMatch` — the helpers.
* `cmdPing` … `cmdGetset` — the handlers, in the order of the source.
* `commands`, `commandExecute` — the table and the entry point. The function
  pointers of the table are the enumeration `Cmd`; `Cmd.run` follows them.
-/

namespace RedisInC

open DecimalText

/-- `command_ctx_t`, with the allocator. -/
structure CommandCtx where
  /-- the store the commands work on -/
  store : Hashtable
  /-- the buffer the reply is appended to -/
  out : Bytebuf
  /-- the allocator -/
  heap : Heap

namespace CommandCtx

/-- Call a reply serializer on `ctx->out`. -/
def reply (ctx : CommandCtx) (f : Bytebuf → Heap → Int × Bytebuf × Heap) : Int × CommandCtx :=
  let r := f ctx.out ctx.heap
  (r.1, ⟨ctx.store, r.2.1, r.2.2⟩)

/-- `resp_reply_error(ctx->out, msg)` -/
def replyError (ctx : CommandCtx) (msg : Bytes) : Int × CommandCtx :=
  ctx.reply fun out h => respReplyError out msg h

/-- `resp_reply_integer(ctx->out, n)` -/
def replyInteger (ctx : CommandCtx) (n : ℤ) : Int × CommandCtx :=
  ctx.reply fun out h => respReplyInteger out n h

/-- `resp_reply_simple_string(ctx->out, s)` -/
def replySimpleString (ctx : CommandCtx) (s : Bytes) : Int × CommandCtx :=
  ctx.reply fun out h => respReplySimpleString out s h

/-- `resp_reply_bulk(ctx->out, bytes, len)` -/
def replyBulk (ctx : CommandCtx) (bytes : Bytes) : Int × CommandCtx :=
  ctx.reply fun out h => respReplyBulk out bytes h

/-- `resp_reply_nil(ctx->out)` -/
def replyNil (ctx : CommandCtx) : Int × CommandCtx := ctx.reply respReplyNil

/-- `ht_set(ctx->store, key, val)` -/
def htSet (ctx : CommandCtx) (key val : Bytes) : Int × CommandCtx :=
  let r := RedisInC.htSet ctx.store key val ctx.heap
  (r.1, ⟨r.2.1, ctx.out, r.2.2⟩)

/-- A scratch allocation of a handler. -/
def malloc (ctx : CommandCtx) (size : ℕ) : Bool × CommandCtx :=
  let r := ctx.heap.malloc size
  (r.1, ⟨ctx.store, ctx.out, r.2⟩)

end CommandCtx

/-- The bytes of the `i`-th argument. -/
abbrev RespRequest.arg (req : RespRequest) (i : ℕ) : Bytes := (req.args i).bytes

/-! ## Helpers -/

/-- Case-insensitive compare of a slice against an uppercase ASCII name. -/
def sliceEqCi : Bytes → Bytes → Bool
  | s, [] => s.length = 0
  | [], _ :: _ => false
  | c :: s, u :: upper =>
    let c := if c ≥ 97 ∧ c ≤ 122 then c - 97 + 65 else c
    if c ≠ u then false else sliceEqCi s upper

/-- The digit loop of `parse_int64`. -/
def parseInt64Loop : Bytes → ℤ → Option ℤ
  | [], v => some v
  | c :: cs, v =>
    if c < 48 ∨ c > 57 then none
    -- v*10 + 9 must still fit in INT64_MAX
    else if v > (INT64_MAX - 9) / 10 then none
    else parseInt64Loop cs (v * 10 + (c.toNat - 48))

/-- Parse a byte string as a strict signed-decimal int64. -/
def parseInt64 : Bytes → Option ℤ
  | [] => none
  | c :: cs =>
    if c = 45 then
      if cs.length = 0 then none else (parseInt64Loop cs 0).map fun v => -v
    else parseInt64Loop (c :: cs) 0

/-- The scan of a class behind its negation mark, up to the closing bracket:
whether the head of `str` was listed, and the pattern behind the bracket. `none`
when the class is unterminated. -/
def globClass : Bytes → Bytes → Bool → Option (Bool × Bytes)
  | [], _, _ => none
  | c :: pat, str, matched =>
    if c = 93 then some (matched, pat)
    else
      match pat with
      | [] => none
      | d :: pat' =>
        -- an escape takes the byte behind it
        if c = 92 then globClass pat' str (matched || str.head? == some d)
        else globClass (d :: pat') str (matched || str.head? == some c)

/-- `glob_match` with a bound on its rounds. Every round takes a byte off the
pattern, so rounds beyond its length do not occur. -/
def globRounds : ℕ → Bytes → Bytes → Bool
  | 0, _, _ => false
  | _ + 1, [], str => str.length = 0
  | fuel + 1, pc :: pat, str =>
    if pc = 42 then
      -- collapse runs of '*', then try every suffix of the input
      let pat := pat.dropWhile (· = 42)
      if pat.length = 0 then true else str.tails.any fun s => globRounds fuel pat s
    else if pc = 63 then
      match str with
      | [] => false
      | _ :: str => globRounds fuel pat str
    else if pc = 91 then
      let negate := pat.head? == some 94 || pat.head? == some 33
      match globClass (if negate then pat.tail else pat) str false with
      | none => false
      | some (matched, pat) =>
        match str with
        | [] => false
        | _ :: str => if matched ≠ negate then globRounds fuel pat str else false
    else
      let escaped := pc = 92 ∧ pat.length > 0
      let lit := if escaped then pat.headD pc else pc
      let pat := if escaped then pat.tail else pat
      match str with
      | [] => false
      | c :: str => if lit = c then globRounds fuel pat str else false

/-- Redis-style glob matcher. -/
def globMatch (pat str : Bytes) : Bool := globRounds (pat.length + 1) pat str

/-- `snprintf` into a buffer of `size` bytes: what of the text gets there. -/
def snprintf (size : ℕ) (text : Bytes) : Bytes := text.take (size - 1)

/-- A byte string read as a C string: up to its first NUL. -/
def cString (bytes : Bytes) : Bytes := bytes.takeWhile fun c => c ≠ 0

/-! ## Handlers -/

def cmdPing (ctx : CommandCtx) (req : RespRequest) : Int × CommandCtx :=
  if req.argc = 1 then ctx.replySimpleString (ascii "PONG") else ctx.replyBulk (req.arg 1)

def cmdGet (ctx : CommandCtx) (req : RespRequest) : Int × CommandCtx :=
  match htGet ctx.store (req.arg 1) with
  | some val => ctx.replyBulk val
  | none => ctx.replyNil

def cmdSet (ctx : CommandCtx) (req : RespRequest) : Int × CommandCtx :=
  let r := ctx.htSet (req.arg 1) (req.arg 2)
  if r.1 ≠ 0 then r.2.replyError (ascii "ERR out of memory")
  else r.2.replySimpleString (ascii "OK")

/-- The arguments a variadic command loops over: `args[1]` to `args[argc - 1]`. -/
def RespRequest.keys (req : RespRequest) : List Bytes :=
  (List.range' 1 (req.argc - 1)).map req.arg

/-- The loop of `cmd_del`: how many keys were removed, and the store after it. -/
def delKeys : List Bytes → ℤ → Hashtable → ℤ × Hashtable
  | [], deleted, store => (deleted, store)
  | key :: keys, deleted, store =>
    let r := htDel store key
    delKeys keys (if r.1 ≠ 0 then deleted + 1 else deleted) r.2

def cmdDel (ctx : CommandCtx) (req : RespRequest) : Int × CommandCtx :=
  let r := delKeys req.keys 0 ctx.store
  CommandCtx.replyInteger ⟨r.2, ctx.out, ctx.heap⟩ r.1

/-- The loop of `cmd_exists`. -/
def countKeys : List Bytes → ℤ → Hashtable → ℤ
  | [], found, _ => found
  | key :: keys, found, store =>
    countKeys keys (if (htGet store key).isSome then found + 1 else found) store

def cmdExists (ctx : CommandCtx) (req : RespRequest) : Int × CommandCtx :=
  ctx.replyInteger (countKeys req.keys 0 ctx.store)

def cmdCommand (ctx : CommandCtx) (_ : RespRequest) : Int × CommandCtx :=
  ctx.reply fun out h => respReplyArrayHeader out 0 h

/-- Shared core of the counter commands. -/
def incrbyOp (ctx : CommandCtx) (key : Bytes) (delta : ℤ) : Int × CommandCtx :=
  let cur? := match htGet ctx.store key with
    | some val => parseInt64 val
    | none => some 0
  match cur? with
  | none => ctx.replyError (ascii "ERR value is not an integer or out of range")
  | some cur =>
    if (delta > 0 ∧ cur > INT64_MAX - delta) ∨ (delta < 0 ∧ cur < INT64_MIN - delta) then
      ctx.replyError (ascii "ERR increment or decrement would overflow")
    else
      let next := cur + delta
      let n := (intText next).length
      let fmt := snprintf 24 (intText next)
      if n ≥ 24 then ctx.replyError (ascii "ERR internal format error")
      else
        let r := ctx.htSet key (fmt.take n)
        if r.1 ≠ 0 then r.2.replyError (ascii "ERR out of memory") else r.2.replyInteger next

def cmdIncr (ctx : CommandCtx) (req : RespRequest) : Int × CommandCtx :=
  incrbyOp ctx (req.arg 1) 1

def cmdDecr (ctx : CommandCtx) (req : RespRequest) : Int × CommandCtx :=
  incrbyOp ctx (req.arg 1) (-1)

def cmdIncrby (ctx : CommandCtx) (req : RespRequest) : Int × CommandCtx :=
  match parseInt64 (req.arg 2) with
  | none => ctx.replyError (ascii "ERR value is not an integer or out of range")
  | some delta => incrbyOp ctx (req.arg 1) delta

def cmdDecrby (ctx : CommandCtx) (req : RespRequest) : Int × CommandCtx :=
  match parseInt64 (req.arg 2) with
  | none => ctx.replyError (ascii "ERR value is not an integer or out of range")
  | some delta =>
    if delta = INT64_MIN then ctx.replyError (ascii "ERR increment or decrement would overflow")
    else incrbyOp ctx (req.arg 1) (-delta)

def cmdStrlen (ctx : CommandCtx) (req : RespRequest) : Int × CommandCtx :=
  match htGet ctx.store (req.arg 1) with
  | some val => ctx.replyInteger val.length
  | none => ctx.replyInteger 0

def cmdAppend (ctx : CommandCtx) (req : RespRequest) : Int × CommandCtx :=
  let key := req.arg 1
  let val := req.arg 2
  match htGet ctx.store key with
  | none =>
    let r := ctx.htSet key val
    if r.1 ≠ 0 then r.2.replyError (ascii "ERR out of memory") else r.2.replyInteger val.length
  | some old =>
    if val.length > SIZE_MAX - old.length then
      ctx.replyError (ascii "ERR string exceeds maximum allowed size")
    else
      let newlen := old.length + val.length
      let m := ctx.malloc (if newlen = 0 then 1 else newlen)
      if m.1 then
        let tmp := old ++ val
        let r := m.2.htSet key tmp
        if r.1 ≠ 0 then r.2.replyError (ascii "ERR out of memory") else r.2.replyInteger newlen
      else m.2.replyError (ascii "ERR out of memory")

/-- `keys_ctx_t`, with the allocator. -/
structure KeysCtx where
  /-- where the bulks go -/
  out : Bytebuf
  /-- the allocator -/
  heap : Heap
  /-- the pattern -/
  pattern : Bytes
  /-- matches counted in the first pass -/
  matched : ℕ
  /-- whether this is the second pass -/
  write : Bool
  /-- set if an append fails -/
  emitFailed : Bool

/-- The scan callback of both passes. -/
def keysCb (key _val : Bytes) (kc : KeysCtx) : Bool × KeysCtx :=
  if !globMatch kc.pattern key then (true, kc)
  else if kc.write then
    let r := respReplyBulk kc.out key kc.heap
    if r.1 ≠ 0 then (false, ⟨r.2.1, r.2.2, kc.pattern, kc.matched, kc.write, true⟩)
    else (true, ⟨r.2.1, r.2.2, kc.pattern, kc.matched, kc.write, kc.emitFailed⟩)
  else (true, ⟨kc.out, kc.heap, kc.pattern, kc.matched + 1, kc.write, kc.emitFailed⟩)

def cmdKeys (ctx : CommandCtx) (req : RespRequest) : Int × CommandCtx :=
  let kc := (htScan ctx.store keysCb ⟨ctx.out, ctx.heap, req.arg 1, 0, false, false⟩).2
  let r := respReplyArrayHeader kc.out kc.matched kc.heap
  if r.1 ≠ 0 then (-1, ⟨ctx.store, r.2.1, r.2.2⟩)
  else
    let kc := (htScan ctx.store keysCb
      ⟨r.2.1, r.2.2, kc.pattern, kc.matched, true, kc.emitFailed⟩).2
    (if kc.emitFailed then -1 else 0, ⟨ctx.store, kc.out, kc.heap⟩)

def cmdDbsize (ctx : CommandCtx) (_ : RespRequest) : Int × CommandCtx :=
  ctx.replyInteger ctx.store.count

/-- `ht_destroy` and `ht_init` together leave the empty table. -/
def cmdFlushdb (ctx : CommandCtx) (_ : RespRequest) : Int × CommandCtx :=
  CommandCtx.replySimpleString ⟨htInit, ctx.out, ctx.heap⟩ (ascii "OK")

def cmdSetnx (ctx : CommandCtx) (req : RespRequest) : Int × CommandCtx :=
  if (htGet ctx.store (req.arg 1)).isSome then ctx.replyInteger 0
  else
    let r := ctx.htSet (req.arg 1) (req.arg 2)
    if r.1 ≠ 0 then r.2.replyError (ascii "ERR out of memory") else r.2.replyInteger 1

/-- The old value is snapshot (unless it is empty) before it is overwritten. -/
def cmdGetset (ctx : CommandCtx) (req : RespRequest) : Int × CommandCtx :=
  let key := req.arg 1
  let val := req.arg 2
  let hit := htGet ctx.store key
  let olen := (hit.getD []).length
  let m := if hit.isSome ∧ olen > 0 then ctx.malloc olen else (true, ctx)
  if !m.1 then m.2.replyError (ascii "ERR out of memory")
  else
    let r := m.2.htSet key val
    if r.1 ≠ 0 then r.2.replyError (ascii "ERR out of memory")
    else
      match hit with
      | some snapshot => r.2.replyBulk snapshot
      | none => r.2.replyNil

/-! ## Dispatch table -/

/-- The handlers the table points to. -/
inductive Cmd : Type
  | ping | get | set | del | exists | command
  | incr | decr | incrby | decrby
  | strlen | append
  | keys | dbsize | flushdb
  | setnx | getset
  deriving DecidableEq

/-- Call a handler. -/
def Cmd.run : Cmd → CommandCtx → RespRequest → Int × CommandCtx
  | .ping => cmdPing
  | .get => cmdGet
  | .set => cmdSet
  | .del => cmdDel
  | .exists => cmdExists
  | .command => cmdCommand
  | .incr => cmdIncr
  | .decr => cmdDecr
  | .incrby => cmdIncrby
  | .decrby => cmdDecrby
  | .strlen => cmdStrlen
  | .append => cmdAppend
  | .keys => cmdKeys
  | .dbsize => cmdDbsize
  | .flushdb => cmdFlushdb
  | .setnx => cmdSetnx
  | .getset => cmdGetset

/-- `cmd_entry_t` -/
structure CmdEntry where
  /-- uppercase name -/
  name : Bytes
  /-- including the command name -/
  minArgc : Int
  /-- -1 = unbounded -/
  maxArgc : Int
  /-- what to call -/
  handler : Cmd

/-- The dispatch table. -/
def commands : List CmdEntry :=
  [ ⟨ascii "PING", 1, 2, .ping⟩,
    ⟨ascii "GET", 2, 2, .get⟩,
    ⟨ascii "SET", 3, 3, .set⟩,
    ⟨ascii "DEL", 2, -1, .del⟩,
    ⟨ascii "EXISTS", 2, -1, .exists⟩,
    ⟨ascii "COMMAND", 1, -1, .command⟩,
    ⟨ascii "INCR", 2, 2, .incr⟩,
    ⟨ascii "DECR", 2, 2, .decr⟩,
    ⟨ascii "INCRBY", 3, 3, .incrby⟩,
    ⟨ascii "DECRBY", 3, 3, .decrby⟩,
    ⟨ascii "STRLEN", 2, 2, .strlen⟩,
    ⟨ascii "APPEND", 3, 3, .append⟩,
    ⟨ascii "KEYS", 2, 2, .keys⟩,
    ⟨ascii "DBSIZE", 1, 1, .dbsize⟩,
    ⟨ascii "FLUSHDB", 1, 1, .flushdb⟩,
    ⟨ascii "SETNX", 3, 3, .setnx⟩,
    ⟨ascii "GETSET", 3, 3, .getset⟩ ]

/-- The first entry the command name matches. -/
def lookupCommand (name : Bytes) : Option CmdEntry :=
  commands.find? fun e => sliceEqCi name e.name

/-- The arity check fails. -/
def CmdEntry.badArity (e : CmdEntry) (argc : ℕ) : Bool :=
  (argc : Int) < e.minArgc || (e.maxArgc ≠ -1 && (argc : Int) > e.maxArgc)

/-- The text of the arity error, in a buffer of 128 bytes. -/
def arityMessage (e : CmdEntry) : Bytes :=
  snprintf 128 (ascii "ERR wrong number of arguments for '" ++ e.name ++ ascii "'")

/-- What the unknown-command error shows of a command name: at most 64 bytes, up
to the first NUL. -/
def printableName (name : Bytes) : Bytes :=
  cString (name.take (if name.length < 64 then name.length else 64))

/-- The text of the unknown-command error, in a buffer of 128 bytes. -/
def unknownMessage (name : Bytes) : Bytes :=
  snprintf 128 (ascii "ERR unknown command '" ++ printableName name ++ ascii "'")

/-- `command_execute` -/
def commandExecute (ctx : CommandCtx) (req : RespRequest) : Int × CommandCtx :=
  if req.argc = 0 then ctx.replyError (ascii "ERR empty command")
  else
    match lookupCommand (req.arg 0) with
    | some e =>
      if e.badArity req.argc then ctx.replyError (arityMessage e) else e.handler.run ctx req
    | none => ctx.replyError (unknownMessage (req.arg 0))

end RedisInC
