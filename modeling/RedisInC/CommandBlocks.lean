import RedisInC.BufferBlocks
import RedisInC.Command
import RedisInC.TableBlocks

/-!
# Commands in memory (`command.c`)

The dispatcher and the 17 handlers once more, with the pointers they work on. The arguments
are slices of the input buffer, `ht_get` lends the array of a value, and `APPEND` and
`GETSET` allocate a scratch array of their own.

The functions that only look at bytes (`slice_eq_ci`, `parse_int64`, `glob_match`) are those
on values, applied to the bytes at the pointer.
-/

namespace RedisInC

open BlockMemory

/-- `resp_slice_t` -/
structure SliceNode where
  /-- the first byte -/
  bytes : Pointer
  /-- number of bytes -/
  len : ℕ

/-- `resp_request_t` -/
structure RequestNode where
  /-- the argument slots -/
  args : ℕ → SliceNode
  /-- number of slots in use -/
  argc : ℕ
  /-- length of the frame -/
  bytesConsumed : ℕ

/-- `command_ctx_t`, with what it points to. -/
structure CtxNode where
  /-- the store the commands work on -/
  store : TableNode
  /-- the buffer the reply is appended to -/
  out : BufferNode

/-- `args[1]` to `args[argc - 1]` -/
def RequestNode.keys (req : RequestNode) : List SliceNode :=
  (List.range' 1 (req.argc - 1)).map req.args

namespace CtxNode

/-- Call a reply serializer on `ctx->out`. -/
def reply (ctx : CtxNode) (f : BufferNode → Code (Int × BufferNode)) : Code (Int × CtxNode) := do
  let r ← f ctx.out
  return (r.1, ⟨ctx.store, r.2⟩)

/-- `resp_reply_error(ctx->out, msg)` -/
def replyError (ctx : CtxNode) (msg : Bytes) : Code (Int × CtxNode) :=
  ctx.reply fun out => Raw.respReplyError out msg

/-- `resp_reply_integer(ctx->out, n)` -/
def replyInteger (ctx : CtxNode) (n : ℤ) : Code (Int × CtxNode) :=
  ctx.reply fun out => Raw.respReplyInteger out n

/-- `resp_reply_simple_string(ctx->out, s)` -/
def replySimpleString (ctx : CtxNode) (s : Bytes) : Code (Int × CtxNode) :=
  ctx.reply fun out => Raw.respReplySimpleString out s

/-- `resp_reply_bulk(ctx->out, bytes, len)` -/
def replyBulk (ctx : CtxNode) (bytes : Pointer) (len : ℕ) : Code (Int × CtxNode) :=
  ctx.reply fun out => Raw.respReplyBulk out bytes len

/-- `resp_reply_nil(ctx->out)` -/
def replyNil (ctx : CtxNode) : Code (Int × CtxNode) := ctx.reply Raw.respReplyNil

/-- `ht_set(ctx->store, key, klen, val, vlen)` -/
def htSet (ctx : CtxNode) (key : SliceNode) (val : Pointer) (vlen : ℕ) : Code (Int × CtxNode) := do
  let r ← Raw.htSet ctx.store key.bytes key.len val vlen
  return (r.1, ⟨r.2, ctx.out⟩)

/-- `ht_get(ctx->store, key, klen)` -/
def htGet (ctx : CtxNode) (key : SliceNode) : Code (Option (Pointer × ℕ)) :=
  Raw.htGet ctx.store key.bytes key.len

end CtxNode

namespace Raw

/-! ## Helpers -/

def sliceEqCi (s : SliceNode) (upper : Bytes) : Code Bool := do
  let bytes ← readBytes s.bytes s.len
  return RedisInC.sliceEqCi bytes upper

def parseInt64 (p : Pointer) (len : ℕ) : Code (Option ℤ) := do
  let bytes ← readBytes p len
  return RedisInC.parseInt64 bytes

def globMatch (pat : Pointer) (plen : ℕ) (str : Pointer) (slen : ℕ) : Code Bool := do
  let pat ← readBytes pat plen
  let str ← readBytes str slen
  return RedisInC.globMatch pat str

/-- `if (len > 0) memcpy(dst + pos, src, len)` -/
def copyAny (dst : Addr) (pos : ℕ) (src : Pointer) (len : ℕ) : Code Unit :=
  if len > 0 then memcpy dst pos src len else return ()

/-- The start of an array, or `NULL`. -/
def startOf : Option Addr → Pointer
  | none => .null
  | some a => .heap a 0

/-- The reply to an `ht_set`. -/
def replyStored (r : Int × CtxNode) (ok : CtxNode → Code (Int × CtxNode)) : Code (Int × CtxNode) :=
  if r.1 ≠ 0 then r.2.replyError (ascii "ERR out of memory") else ok r.2

/-! ## Handlers -/

def cmdPing (ctx : CtxNode) (req : RequestNode) : Code (Int × CtxNode) :=
  if req.argc = 1 then ctx.replySimpleString (ascii "PONG")
  else ctx.replyBulk (req.args 1).bytes (req.args 1).len

def cmdGet (ctx : CtxNode) (req : RequestNode) : Code (Int × CtxNode) := do
  match ← ctx.htGet (req.args 1) with
  | some (val, vlen) => ctx.replyBulk val vlen
  | none => ctx.replyNil

def cmdSet (ctx : CtxNode) (req : RequestNode) : Code (Int × CtxNode) := do
  let r ← ctx.htSet (req.args 1) (req.args 2).bytes (req.args 2).len
  replyStored r fun ctx => ctx.replySimpleString (ascii "OK")

/-- The loop of `cmd_del`. -/
def delKeys : List SliceNode → ℤ → TableNode → Code (ℤ × TableNode)
  | [], deleted, store => return (deleted, store)
  | key :: keys, deleted, store => do
    let r ← htDel store key.bytes key.len
    delKeys keys (if r.1 ≠ 0 then deleted + 1 else deleted) r.2

def cmdDel (ctx : CtxNode) (req : RequestNode) : Code (Int × CtxNode) := do
  let r ← delKeys req.keys 0 ctx.store
  CtxNode.replyInteger ⟨r.2, ctx.out⟩ r.1

/-- The loop of `cmd_exists`. -/
def countKeys : List SliceNode → ℤ → CtxNode → Code ℤ
  | [], found, _ => return found
  | key :: keys, found, ctx => do
    let hit ← ctx.htGet key
    countKeys keys (if hit.isSome then found + 1 else found) ctx

def cmdExists (ctx : CtxNode) (req : RequestNode) : Code (Int × CtxNode) := do
  let found ← countKeys req.keys 0 ctx
  ctx.replyInteger found

def cmdCommand (ctx : CtxNode) (_ : RequestNode) : Code (Int × CtxNode) :=
  ctx.reply fun out => respReplyArrayHeader out 0

/-- The part of `incrby_op` behind the lookup. -/
def incrbyFrom (ctx : CtxNode) (key : SliceNode) (delta cur : ℤ) : Code (Int × CtxNode) :=
  if (delta > 0 ∧ cur > INT64_MAX - delta) ∨ (delta < 0 ∧ cur < INT64_MIN - delta) then
    ctx.replyError (ascii "ERR increment or decrement would overflow")
  else
    let next := cur + delta
    let n := (DecimalText.intText next).length
    let fmt := snprintf 24 (DecimalText.intText next)
    if n ≥ 24 then ctx.replyError (ascii "ERR internal format error")
    else do
      let r ← ctx.htSet key (.here fmt) n
      replyStored r fun ctx => ctx.replyInteger next

def incrbyOp (ctx : CtxNode) (key : SliceNode) (delta : ℤ) : Code (Int × CtxNode) := do
  match ← ctx.htGet key with
  | none => incrbyFrom ctx key delta 0
  | some (val, vlen) =>
    match ← parseInt64 val vlen with
    | none => ctx.replyError (ascii "ERR value is not an integer or out of range")
    | some cur => incrbyFrom ctx key delta cur

def cmdIncr (ctx : CtxNode) (req : RequestNode) : Code (Int × CtxNode) := incrbyOp ctx (req.args 1) 1

def cmdDecr (ctx : CtxNode) (req : RequestNode) : Code (Int × CtxNode) :=
  incrbyOp ctx (req.args 1) (-1)

def cmdIncrby (ctx : CtxNode) (req : RequestNode) : Code (Int × CtxNode) := do
  match ← parseInt64 (req.args 2).bytes (req.args 2).len with
  | none => ctx.replyError (ascii "ERR value is not an integer or out of range")
  | some delta => incrbyOp ctx (req.args 1) delta

def cmdDecrby (ctx : CtxNode) (req : RequestNode) : Code (Int × CtxNode) := do
  match ← parseInt64 (req.args 2).bytes (req.args 2).len with
  | none => ctx.replyError (ascii "ERR value is not an integer or out of range")
  | some delta =>
    if delta = INT64_MIN then ctx.replyError (ascii "ERR increment or decrement would overflow")
    else incrbyOp ctx (req.args 1) (-delta)

def cmdStrlen (ctx : CtxNode) (req : RequestNode) : Code (Int × CtxNode) := do
  match ← ctx.htGet (req.args 1) with
  | some (_, vlen) => ctx.replyInteger vlen
  | none => ctx.replyInteger 0

/-- `cmd_append` where the key is there: the concatenation is put together in a scratch
array. -/
def appendTo (ctx : CtxNode) (key val : SliceNode) (old : Pointer) (olen : ℕ) :
    Code (Int × CtxNode) :=
  if val.len > SIZE_MAX - olen then
    ctx.replyError (ascii "ERR string exceeds maximum allowed size")
  else do
    let newlen := olen + val.len
    match ← malloc (if newlen = 0 then 1 else newlen) with
    | none => ctx.replyError (ascii "ERR out of memory")
    | some tmp =>
      copyAny tmp 0 old olen
      copyAny tmp olen val.bytes val.len
      let r ← ctx.htSet key (.heap tmp 0) newlen
      let rc ← replyStored r fun ctx => ctx.replyInteger newlen
      free (some tmp)
      return rc

def cmdAppend (ctx : CtxNode) (req : RequestNode) : Code (Int × CtxNode) := do
  match ← ctx.htGet (req.args 1) with
  | none =>
    let r ← ctx.htSet (req.args 1) (req.args 2).bytes (req.args 2).len
    replyStored r fun ctx => ctx.replyInteger (req.args 2).len
  | some (old, olen) => appendTo ctx (req.args 1) (req.args 2) old olen

/-- `keys_ctx_t`, with the buffer it points to. -/
structure KeysNode where
  /-- where the bulks go -/
  out : BufferNode
  /-- the pattern -/
  pattern : Pointer
  /-- its length -/
  plen : ℕ
  /-- matches counted in the first pass -/
  matched : ℕ
  /-- whether this is the second pass -/
  write : Bool
  /-- set if an append fails -/
  emitFailed : Bool

def keysCb (key : Pointer) (klen : ℕ) (_val : Pointer) (_vlen : ℕ) (kc : KeysNode) :
    Code (Bool × KeysNode) := do
  let hit ← globMatch kc.pattern kc.plen key klen
  if !hit then return (true, kc)
  else if kc.write then
    let r ← respReplyBulk kc.out key klen
    if r.1 ≠ 0 then return (false, { kc with out := r.2, emitFailed := true })
    else return (true, { kc with out := r.2 })
  else return (true, { kc with matched := kc.matched + 1 })

def cmdKeys (ctx : CtxNode) (req : RequestNode) : Code (Int × CtxNode) := do
  let kc ← htScan ctx.store keysCb ⟨ctx.out, (req.args 1).bytes, (req.args 1).len, 0, false, false⟩
  let r ← respReplyArrayHeader kc.2.out kc.2.matched
  if r.1 ≠ 0 then return (-1, ⟨ctx.store, r.2⟩)
  else
    let kc ← htScan ctx.store keysCb { kc.2 with out := r.2, write := true }
    return (if kc.2.emitFailed then -1 else 0, ⟨ctx.store, kc.2.out⟩)

def cmdDbsize (ctx : CtxNode) (_ : RequestNode) : Code (Int × CtxNode) :=
  ctx.replyInteger ctx.store.count

def cmdFlushdb (ctx : CtxNode) (_ : RequestNode) : Code (Int × CtxNode) := do
  let _ ← htDestroy ctx.store
  CtxNode.replySimpleString ⟨htInit, ctx.out⟩ (ascii "OK")

def cmdSetnx (ctx : CtxNode) (req : RequestNode) : Code (Int × CtxNode) := do
  let hit ← ctx.htGet (req.args 1)
  if hit.isSome then ctx.replyInteger 0
  else
    let r ← ctx.htSet (req.args 1) (req.args 2).bytes (req.args 2).len
    replyStored r fun ctx => ctx.replyInteger 1

/-- The snapshot of `cmd_getset`, `NULL` unless there is something to keep. There is no
result if `malloc` fails. -/
def takeSnapshot : Option (Pointer × ℕ) → Code (Option (Option Addr))
  | none => return some none
  | some (old, olen) =>
    if olen > 0 then do
      match ← malloc olen with
      | none => return none
      | some snapshot =>
        memcpy snapshot 0 old olen
        return some (some snapshot)
    else return some none

/-- The reply of `cmd_getset`. -/
def replyOld (ctx : CtxNode) (hit : Option (Pointer × ℕ)) (snapshot : Option Addr) :
    Code (Int × CtxNode) :=
  match hit with
  | some (_, olen) => ctx.replyBulk (startOf snapshot) olen
  | none => ctx.replyNil

/-- The part of `cmd_getset` behind the snapshot. -/
def replaceValue (ctx : CtxNode) (key val : SliceNode) (hit : Option (Pointer × ℕ))
    (snapshot : Option Addr) : Code (Int × CtxNode) := do
  let r ← ctx.htSet key val.bytes val.len
  if r.1 ≠ 0 then
    free snapshot
    r.2.replyError (ascii "ERR out of memory")
  else
    let rc ← replyOld r.2 hit snapshot
    free snapshot
    return rc

def cmdGetset (ctx : CtxNode) (req : RequestNode) : Code (Int × CtxNode) := do
  let hit ← ctx.htGet (req.args 1)
  match ← takeSnapshot hit with
  | none => ctx.replyError (ascii "ERR out of memory")
  | some snapshot => replaceValue ctx (req.args 1) (req.args 2) hit snapshot

/-! ## Dispatch -/

/-- Call a handler. -/
def run : Cmd → CtxNode → RequestNode → Code (Int × CtxNode)
  | .ping => cmdPing
  | .get => cmdGet
  | .set => cmdSet
  | .del => cmdDel
  | .exists => cmdExists
  | .command => cmdCommand
  | .incr => cmdIncr
  | .decr => cmdDecr
  | .incrby => cmdIncrby
  | .decrby => cmdDecrby
  | .strlen => cmdStrlen
  | .append => cmdAppend
  | .keys => cmdKeys
  | .dbsize => cmdDbsize
  | .flushdb => cmdFlushdb
  | .setnx => cmdSetnx
  | .getset => cmdGetset

/-- The loop over the table: the first entry the command name matches. -/
def findCommand (name : SliceNode) : List CmdEntry → Code (Option CmdEntry)
  | [] => return none
  | e :: es => do
    if ← sliceEqCi name e.name then return some e else findCommand name es

/-- The text of the unknown-command error; no more than 64 bytes of the name are read. -/
def unknownMessage (name : SliceNode) : Code Bytes := do
  let bytes ← readBytes name.bytes (if name.len < 64 then name.len else 64)
  return snprintf 128 (ascii "ERR unknown command '" ++ cString bytes ++ ascii "'")

def commandExecute (ctx : CtxNode) (req : RequestNode) : Code (Int × CtxNode) :=
  if req.argc = 0 then ctx.replyError (ascii "ERR empty command")
  else do
    match ← findCommand (req.args 0) commands with
    | some e =>
      if e.badArity req.argc then ctx.replyError (arityMessage e) else run e.handler ctx req
    | none =>
      let msg ← unknownMessage (req.args 0)
      ctx.replyError msg

end Raw

/-! ## What a context owns -/

/-- A store and a buffer with their blocks. -/
structure OwnedCtx where
  /-- the store -/
  store : OwnedTable
  /-- the buffer the reply is appended to -/
  out : OwnedBuffer

namespace OwnedCtx

/-- What the struct points to. -/
def node (o : OwnedCtx) : CtxNode := ⟨o.store.node, o.out.node⟩

/-- Its blocks. -/
def cells (o : OwnedCtx) : Cells Addr Block := o.store.cells + o.out.cells

/-- The context it stands for. -/
def toCtx (o : OwnedCtx) (s : Allocator) : CommandCtx := ⟨o.store.toTable, o.out.buf, s.heap⟩

/-- How a context is kept in memory. -/
def layout : Layout OwnedCtx CtxNode CommandCtx Allocator Addr Block where
  node := node
  cells := cells
  value := toCtx

end OwnedCtx

/-- The slices of a request show the arguments of the one on values. -/
structure Shows (F : Cells Addr Block) (req : RequestNode) (value : RespRequest) : Prop where
  /-- the number of arguments -/
  argc_eq : req.argc = value.argc
  /-- the length of the frame -/
  consumed_eq : req.bytesConsumed = value.bytesConsumed
  /-- each argument in use -/
  arg : ∀ i < value.argc, Readable F (req.args i).bytes (req.args i).len (value.arg i)

theorem Shows.add_right {F : Cells Addr Block} {req : RequestNode} {value : RespRequest}
    (h : Shows F req value) (G : Cells Addr Block) : Shows (F + G) req value :=
  ⟨h.argc_eq, h.consumed_eq, fun i hi => (h.arg i hi).add_right G⟩

end RedisInC
