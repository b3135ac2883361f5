import RedisInC.CommandBlocks
import RedisInC.Session
import RedisInC.TableRefinement

/-!
# Commands in memory do what those on values do

* `reply_follows`, `store_follows`, `lookup_cases` — replies, stores and lookups of a
  handler.
* `appendTo_follows`, `getset_follows` — the two handlers with a scratch array: it is gone
  afterwards, whatever fails.
* `run_follows` — every handler.
* `commandExecute_follows` — **`command_execute`**.
* `CommandCall`, `commands_in_memory` — whole sequences of requests on one store.
-/

namespace RedisInC.Raw

open BlockMemory OwnedCtx

variable {s : Allocator} {K : Cells Addr Block} {o : OwnedCtx} {key : SliceNode} {k v : Bytes}
  {val : Pointer} {vlen : ℕ}

/-- What it means for code to follow a function on contexts. -/
theorem follows_ctx {α : Type} {c : Code (α × CtxNode)} {r : α × CommandCtx}
    (h : Ends c s (o.cells + K) fun x s' F' => ∃ o' : OwnedCtx, x.2 = o'.node ∧
      F' = o'.cells + K ∧ r = (x.1, o'.toCtx s')) : Follows layout c s o K r := h

theorem cells_store (o : OwnedCtx) (K : Cells Addr Block) :
    o.cells + K = o.store.cells + (o.out.cells + K) := add_assoc ..

theorem cells_out (o : OwnedCtx) (K : Cells Addr Block) :
    o.cells + K = o.out.cells + (o.store.cells + K) := by
  rw [OwnedCtx.cells]
  abel

/-- Code that works on the store, and code that goes on with the context. -/
theorem on_store {α γ : Type} {c : Code (α × TableNode)} {r : α × Hashtable × Heap}
    {f : α × TableNode → Code (γ × CtxNode)} {r' : γ × CommandCtx}
    (h : Follows OwnedTable.layout c s o.store (o.out.cells + K) r)
    (h' : ∀ (t' : OwnedTable) s', r.2 = (t'.toTable, s'.heap) →
      Follows layout (f (r.1, t'.node)) s' ⟨t', o.out⟩ K r') :
    Follows layout (c >>= f) s o K r' := by
  refine follows_ctx ?_
  rw [cells_store]
  refine Ends.bind h ?_
  rintro ⟨x, n⟩ s' F' ⟨t', rfl, rfl, rfl⟩
  have hrest := h' t' s' rfl
  rw [Follows, show layout.cells ⟨t', o.out⟩ + K = t'.cells + (o.out.cells + K) from
    cells_store ⟨t', o.out⟩ K] at hrest
  exact hrest

/-- Code that works on the buffer, and code that goes on with the context. -/
theorem on_out {α γ : Type} {c : Code (α × BufferNode)} {r : α × Bytebuf × Heap}
    {f : α × BufferNode → Code (γ × CtxNode)} {r' : γ × CommandCtx}
    (h : Follows OwnedBuffer.layout c s o.out (o.store.cells + K) r)
    (h' : ∀ (b' : OwnedBuffer) s', r.2 = (b'.buf, s'.heap) →
      Follows layout (f (r.1, b'.node)) s' ⟨o.store, b'⟩ K r') :
    Follows layout (c >>= f) s o K r' := by
  refine follows_ctx ?_
  rw [cells_out]
  refine Ends.bind h ?_
  rintro ⟨x, n⟩ s' F' ⟨b', rfl, rfl, rfl⟩
  have hrest := h' b' s' rfl
  rw [Follows, show layout.cells ⟨o.store, b'⟩ + K = b'.cells + (o.store.cells + K) from
    cells_out ⟨o.store, b'⟩ K] at hrest
  exact hrest

/-! ## Replies -/

/-- A reply leaves the store alone. -/
theorem reply_follows {f : BufferNode → Code (Int × BufferNode)}
    {f' : Bytebuf → Heap → Int × Bytebuf × Heap}
    (h : Follows OwnedBuffer.layout (f o.out.node) s o.out (o.store.cells + K)
      (f' o.out.buf s.heap)) :
    Follows layout (o.node.reply f) s o K ((o.toCtx s).reply f') := by
  refine on_out h fun b' s' hr => ?_
  have hvalue : (o.toCtx s).reply f' = ((f' o.out.buf s.heap).1, toCtx ⟨o.store, b'⟩ s') :=
    congrArg (fun r : Bytebuf × Heap => (_, (⟨o.store.toTable, r.1, r.2⟩ : CommandCtx))) hr
  rw [hvalue]
  exact Follows.pure _

theorem ctx_replyError_follows (msg : Bytes) :
    Follows layout (o.node.replyError msg) s o K ((o.toCtx s).replyError msg) :=
  reply_follows (replyError_follows msg)

theorem ctx_replyInteger_follows (n : ℤ) :
    Follows layout (o.node.replyInteger n) s o K ((o.toCtx s).replyInteger n) :=
  reply_follows (replyInteger_follows n)

theorem ctx_replySimpleString_follows (text : Bytes) :
    Follows layout (o.node.replySimpleString text) s o K ((o.toCtx s).replySimpleString text) :=
  reply_follows (replySimpleString_follows text)

theorem ctx_replyNil_follows : Follows layout o.node.replyNil s o K (o.toCtx s).replyNil :=
  reply_follows replyNil_follows

/-- A bulk may be an argument, a scratch array, or a value that the store lends. -/
theorem ctx_replyBulk_follows (hval : Readable (o.store.cells + K) val vlen v) :
    Follows layout (o.node.replyBulk val vlen) s o K ((o.toCtx s).replyBulk v) :=
  reply_follows (replyBulk_follows hval)

/-! ## Stores and lookups -/

theorem ctx_htSet_follows (hkey : Readable K key.bytes key.len k) (hval : Readable K val vlen v) :
    Follows layout (o.node.htSet key val vlen) s o K ((o.toCtx s).htSet k v) := by
  refine on_store (htSet_follows (hkey.add_left _) (hval.add_left _)) fun t' s' hr => ?_
  have hvalue : (o.toCtx s).htSet k v =
      ((RedisInC.htSet o.store.toTable k v s.heap).1, toCtx ⟨t', o.out⟩ s') :=
    congrArg (fun r : Hashtable × Heap => (_, (⟨r.1, o.out.buf, r.2⟩ : CommandCtx))) hr
  rw [hvalue]
  exact Follows.pure _

/-- The reply to a store. -/
theorem replyStored_follows {r : Int × CommandCtx} (hr : r.2 = o.toCtx s)
    {ok : CtxNode → Code (Int × CtxNode)} {ok' : CommandCtx → Int × CommandCtx}
    (hok : Follows layout (ok o.node) s o K (ok' (o.toCtx s))) :
    Follows layout (replyStored (r.1, o.node) ok) s o K
      (if r.1 ≠ 0 then r.2.replyError (ascii "ERR out of memory") else ok' r.2) := by
  rw [replyStored, hr]
  by_cases hrc : r.1 ≠ 0
  · rw [if_pos hrc, if_pos hrc]
    exact ctx_replyError_follows _
  · rw [if_neg hrc, if_neg hrc]
    exact hok

/-- A store, and the reply to it. -/
theorem store_follows {ok : CtxNode → Code (Int × CtxNode)} (ok' : CommandCtx → Int × CommandCtx)
    (hkey : Readable K key.bytes key.len k) (hval : Readable K val vlen v)
    (hok : ∀ (o' : OwnedCtx) s', Follows layout (ok o'.node) s' o' K (ok' (o'.toCtx s'))) :
    Follows layout (o.node.htSet key val vlen >>= fun r => replyStored r ok) s o K
      (if ((o.toCtx s).htSet k v).1 ≠ 0 then
        ((o.toCtx s).htSet k v).2.replyError (ascii "ERR out of memory")
      else ok' ((o.toCtx s).htSet k v).2) :=
  (ctx_htSet_follows hkey hval).bind fun o' s' hr => replyStored_follows hr (hok o' s')

/-- A lookup: nothing is there, or the store lends the value. -/
theorem lookup_cases (o : OwnedCtx) (hkey : Readable K key.bytes key.len k) :
    (RedisInC.htGet o.store.toTable k = none ∧ Sees (o.node.htGet key) s (o.cells + K) none) ∨
    ∃ p w, RedisInC.htGet o.store.toTable k = some w ∧ Readable o.store.cells p w.length w ∧
      Sees (o.node.htGet key) s (o.cells + K) (some (p, w.length)) := by
  rw [cells_store]
  exact htGet_sees (hkey.add_left _ |>.add_left _)

/-! ## The handlers -/

section Handlers

variable {req : RequestNode} {value : RespRequest} (hreq : Shows K req value)

include hreq

theorem cmdPing_follows (hpos : 1 ≤ value.argc) :
    Follows layout (cmdPing o.node req) s o K (RedisInC.cmdPing (o.toCtx s) value) := by
  rw [cmdPing, RedisInC.cmdPing, hreq.argc_eq]
  by_cases hone : value.argc = 1
  · rw [if_pos hone, if_pos hone]
    exact ctx_replySimpleString_follows _
  · rw [if_neg hone, if_neg hone]
    exact ctx_replyBulk_follows ((hreq.arg 1 (by omega)).add_left _)

theorem cmdGet_follows (hargc : 2 ≤ value.argc) :
    Follows layout (cmdGet o.node req) s o K (RedisInC.cmdGet (o.toCtx s) value) := by
  rw [RedisInC.cmdGet]
  rcases lookup_cases o (hreq.arg 1 hargc) with ⟨hmiss, hsees⟩ | ⟨p, w, hhit, hlent, hsees⟩
  · simp only [show RedisInC.htGet (o.toCtx s).store (value.arg 1) = none from hmiss]
    exact hsees.bind ctx_replyNil_follows
  · simp only [show RedisInC.htGet (o.toCtx s).store (value.arg 1) = some w from hhit]
    exact hsees.bind (ctx_replyBulk_follows (hlent.add_right _))

theorem cmdSet_follows (hargc : 3 ≤ value.argc) :
    Follows layout (cmdSet o.node req) s o K (RedisInC.cmdSet (o.toCtx s) value) :=
  store_follows (fun ctx => ctx.replySimpleString (ascii "OK")) (hreq.arg 1 (by omega))
    (hreq.arg 2 hargc) fun _ _ => ctx_replySimpleString_follows _

/-- The slices of the loops over keys show the keys. -/
theorem keys_shown :
    List.Forall₂ (fun (key : SliceNode) k => Readable K key.bytes key.len k) req.keys value.keys := by
  rw [RequestNode.keys, RespRequest.keys, hreq.argc_eq, List.forall₂_map_left_iff,
    List.forall₂_map_right_iff, List.forall₂_same]
  intro i hi
  rw [List.mem_range'_1] at hi
  exact hreq.arg i (by omega)

omit hreq in
/-- The loop of `cmd_del`. -/
theorem delKeys_follows {t : OwnedTable} {keys : List SliceNode} {ks : List Bytes}
    (hkeys : List.Forall₂ (fun (key : SliceNode) k => Readable K key.bytes key.len k) keys ks)
    (deleted : ℤ) :
    Follows OwnedTable.layout (delKeys keys deleted t.node) s t K
      ((RedisInC.delKeys ks deleted t.toTable).1, (RedisInC.delKeys ks deleted t.toTable).2,
        s.heap) := by
  induction hkeys generalizing t s deleted with
  | nil => exact Follows.pure deleted
  | @cons key k keys ks hkey hkeys ih =>
    refine (htDel_follows hkey).bind fun t' s' hr => ?_
    obtain ⟨htable, hheap⟩ : (RedisInC.htDel t.toTable k).2 = t'.toTable ∧ s.heap = s'.heap :=
      Prod.ext_iff.mp hr
    rw [RedisInC.delKeys, htable, hheap]
    exact ih _

theorem cmdDel_follows :
    Follows layout (cmdDel o.node req) s o K (RedisInC.cmdDel (o.toCtx s) value) := by
  refine on_store (delKeys_follows ((keys_shown hreq).imp fun _ _ h => h.add_left _) 0)
    fun t' s' hr => ?_
  have htable : (RedisInC.delKeys value.keys 0 o.store.toTable).2 = t'.toTable := congrArg Prod.fst hr
  have hheap : s.heap = s'.heap := congrArg Prod.snd hr
  rw [RedisInC.cmdDel, toCtx]
  simp only [htable, hheap]
  exact ctx_replyInteger_follows _

omit hreq in
/-- The loop of `cmd_exists`. -/
theorem countKeys_sees {keys : List SliceNode} {ks : List Bytes}
    (hkeys : List.Forall₂ (fun (key : SliceNode) k => Readable K key.bytes key.len k) keys ks)
    (found : ℤ) :
    Sees (countKeys keys found o.node) s (o.cells + K)
      (RedisInC.countKeys ks found o.store.toTable) := by
  induction hkeys generalizing found with
  | nil => exact Sees.pure
  | @cons key k keys ks hkey hkeys ih =>
    rw [RedisInC.countKeys]
    rcases lookup_cases o hkey with ⟨hmiss, hsees⟩ | ⟨p, w, hhit, -, hsees⟩
    · rw [hmiss]
      exact hsees.andThen (ih _)
    · rw [hhit]
      exact hsees.andThen (ih _)

theorem cmdExists_follows :
    Follows layout (cmdExists o.node req) s o K (RedisInC.cmdExists (o.toCtx s) value) :=
  (countKeys_sees (keys_shown hreq) 0).bind (ctx_replyInteger_follows _)

omit hreq in
theorem cmdCommand_follows :
    Follows layout (cmdCommand o.node req) s o K (RedisInC.cmdCommand (o.toCtx s) value) :=
  reply_follows (replyArrayHeader_follows 0)

omit hreq in
theorem parseInt64_sees {F : Cells Addr Block} {p : Pointer} {n : ℕ} {bs : Bytes}
    (h : Readable F p n bs) : Sees (parseInt64 p n) s F (RedisInC.parseInt64 bs) :=
  (readBytes_sees h).andThen Sees.pure

omit hreq in
/-- What is printed into a local array, if it fits. -/
theorem readable_printed {F : Cells Addr Block} {text : Bytes} (hfits : ¬ text.length ≥ 24) :
    Readable F (.here (snprintf 24 text)) text.length ((snprintf 24 text).take text.length) := by
  refine .here ?_
  rw [snprintf, List.length_take]
  omega

omit hreq in
theorem incrbyFrom_follows (hkey : Readable K key.bytes key.len k) (delta cur : ℤ) :
    Follows layout (incrbyFrom o.node key delta cur) s o K
      (if (delta > 0 ∧ cur > INT64_MAX - delta) ∨ (delta < 0 ∧ cur < INT64_MIN - delta) then
        (o.toCtx s).replyError (ascii "ERR increment or decrement would overflow")
      else
        let text := DecimalText.intText (cur + delta)
        if text.length ≥ 24 then (o.toCtx s).replyError (ascii "ERR internal format error")
        else
          let r := (o.toCtx s).htSet k ((snprintf 24 text).take text.length)
          if r.1 ≠ 0 then r.2.replyError (ascii "ERR out of memory")
          else r.2.replyInteger (cur + delta)) := by
  rw [incrbyFrom]
  by_cases hover : (delta > 0 ∧ cur > INT64_MAX - delta) ∨ (delta < 0 ∧ cur < INT64_MIN - delta)
  · rw [if_pos hover, if_pos hover]
    exact ctx_replyError_follows _
  · rw [if_neg hover, if_neg hover]
    by_cases hlong : (DecimalText.intText (cur + delta)).length ≥ 24
    · simp only [if_pos hlong]
      exact ctx_replyError_follows _
    · simp only [if_neg hlong]
      exact store_follows (fun ctx => ctx.replyInteger (cur + delta)) hkey
        (readable_printed hlong) fun _ _ => ctx_replyInteger_follows _

omit hreq in
/-- **`incrby_op`**: the current value is parsed where the store has it. -/
theorem incrbyOp_follows (hkey : Readable K key.bytes key.len k) (delta : ℤ) :
    Follows layout (incrbyOp o.node key delta) s o K (RedisInC.incrbyOp (o.toCtx s) k delta) := by
  rw [RedisInC.incrbyOp]
  rcases lookup_cases o hkey with ⟨hmiss, hsees⟩ | ⟨p, w, hhit, hlent, hsees⟩
  · rw [show RedisInC.htGet (o.toCtx s).store k = none from hmiss]
    exact hsees.bind (incrbyFrom_follows hkey delta 0)
  · rw [show RedisInC.htGet (o.toCtx s).store k = some w from hhit]
    refine hsees.bind ((parseInt64_sees ((hlent.add_right _).add_right _)).bind ?_)
    simp only
    cases RedisInC.parseInt64 w with
    | none => exact ctx_replyError_follows _
    | some cur => exact incrbyFrom_follows hkey delta cur

theorem cmdIncr_follows (hargc : 2 ≤ value.argc) :
    Follows layout (cmdIncr o.node req) s o K (RedisInC.cmdIncr (o.toCtx s) value) :=
  incrbyOp_follows (hreq.arg 1 hargc) 1

theorem cmdDecr_follows (hargc : 2 ≤ value.argc) :
    Follows layout (cmdDecr o.node req) s o K (RedisInC.cmdDecr (o.toCtx s) value) :=
  incrbyOp_follows (hreq.arg 1 hargc) (-1)

theorem cmdIncrby_follows (hargc : 3 ≤ value.argc) :
    Follows layout (cmdIncrby o.node req) s o K (RedisInC.cmdIncrby (o.toCtx s) value) := by
  refine follows_ctx ((parseInt64_sees ((hreq.arg 2 hargc).add_left _)).bind ?_)
  rw [RedisInC.cmdIncrby]
  cases RedisInC.parseInt64 (value.arg 2) with
  | none => exact ctx_replyError_follows _
  | some delta => exact incrbyOp_follows (hreq.arg 1 (by omega)) delta

theorem cmdDecrby_follows (hargc : 3 ≤ value.argc) :
    Follows layout (cmdDecrby o.node req) s o K (RedisInC.cmdDecrby (o.toCtx s) value) := by
  refine follows_ctx ((parseInt64_sees ((hreq.arg 2 hargc).add_left _)).bind ?_)
  rw [RedisInC.cmdDecrby]
  cases RedisInC.parseInt64 (value.arg 2) with
  | none => exact ctx_replyError_follows _
  | some delta =>
    simp only
    by_cases hmin : delta = INT64_MIN
    · rw [if_pos hmin, if_pos hmin]
      exact ctx_replyError_follows _
    · rw [if_neg hmin, if_neg hmin]
      exact incrbyOp_follows (hreq.arg 1 (by omega)) (-delta)

theorem cmdStrlen_follows (hargc : 2 ≤ value.argc) :
    Follows layout (cmdStrlen o.node req) s o K (RedisInC.cmdStrlen (o.toCtx s) value) := by
  rw [RedisInC.cmdStrlen]
  rcases lookup_cases o (hreq.arg 1 hargc) with ⟨hmiss, hsees⟩ | ⟨p, w, hhit, -, hsees⟩
  · simp only [show RedisInC.htGet (o.toCtx s).store (value.arg 1) = none from hmiss]
    exact hsees.bind (ctx_replyInteger_follows _)
  · simp only [show RedisInC.htGet (o.toCtx s).store (value.arg 1) = some w from hhit]
    exact hsees.bind (ctx_replyInteger_follows _)

theorem cmdSetnx_follows (hargc : 3 ≤ value.argc) :
    Follows layout (cmdSetnx o.node req) s o K (RedisInC.cmdSetnx (o.toCtx s) value) := by
  rw [RedisInC.cmdSetnx]
  have hkey := hreq.arg 1 (by omega)
  change Follows _ _ _ _ _ (if (RedisInC.htGet o.store.toTable (value.arg 1)).isSome then _ else _)
  rcases lookup_cases o hkey with ⟨hmiss, hsees⟩ | ⟨p, w, hhit, -, hsees⟩
  · rw [hmiss]
    exact hsees.bind (store_follows (fun ctx => ctx.replyInteger 1) hkey (hreq.arg 2 hargc)
      fun _ _ => ctx_replyInteger_follows 1)
  · rw [hhit]
    exact hsees.bind (ctx_replyInteger_follows _)

omit hreq in
theorem cmdDbsize_follows :
    Follows layout (cmdDbsize o.node req) s o K (RedisInC.cmdDbsize (o.toCtx s) value) :=
  ctx_replyInteger_follows _

omit hreq in
/-- `FLUSHDB` frees what the store owns. -/
theorem cmdFlushdb_follows :
    Follows layout (cmdFlushdb o.node req) s o K (RedisInC.cmdFlushdb (o.toCtx s) value) := by
  refine follows_ctx ?_
  rw [cells_store]
  refine (htDestroy_ends rfl).bind ?_
  rintro n s' F' ⟨rfl, rfl, -⟩
  have hreply := @ctx_replySimpleString_follows s' K ⟨OwnedTable.empty, o.out⟩ (ascii "OK")
  rw [Follows, show layout.cells ⟨OwnedTable.empty, o.out⟩ + K = o.out.cells + K by
    rw [layout]; simp only [OwnedCtx.cells, OwnedTable.cells_empty, zero_add]] at hreply
  exact hreply

omit hreq in
theorem copyAny_ends {F G : Cells Addr Block} {a : Addr} {data bs : Bytes} {pos n : ℕ} {src : Pointer}
    (h : F = cell a (.bytes data) + G) (hsrc : Readable G src n bs) (hle : pos + n ≤ data.length) :
    Ends (copyAny a pos src n) s F fun _ s' F' =>
      s' = s ∧ F' = cell a (.bytes (RedisInC.memcpy data pos bs)) + G := by
  rw [copyAny]
  by_cases hpos : n > 0
  · rw [if_pos hpos]
    exact memcpy_ends h hsrc hpos hle
  · rw [if_neg hpos]
    obtain rfl : bs = [] := List.length_eq_zero_iff.mp (by rw [hsrc.length_eq]; omega)
    rw [RedisInC.memcpy, List.append_nil, List.length_nil, Nat.add_zero, List.take_append_drop]
    exact Ends.pure ⟨rfl, h⟩

omit hreq in
/-- Two strings copied one behind the other. -/
theorem memcpy_twice (data x y : Bytes) :
    ∃ pad, RedisInC.memcpy (RedisInC.memcpy data 0 x) x.length y = x ++ y ++ pad := by
  refine ⟨data.drop (x.length + y.length), ?_⟩
  simp only [RedisInC.memcpy, List.take_zero, List.nil_append, Nat.zero_add, List.take_left,
    List.drop_append, List.drop_of_length_le (Nat.le_add_right x.length y.length),
    Nat.add_sub_cancel_left, List.drop_drop]

omit hreq in
/-- **`APPEND` to a value.** The scratch array is gone at the end, also if the store
fails. -/
theorem appendTo_follows {old : Bytes} {p : Pointer} {w : SliceNode}
    (hkey : Readable K key.bytes key.len k) (hw : Readable K w.bytes w.len v)
    (hold : Readable o.store.cells p old.length old) :
    Follows layout (appendTo o.node key w p old.length) s o K
      (if v.length > SIZE_MAX - old.length then
        (o.toCtx s).replyError (ascii "ERR string exceeds maximum allowed size")
      else
        let newlen := old.length + v.length
        let m := (o.toCtx s).malloc (if newlen = 0 then 1 else newlen)
        if m.1 then
          let r := m.2.htSet k (old ++ v)
          if r.1 ≠ 0 then r.2.replyError (ascii "ERR out of memory")
          else r.2.replyInteger newlen
        else m.2.replyError (ascii "ERR out of memory")) := by
  rw [appendTo, hw.length_eq]
  by_cases hmax : w.len > SIZE_MAX - old.length
  · rw [if_pos hmax, if_pos hmax]
    exact ctx_replyError_follows _
  · rw [if_neg hmax, if_neg hmax]
    refine follows_ctx ((malloc_ends _).bind ?_)
    rintro r s' F' (⟨hm, tmp, rfl, rfl⟩ | ⟨hm, rfl, rfl⟩)
    · have hmalloc : (o.toCtx s).malloc (if old.length + w.len = 0 then 1 else old.length + w.len) =
          (true, o.toCtx s') :=
        congrArg (fun r : Bool × Heap => (r.1, (⟨o.store.toTable, o.out.buf, r.2⟩ : CommandCtx))) hm
      have hsize : old.length + w.len ≤ ((List.range (if old.length + w.len = 0 then 1
          else old.length + w.len)).map s.heap.fresh).length := by
        rw [List.length_map, List.length_range]
        split <;> omega
      simp only [hmalloc, if_true]
      refine (copyAny_ends rfl ((hold.add_right _).add_right _) (by omega)).bind ?_
      rintro - s'' F' ⟨rfl, rfl⟩
      have hfirst : ∀ data : Bytes, old.length ≤ data.length →
          (RedisInC.memcpy data 0 old).length = data.length :=
        fun data hle => length_memcpy (by omega)
      refine (copyAny_ends rfl (hw.add_left _) (by rw [hfirst _ (by omega)]; omega)).bind ?_
      rintro - s'' F' ⟨rfl, rfl⟩
      -- the scratch array holds the concatenation
      obtain ⟨pad, hpad⟩ := memcpy_twice ((List.range (if old.length + w.len = 0 then 1
        else old.length + w.len)).map s.heap.fresh) old v
      have hread : Readable (cell tmp (.bytes (old ++ v ++ pad)) + K) (.heap tmp 0)
          (old.length + w.len) (old ++ v) := by
        rw [← hw.length_eq, ← List.length_append]
        exact .start pad (by simp [cell])
      rw [hpad, add_left_comm]
      refine Ends.bind (ctx_htSet_follows (hkey.add_left _) hread) ?_
      rintro ⟨rc, n⟩ s'' F' ⟨o', rfl, rfl, hr⟩
      simp only [hr]
      have hreply := @replyStored_follows s'' (cell tmp (.bytes (old ++ v ++ pad)) + K) o'
        (rc, o'.toCtx s'') rfl (fun ctx => ctx.replyInteger ((old.length + w.len : ℕ) : ℤ))
        (fun ctx => ctx.replyInteger ((old.length + w.len : ℕ) : ℤ)) (ctx_replyInteger_follows _)
      refine Ends.bind hreply ?_
      rintro ⟨rc, n⟩ s₃ F' ⟨o₂, rfl, rfl, hr₂⟩
      refine (free_ends (add_left_comm _ _ _)).bind ?_
      rintro - s₄ F' ⟨rfl, rfl⟩
      exact Ends.pure ⟨o₂, rfl, rfl, hr₂⟩
    · have hmalloc : (o.toCtx s).malloc (if old.length + w.len = 0 then 1 else old.length + w.len) =
          (false, o.toCtx s') :=
        congrArg (fun r : Bool × Heap => (r.1, (⟨o.store.toTable, o.out.buf, r.2⟩ : CommandCtx))) hm
      simp only [hmalloc]
      exact ctx_replyError_follows _

theorem cmdAppend_follows (hargc : 3 ≤ value.argc) :
    Follows layout (cmdAppend o.node req) s o K (RedisInC.cmdAppend (o.toCtx s) value) := by
  rw [RedisInC.cmdAppend]
  have hkey := hreq.arg 1 (by omega)
  have hval := hreq.arg 2 hargc
  rcases lookup_cases o hkey with ⟨hmiss, hsees⟩ | ⟨p, w, hhit, hlent, hsees⟩
  · rw [show RedisInC.htGet (o.toCtx s).store (value.arg 1) = none from hmiss]
    refine hsees.bind ?_
    simp only [hval.length_eq]
    exact store_follows (fun ctx => ctx.replyInteger (req.args 2).len) hkey hval
      fun _ _ => ctx_replyInteger_follows _
  · rw [show RedisInC.htGet (o.toCtx s).store (value.arg 1) = some w from hhit]
    exact hsees.bind (appendTo_follows hkey hval hlent)

omit hreq in
/-- The snapshot of a value is a copy in an array of its own. -/
theorem takeSnapshot_ends {old : Bytes} {p : Pointer} {F : Cells Addr Block}
    (hold : Readable F p old.length old) :
    Ends (takeSnapshot (some (p, old.length))) s F fun r s' F' =>
      ((if old.length > 0 then (o.toCtx s).malloc old.length else (true, o.toCtx s)) =
          (true, o.toCtx s') ∧
        ∃ snapshot, r = some snapshot ∧ F' = arrayCells snapshot old + F ∧
          Readable (arrayCells snapshot old) (startOf snapshot) old.length old) ∨
      ((if old.length > 0 then (o.toCtx s).malloc old.length else (true, o.toCtx s)) =
          (false, o.toCtx s') ∧ r = none ∧ F' = F) := by
  rw [takeSnapshot]
  by_cases hpos : old.length > 0
  · rw [if_pos hpos, if_pos hpos]
    have hvalue : ∀ (ok : Bool) (s' : Allocator), s.heap.malloc old.length = (ok, s'.heap) →
        (o.toCtx s).malloc old.length = (ok, o.toCtx s') := fun ok s' hm =>
      congrArg (fun r : Bool × Heap => (r.1, (⟨o.store.toTable, o.out.buf, r.2⟩ : CommandCtx))) hm
    refine (malloc_ends old.length).bind ?_
    rintro r s' F' (⟨hm, a, rfl, rfl⟩ | ⟨hm, rfl, rfl⟩)
    · have hlen : ((List.range old.length).map s.heap.fresh).length = old.length := by
        rw [List.length_map, List.length_range]
      refine (memcpy_ends rfl hold hpos (by omega)).bind ?_
      rintro - s'' F' ⟨rfl, rfl⟩
      have hcopy : RedisInC.memcpy ((List.range old.length).map s.heap.fresh) 0 old = old := by
        rw [RedisInC.memcpy, List.take_zero, List.nil_append, Nat.zero_add,
          List.drop_of_length_le (Nat.le_of_eq hlen), List.append_nil]
      refine Ends.pure (Or.inl ⟨hvalue true _ hm, some a, rfl, by rw [hcopy, arrayCells], ?_⟩)
      exact .start [] (by simp [arrayCells, cell])
    · exact Ends.pure (Or.inr ⟨hvalue false _ hm, rfl, rfl⟩)
  · rw [if_neg hpos, if_neg hpos]
    obtain rfl : old = [] := List.length_eq_zero_iff.mp (by omega)
    exact Ends.pure (Or.inl ⟨rfl, none, rfl, (zero_add F).symm, .empty _⟩)

omit hreq in
/-- **`GETSET` behind the snapshot.** The array of the old value is freed by the store, and
what is replied is the snapshot, which is gone at the end. -/
theorem replaceValue_ends {w : SliceNode} (hkey : Readable K key.bytes key.len k)
    (hw : Readable K w.bytes w.len v) {p : Pointer} {hit : Option Bytes} {snapshot : Option Addr}
    {data : Bytes} (hsnap : ∀ old, hit = some old →
      Readable (arrayCells snapshot data) (startOf snapshot) old.length old) :
    Ends (replaceValue o.node key w (hit.map fun old => (p, old.length)) snapshot) s
      (arrayCells snapshot data + (o.cells + K)) fun x s' F' => ∃ o' : OwnedCtx, x.2 = o'.node ∧
        F' = o'.cells + K ∧
        (if ((o.toCtx s).htSet k v).1 ≠ 0 then
          ((o.toCtx s).htSet k v).2.replyError (ascii "ERR out of memory")
        else (hit.elim CommandCtx.replyNil fun old ctx => ctx.replyBulk old)
          ((o.toCtx s).htSet k v).2) = (x.1, o'.toCtx s') := by
  rw [add_left_comm]
  refine Ends.bind (ctx_htSet_follows (hkey.add_left _) (hw.add_left _)) ?_
  rintro ⟨rc, n⟩ s' F' ⟨o', rfl, rfl, hr⟩
  simp only [hr]
  by_cases hrc : rc ≠ 0
  · rw [if_pos hrc, if_pos hrc]
    change Ends _ s' (o'.cells + _) _
    rw [add_left_comm]
    refine (freeArray_ends snapshot data).bind ?_
    rintro - s'' F' ⟨rfl, rfl⟩
    exact ctx_replyError_follows _
  · rw [if_neg hrc, if_neg hrc]
    have hreply : Follows layout (replyOld o'.node (hit.map fun old => (p, old.length)) snapshot) s'
        o' (arrayCells snapshot data + K)
        ((hit.elim CommandCtx.replyNil fun old ctx => ctx.replyBulk old) (o'.toCtx s')) := by
      cases hit with
      | none => exact ctx_replyNil_follows
      | some old => exact ctx_replyBulk_follows (((hsnap old rfl).add_right _).add_left _)
    refine Ends.bind hreply ?_
    rintro ⟨rc, n⟩ s'' F' ⟨o₂, rfl, rfl, hr₂⟩
    change Ends _ s'' (o₂.cells + _) _
    rw [add_left_comm]
    refine (freeArray_ends snapshot data).bind ?_
    rintro - s₃ F' ⟨rfl, rfl⟩
    exact Ends.pure ⟨o₂, rfl, rfl, hr₂⟩

theorem cmdGetset_follows (hargc : 3 ≤ value.argc) :
    Follows layout (cmdGetset o.node req) s o K (RedisInC.cmdGetset (o.toCtx s) value) := by
  rw [RedisInC.cmdGetset]
  have hkey := hreq.arg 1 (by omega)
  have hval := hreq.arg 2 hargc
  rcases @lookup_cases s K (req.args 1) (value.arg 1) o hkey with
    ⟨hmiss, hsees⟩ | ⟨p, w, hhit, hlent, hsees⟩
  · simp only [show RedisInC.htGet (o.toCtx s).store (value.arg 1) = none from hmiss]
    have hrest := @replaceValue_ends s K o _ _ _ _ hkey hval .null none none [] fun _ h => by cases h
    rw [arrayCells, zero_add] at hrest
    exact hsees.bind hrest
  · simp only [show RedisInC.htGet (o.toCtx s).store (value.arg 1) = some w from hhit,
      Option.isSome_some, Option.getD_some, true_and]
    refine hsees.bind ((takeSnapshot_ends (o := o) ((hlent.add_right _).add_right _)).bind ?_)
    rintro r s' F' (⟨hm, snapshot, rfl, rfl, hsnap⟩ | ⟨hm, rfl, rfl⟩)
    · rw [hm]
      have hold : ∀ old, some w = some old →
          Readable (arrayCells snapshot w) (startOf snapshot) old.length old := by
        rintro old ⟨⟩
        exact hsnap
      exact @replaceValue_ends s' K o _ _ _ _ hkey hval p (some w) snapshot w hold
    · rw [hm]
      exact ctx_replyError_follows _

omit hreq in
/-- The data of the callback of `cmd_keys`, and the memory it works on. -/
def KeysRel (pattern : Pointer) (plen : ℕ) (pat : Bytes) (kc : KeysNode) (x : KeysCtx)
    (s : Allocator) (X : Cells Addr Block) : Prop :=
  ∃ b : OwnedBuffer, kc = ⟨b.node, pattern, plen, x.matched, x.write, x.emitFailed⟩ ∧ X = b.cells ∧
    x.out = b.buf ∧ x.heap = s.heap ∧ x.pattern = pat

omit hreq in
theorem globMatch_sees {F : Cells Addr Block} {p q : Pointer} {m n : ℕ} {pat str : Bytes}
    (hp : Readable F p m pat) (hq : Readable F q n str) :
    Sees (globMatch p m q n) s F (RedisInC.globMatch pat str) :=
  (readBytes_sees hp).andThen ((readBytes_sees hq).andThen Sees.pure)

omit hreq in
/-- **The callback of `cmd_keys`** matches a key where the store has it, and appends it from
there. -/
theorem keysCb_calls {G : Cells Addr Block} {pattern : Pointer} {plen : ℕ} {pat : Bytes}
    (hpat : Readable G pattern plen pat) :
    Calls G keysCb RedisInC.keysCb (KeysRel pattern plen pat) := by
  rintro X key val k v kc x s hkey - ⟨b, rfl, rfl, hout, hheap, rfl⟩
  rw [RedisInC.keysCb]
  refine (globMatch_sees (hpat.add_right _) (hkey.add_right _)).bind ?_
  cases RedisInC.globMatch x.pattern k with
  | false => exact Ends.pure ⟨rfl, b.cells, rfl, b, rfl, rfl, hout, hheap, rfl⟩
  | true =>
    cases hwrite : x.write with
    | false => exact Ends.pure ⟨rfl, b.cells, rfl, b, by simp, rfl, hout, hheap, rfl⟩
    | true =>
      simp only [Bool.not_true, Bool.false_eq_true, if_false, if_true, hout, hheap]
      rw [add_comm]
      refine Ends.bind (replyBulk_follows hkey) ?_
      rintro ⟨rc, n⟩ s' F' ⟨b', rfl, rfl, hr⟩
      simp only [hr]
      by_cases hrc : rc ≠ 0
      · simp only [if_pos hrc]
        exact Ends.pure ⟨rfl, b'.cells, add_comm _ _, b', rfl, rfl, rfl, rfl, rfl⟩
      · simp only [if_neg hrc]
        exact Ends.pure ⟨rfl, b'.cells, add_comm _ _, b', rfl, rfl, rfl, rfl, rfl⟩

omit hreq in
/-- One pass of `cmd_keys`. -/
theorem keysPass_ends {pattern : Pointer} {plen : ℕ} {pat : Bytes} (hpat : Readable K pattern plen pat)
    (x : KeysCtx) (hout : x.out = o.out.buf) (hheap : x.heap = s.heap) (hx : x.pattern = pat) :
    Ends (htScan o.store.node keysCb ⟨o.out.node, pattern, plen, x.matched, x.write, x.emitFailed⟩) s
      (o.cells + K) fun r s' F' => ∃ (b : OwnedBuffer) (x' : KeysCtx),
        x' = (RedisInC.htScan o.store.toTable RedisInC.keysCb x).2 ∧
        r.2 = ⟨b.node, pattern, plen, x'.matched, x'.write, x'.emitFailed⟩ ∧
        F' = cells ⟨o.store, b⟩ + K ∧ x'.out = b.buf ∧ x'.heap = s'.heap ∧ x'.pattern = pat := by
  have hcells : ∀ b : OwnedBuffer, cells ⟨o.store, b⟩ + K = o.store.cells + K + b.cells :=
    fun b => add_right_comm ..
  rw [hcells]
  refine (htScan_ends (keysCb_calls (hpat.add_left _)) ⟨o.out, rfl, rfl, hout, hheap, hx⟩).mono ?_
  rintro r s' F' ⟨X', rfl, -, b, hr, rfl, hrest⟩
  exact ⟨b, _, rfl, hr, (hcells b).symm, hrest⟩

/-- **`KEYS`**: the store is walked twice, while the buffer grows. -/
theorem cmdKeys_follows (hargc : 2 ≤ value.argc) :
    Follows layout (cmdKeys o.node req) s o K (RedisInC.cmdKeys (o.toCtx s) value) := by
  have hpat := hreq.arg 1 hargc
  refine follows_ctx ((keysPass_ends hpat ⟨o.out.buf, s.heap, value.arg 1, 0, false, false⟩ rfl rfl
    rfl).bind ?_)
  rintro ⟨n, kc⟩ s' F' ⟨b, x, hx, rfl, rfl, hout, hheap, hpattern⟩
  have hheader := @replyArrayHeader_follows s' (o.store.cells + K) b x.matched
  simp only [RedisInC.cmdKeys, toCtx, ← hx]
  rw [cells_out]
  refine Ends.bind hheader ?_
  rintro ⟨rc, n⟩ s'' F'' ⟨b', rfl, rfl, hr⟩
  rw [hout, hheap, hr]
  change Ends _ s'' (b'.cells + (o.store.cells + K)) _
  rw [← cells_out ⟨o.store, b'⟩ K]
  by_cases hrc : rc ≠ 0
  · simp only [if_pos hrc]
    exact Ends.pure ⟨⟨o.store, b'⟩, rfl, rfl, rfl⟩
  · simp only [if_neg hrc]
    refine (@keysPass_ends s'' K ⟨o.store, b'⟩ _ _ _ hpat
      ⟨b'.buf, s''.heap, x.pattern, x.matched, true, x.emitFailed⟩ rfl rfl hpattern).bind ?_
    rintro ⟨n, kc⟩ s₃ F₃ ⟨b₂, x₂, hx₂, rfl, rfl, hout₂, hheap₂, -⟩
    refine Ends.pure ⟨⟨o.store, b₂⟩, rfl, rfl, ?_⟩
    have hpass : (RedisInC.htScan o.store.toTable RedisInC.keysCb ⟨(OwnedBuffer.layout.value b' s'').1,
        (OwnedBuffer.layout.value b' s'').2, x.pattern, x.matched, true, x.emitFailed⟩).2 = x₂ := hx₂.symm
    rw [hpass, hout₂, hheap₂]

/-- **Every handler** does in memory what it does on values, and leaves the blocks of the
store and of the buffer, and no other. -/
theorem run_follows {c : Cmd} (hpos : 1 ≤ value.argc) (hneeds : c.needs ≤ value.argc) :
    Follows layout (run c o.node req) s o K (c.run (o.toCtx s) value) := by
  cases c with
  | ping => exact cmdPing_follows hreq hpos
  | get => exact cmdGet_follows hreq hneeds
  | set => exact cmdSet_follows hreq hneeds
  | del => exact cmdDel_follows hreq
  | «exists» => exact cmdExists_follows hreq
  | command => exact @cmdCommand_follows s K o req value
  | incr => exact cmdIncr_follows hreq hneeds
  | decr => exact cmdDecr_follows hreq hneeds
  | incrby => exact cmdIncrby_follows hreq hneeds
  | decrby => exact cmdDecrby_follows hreq hneeds
  | strlen => exact cmdStrlen_follows hreq hneeds
  | append => exact cmdAppend_follows hreq hneeds
  | keys => exact cmdKeys_follows hreq hneeds
  | dbsize => exact @cmdDbsize_follows s K o req value
  | flushdb => exact @cmdFlushdb_follows s K o req value
  | setnx => exact cmdSetnx_follows hreq hneeds
  | getset => exact cmdGetset_follows hreq hneeds

end Handlers

/-! ## Dispatch -/

section Dispatch

variable {req : RequestNode} {value : RespRequest}

theorem sliceEqCi_sees {F : Cells Addr Block} {name : SliceNode} {bs : Bytes}
    (hname : Readable F name.bytes name.len bs) (upper : Bytes) :
    Sees (sliceEqCi name upper) s F (RedisInC.sliceEqCi bs upper) :=
  (readBytes_sees hname).andThen Sees.pure

theorem findCommand_sees {F : Cells Addr Block} {name : SliceNode} {bs : Bytes}
    (hname : Readable F name.bytes name.len bs) (table : List CmdEntry) :
    Sees (findCommand name table) s F (table.find? fun e => RedisInC.sliceEqCi bs e.name) := by
  induction table with
  | nil => exact Sees.pure
  | cons e es ih =>
    rw [List.find?_cons]
    refine (sliceEqCi_sees hname e.name).andThen ?_
    cases RedisInC.sliceEqCi bs e.name with
    | true => exact Sees.pure
    | false => exact ih

theorem lookup_sees {F : Cells Addr Block} {name : SliceNode} {bs : Bytes}
    (hname : Readable F name.bytes name.len bs) :
    Sees (findCommand name commands) s F (lookupCommand bs) := findCommand_sees hname commands

theorem unknownMessage_sees {F : Cells Addr Block} {name : SliceNode} {bs : Bytes}
    (hname : Readable F name.bytes name.len bs) :
    Sees (unknownMessage name) s F (RedisInC.unknownMessage bs) := by
  rw [RedisInC.unknownMessage, printableName, hname.length_eq]
  exact (readBytes_sees (hname.take (by split <;> omega))).andThen Sees.pure

/-- **`command_execute`** in memory does what it does on values: under every pattern of
allocation failures the return code, the reply and the store are the same, no block is
touched that is not there, and what is left is the blocks of the store and of the buffer. -/
theorem commandExecute_follows (hreq : Shows K req value) :
    Follows layout (commandExecute o.node req) s o K
      (RedisInC.commandExecute (o.toCtx s) value) := by
  rw [commandExecute, RedisInC.commandExecute, hreq.argc_eq]
  by_cases h0 : value.argc = 0
  · rw [if_pos h0, if_pos h0]
    exact ctx_replyError_follows _
  · rw [if_neg h0, if_neg h0]
    have hname : Readable (o.cells + K) (req.args 0).bytes (req.args 0).len (value.arg 0) :=
      (hreq.arg 0 (Nat.pos_of_ne_zero h0)).add_left _
    refine follows_ctx ((lookup_sees hname).bind ?_)
    cases hlookup : lookupCommand (value.arg 0) with
    | none => exact (unknownMessage_sees hname).bind (ctx_replyError_follows _)
    | some e =>
      simp only
      cases harity : e.badArity value.argc with
      | true => exact ctx_replyError_follows _
      | false =>
        exact run_follows hreq (Nat.pos_of_ne_zero h0) (needs_le_argc (lookupCommand_mem hlookup) harity)

end Dispatch

/-! ## Many requests -/

/-- What a caller of the dispatcher does. -/
inductive CommandCall : Type
  /-- `command_execute` -/
  | execute (req : RequestNode) (value : RespRequest)
  /-- the replies so far are read, and the buffer is reset -/
  | take

namespace CommandCall

/-- The arguments are there, outside of the store and of the buffer. -/
def Valid (K : Cells Addr Block) : CommandCall → Prop
  | execute req value => Shows K req value
  | take => True

/-- The call: a return code, and what is read. -/
def exec : CommandCall → CtxNode → Code ((Int × Bytes) × CtxNode)
  | execute req _, ctx => do
    let r ← commandExecute ctx req
    return ((r.1, []), r.2)
  | take, ctx => do
    let bytes ← readBytes (bytebufData ctx.out) (bytebufLen ctx.out)
    return ((0, bytes), ⟨ctx.store, bytebufReset ctx.out⟩)

/-- The call on values. -/
def means : CommandCall → CommandCtx → (Int × Bytes) × CommandCtx
  | execute _ value, ctx =>
    let r := RedisInC.commandExecute ctx value
    ((r.1, []), r.2)
  | take, ctx => ((0, ctx.out.live), ⟨ctx.store, RedisInC.bytebufReset ctx.out, ctx.heap⟩)

theorem exec_follows {call : CommandCall} (hcall : call.Valid K) (o : OwnedCtx) (s : Allocator) :
    Follows layout (call.exec o.node) s o K (call.means (layout.value o s)) := by
  cases call with
  | execute req value =>
    refine (commandExecute_follows hcall).bind fun o' s' hr => ?_
    have hvalue : means (.execute req value) (layout.value o s) =
        (((RedisInC.commandExecute (o.toCtx s) value).1, []), layout.value o' s') :=
      congrArg (fun r => (((RedisInC.commandExecute (o.toCtx s) value).1, []), r)) hr
    rw [hvalue]
    exact Follows.pure _
  | take =>
    have hlive : Readable (layout.cells o + K) (bytebufData o.out.node) (bytebufLen o.out.node)
        o.out.buf.live := (o.out.readable.add_left _).add_right _
    exact Follows.look (readBytes_sees hlive) (Ends.pure ⟨⟨o.store, o.out.reset⟩, rfl, rfl, rfl⟩)

/-- The calls keep the store and the buffer in order. -/
theorem means_inv (call : CommandCall) {ctx : CommandCtx} (hi : ctx.store.Inv ∧ ctx.out.Inv) :
    (call.means ctx).2.store.Inv ∧ (call.means ctx).2.out.Inv := by
  cases call with
  | execute req value =>
    refine ⟨?_, commandExecute_out value hi.2⟩
    change (RedisInC.commandExecute ctx value).2.store.Inv
    rcases commandExecute_store value hi.2 with heq | heq
    · rw [heq]
      exact replyTo_inv hi.1 value
    · rw [heq]
      exact hi.1
  | take => exact ⟨hi.1, hi.2.reset⟩

end CommandCall

/-- **Commands in memory.** Whatever requests are executed on one store, with arguments
anywhere outside of it and of the reply buffer, and whatever requests the allocator refuses: no
command touches a block that is not there, every one returns, replies and leaves the store as
on values, and there are three blocks for each key of the store and one for the buffer: what a
command allocates for itself is gone. Freeing the buffer and the store frees everything. -/
theorem commands_in_memory (calls : List CommandCall) (hcalls : ∀ call ∈ calls, call.Valid K) :
    Ends (runCalls CommandCall.exec calls ⟨htInit, bytebufInit⟩) s K fun r s' F' =>
      ∃ o : OwnedCtx, r.2 = o.node ∧ F' = o.cells + K ∧
        F'.card ≤ 3 * o.store.count + 1 + K.card ∧
        runValues CommandCall.means calls ⟨RedisInC.htInit, RedisInC.bytebufInit, s.heap⟩ =
          (r.1, o.toCtx s') ∧
        Ends (do let out ← bytebufFree r.2.out
                 let store ← htDestroy r.2.store
                 return CtxNode.mk store out) s' F' fun ctx _ F'' =>
          ctx = ⟨htInit, bytebufInit⟩ ∧ F'' = K := by
  have hrun := Follows.run (fun call hcall => CommandCall.exec_follows (hcalls call hcall))
    ⟨.empty, .empty⟩ s
  have hstart : layout.cells ⟨.empty, .empty⟩ + K = K := by
    change OwnedTable.empty.cells + OwnedBuffer.empty.cells + K = K
    rw [OwnedTable.cells_empty, zero_add]
    exact zero_add K
  rw [Follows, hstart] at hrun
  refine hrun.mono ?_
  rintro ⟨replies, ctx⟩ s' F' ⟨o, rfl, rfl, hr⟩
  have hinv : o.store.toTable.Inv := by
    have hkeeps := runValues_keeps (I := fun ctx : CommandCtx => ctx.store.Inv ∧ ctx.out.Inv)
      (fun call (_ : call ∈ calls) ctx hi => CommandCall.means_inv call hi)
      (show (layout.value ⟨.empty, .empty⟩ s).store.Inv ∧ (layout.value ⟨.empty, .empty⟩ s).out.Inv
        from ⟨Hashtable.inv_init, Bytebuf.inv_init⟩)
    rw [hr] at hkeeps
    exact hkeeps.1
  refine ⟨o, rfl, rfl, ?_, hr, ?_⟩
  · have hstore := card_cells hinv
    have hbuf : o.out.cells.card ≤ 1 := o.out.card_cells
    change (o.store.cells + o.out.cells + K).card ≤ _
    rw [Multiset.card_add, Multiset.card_add]
    omega
  · change Ends _ s' (o.cells + K) _
    rw [cells_out]
    refine (bytebufFree_ends o.out).bind ?_
    rintro out s'' F'' ⟨rfl, -, rfl⟩
    refine (htDestroy_ends rfl).bind ?_
    rintro store s₃ F₃ ⟨-, rfl, rfl⟩
    exact Ends.pure ⟨rfl, rfl⟩

/-- A request with its words in string literals. -/
def literalCall (words : List Bytes) : CommandCall :=
  .execute ⟨fun i => ⟨.here (words.getD i []), (words.getD i []).length⟩, words.length, 0⟩
    (commitArgs (words.map fun bytes => ⟨0, bytes⟩) 0)

theorem literalCall_valid (K : Cells Addr Block) (words : List Bytes) :
    (literalCall words).Valid K := by
  refine ⟨?_, rfl, fun i _ => ?_⟩
  · change words.length = (words.map _).length
    rw [List.length_map]
  · have harg : (commitArgs (words.map fun bytes => ⟨0, bytes⟩) 0).arg i = words.getD i [] := by
      refine (commitArgs_bytes _ _ i).trans ?_
      rw [List.map_map]
      exact congrArg (fun l => List.getD l i []) (List.map_id words)
    rw [harg]
    exact .all _

/-- The bytes of one array are stored under themselves as a key; the value is grown and
replaced, and all keys are listed. -/
def callerCalls : List CommandCall :=
  [.execute ⟨fun i => if i = 0 then ⟨.here (ascii "SET"), 3⟩ else ⟨.heap 7 0, 3⟩, 3, 0⟩
      (commitArgs [⟨0, ascii "SET"⟩, ⟨0, ascii "key"⟩, ⟨0, ascii "key"⟩] 0),
    literalCall [ascii "APPEND", ascii "key", ascii "s"],
    literalCall [ascii "GETSET", ascii "key", ascii "door"],
    literalCall [ascii "KEYS", ascii "*"], .take]

theorem commands_in_memory_caller :
    Ends (runCalls CommandCall.exec callerCalls ⟨htInit, bytebufInit⟩) .ample
        (cell 7 (.bytes (ascii "key"))) fun r s' F' =>
      r.1 = [(0, []), (0, []), (0, []), (0, []),
        (0, ascii "+OK\r\n:4\r\n$4\r\nkeys\r\n*1\r\n$3\r\nkey\r\n")] ∧
      (∃ o : OwnedCtx, r.2 = o.node ∧ F' = o.cells + cell 7 (.bytes (ascii "key")) ∧
        o.store.count = 1 ∧ F'.card ≤ 5) ∧
      Ends (do let out ← bytebufFree r.2.out
               let store ← htDestroy r.2.store
               return CtxNode.mk store out) s' F' fun ctx _ F'' =>
        ctx = ⟨htInit, bytebufInit⟩ ∧ F'' = cell 7 (.bytes (ascii "key")) := by
  have hkey : Readable (cell 7 (.bytes (ascii "key"))) (.heap 7 0) 3 (ascii "key") :=
    .heap (Multiset.mem_singleton_self _) (by decide)
  have hvalid : ∀ call ∈ callerCalls, call.Valid (cell 7 (.bytes (ascii "key"))) := by
    simp only [callerCalls, List.forall_mem_cons]
    refine ⟨⟨rfl, rfl, fun i hi => ?_⟩, literalCall_valid _ _, literalCall_valid _ _,
      literalCall_valid _ _, trivial, nofun⟩
    obtain rfl | rfl | rfl : i = 0 ∨ i = 1 ∨ i = 2 := by
      have hargc : i < 3 := hi
      omega
    · exact .all _
    · exact hkey
    · exact hkey
  refine (commands_in_memory (K := cell 7 (.bytes (ascii "key"))) (s := .ample) callerCalls
    hvalid).mono ?_
  rintro r s' F' ⟨o, hnode, hcells, hcard, hvalues, hfreed⟩
  have hreplies : (runValues CommandCall.means callerCalls
      ⟨RedisInC.htInit, RedisInC.bytebufInit, Heap.ample⟩).1 = [(0, []), (0, []), (0, []), (0, []),
        (0, ascii "+OK\r\n:4\r\n$4\r\nkeys\r\n*1\r\n$3\r\nkey\r\n")] := by decide +kernel
  have hcount : (runValues CommandCall.means callerCalls
      ⟨RedisInC.htInit, RedisInC.bytebufInit, Heap.ample⟩).2.store.count = 1 := by decide +kernel
  have hvalues' : runValues CommandCall.means callerCalls
      ⟨RedisInC.htInit, RedisInC.bytebufInit, Heap.ample⟩ = (r.1, o.toCtx s') := hvalues
  rw [hvalues'] at hreplies hcount
  have hone : o.store.count = 1 := hcount
  refine ⟨hreplies, ⟨o, hnode, hcells, hone, ?_⟩, hfreed⟩
  rw [hone] at hcard
  exact hcard

end RedisInC.Raw
