import RedisInC.ByteQueue
import RedisInC.Keyspace
import RedisInC.Readback

/-!
# `GETSET` and the old value

`GETSET` copies the old value, overwrites it and replies the copy. Each of the
three steps can fail, and the second is not taken back when the third does.

* `getset_old_value` — the old value is replied in full, or still stored, or the
  reply could not be appended in full and -1 is returned.
* `getset_loses_old_value` — the last case, without a failed allocation: the
  output buffer is full.
-/

namespace RedisInC

open Bytebuf

/-- **Where the old value is** after `GETSET`, whatever the fill level of the
output buffer and the outcomes of the allocations. -/
inductive OldValue (ctx : CommandCtx) (key old new : Bytes) (r : Int × CommandCtx) : Prop
  /-- it has been replied in full -/
  | replied (rc : r.1 = 0) (live_eq : r.2.out.live = ctx.out.live ++ bulkString old)
      (stored : htGet r.2.store key = some new)
  /-- an allocation has failed, the store is as it was, and what was appended is an
  error, or a part of it -/
  | kept (failed : r.2.heap.failed = true) (store_eq : r.2.store = ctx.store)
      (still : htGet r.2.store key = some old) {part : Bytes}
      (live_eq : r.2.out.live = ctx.out.live ++ part) (is_part : part <+: outOfMemory.encode)
  /-- it is overwritten, and the reply could not be appended in full, which is
  reported to the caller -/
  | cut (rc : r.1 = -1) (stored : htGet r.2.store key = some new) {part : Bytes}
      (live_eq : r.2.out.live = ctx.out.live ++ part) (is_part : part <+: encodeBulk old)
      (reason : r.2.heap.failed = true ∨
        BYTEBUF_MAX < ctx.out.live.length + (encodeBulk old).length)

/-- **`GETSET` and the old value**, for every store with a key that holds one. -/
theorem getset_old_value (ctx : CommandCtx) (req : RespRequest) (hi : ctx.store.Inv)
    (hout : ctx.out.Inv) {old : Bytes} (hold : htGet ctx.store (req.arg 1) = some old) :
    OldValue ctx (req.arg 1) old (req.arg 2) (cmdGetset ctx req) := by
  have hanswered := @cmdGetset_answered ctx req hout
  rw [answer, hold, bulkOrNil] at hanswered
  have hstored : htGet (ctx.store.put (req.arg 1) (req.arg 2)) (req.arg 1) = some (req.arg 2) := by
    rw [hi.htGet_put, if_pos rfl]
  generalize cmdGetset ctx req = r at hanswered
  cases hanswered with
  | served failed_eq ample fits outcome =>
    cases outcome with
    | done inv live_eq failed_eq ample =>
      -- the reply is in the buffer, so its length is printed as it is
      have hlen := inv.length_live_le
      have hmax : BYTEBUF_MAX ≤ SIZE_MAX := by decide
      have hbulk := length_encodeBulk_eq old
      rw [live_eq, List.length_append, Reply.encode, hbulk] at hlen
      rw [Reply.encode, encodeBulk_eq (by omega)] at live_eq
      exact .replied rfl live_eq hstored
    | short inv is_part live_eq refused ample =>
      exact .cut rfl hstored live_eq is_part (refused.imp_right And.left)
  | oom failed notSized outcome =>
    obtain ⟨part, hlive, hpart⟩ := outcome.appended
    refine .kept ?_ rfl hold hlive hpart
    rw [← Bool.not_eq_false]
    intro hf
    exact absurd (failed.symm.trans (outcome.failed_mono hf)) (by decide)

/-- `GETSET k new` -/
def getsetRequest : RespRequest := requestOf [ascii "GETSET", ascii "k", ascii "new"]

/-- A store that holds `old` under `k`. -/
def oldStore : Hashtable := htInit.put (ascii "k") (ascii "old")

theorem getset_old_value_replied :
    OldValue ⟨oldStore, bytebufInit, Heap.ample⟩ (ascii "k") (ascii "old") (ascii "new")
      (cmdGetset ⟨oldStore, bytebufInit, Heap.ample⟩ getsetRequest) :=
  getset_old_value ⟨oldStore, bytebufInit, Heap.ample⟩ getsetRequest (holdsOne_put _).1 inv_init
    (by decide)

/-- Into a full buffer nothing is replied, but the key is set. -/
theorem cmdGetset_full {ctx : CommandCtx} {req : RespRequest} (hout : ctx.out.Inv)
    (hfull : ctx.out.live.length = BYTEBUF_MAX) (ha : ctx.heap.Ample)
    (hs : Sized ctx.store req) :
    (cmdGetset ctx req).1 = -1 ∧ (cmdGetset ctx req).2.heap.failed = false ∧
      (cmdGetset ctx req).2.store = ctx.store.put (req.arg 1) (req.arg 2) := by
  have hanswered := @cmdGetset_answered ctx req hout
  rw [answer] at hanswered
  have hpos : 0 < (bulkOrNil (htGet ctx.store (req.arg 1))).encode.length := by
    cases htGet ctx.store (req.arg 1) with
    | none => decide
    | some old =>
      rw [bulkOrNil, Reply.encode, length_encodeBulk_eq]
      omega
  generalize cmdGetset ctx req = r at hanswered
  cases hanswered with
  | served failed_eq ample fits outcome =>
    have hf := (outcome.ample (ample ha)).2
    rcases outcome.complete_iff hf with ⟨-, -, hroom⟩ | ⟨hrc, -⟩
    · rw [hfull] at hroom
      exact absurd hroom (Nat.not_le_of_lt (Nat.lt_add_of_pos_right hpos))
    · exact ⟨hrc, hf, rfl⟩
  | oom failed notSized outcome => exact absurd hs (notSized ha)

theorem sized_getset : Sized oldStore getsetRequest :=
  @sized_words [ascii "GETSET", ascii "k", ascii "new"] (by decide) _ (commitArgs_bytes _ _) _
    (ascii "old") (by decide) fun _ _ hv => (holdsOne_put _).unique hv

/-- **The old value can be lost** without a failed allocation: it was `old`, now
`new` is stored, and nothing has been replied. -/
theorem getset_loses_old_value : ∃ (ctx : CommandCtx) (req : RespRequest),
    ctx.store.Inv ∧ ctx.out.Inv ∧ htGet ctx.store (req.arg 1) = some (ascii "old") ∧
    (cmdGetset ctx req).2.heap.failed = false ∧
    ¬ (((cmdGetset ctx req).1 = 0 ∧
          (cmdGetset ctx req).2.out.live = ctx.out.live ++ bulkString (ascii "old")) ∨
        htGet (cmdGetset ctx req).2.store (req.arg 1) = some (ascii "old")) := by
  obtain ⟨hrc, hf, hstore⟩ := @cmdGetset_full ⟨oldStore, fullBuf, Heap.ample⟩ getsetRequest
    fullBuf_inv length_fullBuf Heap.ample_ample sized_getset
  refine ⟨⟨oldStore, fullBuf, Heap.ample⟩, getsetRequest, (holdsOne_put _).1, fullBuf_inv,
    by decide, hf, ?_⟩
  rw [hrc, hstore]
  rintro (⟨hzero, -⟩ | hstill)
  · exact absurd hzero (by decide)
  · exact absurd hstill (by decide)

end RedisInC
