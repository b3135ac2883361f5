import RedisInC.CommandReply
import RedisInC.FiniteMap
import RedisInC.Reference

/-!
# Commands on many keys

`KEYS` walks the whole table twice, `DEL` changes it while walking its arguments,
`EXISTS` only looks. Each is described here by what it does to the map.

* `Gives` — a complete reply, as far as there is room and memory for it.
  `integerLine`, `bulkString` — the texts of replies, with their numbers as they
  are.
* `keys_lists_matches` — a complete `KEYS` reply lists the matching keys, each
  once, under a header that counts them.
* `del_exists_laws` — `DEL` and `EXISTS` on any list of keys, with repetitions and
  in any order.
-/

namespace RedisInC

open DecimalText Bytebuf FiniteMap

/-- With room for the text and no failed allocation, 0 is returned and the text
has been appended. -/
def Gives (ctx : CommandCtx) (text : Bytes) (r : Int × CommandCtx) : Prop :=
  ctx.out.live.length + text.length ≤ BYTEBUF_MAX → r.2.heap.failed = false →
    r.1 = 0 ∧ r.2.out.live = ctx.out.live ++ text

theorem gives_of_outcome {ctx ctx' : CommandCtx} {text : Bytes} {rc : Int} {h : Heap}
    (houtcome : AppendOutcome ctx.out text h (rc, ctx'.out, ctx'.heap)) :
    Gives ctx text (rc, ctx') := by
  intro hroom halloc
  rcases houtcome.complete_iff halloc with ⟨hrc, hlive, -⟩ | ⟨-, hmax⟩
  · exact ⟨hrc, hlive⟩
  · exact absurd hroom (Nat.not_le_of_lt hmax)

/-- The line of an integer reply. -/
def integerLine (n : ℤ) : Bytes := ascii ":" ++ intText n ++ CRLF

theorem encode_integer {n : ℤ} (hlow : INT64_MIN ≤ n) (hhigh : n ≤ INT64_MAX) :
    (Reply.integer n).encode = integerLine n := by
  rw [Reply.encode, int64_of_bounds hlow hhigh, integerLine]

/-- A small count is replied as it is. -/
theorem encode_count {n : ℕ} (hn : n ≤ BYTEBUF_MAX) :
    (Reply.integer n).encode = integerLine n := by
  apply encode_integer
  · simp only [INT64_MIN]
    omega
  · simp only [BYTEBUF_MAX, INT64_MAX] at hn ⊢
    omega

/-- A bulk string with its length as it is. -/
def bulkString (bytes : Bytes) : Bytes :=
  ascii "$" ++ natText bytes.length ++ CRLF ++ (bytes ++ CRLF)

theorem encodeBulk_eq {bytes : Bytes} (hlen : bytes.length ≤ SIZE_MAX) :
    encodeBulk bytes = bulkString bytes := by
  rw [encodeBulk, sizeT_of_le hlen, bulkString]

/-! ## `KEYS` -/

/-- The text of an array of keys: a header that counts them, and a bulk string
for each. -/
def keysText (keys : List Bytes) : Bytes :=
  ascii "*" ++ natText keys.length ++ CRLF ++ keys.flatMap bulkString

/-- A well-formed array prints its lengths as they are. -/
theorem encode_array {keys : List Bytes} (hwf : (Reply.array keys).WellFormed) :
    (Reply.array keys).encode = keysText keys := by
  obtain ⟨hcount, hkeys⟩ := hwf
  have hbulks : keys.map encodeBulk = keys.map bulkString := by
    apply List.map_congr_left
    intro key hmem
    exact encodeBulk_eq (hkeys key hmem)
  rw [Reply.encode, encodeArrayHeader, sizeT_of_le hcount, keysText, List.flatMap_def,
    List.flatMap_def, hbulks]

/-- The pattern of a single star matches every key. -/
theorem globMatch_star (key : Bytes) : globMatch (ascii "*") key = true := rfl

theorem matchingKeys_star {ht : Hashtable} (hi : ht.Inv) :
    (matchingKeys ht (ascii "*")).length = ht.count := by
  rw [matchingKeys, List.filter_eq_self.mpr fun key _ => globMatch_star key, List.length_map,
    hi.count_eq]

/-- **A complete `KEYS` reply.** Whatever the store, the pattern, the buffer and the
allocator: the store is the one it was; and if 0 is returned, what was appended is
a header `N` and `N` bulk strings, the keys that the pattern matches, each once. A
peer reads it as one array and stops right behind it. With the pattern `*` these
are as many as `DBSIZE` replies. -/
theorem keys_lists_matches (ctx : CommandCtx) (req : RespRequest) (hi : ctx.store.Inv)
    (hout : ctx.out.Inv) :
    (cmdKeys ctx req).2.store = ctx.store ∧
    ((cmdKeys ctx req).1 = 0 → ∃ keys : List Bytes,
      (cmdKeys ctx req).2.out.live = ctx.out.live ++ keysText keys ∧
      (∀ rest, readReply (keysText keys ++ rest) = some (.array keys, rest)) ∧
      keys.Nodup ∧
      (∀ key, key ∈ keys ↔
        (htGet ctx.store key).isSome = true ∧ globMatch (req.arg 1) key = true) ∧
      (req.arg 1 = ascii "*" → keys.length = ctx.store.count ∧
        (Reply.integer ctx.store.count).encode = integerLine keys.length)) := by
  obtain ⟨r, heq, houtcome⟩ := @cmdKeys_outcome ctx req hout
  rw [heq]
  refine ⟨rfl, fun hrc => ?_⟩
  obtain ⟨hnodup, hmem⟩ := matchingKeys_spec hi (req.arg 1)
  -- the reply is in the buffer, so it is no longer than a buffer
  have hinv := houtcome.inv
  rcases houtcome.rc with ⟨-, hlive⟩ | hneg
  · have hlen := hinv.length_live_le
    rw [hlive, List.length_append] at hlen
    have hwf := Reply.array_wellFormed (Nat.le_of_add_left_le hlen)
    have htext := encode_array hwf
    refine ⟨matchingKeys ctx.store (req.arg 1), hlive.trans (by rw [htext]), fun rest => ?_, hnodup,
      fun key => ?_, fun hstar => ?_⟩
    · rw [← htext]
      exact readReply_encode hwf rest
    · rw [hmem, hi.mem_toMap]
    · rw [hstar] at hlen ⊢
      have hcount := matchingKeys_star hi
      have hitems := (length_flatMap_encodeBulk (matchingKeys ctx.store (ascii "*"))).1
      rw [Reply.encode, List.length_append] at hlen
      rw [hcount] at hitems ⊢
      exact ⟨rfl, encode_count (by omega)⟩
  · have hrc' : r.1 = 0 := hrc
    exact absurd (hneg.symm.trans hrc') (by decide)

/-- A store with the keys `a` and `b`. -/
def storeAB : Hashtable := (htInit.put (ascii "a") (ascii "1")).put (ascii "b") (ascii "2")

theorem storeAB_inv : storeAB.Inv := ((Hashtable.inv_init.put _ _).1.put _ _).1

/-- `KEYS *` on a store of two keys. -/
theorem keys_lists_matches_two :
    (cmdKeys ⟨storeAB, bytebufInit, Heap.ample⟩ (requestOf [ascii "KEYS", ascii "*"])).1 = 0 ∧
      (cmdKeys ⟨storeAB, bytebufInit, Heap.ample⟩
        (requestOf [ascii "KEYS", ascii "*"])).2.store = storeAB ∧
      ∃ keys : List Bytes, keys.Nodup ∧ keys.length = 2 ∧ ascii "a" ∈ keys ∧ ascii "b" ∈ keys ∧
        (cmdKeys ⟨storeAB, bytebufInit, Heap.ample⟩
          (requestOf [ascii "KEYS", ascii "*"])).2.out.live = keysText keys ∧
        readReply (keysText keys) = some (.array keys, []) := by
  obtain ⟨hstore, hlists⟩ := keys_lists_matches ⟨storeAB, bytebufInit, Heap.ample⟩
    (requestOf [ascii "KEYS", ascii "*"]) storeAB_inv inv_init
  have hrc : (cmdKeys ⟨storeAB, bytebufInit, Heap.ample⟩
      (requestOf [ascii "KEYS", ascii "*"])).1 = 0 := by decide +kernel
  obtain ⟨keys, hlive, hread, hnodup, hmem, hstar⟩ := hlists hrc
  have hback := hread []
  rw [List.append_nil] at hback
  exact ⟨hrc, hstore, keys, hnodup, (hstar rfl).1, (hmem _).mpr (by decide),
    (hmem _).mpr (by decide), hlive, hback⟩

/-! ## `DEL` and `EXISTS` -/

/-- The listed keys that are present, each once. -/
def presentKeys (ht : Hashtable) (keys : List Bytes) : Finset Bytes :=
  keys.toFinset.filter fun key => (htGet ht key).isSome = true

/-- **The loop of `DEL` on a map**: it removes the listed keys, and counts each of
them once. -/
theorem refDel_eq (keys : List Bytes) (m : RefMap) :
    refDel keys m = ((keys.toFinset ∩ m.keys).card, eraseAll m keys) := by
  induction keys generalizing m with
  | nil => simp [refDel]
  | cons key keys ih =>
    have hsub : keys.toFinset ∩ (m.erase key).keys =
        ((insert key keys.toFinset) ∩ m.keys).erase key := by
      rw [Finmap.keys_erase]
      apply Finset.ext
      intro k
      simp only [Finset.mem_inter, Finset.mem_erase, Finset.mem_insert]
      tauto
    rw [refDel, ih, eraseAll_cons, List.toFinset_cons]
    simp only [hsub]
    congr 1
    by_cases hk : key ∈ m
    · have hmem : key ∈ (insert key keys.toFinset) ∩ m.keys := by
        rw [Finset.mem_inter]
        exact ⟨Finset.mem_insert_self .., Finmap.mem_keys.mpr hk⟩
      rw [if_pos hk, Nat.add_comm, Finset.card_erase_add_one hmem]
    · have hmem : key ∉ (insert key keys.toFinset) ∩ m.keys := by
        rw [Finset.mem_inter]
        exact fun h => hk (Finmap.mem_keys.mp h.2)
      rw [if_neg hk, Nat.zero_add, Finset.erase_eq_of_notMem hmem]

theorem presentKeys_eq {ht : Hashtable} (hi : ht.Inv) (keys : List Bytes) :
    presentKeys ht keys = keys.toFinset ∩ ht.toMap.keys := by
  apply Finset.ext
  intro key
  rw [presentKeys, Finset.mem_filter, Finset.mem_inter, Finmap.mem_keys, hi.mem_toMap]

/-- The loop of `DEL` on a table. -/
theorem delKeys_spec {ht : Hashtable} (hi : ht.Inv) (keys : List Bytes) :
    (delKeys keys 0 ht).1 = (presentKeys ht keys).card ∧ (delKeys keys 0 ht).2.Inv ∧
      (delKeys keys 0 ht).2.toMap = eraseAll ht.toMap keys := by
  obtain ⟨hcount, hmap⟩ := delKeys_eq hi keys 0
  rw [refDel_eq] at hcount hmap
  refine ⟨?_, (delKeys_inv hi keys 0).1, hmap⟩
  rw [hcount, zero_add, presentKeys_eq hi]

/-- What `DEL` owes to the keys it is given. -/
structure DelLaw (ctx : CommandCtx) (keys : List Bytes) (r : Int × CommandCtx) : Prop where
  /-- the table is in order -/
  inv : r.2.store.Inv
  /-- it replies how many of the listed keys there were, each counted once -/
  reply : Gives ctx (integerLine (presentKeys ctx.store keys).card) r
  /-- the store has lost as many entries -/
  count : r.2.store.count + (presentKeys ctx.store keys).card = ctx.store.count
  /-- none of the listed keys is there -/
  absent : ∀ key ∈ keys, htGet r.2.store key = none
  /-- every other key keeps its value -/
  kept : ∀ key, key ∉ keys → htGet r.2.store key = htGet ctx.store key

/-- What `EXISTS` owes to the keys it is given. -/
structure ExistsLaw (ctx : CommandCtx) (keys : List Bytes) (r : Int × CommandCtx) : Prop where
  /-- it replies at how many positions of the list there is a key that is present -/
  reply : Gives ctx (integerLine (keys.countP fun key => (htGet ctx.store key).isSome)) r
  /-- the store is the one it was -/
  store : r.2.store = ctx.store

theorem length_keys (req : RespRequest) : req.keys.length = req.argc - 1 := by
  rw [RespRequest.keys, List.length_map, List.length_range']

section Laws

variable {ctx : CommandCtx} {req : RespRequest}

theorem cmdDel_law (hi : ctx.store.Inv) (hout : ctx.out.Inv) (hargc : req.argc ≤ RESP_MAX_ARGC) :
    DelLaw ctx req.keys (cmdDel ctx req) := by
  obtain ⟨hdeleted, hinv, hmap⟩ := delKeys_spec hi req.keys
  refine ⟨hinv, ?_, ?_, fun key hmem => ?_, fun key hmem => ?_⟩
  · have hcard : (presentKeys ctx.store req.keys).card ≤ BYTEBUF_MAX := by
      have hle : (presentKeys ctx.store req.keys).card ≤ req.keys.length :=
        (Finset.card_filter_le _ _).trans (List.toFinset_card_le _)
      have hmax : RESP_MAX_ARGC ≤ BYTEBUF_MAX := by decide
      rw [length_keys] at hle
      omega
    rw [← encode_count hcard, ← hdeleted]
    exact gives_of_outcome (serializes_integer _ ctx.out ctx.heap hout)
  · have hcount : (delKeys req.keys 0 ctx.store).2.count = _ := hinv.count_eq_card
    change (delKeys req.keys 0 ctx.store).2.count + _ = _
    rw [hcount, hmap, hi.count_eq_card, presentKeys_eq hi, card_eraseAll]
  · change htGet (delKeys req.keys 0 ctx.store).2 key = none
    rw [hinv.htGet_eq, hmap, lookup_eraseAll, if_pos hmem]
  · change htGet (delKeys req.keys 0 ctx.store).2 key = htGet ctx.store key
    rw [hinv.htGet_eq, hmap, lookup_eraseAll, if_neg hmem, hi.htGet_eq]

theorem cmdExists_law (hi : ctx.store.Inv) (hout : ctx.out.Inv)
    (hargc : req.argc ≤ RESP_MAX_ARGC) : ExistsLaw ctx req.keys (cmdExists ctx req) := by
  have hfound : countKeys req.keys 0 ctx.store =
      (req.keys.countP fun key => (htGet ctx.store key).isSome : ℕ) := by
    rw [countKeys_eq hi, zero_add]
    congr 1
    apply List.countP_congr
    intro key _
    rw [decide_eq_true_iff, hi.mem_toMap]
  refine ⟨?_, rfl⟩
  have hle : (req.keys.countP fun key => (htGet ctx.store key).isSome) ≤ BYTEBUF_MAX := by
    have hlen := List.countP_le_length (p := fun key => (htGet ctx.store key).isSome)
      (l := req.keys)
    have hmax : RESP_MAX_ARGC ≤ BYTEBUF_MAX := by decide
    rw [length_keys] at hlen
    omega
  rw [← encode_count hle, ← hfound]
  exact gives_of_outcome (serializes_integer _ ctx.out ctx.heap hout)

/-- The reply of `DEL` depends on the count alone. -/
theorem cmdDel_perm (hi : ctx.store.Inv) {req' : RespRequest} (hperm : req'.keys.Perm req.keys) :
    (cmdDel ctx req').1 = (cmdDel ctx req).1 ∧
      (cmdDel ctx req').2.out = (cmdDel ctx req).2.out ∧
      (cmdDel ctx req').2.store.toMap = (cmdDel ctx req).2.store.toMap := by
  obtain ⟨hdeleted, -, hmap⟩ := delKeys_spec hi req.keys
  obtain ⟨hdeleted', -, hmap'⟩ := delKeys_spec hi req'.keys
  have hpresent : presentKeys ctx.store req'.keys = presentKeys ctx.store req.keys := by
    rw [presentKeys, presentKeys, List.toFinset_eq_of_perm _ _ hperm]
  have hsame : (delKeys req'.keys 0 ctx.store).1 = (delKeys req.keys 0 ctx.store).1 := by
    rw [hdeleted, hdeleted', hpresent]
  refine ⟨?_, ?_, ?_⟩
  · simp only [cmdDel, CommandCtx.replyInteger, CommandCtx.reply, hsame]
  · simp only [cmdDel, CommandCtx.replyInteger, CommandCtx.reply, hsame]
  · change (delKeys req'.keys 0 ctx.store).2.toMap = (delKeys req.keys 0 ctx.store).2.toMap
    rw [hmap, hmap', eraseAll_perm hperm]

/-- `EXISTS` does the same for the same keys in another order. -/
theorem cmdExists_perm (hi : ctx.store.Inv) {req' : RespRequest}
    (hperm : req'.keys.Perm req.keys) : cmdExists ctx req' = cmdExists ctx req := by
  rw [cmdExists, cmdExists, countKeys_eq hi, countKeys_eq hi, hperm.countP_eq]

end Laws

/-- **`DEL` and `EXISTS` on any list of keys.** The laws hold for every list, and
another order of the same keys changes neither reply nor the map that is left. -/
theorem del_exists_laws (ctx : CommandCtx) (req : RespRequest) (hi : ctx.store.Inv)
    (hout : ctx.out.Inv) (hargc : req.argc ≤ RESP_MAX_ARGC) :
    DelLaw ctx req.keys (cmdDel ctx req) ∧ ExistsLaw ctx req.keys (cmdExists ctx req) ∧
      ∀ req' : RespRequest, req'.keys.Perm req.keys →
        ((cmdDel ctx req').1 = (cmdDel ctx req).1 ∧
          (cmdDel ctx req').2.out = (cmdDel ctx req).2.out ∧
          (cmdDel ctx req').2.store.toMap = (cmdDel ctx req).2.store.toMap) ∧
        cmdExists ctx req' = cmdExists ctx req :=
  ⟨cmdDel_law hi hout hargc, cmdExists_law hi hout hargc,
    fun _ hperm => ⟨cmdDel_perm hi hperm, cmdExists_perm hi hperm⟩⟩

/-- `DEL b c b` and `EXISTS b c b`, and the same keys in another order. -/
theorem del_exists_laws_repeated :
    ((cmdDel ⟨storeAB, bytebufInit, Heap.ample⟩
          (requestOf [ascii "DEL", ascii "b", ascii "c", ascii "b"])).2.out.live = ascii ":1\r\n" ∧
        (cmdDel ⟨storeAB, bytebufInit, Heap.ample⟩
          (requestOf [ascii "DEL", ascii "b", ascii "c", ascii "b"])).2.store.count + 1 = 2 ∧
        htGet (cmdDel ⟨storeAB, bytebufInit, Heap.ample⟩
          (requestOf [ascii "DEL", ascii "b", ascii "c", ascii "b"])).2.store (ascii "a") =
            some (ascii "1")) ∧
      (cmdExists ⟨storeAB, bytebufInit, Heap.ample⟩
        (requestOf [ascii "EXISTS", ascii "b", ascii "c", ascii "b"])).2.out.live =
          ascii ":2\r\n" ∧
      (cmdDel ⟨storeAB, bytebufInit, Heap.ample⟩
          (requestOf [ascii "DEL", ascii "c", ascii "b", ascii "b"])).2.out =
        (cmdDel ⟨storeAB, bytebufInit, Heap.ample⟩
          (requestOf [ascii "DEL", ascii "b", ascii "c", ascii "b"])).2.out := by
  obtain ⟨hdel, -, hperm⟩ := del_exists_laws ⟨storeAB, bytebufInit, Heap.ample⟩
    (requestOf [ascii "DEL", ascii "b", ascii "c", ascii "b"]) storeAB_inv inv_init (by decide)
  obtain ⟨-, hexists, -⟩ := del_exists_laws ⟨storeAB, bytebufInit, Heap.ample⟩
    (requestOf [ascii "EXISTS", ascii "b", ascii "c", ascii "b"]) storeAB_inv inv_init (by decide)
  have hone : (presentKeys storeAB [ascii "b", ascii "c", ascii "b"]).card = 1 := by decide
  have hcount := hdel.count
  have hreply := (hdel.reply (by decide) (by decide)).2
  have hfound := (hexists.reply (by decide) (by decide)).2
  refine ⟨⟨hreply, hcount, ?_⟩, hfound, ?_⟩
  · exact (hdel.kept (ascii "a") (by decide)).trans (by decide)
  · exact (hperm (requestOf [ascii "DEL", ascii "c", ascii "b", ascii "b"]) (by decide)).1.2.1

end RedisInC
