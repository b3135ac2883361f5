import RedisInC.TableBlocks

/-!
# The hash table in memory does what the one on values does

Each function stays within the blocks the table owns and the arguments it is given, has the
result of its counterpart on values, and leaves exactly the blocks of the table that
results. `K` is memory that the table does not own; the arguments are there.

* `findEntry_sees`, `dupBytes_ends`, `delLoop_ends`, `freeChain_ends`, `scanChain_ends` — the
  loops.
* `htSet_follows`, `htGet_sees`, `htDel_follows`, `htDestroy_ends`, `htScan_ends` — the
  functions.
-/

namespace RedisInC.Raw

open BlockMemory OwnedTable

variable {s : Allocator} {F G K : Cells Addr Block} {t : OwnedTable} {l : List OwnedEntry}
  {key val : Pointer} {klen vlen : ℕ} {k v : Bytes}

/-- What it means for code to follow a function on tables. -/
theorem follows_table {α : Type} {c : Code (α × TableNode)} {r : α × Hashtable × Heap}
    (h : Ends c s (t.cells + K) fun x s' F' => ∃ t' : OwnedTable, x.2 = t'.node ∧
      F' = t'.cells + K ∧ r = (x.1, t'.toTable, s'.heap)) : Follows layout c s t K r := h

/-! ## Looking -/

theorem htHash_sees (hkey : Readable F key klen k) :
    Sees (htHash key klen) s F (RedisInC.htHash k) := (readBytes_sees hkey).andThen Sees.pure

theorem keysEqual_sees {a b : Pointer} {alen blen : ℕ} {x y : Bytes} (ha : Readable F a alen x)
    (hb : Readable F b blen y) : Sees (keysEqual a alen b blen) s F (RedisInC.keysEqual x y) := by
  rw [keysEqual, RedisInC.keysEqual, ← ha.length_eq, ← hb.length_eq]
  split
  · exact Sees.pure
  · split
    · exact Sees.pure
    · rw [ha.length_eq, hb.length_eq]
      exact (readBytes_sees ha).andThen ((readBytes_sees hb).andThen Sees.pure)

theorem mem_cells_node (e : OwnedEntry) (q : Option Addr) :
    (⟨e.addr, .entry (e.node q)⟩ : Σ _, Block) ∈ e.cells q := by
  simp [OwnedEntry.cells, cell]

theorem readable_key (e : OwnedEntry) (q : Option Addr) :
    Readable (e.cells q) (.heap e.keyAt 0) e.key.length e.key := by
  refine Readable.start e.keyPad ?_
  simp [OwnedEntry.cells, OwnedEntry.arrays, cell]

theorem readable_val (e : OwnedEntry) (q : Option Addr) :
    Readable (e.cells q) (.heap e.valAt 0) e.val.length e.val := by
  refine Readable.start e.valPad ?_
  simp [OwnedEntry.cells, OwnedEntry.arrays, cell]

/-- The entries of a chain and the memory they are in. -/
theorem cells_le {e : OwnedEntry} {es : List OwnedEntry} {q : Option Addr}
    (h : chainCells (e :: es) q ≤ F) : e.cells (headOr es q) ≤ F ∧ chainCells es q ≤ F := by
  rw [chainCells_cons] at h
  exact ⟨le_trans (Multiset.le_add_right _ _) h, le_trans (Multiset.le_add_left _ _) h⟩

/-- **The chain walk** finds the first entry with the key. -/
theorem findEntry_sees (hl : chainCells l none ≤ F) (hkey : Readable F key klen k) {fuel : ℕ}
    (hfuel : l.length ≤ fuel) :
    Sees (findEntry key klen fuel (headOr l none)) s F ((locate k l).map OwnedEntry.addr) := by
  induction l generalizing fuel with
  | nil =>
    cases fuel with
    | zero => exact Sees.pure
    | succ fuel => exact Sees.pure
  | cons e es ih =>
    obtain ⟨he, hes⟩ := cells_le hl
    rw [List.length_cons] at hfuel
    obtain ⟨fuel, rfl⟩ : ∃ n, fuel = n + 1 := ⟨fuel - 1, by omega⟩
    rw [locate, List.find?_cons]
    refine (loadEntry_sees (Multiset.mem_of_le he (mem_cells_node e _))).andThen ?_
    refine (keysEqual_sees ((readable_key e _).mono he) hkey).andThen ?_
    cases RedisInC.keysEqual e.key k with
    | true => exact Sees.pure
    | false => exact ih hes (Nat.le_of_succ_le_succ hfuel)

/-- The walk along the chain of the key. -/
theorem findEntry_table_sees (hkey : Readable (t.cells + K) key klen k) :
    Sees (findEntry key klen (t.cells + K).card (t.node.buckets (bucketIndex (RedisInC.htHash k)))) s
      (t.cells + K)
      ((locate k (t.chains (bucketIndex (RedisInC.htHash k)))).map OwnedEntry.addr) := by
  have hle : chainCells (t.chains (bucketIndex (RedisInC.htHash k))) none ≤ t.cells + K :=
    le_trans (t.chain_le _) (Multiset.le_add_right t.cells K)
  exact findEntry_sees hle hkey (length_le_card hle)

theorem htGet_eq_locate (t : OwnedTable) (k : Bytes) : RedisInC.htGet t.toTable k =
    (locate k (t.chains (bucketIndex (RedisInC.htHash k)))).map OwnedEntry.val :=
  findVal_locate ..

/-- **`ht_get`** lends the value of the key. -/
theorem htGet_sees (hkey : Readable (t.cells + K) key klen k) :
    (RedisInC.htGet t.toTable k = none ∧ Sees (htGet t.node key klen) s (t.cells + K) none) ∨
    ∃ p v, RedisInC.htGet t.toTable k = some v ∧ Readable t.cells p v.length v ∧
      Sees (htGet t.node key klen) s (t.cells + K) (some (p, v.length)) := by
  have hfind := @findEntry_table_sees s K t key klen k hkey
  rw [htGet_eq_locate]
  cases hloc : locate k (t.chains (bucketIndex (RedisInC.htHash k))) with
  | none =>
    rw [hloc] at hfind
    refine Or.inl ⟨rfl, (htHash_sees hkey).andThen ?_⟩
    exact Sees.blockCount.andThen (hfind.andThen Sees.pure)
  | some e =>
    rw [hloc] at hfind
    obtain ⟨l₁, l₂, hchain, -, -⟩ := locate_split hloc
    have hle : e.cells (headOr l₂ none) ≤ t.cells := by
      have hchain_le := t.chain_le (bucketIndex (RedisInC.htHash k))
      rw [hchain, chainCells_append] at hchain_le
      exact (cells_le (le_trans (Multiset.le_add_left _ _) hchain_le)).1
    have hnode := Multiset.mem_of_le (le_trans hle (Multiset.le_add_right t.cells K))
      (mem_cells_node e (headOr l₂ none))
    refine Or.inr ⟨.heap e.valAt 0, e.val, rfl, (readable_val e _).mono hle, ?_⟩
    refine (htHash_sees hkey).andThen (Sees.blockCount.andThen (hfind.andThen ?_))
    exact (loadEntry_sees hnode).andThen Sees.pure

/-! ## `ht_set` -/

/-- The bytes a pointer is read for. -/
theorem not_isNull (h : Readable F key klen k) (hlen : 0 < klen) : key.isNull = false := by
  cases h with
  | empty => cases hlen
  | heap block inside => rfl
  | here inside => rfl

/-- What `dup_bytes` can come to: a copy in a block of its own, or nothing. -/
theorem dupBytes_ends (hsrc : Readable F val vlen v) : Ends (dupBytes val vlen) s F fun r s' F' =>
    (RedisInC.dupBytes v s.heap = (some v, s'.heap) ∧
      ∃ a pad, r = some a ∧ F' = cell a (.bytes (v ++ pad)) + F) ∨
    (RedisInC.dupBytes v s.heap = (none, s'.heap) ∧ r = none ∧ F' = F) := by
  have hlen := hsrc.length_eq
  rw [dupBytes, RedisInC.dupBytes, hlen]
  refine (malloc_ends _).bind ?_
  rintro r s' F' (⟨hm, a, rfl, rfl⟩ | ⟨hm, rfl, rfl⟩)
  · rw [hm]
    by_cases h0 : vlen > 0
    · simp only [if_pos (show vlen > 0 ∧ ¬ val.isNull = true from
        ⟨h0, Bool.eq_false_iff.mp (not_isNull hsrc h0)⟩), if_neg (Nat.ne_of_gt h0)]
      refine (memcpy_ends rfl hsrc h0 (by simp)).bind ?_
      rintro - s'' F'' ⟨rfl, rfl⟩
      refine Ends.pure (Or.inl ⟨rfl, a, [], rfl, ?_⟩)
      rw [RedisInC.memcpy, List.take_zero, List.nil_append, List.drop_of_length_le (by simp [hlen])]
    · simp only [if_neg (show ¬ (vlen > 0 ∧ ¬ val.isNull = true) from fun h => h0 h.1)]
      obtain rfl : v = [] := List.length_eq_zero_iff.mp (by omega)
      exact Ends.pure (Or.inl ⟨rfl, a, _, rfl, rfl⟩)
  · rw [hm]
    exact Ends.pure (Or.inr ⟨rfl, rfl, rfl⟩)

/-- `ht_set` on values, where the key is there. -/
theorem htSet_some {h : Heap} {e : OwnedEntry}
    (hloc : locate k (t.chains (bucketIndex (RedisInC.htHash k))) = some e) :
    RedisInC.htSet t.toTable k v h =
      match RedisInC.dupBytes v h with
      | (none, h) => (-1, t.toTable, h)
      | (some v', h) => (0, { t.toTable with
          buckets := Function.update t.toTable.buckets (bucketIndex (RedisInC.htHash k))
            (overwriteVal k v' (t.toTable.buckets (bucketIndex (RedisInC.htHash k)))) }, h) := by
  have hfind : findVal k (t.toTable.buckets (bucketIndex (RedisInC.htHash k))) = some e.val := by
    rw [toTable, findVal_locate, hloc]
    rfl
  rw [RedisInC.htSet]
  generalize findVal k (t.toTable.buckets (bucketIndex (RedisInC.htHash k))) = hit at hfind ⊢
  subst hfind
  rfl

/-- `ht_set` on values, where it is not. -/
theorem htSet_none {h : Heap}
    (hloc : locate k (t.chains (bucketIndex (RedisInC.htHash k))) = none) :
    RedisInC.htSet t.toTable k v h =
      match h.malloc NODE_SIZE with
      | (false, h) => (-1, t.toTable, h)
      | (true, h) =>
        match RedisInC.dupBytes k h with
        | (none, h) => (-1, t.toTable, h)
        | (some k', h) =>
          match RedisInC.dupBytes v h with
          | (none, h) => (-1, t.toTable, h)
          | (some v', h) =>
            (0, ⟨Function.update t.toTable.buckets (bucketIndex (RedisInC.htHash k))
              (⟨k', v'⟩ :: t.toTable.buckets (bucketIndex (RedisInC.htHash k))), t.count + 1⟩, h) := by
  have hfind : findVal k (t.toTable.buckets (bucketIndex (RedisInC.htHash k))) = none := by
    rw [toTable, findVal_locate, hloc]
    rfl
  rw [RedisInC.htSet, hfind]
  rfl

/-- The part of `ht_set` that swaps in a value, where the key is there. -/
theorem overwrite_ends {i : Fin HT_NUM_BUCKETS} {l₁ l₂ : List OwnedEntry} {e : OwnedEntry} {a : Addr}
    {pad : Bytes} (hchain : t.chains i = l₁ ++ e :: l₂) :
    Ends (do
      let node ← loadEntry e.addr
      free (some node.val)
      put e.addr (.entry ⟨node.key, node.klen, a, v.length, node.next⟩)
      return ((0, t.node) : Int × TableNode)) s (cell a (.bytes (v ++ pad)) + (t.cells + K))
    fun r s' F' => s' = s ∧ r = (0, t.node) ∧
      F' = (t.set i (l₁ ++ ⟨e.addr, e.keyAt, a, e.key, e.keyPad, v, pad⟩ :: l₂) t.count).cells + K := by
  have hcells := t.cells_at i hchain
  have hcells' := cells_at _ i
    (t.chains_set_self i (l₁ ++ ⟨e.addr, e.keyAt, a, e.key, e.keyPad, v, pad⟩ :: l₂) t.count)
  have hnode : (⟨e.addr, .entry (e.node (headOr l₂ none))⟩ : Σ _, Block) ∈
      cell a (.bytes (v ++ pad)) + (t.cells + K) := by
    rw [hcells]
    simp [OwnedEntry.cells, cell]
  have hfree : cell a (.bytes (v ++ pad)) + (t.cells + K) =
      cell e.valAt (.bytes (e.val ++ e.valPad)) + (cell e.addr (.entry (e.node (headOr l₂ none))) +
        (cell e.keyAt (.bytes (e.key ++ e.keyPad)) + cell a (.bytes (v ++ pad)) +
          (chainCells l₁ (some e.addr) + chainCells l₂ none + t.others i + K))) := by
    rw [hcells, OwnedEntry.cells, OwnedEntry.arrays]
    abel
  refine (loadEntry_sees hnode).bind ((free_ends hfree).bind ?_)
  rintro - s' F' ⟨rfl, rfl⟩
  refine Ends.bind (put_ends rfl ?_) ?_
  · rfl
  rintro - s' F' ⟨rfl, rfl⟩
  refine Ends.pure ⟨rfl, rfl, ?_⟩
  rw [hcells', others_set, OwnedEntry.cells, OwnedEntry.arrays]
  simp only [OwnedEntry.node]
  abel

/-- **`ht_set`** copies what it is given, and frees the value it replaces. If an allocation
fails, it leaves nothing behind. -/
theorem htSet_follows (hkey : Readable K key klen k) (hval : Readable K val vlen v) :
    Follows layout (htSet t.node key klen val vlen) s t K
      (RedisInC.htSet t.toTable k v s.heap) := by
  refine follows_table ?_
  have hfind := @findEntry_table_sees s K t key klen k (hkey.add_left _)
  refine (htHash_sees (hkey.add_left _)).bind (Sees.blockCount.bind (hfind.bind ?_))
  cases hloc : locate k (t.chains (bucketIndex (RedisInC.htHash k))) with
  | some e =>
    obtain ⟨l₁, l₂, hchain, hek, hover⟩ := locate_split hloc
    refine (dupBytes_ends (hval.add_left _)).bind ?_
    rintro r s' F' (⟨hdup, a, pad, rfl, rfl⟩ | ⟨hdup, rfl, rfl⟩)
    · -- the new value is there before the old one goes
      rw [← hval.length_eq]
      refine (overwrite_ends hchain).mono ?_
      rintro r s'' F'' ⟨rfl, rfl, rfl⟩
      refine ⟨t.set _ (l₁ ++ ⟨e.addr, e.keyAt, a, e.key, e.keyPad, v, pad⟩ :: l₂) t.count,
        (node_replace t _ hchain ?_).symm, rfl, ?_⟩
      · rfl
      rw [htSet_some hloc, hdup, toTable_set, List.map_append, List.map_cons]
      exact congrArg (fun c => ((0 : Int), (⟨Function.update _ _ c, _⟩ : Hashtable), s''.heap))
        (hover v)
    · refine Ends.pure ⟨t, rfl, rfl, ?_⟩
      rw [htSet_some hloc, hdup]
  | none =>
    refine (malloc_ends NODE_SIZE).bind ?_
    rintro r s₁ F₁ (⟨hm, node, rfl, rfl⟩ | ⟨hm, rfl, rfl⟩)
    · refine (dupBytes_ends ((hkey.add_left _).add_left _)).bind ?_
      rintro r s₂ F₂ (⟨hdk, keyCopy, keyPad, rfl, rfl⟩ | ⟨hdk, rfl, rfl⟩)
      · refine (dupBytes_ends (((hval.add_left _).add_left _).add_left _)).bind ?_
        rintro r s₃ F₃ (⟨hdv, valCopy, valPad, rfl, rfl⟩ | ⟨hdv, rfl, rfl⟩)
        · -- everything is there: the node goes in front of the chain
          have hput : cell valCopy (.bytes (v ++ valPad)) + (cell keyCopy (.bytes (k ++ keyPad)) +
              (cell node (.bytes ((List.range NODE_SIZE).map s.heap.fresh)) + (t.cells + K))) =
              cell node (.bytes ((List.range NODE_SIZE).map s.heap.fresh)) +
              (cell keyCopy (.bytes (k ++ keyPad)) + cell valCopy (.bytes (v ++ valPad)) +
                (t.cells + K)) := by
            abel
          refine Ends.bind (put_ends hput ?_) ?_
          · rw [Block.size, Block.size, List.length_map, List.length_range]
          rintro - s₄ F₄ ⟨rfl, rfl⟩
          refine Ends.pure ⟨t.set (bucketIndex (RedisInC.htHash k))
            (⟨node, keyCopy, valCopy, k, keyPad, v, valPad⟩ ::
              t.chains (bucketIndex (RedisInC.htHash k))) (t.count + 1), ?_, ?_, ?_⟩
          · rw [node_set]
            rfl
          · rw [cells_set, chainCells_cons, OwnedEntry.cells, OwnedEntry.arrays,
              t.cells_split (bucketIndex (RedisInC.htHash k)), ← hkey.length_eq, ← hval.length_eq]
            change _ = cell node (.entry ⟨keyCopy, k.length, valCopy, v.length,
              t.node.buckets (bucketIndex (RedisInC.htHash k))⟩) + (cell keyCopy _ + cell valCopy _) +
              _ + _ + K
            abel
          · rw [htSet_none hloc, hm]
            simp only [hdk, hdv, toTable_set, List.map_cons]
            rfl
        · have hfree : cell keyCopy (.bytes (k ++ keyPad)) +
              (cell node (.bytes ((List.range NODE_SIZE).map s.heap.fresh)) + (t.cells + K)) = _ := rfl
          refine (free_ends hfree).bind ?_
          rintro - s₄ F₄ ⟨rfl, rfl⟩
          refine (free_ends rfl).bind ?_
          rintro - s₅ F₅ ⟨rfl, rfl⟩
          refine Ends.pure ⟨t, rfl, rfl, ?_⟩
          rw [htSet_none hloc, hm]
          simp only [hdk, hdv]
      · refine (free_ends rfl).bind ?_
        rintro - s₃ F₃ ⟨rfl, rfl⟩
        refine Ends.pure ⟨t, rfl, rfl, ?_⟩
        rw [htSet_none hloc, hm]
        simp only [hdk]
    · refine Ends.pure ⟨t, rfl, rfl, ?_⟩
      rw [htSet_none hloc, hm]

/-! ## `ht_del` -/

/-- An entry goes with all its blocks. -/
theorem freeEntry_ends {e : OwnedEntry} {q : Option Addr} (h : F = e.cells q + G) :
    Ends (freeEntry e.addr) s F fun _ s' F' => s' = s ∧ F' = G := by
  have hmem : (⟨e.addr, .entry (e.node q)⟩ : Σ _, Block) ∈ F := by
    rw [h]
    simp [OwnedEntry.cells, cell]
  have hkey : F = cell e.keyAt (.bytes (e.key ++ e.keyPad)) +
      (cell e.addr (.entry (e.node q)) + (cell e.valAt (.bytes (e.val ++ e.valPad)) + G)) := by
    rw [h, OwnedEntry.cells, OwnedEntry.arrays]
    abel
  refine (loadEntry_sees hmem).bind ((free_ends hkey).bind ?_)
  rintro - s' F' ⟨rfl, rfl⟩
  have hnode : (⟨e.addr, .entry (e.node q)⟩ : Σ _, Block) ∈ cell e.addr (.entry (e.node q)) +
      (cell e.valAt (.bytes (e.val ++ e.valPad)) + G) := by
    simp [cell]
  have hval : cell e.addr (.entry (e.node q)) + (cell e.valAt (.bytes (e.val ++ e.valPad)) + G) =
      cell e.valAt (.bytes (e.val ++ e.valPad)) + (cell e.addr (.entry (e.node q)) + G) :=
    add_left_comm ..
  refine (loadEntry_sees hnode).bind ((free_ends hval).bind ?_)
  rintro - s' F' ⟨rfl, rfl⟩
  exact free_ends rfl

/-- A place that holds an address: `C` is the memory it is in, and `H` the struct, when it
holds this one. -/
structure Place (link : EntryLink) (C : Option Addr → Cells Addr Block)
    (H : Option Addr → TableNode) : Prop where
  /-- reading it -/
  reads : ∀ q s G, Sees (readLink (H q) link) s (C q + G) q
  /-- writing it -/
  writes : ∀ q q' s G, Ends (writeLink (H q) q' link) s (C q + G) fun ht s' F' =>
    ht = H q' ∧ s' = s ∧ F' = C q' + G

/-- The head of a chain is in the struct. -/
theorem place_bucket (ht : TableNode) (i : Fin HT_NUM_BUCKETS) :
    Place (.bucket i) (fun _ => 0) fun q => ⟨Function.update ht.buckets i q, ht.count⟩ where
  reads q s G := by
    have hself : Function.update ht.buckets i q i = q := Function.update_self ..
    change Sees (pure (Function.update ht.buckets i q i)) _ _ _
    rw [hself]
    exact Sees.pure
  writes q q' s G := by
    refine Ends.pure ⟨?_, rfl, rfl⟩
    rw [Function.update_idem]

/-- The address of the next entry is in the node. -/
theorem place_next (e : OwnedEntry) (ht : TableNode) :
    Place (.next e.addr) (fun q => cell e.addr (.entry (e.node q))) fun _ => ht where
  reads q s G := by
    have hmem : (⟨e.addr, .entry (e.node q)⟩ : Σ _, Block) ∈ cell e.addr (.entry (e.node q)) + G := by
      simp [cell]
    exact (loadEntry_sees hmem).andThen Sees.pure
  writes q q' s G := by
    have hmem : (⟨e.addr, .entry (e.node q)⟩ : Σ _, Block) ∈ cell e.addr (.entry (e.node q)) + G := by
      simp [cell]
    refine (loadEntry_sees hmem).bind (Ends.bind (put_ends rfl ?_) ?_)
    · rfl
    rintro - s' F' ⟨rfl, rfl⟩
    exact Ends.pure ⟨rfl, rfl, rfl⟩

/-- **The walk of `ht_del`**, from any place: the entry with the key is unlinked and freed. -/
theorem delLoop_ends {link : EntryLink} {C : Option Addr → Cells Addr Block}
    {H : Option Addr → TableNode} (hplace : Place link C H) (hkey : Readable G key klen k) {fuel : ℕ}
    (hfuel : l.length ≤ fuel) :
    Ends (delLoop key klen fuel (H (headOr l none)) link) s
      (C (headOr l none) + (chainCells l none + G)) fun r s' F' => s' = s ∧
      ((unlinkKey k (l.map OwnedEntry.toEntry) = none ∧ r = (0, H (headOr l none)) ∧
          F' = C (headOr l none) + (chainCells l none + G)) ∨
        ∃ l', unlinkKey k (l.map OwnedEntry.toEntry) = some (l'.map OwnedEntry.toEntry) ∧
          r = (1, ⟨(H (headOr l' none)).buckets, (H (headOr l' none)).count - 1⟩) ∧
          F' = C (headOr l' none) + (chainCells l' none + G)) := by
  induction l generalizing fuel link C H G with
  | nil =>
    rw [delLoop.eq_def]
    exact (hplace.reads _ s _).bind (Ends.pure ⟨rfl, Or.inl ⟨rfl, rfl, rfl⟩⟩)
  | cons e es ih =>
    rw [List.length_cons] at hfuel
    obtain ⟨fuel, rfl⟩ : ∃ n, fuel = n + 1 := ⟨fuel - 1, by omega⟩
    have hle : e.cells (headOr es none) ≤ C (some e.addr) + (chainCells (e :: es) none + G) := by
      rw [chainCells_cons]
      exact le_trans (Multiset.le_add_right _ _)
        (le_trans (Multiset.le_add_right _ G) (Multiset.le_add_left _ _))
    have hnode := Multiset.mem_of_le hle (mem_cells_node e (headOr es none))
    rw [delLoop.eq_def]
    refine (hplace.reads _ s _).bind ((loadEntry_sees hnode).bind ?_)
    refine (keysEqual_sees ((readable_key e _).mono hle) ((hkey.add_left _).add_left _)).bind ?_
    cases hk : RedisInC.keysEqual e.key k with
    | true =>
      refine (hplace.writes _ _ s _).bind ?_
      rintro ht s' F' ⟨rfl, rfl, rfl⟩
      have hfree : C (headOr es none) + (chainCells (e :: es) none + G) =
          e.cells (headOr es none) + (C (headOr es none) + (chainCells es none + G)) := by
        rw [chainCells_cons]
        abel
      refine (freeEntry_ends hfree).bind ?_
      rintro - s' F' ⟨rfl, rfl⟩
      have htake : unlinkKey k ((e :: es).map OwnedEntry.toEntry) =
          some (es.map OwnedEntry.toEntry) := if_pos hk
      exact Ends.pure ⟨rfl, Or.inr ⟨es, htake, rfl, rfl⟩⟩
    | false =>
      -- on to the link in this node, which is as it was
      have hmem : C (some e.addr) + (chainCells (e :: es) none + G) =
          cell e.addr (.entry (e.node (headOr es none))) +
            (chainCells es none + (C (some e.addr) + e.arrays + G)) := by
        rw [chainCells_cons, OwnedEntry.cells]
        abel
      have hrest := @ih (C (some e.addr) + e.arrays + G) (.next e.addr) _ _
        (place_next e (H (some e.addr))) (hkey.add_left _) fuel (Nat.le_of_succ_le_succ hfuel)
      have hskip : unlinkKey k ((e :: es).map OwnedEntry.toEntry) =
          (unlinkKey k (es.map OwnedEntry.toEntry)).map (e.toEntry :: ·) :=
        if_neg (Bool.eq_false_iff.mp hk)
      change Ends _ s (C (some e.addr) + (chainCells (e :: es) none + G)) _
      rw [hmem, hskip]
      refine hrest.mono ?_
      rintro r s' F' ⟨rfl, ⟨hnone, rfl, rfl⟩ | ⟨l', hsome, rfl, rfl⟩⟩
      · exact ⟨rfl, Or.inl ⟨by rw [hnone]; rfl, rfl, hmem.symm⟩⟩
      · refine ⟨rfl, Or.inr ⟨e :: l', by rw [hsome]; rfl, rfl, ?_⟩⟩
        rw [chainCells_cons, OwnedEntry.cells]
        change _ = C (some e.addr) + _
        abel

/-- **`ht_del`** unlinks the entry of the key, and frees its blocks. -/
theorem htDel_follows (hkey : Readable K key klen k) :
    Follows layout (htDel t.node key klen) s t K
      ((RedisInC.htDel t.toTable k).1, (RedisInC.htDel t.toTable k).2, s.heap) := by
  refine follows_table ?_
  set i := bucketIndex (RedisInC.htHash k) with hi
  have hfuel : (t.chains i).length ≤ (t.cells + K).card :=
    length_le_card (le_trans (t.chain_le i) (Multiset.le_add_right _ K))
  have hloop := @delLoop_ends s (t.others i + K) (t.chains i) key klen k _ _ _
    (place_bucket t.node i) (hkey.add_left _) _ hfuel
  have hsame : (⟨Function.update t.node.buckets i (headOr (t.chains i) none), t.node.count⟩ :
      TableNode) = t.node := by
    rw [show headOr (t.chains i) none = t.node.buckets i from rfl, Function.update_eq_self]
  have hcells : 0 + (chainCells (t.chains i) none + (t.others i + K)) = t.cells + K := by
    rw [t.cells_split i, zero_add, add_assoc]
  rw [hsame, hcells] at hloop
  refine (htHash_sees (hkey.add_left _)).bind (Sees.blockCount.bind (hloop.mono ?_))
  rintro r s' F' ⟨rfl, ⟨hnone, rfl, rfl⟩ | ⟨l', hsome, rfl, rfl⟩⟩
  · refine ⟨t, rfl, rfl, ?_⟩
    have hun : unlinkKey k (t.toTable.buckets i) = none := hnone
    rw [RedisInC.htDel, ← hi]
    simp only [hun]
  · refine ⟨t.set i l' (t.count - 1), (t.node_set ..).symm, ?_, ?_⟩
    · rw [cells_set, zero_add, add_assoc]
    · have hun : unlinkKey k (t.toTable.buckets i) = some (l'.map OwnedEntry.toEntry) := hsome
      rw [RedisInC.htDel, ← hi, toTable_set]
      simp only [hun]
      rfl

/-! ## `ht_destroy` -/

theorem freeChain_ends (h : F = chainCells l none + G) {fuel : ℕ} (hfuel : l.length ≤ fuel) :
    Ends (freeChain fuel (headOr l none)) s F fun _ s' F' => s' = s ∧ F' = G := by
  induction l generalizing F fuel with
  | nil =>
    rw [h, chainCells_nil, zero_add, freeChain.eq_def]
    exact Ends.pure ⟨rfl, rfl⟩
  | cons e es ih =>
    rw [List.length_cons] at hfuel
    obtain ⟨fuel, rfl⟩ : ∃ n, fuel = n + 1 := ⟨fuel - 1, by omega⟩
    rw [chainCells_cons, add_assoc] at h
    have hnode : (⟨e.addr, .entry (e.node (headOr es none))⟩ : Σ _, Block) ∈ F := by
      rw [h]
      exact Multiset.mem_add.mpr (Or.inl (mem_cells_node e _))
    refine (loadEntry_sees hnode).bind ((freeEntry_ends h).bind ?_)
    rintro - s' F' ⟨rfl, rfl⟩
    exact ih rfl (Nat.le_of_succ_le_succ hfuel)

/-- The loop over the buckets frees the chains of those it has yet to visit. -/
theorem destroyBuckets_ends {is : List (Fin HT_NUM_BUCKETS)} (hnodup : is.Nodup) {ht : TableNode}
    (hheads : ∀ i ∈ is, ht.buckets i = headOr (t.chains i) none)
    (h : F = (is.map fun i => chainCells (t.chains i) none).sum + G) :
    Ends (destroyBuckets is ht) s F fun r s' F' => s' = s ∧ F' = G ∧
      r = ⟨fun i => if i ∈ is then none else ht.buckets i, 0⟩ := by
  induction is generalizing F ht with
  | nil =>
    rw [List.map_nil, List.sum_nil, zero_add] at h
    rw [h]
    exact Ends.pure ⟨rfl, rfl, by simp⟩
  | cons i is ih =>
    rw [List.map_cons, List.sum_cons, add_assoc] at h
    have hfuel : (t.chains i).length ≤ F.card :=
      length_le_card (h ▸ Multiset.le_add_right (chainCells (t.chains i) none) _)
    have hchain := @freeChain_ends s _ _ (t.chains i) h F.card hfuel
    rw [← hheads i List.mem_cons_self] at hchain
    refine Sees.blockCount.bind (hchain.bind ?_)
    rintro - s' F' ⟨rfl, rfl⟩
    have hne : ∀ j ∈ is, j ≠ i := fun j hj h => (List.nodup_cons.mp hnodup).1 (h ▸ hj)
    have hheads' : ∀ j ∈ is, Function.update ht.buckets i none j = headOr (t.chains j) none :=
      fun j hj => by rw [Function.update_of_ne (hne j hj), hheads j (List.mem_cons_of_mem i hj)]
    refine (ih (List.nodup_cons.mp hnodup).2 hheads' rfl).mono ?_
    rintro r s' F' ⟨rfl, rfl, rfl⟩
    refine ⟨rfl, rfl, congrArg (fun f => (⟨f, 0⟩ : TableNode)) (funext fun j => ?_)⟩
    by_cases hj : j = i
    · simp [hj]
    · simp [hj, Function.update_of_ne]

/-- **`ht_destroy`** frees all blocks of the table. -/
theorem htDestroy_ends (h : F = t.cells + G) :
    Ends (htDestroy t.node) s F fun r s' F' => s' = s ∧ F' = G ∧ r = htInit := by
  rw [t.cells_eq_sum] at h
  refine (destroyBuckets_ends (List.nodup_finRange _) (fun i _ => rfl) h).mono ?_
  rintro r s' F' ⟨rfl, rfl, rfl⟩
  simp [htInit]

/-! ## `ht_scan` -/

section Scan

variable {υ χ : Type} {cb : Pointer → ℕ → Pointer → ℕ → υ → Code (Bool × υ)}
  {cb' : Bytes → Bytes → χ → Bool × χ} {R : υ → χ → Allocator → Cells Addr Block → Prop}

/-- A callback on pointers does what one on values does, and keeps its hands off `G`. `R`
relates their data; the last argument of it is the memory that the callback works on. -/
def Calls (G : Cells Addr Block) (cb : Pointer → ℕ → Pointer → ℕ → υ → Code (Bool × υ))
    (cb' : Bytes → Bytes → χ → Bool × χ) (R : υ → χ → Allocator → Cells Addr Block → Prop) : Prop :=
  ∀ (X : Cells Addr Block) (key val : Pointer) (k v : Bytes) (ud : υ) (x : χ) (s : Allocator),
    Readable G key k.length k → Readable G val v.length v → R ud x s X →
    Ends (cb key k.length val v.length ud) s (G + X) fun r s' F' =>
      r.1 = (cb' k v x).1 ∧ ∃ X', F' = G + X' ∧ R r.2 (cb' k v x).2 s' X'

/-- The walk over one chain, and what is left to do behind it. -/
theorem scanChain_ends (hcb : Calls G cb cb' R) {X : Cells Addr Block} (hl : chainCells l none ≤ G)
    {fuel visited : ℕ} (hfuel : l.length ≤ fuel) {ud : υ} {x : χ} (hR : R ud x s X) :
    Ends (scanChain cb fuel (headOr l none) visited ud) s (G + X) fun r s' F' =>
      ∃ x' X', F' = G + X' ∧ R r.2.2 x' s' X' ∧ ∀ rest,
        scanEntries cb' (l.map OwnedEntry.toEntry ++ rest) visited x =
          if r.1 then scanEntries cb' rest r.2.1 x' else (r.2.1, x') := by
  induction l generalizing fuel visited ud x s X with
  | nil =>
    rw [scanChain.eq_def]
    exact Ends.pure ⟨x, X, rfl, hR, fun rest => rfl⟩
  | cons e es ih =>
    rw [List.length_cons] at hfuel
    obtain ⟨fuel, rfl⟩ : ∃ n, fuel = n + 1 := ⟨fuel - 1, by omega⟩
    obtain ⟨he, hes⟩ := cells_le hl
    have hnode : ∀ Y, (⟨e.addr, .entry (e.node (headOr es none))⟩ : Σ _, Block) ∈ G + Y := fun Y =>
      Multiset.mem_of_le (le_trans he (Multiset.le_add_right G Y)) (mem_cells_node e _)
    refine (loadEntry_sees (hnode X)).bind ?_
    refine (hcb X _ _ e.key e.val ud x s ((readable_key e _).mono he) ((readable_val e _).mono he)
      hR).bind ?_
    rintro r s' F' ⟨hgo, X', rfl, hR'⟩
    have hstep : ∀ rest, scanEntries cb' ((e :: es).map OwnedEntry.toEntry ++ rest) visited x =
        if r.1 then scanEntries cb' (es.map OwnedEntry.toEntry ++ rest) (visited + 1)
          (cb' e.key e.val x).2 else (visited + 1, (cb' e.key e.val x).2) := by
      intro rest
      rw [hgo]
      rfl
    cases hr : r.1 with
    | true =>
      simp only [hr, if_true] at hstep ⊢
      refine (loadEntry_sees (hnode X')).bind ((ih hes (Nat.le_of_succ_le_succ hfuel) hR').mono ?_)
      rintro r' s'' F'' ⟨x', X'', rfl, hR'', hrest⟩
      exact ⟨x', X'', rfl, hR'', fun rest => (hstep rest).trans (hrest rest)⟩
    | false =>
      simp only [hr, Bool.false_eq_true, if_false] at hstep ⊢
      exact Ends.pure ⟨_, X', rfl, hR', hstep⟩

/-- The walk over the buckets. -/
theorem scanBuckets_ends (hcb : Calls (t.cells + K) cb cb' R) {X : Cells Addr Block}
    {is : List (Fin HT_NUM_BUCKETS)} {visited : ℕ} {ud : υ} {x : χ} (hR : R ud x s X) :
    Ends (scanBuckets cb t.node is visited ud) s (t.cells + K + X) fun r s' F' =>
      ∃ X', F' = t.cells + K + X' ∧
        r.1 = (scanEntries cb' (is.flatMap t.toTable.buckets) visited x).1 ∧
        R r.2 (scanEntries cb' (is.flatMap t.toTable.buckets) visited x).2 s' X' := by
  induction is generalizing visited ud x s X with
  | nil => exact Ends.pure ⟨X, rfl, rfl, hR⟩
  | cons i is ih =>
    have hle : chainCells (t.chains i) none ≤ t.cells + K :=
      le_trans (t.chain_le i) (Multiset.le_add_right _ K)
    have hfuel : (t.chains i).length ≤ (t.cells + K + X).card :=
      length_le_card (le_trans hle (Multiset.le_add_right _ X))
    refine Sees.blockCount.bind ((scanChain_ends hcb hle hfuel hR).bind ?_)
    rintro r s' F' ⟨x', X', rfl, hR', hrest⟩
    have hcons := hrest (is.flatMap t.toTable.buckets)
    change scanEntries cb' ((i :: is).flatMap t.toTable.buckets) visited x = _ at hcons
    rw [hcons]
    cases hr : r.1 with
    | true => exact ih hR'
    | false => exact Ends.pure ⟨X', rfl, rfl, hR'⟩

/-- **`ht_scan`** hands the entries to the callback, by pointers that are good for the time
of the call. -/
theorem htScan_ends (hcb : Calls (t.cells + K) cb cb' R) {X : Cells Addr Block} {ud : υ} {x : χ}
    (hR : R ud x s X) : Ends (htScan t.node cb ud) s (t.cells + K + X) fun r s' F' =>
      ∃ X', F' = t.cells + K + X' ∧ r.1 = (RedisInC.htScan t.toTable cb' x).1 ∧
        R r.2 (RedisInC.htScan t.toTable cb' x).2 s' X' := scanBuckets_ends hcb hR

end Scan

/-! ## Runs -/

/-- A call of the interface, with the bytes that the pointers of its caller point to. -/
inductive TableCall : Type
  /-- `ht_set` -/
  | set (key : Pointer) (k : Bytes) (val : Pointer) (v : Bytes)
  /-- `ht_get`, and the value is read -/
  | get (key : Pointer) (k : Bytes)
  /-- `ht_del` -/
  | del (key : Pointer) (k : Bytes)
  /-- `ht_scan`, with a callback that takes down what it is handed, up to so many entries -/
  | scan (limit : ℕ)
  /-- `ht_destroy` -/
  | destroy

/-- What a caller gets to know. -/
inductive TableReply : Type
  /-- a return code -/
  | code (rc : Int)
  /-- a value, or none -/
  | found (v : Option Bytes)
  /-- the entries seen, and how many -/
  | seen (visited : ℕ) (entries : List HtEntry)
  /-- nothing -/
  | done

/-- The callback of a scan. -/
def takeDown (key : Pointer) (klen : ℕ) (val : Pointer) (vlen : ℕ) (ud : ℕ × List HtEntry) :
    Code (Bool × (ℕ × List HtEntry)) := do
  let k ← readBytes key klen
  let v ← readBytes val vlen
  return (decide (1 < ud.1), (ud.1 - 1, ud.2 ++ [⟨k, v⟩]))

/-- The same on values. -/
def noteEntry (k v : Bytes) (ud : ℕ × List HtEntry) : Bool × (ℕ × List HtEntry) :=
  (decide (1 < ud.1), (ud.1 - 1, ud.2 ++ [⟨k, v⟩]))

namespace TableCall

/-- The pointers are good, outside of the table. -/
def Valid (K : Cells Addr Block) : TableCall → Prop
  | set key k val v => Readable K key k.length k ∧ Readable K val v.length v
  | get key k => Readable K key k.length k
  | del key k => Readable K key k.length k
  | scan _ => True
  | destroy => True

/-- The call. -/
def exec : TableCall → TableNode → Code (TableReply × TableNode)
  | set key k val v, ht => do
    let r ← htSet ht key k.length val v.length
    return (.code r.1, r.2)
  | get key k, ht => do
    match ← htGet ht key k.length with
    | none => return (.found none, ht)
    | some (val, vlen) =>
      let v ← readBytes val vlen
      return (.found (some v), ht)
  | del key k, ht => do
    let r ← htDel ht key k.length
    return (.code r.1, r.2)
  | scan limit, ht => do
    let r ← htScan ht takeDown (limit, [])
    return (.seen r.1 r.2.2, ht)
  | destroy, ht => do
    let ht ← htDestroy ht
    return (.done, ht)

/-- The call on values. -/
def means : TableCall → Hashtable × Heap → TableReply × Hashtable × Heap
  | set _ k _ v, (ht, h) =>
    let r := RedisInC.htSet ht k v h
    (.code r.1, r.2)
  | get _ k, (ht, h) => (.found (RedisInC.htGet ht k), ht, h)
  | del _ k, (ht, h) =>
    let r := RedisInC.htDel ht k
    (.code r.1, r.2, h)
  | scan limit, (ht, h) =>
    let r := RedisInC.htScan ht noteEntry (limit, [])
    (.seen r.1 r.2.2, ht, h)
  | destroy, (ht, h) => (.done, RedisInC.htDestroy ht, h)

theorem exec_follows {call : TableCall} (hcall : call.Valid K) (t : OwnedTable) (s : Allocator) :
    Follows layout (call.exec t.node) s t K (call.means (layout.value t s)) := by
  cases call with
  | set key k val v =>
    refine (htSet_follows hcall.1 hcall.2).bind fun t' s' hr => ?_
    have hvalue : means (.set key k val v) (layout.value t s) =
        (.code (RedisInC.htSet t.toTable k v s.heap).1, layout.value t' s') :=
      congrArg (fun r => (TableReply.code (RedisInC.htSet t.toTable k v s.heap).1, r)) hr
    rw [hvalue]
    exact Follows.pure _
  | get key k =>
    rcases @htGet_sees s K t key k.length k (Readable.add_left hcall _) with
      ⟨hnone, hsees⟩ | ⟨p, v, hsome, hval, hsees⟩
    · have hvalue : means (.get key k) (layout.value t s) = (.found none, layout.value t s) :=
        congrArg (fun v => (TableReply.found v, layout.value t s)) hnone
      rw [hvalue]
      exact Follows.look hsees (Follows.pure _)
    · have hvalue : means (.get key k) (layout.value t s) = (.found (some v), layout.value t s) :=
        congrArg (fun v => (TableReply.found v, layout.value t s)) hsome
      rw [hvalue]
      exact Follows.look hsees (Follows.look (readBytes_sees (hval.add_right _)) (Follows.pure _))
  | del key k =>
    refine (htDel_follows hcall).bind fun t' s' hr => ?_
    have hvalue : means (.del key k) (layout.value t s) =
        (.code (RedisInC.htDel t.toTable k).1, layout.value t' s') :=
      congrArg (fun r => (TableReply.code (RedisInC.htDel t.toTable k).1, r)) hr
    rw [hvalue]
    exact Follows.pure _
  | scan limit =>
    -- the callback has no memory of its own
    have hcb : Calls (t.cells + K) takeDown noteEntry fun ud x s' X => ud = x ∧ s' = s ∧ X = 0 := by
      rintro X key val k v ud x s' hkey hval ⟨rfl, rfl, rfl⟩
      rw [add_zero]
      refine (readBytes_sees hkey).bind ((readBytes_sees hval).bind (Ends.pure ?_))
      exact ⟨rfl, 0, (add_zero _).symm, rfl, rfl, rfl⟩
    have hscan := @htScan_ends s K t _ _ _ _ _ hcb 0 (limit, []) (limit, []) ⟨rfl, rfl, rfl⟩
    rw [add_zero] at hscan
    refine follows_table (hscan.bind ?_)
    rintro ⟨n, ud⟩ s' F' ⟨X, rfl, hn, hr, rfl, rfl⟩
    have hvalue : means (.scan limit) (t.toTable, s'.heap) = (.seen n ud.2, t.toTable, s'.heap) := by
      rw [means, ← hn, ← hr]
    rw [add_zero]
    exact Ends.pure ⟨t, rfl, rfl, hvalue⟩
  | destroy =>
    refine follows_table ((htDestroy_ends rfl).bind ?_)
    rintro r s' F' ⟨rfl, rfl, rfl⟩
    refine Ends.pure ⟨OwnedTable.empty, rfl, ?_, rfl⟩
    rw [OwnedTable.cells_empty, zero_add]

/-- The calls keep the table in order. -/
theorem means_inv (call : TableCall) {v : Hashtable × Heap} (hv : v.1.Inv) :
    (call.means v).2.1.Inv := by
  obtain ⟨ht, h⟩ := v
  cases call with
  | set key k val v =>
    have hset := Hashtable.htSet_spec ht k v h
    change (RedisInC.htSet ht k v h).2.1.Inv
    generalize RedisInC.htSet ht k v h = r at hset
    cases hset with
    | stored => exact (Hashtable.Inv.put hv k v).1
    | refused => exact hv
  | get key k => exact hv
  | del key k => exact (Hashtable.Inv.htDel hv k).1
  | scan limit => exact hv
  | destroy => exact Hashtable.inv_init

end TableCall

/-- **Three blocks for each entry** that the counter counts. -/
theorem card_cells (hi : t.toTable.Inv) : t.cells.card = 3 * t.count := by
  have hcount : t.count = t.toTable.entries.length := hi.count_eq
  have hsum : ∀ is : List (Fin HT_NUM_BUCKETS),
      Multiset.card (is.map fun i => chainCells (t.chains i) none).sum =
        3 * (is.flatMap t.toTable.buckets).length := by
    intro is
    induction is with
    | nil => rfl
    | cons i is ih =>
      have hlen : (t.toTable.buckets i).length = (t.chains i).length := List.length_map ..
      rw [List.map_cons, List.sum_cons, Multiset.card_add, ih, card_chainCells, List.flatMap_cons,
        List.length_append, hlen]
      ring
  rw [hcount, Hashtable.entries, ChainedTable.entries, t.cells_eq_sum, hsum]

/-- **A table in memory.** Whatever calls are made, with arguments anywhere outside of the
table, and whatever requests the allocator refuses: no call touches a block that is not there,
every call returns what it does on values, and the table has three blocks for each entry and
nothing else; after `ht_destroy` it has none. -/
theorem table_in_memory (calls : List TableCall) (hcalls : ∀ call ∈ calls, call.Valid K) :
    Ends (runCalls TableCall.exec calls htInit) s K fun r s' F' =>
      ∃ t : OwnedTable, r.2 = t.node ∧ F' = t.cells + K ∧ F'.card = 3 * t.count + K.card ∧
        runValues TableCall.means calls (RedisInC.htInit, s.heap) =
          (r.1, t.toTable, s'.heap) ∧
        Ends (htDestroy r.2) s' F' fun ht _ F'' => ht = htInit ∧ F'' = K := by
  have hrun := Follows.run (fun call hcall => TableCall.exec_follows (hcalls call hcall))
    OwnedTable.empty s
  have hstart : layout.cells OwnedTable.empty + K = K := by
    change OwnedTable.empty.cells + K = K
    rw [OwnedTable.cells_empty, zero_add]
  rw [Follows, hstart] at hrun
  refine hrun.mono ?_
  rintro ⟨replies, n⟩ s' F' ⟨t, rfl, rfl, hr⟩
  have hinv : t.toTable.Inv := by
    have hkeeps := runValues_keeps (I := fun v : Hashtable × Heap => v.1.Inv)
      (fun call (_ : call ∈ calls) v hv => TableCall.means_inv call hv)
      (show (layout.value OwnedTable.empty s).1.Inv from Hashtable.inv_init)
    rw [hr] at hkeeps
    exact hkeeps
  refine ⟨t, rfl, rfl, ?_, hr, ?_⟩
  · rw [Multiset.card_add]
    exact congrArg (· + K.card) (card_cells hinv)
  · refine (htDestroy_ends rfl).mono ?_
    rintro ht s'' F'' ⟨-, rfl, rfl⟩
    exact ⟨rfl, rfl⟩

/-- A key and a value that are parts of one array, and an allocator that grants everything. -/
theorem table_in_memory_caller :
    Ends (runCalls TableCall.exec [.set (.heap 7 0) (ascii "key") (.heap 7 3) (ascii "value"),
        .scan 1, .get (.here (ascii "key")) (ascii "key")] htInit) .ample
      (cell 7 (.bytes (ascii "keyvalue"))) fun r s' F' =>
      ∃ t : OwnedTable, r.2 = t.node ∧ F' = t.cells + cell 7 (.bytes (ascii "keyvalue")) ∧
        F'.card = 3 * t.count + (cell 7 (Block.bytes (ascii "keyvalue"))).card ∧
        runValues TableCall.means [.set (.heap 7 0) (ascii "key") (.heap 7 3) (ascii "value"),
          .scan 1, .get (.here (ascii "key")) (ascii "key")] (RedisInC.htInit, Heap.ample) =
          (r.1, t.toTable, s'.heap) ∧
        Ends (htDestroy r.2) s' F' fun ht _ F'' =>
          ht = htInit ∧ F'' = cell 7 (.bytes (ascii "keyvalue")) := by
  refine table_in_memory (K := cell 7 (.bytes (ascii "keyvalue"))) _ ?_
  have hmem : (⟨7, .bytes (ascii "keyvalue")⟩ : Σ _ : Addr, Block) ∈
      cell 7 (Block.bytes (ascii "keyvalue")) := Multiset.mem_singleton_self _
  have hkey : Readable (cell 7 (.bytes (ascii "keyvalue"))) (.heap 7 0) 3 (ascii "key") :=
    .heap hmem (by decide)
  have hval : Readable (cell 7 (.bytes (ascii "keyvalue"))) (.heap 7 3) 5 (ascii "value") :=
    .heap hmem (by decide)
  have hget : Readable (cell 7 (.bytes (ascii "keyvalue"))) (.here (ascii "key")) 3 (ascii "key") :=
    .all _
  simp only [List.forall_mem_cons]
  exact ⟨⟨hkey, hval⟩, trivial, hget, nofun⟩

end RedisInC.Raw
