import RedisInC.ChainedTable
import RedisInC.Memory

/-!
# The hash table (`hashtable.c`)

A fixed array of chains and a separately maintained counter. Keys and values
are arbitrary byte strings.

* The functions of `hashtable.c`, as the code computes them. `ht_set` allocates
  (a value copy on overwrite; a node, a key copy and a value copy on insert) and
  is the only fallible one.
* `Hashtable.Inv` — every key in the bucket its hash selects and nowhere else,
  and the counter equal to the number of entries.
* `Hashtable.toMap` — the finite map a table denotes; every operation gets one
  lemma relating it to the map operation it implements.
* `ht_behaves_as_map` — over whole runs: a table reached by any operations under
  any allocation outcomes behaves as the map the successful ones determine.
-/

namespace RedisInC

/-- Fixed bucket count. -/
def HT_NUM_BUCKETS : ℕ := 1024

/-- `ht_entry_t`: a key and its value. The chain link is the list's. -/
abbrev HtEntry : Type := (_ : Bytes) × Bytes

/-- `hashtable_t`: chain heads and the entry counter. -/
structure Hashtable where
  /-- one chain for each bucket -/
  buckets : Fin HT_NUM_BUCKETS → List HtEntry
  /-- total live entries -/
  count : ℕ

/-! ## The code -/

/-- DJB2 with XOR mixing, in wrapping 64-bit arithmetic. -/
def htHash (key : Bytes) : UInt64 :=
  key.foldl (fun hash c => ((hash <<< 5) + hash) ^^^ c.toUInt64) 5381

/-- Map a 64-bit hash to a bucket index. -/
def bucketIndex (hash : UInt64) : Fin HT_NUM_BUCKETS :=
  ⟨hash.toNat % HT_NUM_BUCKETS, Nat.mod_lt _ (by decide)⟩

/-- Binary-safe key equality. -/
def keysEqual (a b : Bytes) : Bool :=
  if a.length ≠ b.length then false
  else if a.length = 0 then true
  else a == b

def htInit : Hashtable := ⟨fun _ => [], 0⟩

/-- Free every entry: all chains empty, counter zero. -/
def htDestroy (_ : Hashtable) : Hashtable := ⟨fun _ => [], 0⟩

/-- Allocate and copy a byte buffer; one byte for an empty one. -/
def dupBytes (src : Bytes) (h : Heap) : Option Bytes × Heap :=
  let r := h.malloc (if src.length = 0 then 1 else src.length)
  if r.1 then (some src, r.2) else (none, r.2)

/-- The chain walk of `ht_get` and of the first pass of `ht_set`: the value of
the first entry with the key. -/
def findVal (key : Bytes) : List HtEntry → Option Bytes
  | [] => none
  | e :: rest => if keysEqual e.1 key then some e.2 else findVal key rest

/-- Swap in a new value at the first entry with the key. -/
def overwriteVal (key val : Bytes) : List HtEntry → List HtEntry
  | [] => []
  | e :: rest => if keysEqual e.1 key then ⟨e.1, val⟩ :: rest else e :: overwriteVal key val rest

/-- The pointer-to-pointer walk of `ht_del`; `none` when it reaches the end. -/
def unlinkKey (key : Bytes) : List HtEntry → Option (List HtEntry)
  | [] => none
  | e :: rest => if keysEqual e.1 key then some rest else (unlinkKey key rest).map (e :: ·)

/-- `sizeof(ht_entry_t)`: five eight-byte fields. -/
def NODE_SIZE : ℕ := 40

/-- Insert or overwrite a key. -/
def htSet (ht : Hashtable) (key val : Bytes) (h : Heap) : Int × Hashtable × Heap :=
  let idx := bucketIndex (htHash key)
  let chain := ht.buckets idx
  match findVal key chain with
  | some _ =>
    match dupBytes val h with
    | (none, h) => (-1, ht, h)
    | (some newVal, h) =>
      (0, { ht with buckets := Function.update ht.buckets idx (overwriteVal key newVal chain) }, h)
  | none =>
    -- the node, then the key copy, then the value copy; each failure undoes the ones before
    match h.malloc NODE_SIZE with
    | (false, h) => (-1, ht, h)
    | (true, h) =>
      match dupBytes key h with
      | (none, h) => (-1, ht, h)
      | (some keyCopy, h) =>
        match dupBytes val h with
        | (none, h) => (-1, ht, h)
        | (some valCopy, h) =>
          (0, ⟨Function.update ht.buckets idx (⟨keyCopy, valCopy⟩ :: chain), ht.count + 1⟩, h)

/-- Remove a key: `1` if an entry was deleted, `0` otherwise. -/
def htDel (ht : Hashtable) (key : Bytes) : Int × Hashtable :=
  let idx := bucketIndex (htHash key)
  match unlinkKey key (ht.buckets idx) with
  | some chain => (1, ⟨Function.update ht.buckets idx chain, ht.count - 1⟩)
  | none => (0, ht)

/-- Look up a key. -/
def htGet (ht : Hashtable) (key : Bytes) : Option Bytes :=
  findVal key (ht.buckets (bucketIndex (htHash key)))

/-- The walk of `ht_scan` over what is left of the table: the number of entries
visited and the callback's data. The callback stops the walk by answering
`false`. -/
def scanEntries {σ : Type} (cb : Bytes → Bytes → σ → Bool × σ) :
    List HtEntry → ℕ → σ → ℕ × σ
  | [], visited, ud => (visited, ud)
  | e :: rest, visited, ud =>
    let r := cb e.1 e.2 ud
    if r.1 then scanEntries cb rest (visited + 1) r.2 else (visited + 1, r.2)

/-- Walk every live entry in bucket order. -/
def htScan {σ : Type} (ht : Hashtable) (cb : Bytes → Bytes → σ → Bool × σ) (ud : σ) : ℕ × σ :=
  scanEntries cb ((List.finRange HT_NUM_BUCKETS).flatMap ht.buckets) 0 ud

/-! ## Chains -/

theorem keysEqual_iff {a b : Bytes} : keysEqual a b = true ↔ a = b := by
  rw [keysEqual]
  constructor
  · intro h
    by_cases hlen : a.length = b.length
    · rw [if_neg (not_not_intro hlen)] at h
      by_cases h0 : a.length = 0
      · have hb : b = [] := List.length_eq_zero_iff.mp (hlen ▸ h0)
        rw [hb]
        exact List.length_eq_zero_iff.mp h0
      · rw [if_neg h0] at h
        exact eq_of_beq h
    · rw [if_pos hlen] at h
      cases h
  · rintro rfl
    simp

theorem findVal_eq (key : Bytes) (l : List HtEntry) : findVal key l = l.dlookup key := by
  induction l with
  | nil => rfl
  | cons e l ih =>
    obtain ⟨a, x⟩ := e
    rw [findVal]
    by_cases hk : a = key
    · subst hk
      rw [if_pos (keysEqual_iff.mpr rfl), List.dlookup_cons_eq]
    · rw [if_neg (mt keysEqual_iff.mp hk), ih,
        List.dlookup_cons_ne _ (⟨a, x⟩ : HtEntry) (Ne.symm hk)]

theorem overwriteVal_eq (key val : Bytes) (l : List HtEntry) :
    overwriteVal key val l = l.kreplace key val := by
  induction l with
  | nil => rfl
  | cons e l ih =>
    rw [overwriteVal, ChainedTable.kreplace_cons, ih]
    by_cases hk : e.1 = key
    · rw [if_pos (keysEqual_iff.mpr hk), if_pos hk.symm, hk]
    · rw [if_neg (mt keysEqual_iff.mp hk), if_neg (Ne.symm hk)]

theorem unlinkKey_eq (key : Bytes) (l : List HtEntry) :
    unlinkKey key l = if key ∈ l.keys then some (l.kerase key) else none := by
  induction l with
  | nil => rfl
  | cons e l ih =>
    rw [unlinkKey, ih, List.keys_cons]
    by_cases hk : e.1 = key
    · rw [if_pos (keysEqual_iff.mpr hk), if_pos (by rw [hk]; exact List.mem_cons_self ..),
        List.kerase_cons_eq hk.symm]
    · rw [if_neg (mt keysEqual_iff.mp hk), List.kerase_cons_ne (Ne.symm hk)]
      by_cases hl : key ∈ l.keys
      · rw [if_pos hl, if_pos (List.mem_cons_of_mem _ hl), Option.map_some]
      · rw [if_neg hl, Option.map_none, if_neg]
        rw [List.mem_cons, not_or]
        exact ⟨Ne.symm hk, hl⟩

/-! ## The invariant and the map -/

namespace Hashtable

/-- The bucket a key belongs to. -/
def slotOf (key : Bytes) : Fin HT_NUM_BUCKETS := bucketIndex (htHash key)

theorem bucketIndex_htHash (key : Bytes) : bucketIndex (htHash key) = slotOf key := rfl

/-- All entries in bucket order. -/
def entries (ht : Hashtable) : List HtEntry := ChainedTable.entries ht.buckets

/-- The finite map a table denotes. -/
def toMap (ht : Hashtable) : Finmap fun _ : Bytes => Bytes := ChainedTable.toMap ht.buckets

/-- The representation invariant. -/
structure Inv (ht : Hashtable) : Prop where
  /-- every key in its bucket, once -/
  placed : ChainedTable.WellPlaced slotOf ht.buckets
  /-- the counter counts -/
  count_eq : ht.count = ht.entries.length

theorem inv_init : htInit.Inv := by
  refine ⟨ChainedTable.WellPlaced.empty, ?_⟩
  simp [htInit, entries, ChainedTable.entries]

@[simp] theorem toMap_init : htInit.toMap = ∅ := ChainedTable.toMap_empty

/-- **Lookup is lookup.** -/
theorem Inv.htGet_eq {ht : Hashtable} (hi : ht.Inv) (key : Bytes) :
    htGet ht key = ht.toMap.lookup key := by
  rw [htGet, findVal_eq]
  exact (hi.placed.lookup_toMap key).symm

theorem Inv.mem_toMap {ht : Hashtable} (hi : ht.Inv) (key : Bytes) :
    key ∈ ht.toMap ↔ (htGet ht key).isSome := by
  rw [hi.htGet_eq, Finmap.lookup_isSome]

/-- The counter is the size of the map. -/
theorem Inv.count_eq_card {ht : Hashtable} (hi : ht.Inv) : ht.count = ht.toMap.keys.card := by
  rw [hi.count_eq]
  exact hi.placed.keys_toMap.2.symm

/-! ### `ht_set` -/

/-- The table after a successful `ht_set`. -/
def put (ht : Hashtable) (key val : Bytes) : Hashtable :=
  let chain := ht.buckets (slotOf key)
  match findVal key chain with
  | some _ =>
    { ht with buckets := Function.update ht.buckets (slotOf key) (overwriteVal key val chain) }
  | none => ⟨Function.update ht.buckets (slotOf key) (⟨key, val⟩ :: chain), ht.count + 1⟩

/-- What `ht_set` can come to: the key is set, or an allocation failed and the
table is the one it was. -/
inductive SetOutcome (ht : Hashtable) (key val : Bytes) (h : Heap) :
    Int × Hashtable × Heap → Prop
  | stored {h' : Heap} (failed_eq : h'.failed = h.failed) (size_le : val.length ≤ PTRDIFF_MAX)
      (ample : h.Ample → h'.Ample) : SetOutcome ht key val h (0, ht.put key val, h')
  | refused {h' : Heap} (failed : h'.failed = true)
      (notAmple : h.Ample → key.length ≤ PTRDIFF_MAX → ¬ val.length ≤ PTRDIFF_MAX) :
      SetOutcome ht key val h (-1, ht, h')

/-- `dup_bytes` copies, or the allocator refused. -/
theorem dupBytes_spec (src : Bytes) (h : Heap) :
    (∃ h', dupBytes src h = (some src, h') ∧ h'.failed = h.failed ∧ src.length ≤ PTRDIFF_MAX ∧
      (h.Ample → h'.Ample)) ∨
    (∃ h', dupBytes src h = (none, h') ∧ h'.failed = true ∧
      (h.Ample → ¬ src.length ≤ PTRDIFF_MAX)) := by
  have hone : 1 ≤ PTRDIFF_MAX := by decide
  rw [dupBytes]
  set size := if src.length = 0 then 1 else src.length with hsize
  have hsize_le : src.length ≤ PTRDIFF_MAX ↔ size ≤ PTRDIFF_MAX := by
    rw [hsize]
    split <;> omega
  by_cases hok : (h.malloc size).1 = true
  · left
    have hgranted := Heap.malloc_granted hok
    exact ⟨_, by rw [if_pos hok], hgranted.1, hsize_le.mpr hgranted.2,
      fun ha => (ha.malloc hgranted.2).2⟩
  · right
    refine ⟨_, by rw [if_neg hok], Heap.malloc_refused (by simpa using hok), fun ha hle => ?_⟩
    exact hok (ha.malloc (hsize_le.mp hle)).1

/-- **`ht_set` is all or nothing**, under every pattern of allocation outcomes. -/
theorem htSet_spec (ht : Hashtable) (key val : Bytes) (h : Heap) :
    SetOutcome ht key val h (htSet ht key val h) := by
  have hnode : NODE_SIZE ≤ PTRDIFF_MAX := by decide
  rw [htSet, bucketIndex_htHash]
  cases hfind : findVal key (ht.buckets (slotOf key)) with
  | some old =>
    have hput : ht.put key val = ⟨Function.update ht.buckets (slotOf key)
        (overwriteVal key val (ht.buckets (slotOf key))), ht.count⟩ := by
      simp only [put, hfind]
    rcases dupBytes_spec val h with ⟨h', he, hf, hle, ha⟩ | ⟨h', he, hf, ha⟩
    · simp only [he]
      rw [← hput]
      exact .stored hf hle ha
    · simp only [he]
      exact .refused hf fun hh _ => ha hh
  | none =>
    have hput : ht.put key val = ⟨Function.update ht.buckets (slotOf key)
        (⟨key, val⟩ :: ht.buckets (slotOf key)), ht.count + 1⟩ := by
      simp only [put, hfind]
    -- the node, then the key, then the value; a later refusal frees what came before
    rcases hm : h.malloc NODE_SIZE with ⟨ok, h₁⟩
    have hok : (h.malloc NODE_SIZE).1 = ok := by rw [hm]
    have hh₁ : (h.malloc NODE_SIZE).2 = h₁ := by rw [hm]
    cases ok with
    | false =>
      refine .refused (hh₁ ▸ Heap.malloc_refused hok) fun hh _ => ?_
      rw [(hh.malloc hnode).1] at hok
      cases hok
    | true =>
      have hf₁ : h₁.failed = h.failed := hh₁ ▸ (Heap.malloc_granted hok).1
      have ha₁ : h.Ample → h₁.Ample := fun hh => hh₁ ▸ (hh.malloc hnode).2
      rcases dupBytes_spec key h₁ with ⟨h₂, he₂, hf₂, -, ha₂⟩ | ⟨h₂, he₂, hf₂, ha₂⟩
      · rcases dupBytes_spec val h₂ with ⟨h₃, he₃, hf₃, hle₃, ha₃⟩ | ⟨h₃, he₃, hf₃, ha₃⟩
        · simp only [he₂, he₃]
          rw [← hput]
          exact .stored (hf₃.trans (hf₂.trans hf₁)) hle₃ fun hh => ha₃ (ha₂ (ha₁ hh))
        · simp only [he₂, he₃]
          exact .refused hf₃ fun hh _ => ha₃ (ha₂ (ha₁ hh))
      · simp only [he₂]
        exact .refused hf₂ fun hh hk => absurd hk (ha₂ (ha₁ hh))

/-- A successful `ht_set` keeps the invariant and is an insertion. -/
theorem Inv.put {ht : Hashtable} (hi : ht.Inv) (key val : Bytes) :
    (ht.put key val).Inv ∧ (ht.put key val).toMap = ht.toMap.insert key val := by
  have hlen := ChainedTable.length_entries_update ht.buckets (slotOf key)
  have hcount := hi.count_eq
  rw [entries] at hcount
  cases hfind : findVal key (ht.buckets (slotOf key)) with
  | some old =>
    have hmem : key ∈ (ht.buckets (slotOf key)).keys := by
      rw [← List.dlookup_isSome, ← findVal_eq, hfind]
      rfl
    have hrep := hi.placed.replace val hmem
    have hkeys : ((ht.buckets (slotOf key)).kreplace key val).length =
        (ht.buckets (slotOf key)).length := by
      rw [← List.length_map Sigma.fst, ← List.keys, List.keys_kreplace, List.keys,
        List.length_map]
    simp only [Hashtable.put, hfind, overwriteVal_eq]
    refine ⟨⟨hrep.1, ?_⟩, hrep.2⟩
    have := hlen ((ht.buckets (slotOf key)).kreplace key val)
    simp only [entries]
    omega
  | none =>
    have hmem : key ∉ (ht.buckets (slotOf key)).keys := by
      rw [← List.dlookup_eq_none, ← findVal_eq, hfind]
    have hcons := hi.placed.cons val hmem
    simp only [Hashtable.put, hfind]
    refine ⟨⟨hcons.1, ?_⟩, hcons.2⟩
    have := hlen (⟨key, val⟩ :: ht.buckets (slotOf key))
    rw [List.length_cons] at this
    simp only [entries]
    omega

/-! ### `ht_del` -/

theorem length_kerase {key : Bytes} {l : List HtEntry} (hk : key ∈ l.keys) :
    (l.kerase key).length + 1 = l.length := by
  obtain ⟨x, l₁, l₂, -, hl, herase⟩ := List.exists_of_kerase hk
  rw [herase, hl, List.length_append, List.length_append, List.length_cons]
  omega

/-- `ht_del` keeps the invariant, is an erasure, and reports presence. -/
theorem Inv.htDel {ht : Hashtable} (hi : ht.Inv) (key : Bytes) :
    (RedisInC.htDel ht key).2.Inv ∧ (RedisInC.htDel ht key).2.toMap = ht.toMap.erase key ∧
      (RedisInC.htDel ht key).1 = if key ∈ ht.toMap then 1 else 0 := by
  have hcount := hi.count_eq
  rw [entries] at hcount
  have hmem : key ∈ ht.toMap ↔ key ∈ (ht.buckets (slotOf key)).keys := by
    rw [hi.mem_toMap, htGet, findVal_eq, List.dlookup_isSome]
    rfl
  have herase := hi.placed.erase key
  rw [RedisInC.htDel, bucketIndex_htHash]
  by_cases hk : key ∈ (ht.buckets (slotOf key)).keys
  · simp only [unlinkKey_eq, if_pos hk]
    refine ⟨⟨herase.1, ?_⟩, herase.2, by rw [if_pos (hmem.mpr hk)]⟩
    have hlen := ChainedTable.length_entries_update ht.buckets (slotOf key)
      ((ht.buckets (slotOf key)).kerase key)
    have hone := length_kerase hk
    simp only [entries]
    omega
  · simp only [unlinkKey_eq, if_neg hk]
    refine ⟨hi, ?_, by rw [if_neg (mt hmem.mp hk)]⟩
    refine Finmap.ext_lookup fun k' => ?_
    by_cases hkk : k' = key
    · subst hkk
      rw [Finmap.lookup_erase, Finmap.lookup_eq_none]
      exact mt hmem.mp hk
    · rw [Finmap.lookup_erase_ne hkk]

/-- Lookups after a successful `ht_set`. -/
theorem Inv.htGet_put {ht : Hashtable} (hi : ht.Inv) (key val k : Bytes) :
    htGet (ht.put key val) k = if k = key then some val else htGet ht k := by
  obtain ⟨hinv, hmap⟩ := hi.put key val
  rw [hinv.htGet_eq, hmap, hi.htGet_eq]
  split
  · next hk => rw [hk, Finmap.lookup_insert]
  · next hk => rw [Finmap.lookup_insert_of_ne _ hk]

/-- Lookups after `ht_del`. -/
theorem Inv.htGet_del {ht : Hashtable} (hi : ht.Inv) (key k : Bytes) :
    htGet (RedisInC.htDel ht key).2 k = if k = key then none else htGet ht k := by
  obtain ⟨hinv, hmap, -⟩ := hi.htDel key
  rw [hinv.htGet_eq, hmap, hi.htGet_eq]
  split
  · next hk => rw [hk, Finmap.lookup_erase]
  · next hk => rw [Finmap.lookup_erase_ne hk]

@[simp] theorem htGet_init (k : Bytes) : htGet htInit k = none := rfl

/-- Every stored value is an object, so no longer than objects can be. -/
def Fits (ht : Hashtable) : Prop := ∀ key val, htGet ht key = some val → val.length ≤ PTRDIFF_MAX

theorem fits_init : htInit.Fits := by
  intro key val h
  rw [htGet_init] at h
  cases h

theorem Fits.put {ht : Hashtable} (hf : ht.Fits) (hi : ht.Inv) (key : Bytes) {val : Bytes}
    (hval : val.length ≤ PTRDIFF_MAX) : (ht.put key val).Fits := by
  intro k v h
  rw [hi.htGet_put] at h
  split at h
  · cases h
    exact hval
  · exact hf k v h

theorem Fits.del {ht : Hashtable} (hf : ht.Fits) (hi : ht.Inv) (key : Bytes) :
    (RedisInC.htDel ht key).2.Fits := by
  intro k v h
  rw [hi.htGet_del] at h
  split at h
  · cases h
  · exact hf k v h

/-! ### `ht_scan` -/

/-- A scan walks the entries. -/
theorem htScan_eq {σ : Type} (ht : Hashtable) (cb : Bytes → Bytes → σ → Bool × σ) (ud : σ) :
    htScan ht cb ud = scanEntries cb ht.entries 0 ud := rfl

theorem scanEntries_never_stops {σ : Type} {cb : Bytes → Bytes → σ → Bool × σ}
    (hcb : ∀ k v ud, (cb k v ud).1 = true) (l : List HtEntry) (visited : ℕ) (ud : σ) :
    scanEntries cb l visited ud =
      (visited + l.length, l.foldl (fun s e => (cb e.1 e.2 s).2) ud) := by
  induction l generalizing visited ud with
  | nil => rfl
  | cons e l ih =>
    rw [scanEntries]
    simp only [hcb, if_true]
    rw [ih, List.length_cons, List.foldl_cons, Nat.add_right_comm, Nat.add_assoc]

/-- **A full scan** runs over all entries in bucket order. -/
theorem htScan_never_stops {σ : Type} {cb : Bytes → Bytes → σ → Bool × σ}
    (hcb : ∀ k v ud, (cb k v ud).1 = true) (ht : Hashtable) (ud : σ) :
    htScan ht cb ud =
      (ht.entries.length, ht.entries.foldl (fun s e => (cb e.1 e.2 s).2) ud) := by
  rw [htScan, scanEntries_never_stops hcb, Nat.zero_add]
  rfl

/-- The entries are the bindings of the map, each once. -/
theorem Inv.entries_spec {ht : Hashtable} (hi : ht.Inv) :
    ht.entries.NodupKeys ∧ ∀ k v, (⟨k, v⟩ : HtEntry) ∈ ht.entries ↔ htGet ht k = some v := by
  refine ⟨hi.placed.entries_nodupKeys, fun k v => ?_⟩
  rw [hi.htGet_eq, toMap, ChainedTable.toMap, Finmap.dlookup_list_toFinmap, ← Option.mem_def,
    List.mem_dlookup_iff hi.placed.entries_nodupKeys]
  rfl

end Hashtable

/-! ## Whole runs -/

/-- One operation on a table. -/
inductive HtOp : Type
  | set (key val : Bytes)
  | del (key : Bytes)
  | destroy

/-- A table in use, the allocator, and the map its successful operations have
determined so far. -/
structure HtRun where
  /-- the table -/
  table : Hashtable
  /-- the allocator -/
  heap : Heap
  /-- the map of the successful operations -/
  map : Finmap fun _ : Bytes => Bytes

/-- One operation: the code on the table, and on the map what its return code
promises. -/
def HtRun.step (s : HtRun) : HtOp → HtRun
  | .set k v =>
    let r := htSet s.table k v s.heap
    ⟨r.2.1, r.2.2, if r.1 = 0 then s.map.insert k v else s.map⟩
  | .del k => ⟨(htDel s.table k).2, s.heap, s.map.erase k⟩
  | .destroy => ⟨htDestroy s.table, s.heap, ∅⟩

/-- One operation on a map. -/
def HtOp.onMap (m : Finmap fun _ : Bytes => Bytes) : HtOp → Finmap fun _ : Bytes => Bytes
  | .set k v => m.insert k v
  | .del k => m.erase k
  | .destroy => ∅

/-- A run from `ht_init` under an allocator. -/
def htRun (h : Heap) (ops : List HtOp) : HtRun := ops.foldl HtRun.step ⟨htInit, h, ∅⟩

/-- Everything a table owes to the map it stands for. -/
structure BehavesAs (ht : Hashtable) (m : Finmap fun _ : Bytes => Bytes) : Prop where
  /-- every stored key lies in the bucket its hash selects -/
  placed : ∀ i, ∀ e ∈ ht.buckets i, bucketIndex (htHash e.1) = i
  /-- no key is stored twice -/
  nodup : ht.entries.keys.Nodup
  /-- the counter equals the number of entries -/
  count : ht.count = ht.entries.length
  /-- lookups agree with the map -/
  get : ∀ k, htGet ht k = m.lookup k
  /-- `ht_set` sets its key and leaves the others, or an allocation is refused, and it
  fails and changes nothing -/
  set : ∀ k v h,
    ((htSet ht k v h).1 = 0 ∧ (htSet ht k v h).2.2.failed = h.failed ∧
      htGet (htSet ht k v h).2.1 k = some v ∧
      ∀ k', k' ≠ k → htGet (htSet ht k v h).2.1 k' = htGet ht k') ∨
    ((htSet ht k v h).1 = -1 ∧ (htSet ht k v h).2.2.failed = true ∧ (htSet ht k v h).2.1 = ht)
  /-- `ht_del` reports presence, removes its key and leaves the others -/
  del : ∀ k, (htDel ht k).1 = (if k ∈ m then 1 else 0) ∧ htGet (htDel ht k).2 k = none ∧
    ∀ k', k' ≠ k → htGet (htDel ht k).2 k' = htGet ht k'
  /-- a scan that is never stopped visits every binding once and returns the count -/
  scan : ∃ visited : List HtEntry, visited.keys.Nodup ∧
    (∀ k v, (⟨k, v⟩ : HtEntry) ∈ visited ↔ htGet ht k = some v) ∧
    ∀ (σ : Type) (cb : Bytes → Bytes → σ → Bool × σ) (ud : σ),
      (∀ k v s, (cb k v s).1 = true) →
        htScan ht cb ud = (ht.count, visited.foldl (fun s e => (cb e.1 e.2 s).2) ud)

/-- A table in order behaves as the map it denotes. -/
theorem Hashtable.Inv.behavesAs {ht : Hashtable} (hi : ht.Inv) : BehavesAs ht ht.toMap where
  placed := hi.placed.placed
  nodup := hi.entries_spec.1
  count := hi.count_eq
  get := hi.htGet_eq
  set k v h := by
    have hspec := Hashtable.htSet_spec ht k v h
    generalize htSet ht k v h = r at hspec ⊢
    cases hspec with
    | stored failed_eq =>
      refine Or.inl ⟨rfl, failed_eq, ?_, fun k' hk => ?_⟩
      · rw [hi.htGet_put, if_pos rfl]
      · rw [hi.htGet_put, if_neg hk]
    | refused failed => exact Or.inr ⟨rfl, failed, rfl⟩
  del k := by
    refine ⟨(hi.htDel k).2.2, ?_, fun k' hk => ?_⟩
    · rw [hi.htGet_del, if_pos rfl]
    · rw [hi.htGet_del, if_neg hk]
  scan := by
    refine ⟨ht.entries, hi.entries_spec.1, hi.entries_spec.2, fun σ cb ud hcb => ?_⟩
    rw [Hashtable.htScan_never_stops hcb, hi.count_eq]

/-- One operation keeps the table in order and in step with the map. -/
theorem HtRun.step_inv {s : HtRun} (hs : s.table.Inv ∧ s.table.toMap = s.map) (op : HtOp) :
    (s.step op).table.Inv ∧ (s.step op).table.toMap = (s.step op).map := by
  obtain ⟨hi, hm⟩ := hs
  cases op with
  | set k v =>
    have hput := hi.put k v
    have hspec := Hashtable.htSet_spec s.table k v s.heap
    simp only [HtRun.step]
    generalize htSet s.table k v s.heap = r at hspec ⊢
    cases hspec with
    | stored => exact ⟨hput.1, by rw [hput.2, hm, if_pos rfl]⟩
    | refused => exact ⟨hi, hm⟩
  | del k =>
    obtain ⟨hinv, hmap, -⟩ := hi.htDel k
    exact ⟨hinv, by rw [HtRun.step, hmap, hm]⟩
  | destroy => exact ⟨Hashtable.inv_init, Hashtable.toMap_init⟩

/-- So does a run. -/
theorem htRun_inv (h : Heap) (ops : List HtOp) :
    (htRun h ops).table.Inv ∧ (htRun h ops).table.toMap = (htRun h ops).map := by
  refine List.foldlRecOn (motive := fun s : HtRun => s.table.Inv ∧ s.table.toMap = s.map) ops
    HtRun.step ⟨Hashtable.inv_init, Hashtable.toMap_init⟩ ?_
  intro s hs op _
  exact HtRun.step_inv hs op

/-- An operation fails only for want of memory. -/
theorem HtRun.step_map {s : HtRun} {op : HtOp} (hf : (s.step op).heap.failed = false) :
    s.heap.failed = false ∧ (s.step op).map = op.onMap s.map := by
  cases op with
  | set k v =>
    have hspec := Hashtable.htSet_spec s.table k v s.heap
    simp only [HtRun.step] at hf ⊢
    generalize htSet s.table k v s.heap = r at hspec hf ⊢
    cases hspec with
    | stored failed_eq => exact ⟨failed_eq.symm.trans hf, rfl⟩
    | refused failed => exact absurd (failed.symm.trans hf) (by decide)
  | del k => exact ⟨hf, rfl⟩
  | destroy => exact ⟨hf, rfl⟩

/-- If none has failed, the map is the one of all operations. -/
theorem foldl_step_map {s : HtRun} (ops : List HtOp)
    (hf : (ops.foldl HtRun.step s).heap.failed = false) :
    s.heap.failed = false ∧ (ops.foldl HtRun.step s).map = ops.foldl HtOp.onMap s.map := by
  induction ops generalizing s with
  | nil => exact ⟨hf, rfl⟩
  | cons op ops ih =>
    obtain ⟨hfirst, hrest⟩ := ih hf
    obtain ⟨hbefore, hmap⟩ := HtRun.step_map hfirst
    refine ⟨hbefore, ?_⟩
    rw [List.foldl_cons, List.foldl_cons, hrest, hmap]

/-- **A hash table is a finite map.** Whatever operations a table has been
through, and whatever the allocator did, it behaves as the map determined by the
operations that succeeded; these are all of them unless an allocation has been
refused. -/
theorem ht_behaves_as_map (h : Heap) (ops : List HtOp) :
    BehavesAs (htRun h ops).table (htRun h ops).map ∧
      ((htRun h ops).heap.failed = false → (htRun h ops).map = ops.foldl HtOp.onMap ∅) := by
  obtain ⟨hi, hm⟩ := htRun_inv h ops
  refine ⟨?_, fun hf => (foldl_step_map ops hf).2⟩
  rw [← hm]
  exact hi.behavesAs

/-- Two keys are set and the first one is deleted: the second one is read back, and
the first one is not there. -/
theorem ht_behaves_as_map_set :
    htGet (htRun Heap.ample [.set (ascii "a") (ascii "1"), .set (ascii "b") (ascii "2"),
        .del (ascii "a")]).table (ascii "b") = some (ascii "2") ∧
      htGet (htRun Heap.ample [.set (ascii "a") (ascii "1"), .set (ascii "b") (ascii "2"),
        .del (ascii "a")]).table (ascii "a") = none := by
  obtain ⟨hbehaves, hmap⟩ := ht_behaves_as_map Heap.ample
    [.set (ascii "a") (ascii "1"), .set (ascii "b") (ascii "2"), .del (ascii "a")]
  rw [hbehaves.get, hbehaves.get, hmap (by decide)]
  exact ⟨by decide, by decide⟩

-- the other modules know a table by its lemmas; unfolding 1024 buckets is of no use to them
attribute [irreducible] Hashtable.toMap Hashtable.entries

end RedisInC
