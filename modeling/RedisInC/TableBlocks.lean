import Mathlib.Tactic.Abel
import RedisInC.Blocks

/-!
# The hash table in memory (`hashtable.c`)

The functions of `hashtable.c` once more, this time on the blocks they work on: an entry
is a node, a key array and a value array, and the chains are linked through the nodes.

* `Raw.htHash` … `Raw.htScan` — the functions.
* `OwnedEntry`, `OwnedTable` — an entry and a table together with the blocks they own.
* `headOr`, `chainCells`, `locate` — the blocks of a chain, and where a key is.
-/

namespace RedisInC

open BlockMemory

/-- `hashtable_t` -/
structure TableNode where
  /-- chain heads, `NULL` when empty -/
  buckets : Fin HT_NUM_BUCKETS → Option Addr
  /-- total live entries -/
  count : ℕ

/-! ## The code -/

/-- It is the null pointer. -/
def Pointer.isNull : Pointer → Bool
  | null => true
  | _ => false

namespace Raw

def htHash (key : Pointer) (klen : ℕ) : Code UInt64 := do
  let bytes ← readBytes key klen
  return RedisInC.htHash bytes

def keysEqual (a : Pointer) (alen : ℕ) (b : Pointer) (blen : ℕ) : Code Bool :=
  if alen ≠ blen then return false
  else if alen = 0 then return true
  else do
    let x ← readBytes a alen
    let y ← readBytes b blen
    return x == y

def htInit : TableNode := ⟨fun _ => none, 0⟩

def freeEntry (e : Addr) : Code Unit := do
  let node ← loadEntry e
  free (some node.key)
  let node ← loadEntry e
  free (some node.val)
  free (some e)

/-- The loop over a chain in `ht_destroy`. -/
def freeChain : ℕ → Option Addr → Code Unit
  | _, none => return ()
  | 0, some _ => fault
  | fuel + 1, some cur => do
    let node ← loadEntry cur
    freeEntry cur
    freeChain fuel node.next

/-- The loop over the buckets in `ht_destroy`. A chain is no longer than there are blocks. -/
def destroyBuckets : List (Fin HT_NUM_BUCKETS) → TableNode → Code TableNode
  | [], ht => return { ht with count := 0 }
  | i :: is, ht => do
    let fuel ← blockCount
    freeChain fuel (ht.buckets i)
    destroyBuckets is { ht with buckets := Function.update ht.buckets i none }

def htDestroy (ht : TableNode) : Code TableNode :=
  destroyBuckets (List.finRange HT_NUM_BUCKETS) ht

def dupBytes (src : Pointer) (len : ℕ) : Code (Option Addr) := do
  match ← malloc (if len = 0 then 1 else len) with
  | none => return none
  | some buf =>
    if len > 0 ∧ ¬ src.isNull then do
      memcpy buf 0 src len
      return some buf
    else return some buf

/-- The loop of `ht_get`, and the first one of `ht_set`: the first entry with the key. -/
def findEntry (key : Pointer) (klen : ℕ) : ℕ → Option Addr → Code (Option Addr)
  | _, none => return none
  | 0, some _ => fault
  | fuel + 1, some cur => do
    let node ← loadEntry cur
    if ← keysEqual (.heap node.key 0) node.klen key klen then return some cur
    else findEntry key klen fuel node.next

def htSet (ht : TableNode) (key : Pointer) (klen : ℕ) (val : Pointer) (vlen : ℕ) :
    Code (Int × TableNode) := do
  let idx := bucketIndex (← htHash key klen)
  let fuel ← blockCount
  match ← findEntry key klen fuel (ht.buckets idx) with
  | some cur =>
    match ← dupBytes val vlen with
    | none => return (-1, ht)
    | some newVal =>
      let node ← loadEntry cur
      free (some node.val)
      put cur (.entry ⟨node.key, node.klen, newVal, vlen, node.next⟩)
      return (0, ht)
  | none =>
    match ← malloc NODE_SIZE with
    | none => return (-1, ht)
    | some node =>
      match ← dupBytes key klen with
      | none =>
        free (some node)
        return (-1, ht)
      | some keyCopy =>
        match ← dupBytes val vlen with
        | none =>
          free (some keyCopy)
          free (some node)
          return (-1, ht)
        | some valCopy =>
          put node (.entry ⟨keyCopy, klen, valCopy, vlen, ht.buckets idx⟩)
          return (0, ⟨Function.update ht.buckets idx (some node), ht.count + 1⟩)

/-- `ht_entry_t **`: the place of a chain head, or the link in a node. -/
inductive EntryLink : Type
  /-- `&ht->buckets[i]` -/
  | bucket (i : Fin HT_NUM_BUCKETS)
  /-- `&cur->next` -/
  | next (cur : Addr)

/-- `*link` -/
def readLink (ht : TableNode) : EntryLink → Code (Option Addr)
  | .bucket i => return ht.buckets i
  | .next cur => do
    let node ← loadEntry cur
    return node.next

/-- `*link = q` -/
def writeLink (ht : TableNode) (q : Option Addr) : EntryLink → Code TableNode
  | .bucket i => return { ht with buckets := Function.update ht.buckets i q }
  | .next cur => do
    let node ← loadEntry cur
    put cur (.entry ⟨node.key, node.klen, node.val, node.vlen, q⟩)
    return ht

/-- The loop of `ht_del`. -/
def delLoop (key : Pointer) (klen : ℕ) : ℕ → TableNode → EntryLink → Code (Int × TableNode)
  | fuel, ht, link => do
    match ← readLink ht link with
    | none => return (0, ht)
    | some cur =>
      match fuel with
      | 0 => fault
      | fuel + 1 =>
        let node ← loadEntry cur
        if ← keysEqual (.heap node.key 0) node.klen key klen then
          let ht ← writeLink ht node.next link
          freeEntry cur
          return (1, { ht with count := ht.count - 1 })
        else delLoop key klen fuel ht (.next cur)

def htDel (ht : TableNode) (key : Pointer) (klen : ℕ) : Code (Int × TableNode) := do
  let idx := bucketIndex (← htHash key klen)
  let fuel ← blockCount
  delLoop key klen fuel ht (.bucket idx)

/-- `ht_get`: on a hit, where the value is and how long. -/
def htGet (ht : TableNode) (key : Pointer) (klen : ℕ) : Code (Option (Pointer × ℕ)) := do
  let idx := bucketIndex (← htHash key klen)
  let fuel ← blockCount
  match ← findEntry key klen fuel (ht.buckets idx) with
  | none => return none
  | some cur =>
    let node ← loadEntry cur
    return some (.heap node.val 0, node.vlen)

/-- The loop over a chain in `ht_scan`, and whether to go on behind it. -/
def scanChain {υ : Type} (cb : Pointer → ℕ → Pointer → ℕ → υ → Code (Bool × υ)) :
    ℕ → Option Addr → ℕ → υ → Code (Bool × ℕ × υ)
  | _, none, visited, ud => return (true, visited, ud)
  | 0, some _, _, _ => fault
  | fuel + 1, some cur, visited, ud => do
    let node ← loadEntry cur
    let r ← cb (.heap node.key 0) node.klen (.heap node.val 0) node.vlen ud
    if r.1 then
      let node ← loadEntry cur
      scanChain cb fuel node.next (visited + 1) r.2
    else return (false, visited + 1, r.2)

/-- The loop over the buckets in `ht_scan`. -/
def scanBuckets {υ : Type} (cb : Pointer → ℕ → Pointer → ℕ → υ → Code (Bool × υ)) (ht : TableNode) :
    List (Fin HT_NUM_BUCKETS) → ℕ → υ → Code (ℕ × υ)
  | [], visited, ud => return (visited, ud)
  | i :: is, visited, ud => do
    let fuel ← blockCount
    let r ← scanChain cb fuel (ht.buckets i) visited ud
    if r.1 then scanBuckets cb ht is r.2.1 r.2.2 else return r.2

def htScan {υ : Type} (ht : TableNode) (cb : Pointer → ℕ → Pointer → ℕ → υ → Code (Bool × υ))
    (ud : υ) : Code (ℕ × υ) := scanBuckets cb ht (List.finRange HT_NUM_BUCKETS) 0 ud

end Raw

/-! ## What a table owns -/

/-- An entry with its three blocks. -/
structure OwnedEntry where
  /-- where the node is -/
  addr : Addr
  /-- where the key is -/
  keyAt : Addr
  /-- where the value is -/
  valAt : Addr
  /-- the key -/
  key : Bytes
  /-- what its array holds behind it -/
  keyPad : Bytes
  /-- the value -/
  val : Bytes
  /-- what its array holds behind it -/
  valPad : Bytes

namespace OwnedEntry

/-- The entry it stands for. -/
def toEntry (e : OwnedEntry) : HtEntry := ⟨e.key, e.val⟩

/-- Its node, linked to the next one. -/
def node (e : OwnedEntry) (next : Option Addr) : EntryNode :=
  ⟨e.keyAt, e.key.length, e.valAt, e.val.length, next⟩

/-- Its arrays. -/
def arrays (e : OwnedEntry) : Cells Addr Block :=
  cell e.keyAt (.bytes (e.key ++ e.keyPad)) + cell e.valAt (.bytes (e.val ++ e.valPad))

/-- Its blocks. -/
def cells (e : OwnedEntry) (next : Option Addr) : Cells Addr Block :=
  cell e.addr (.entry (e.node next)) + e.arrays

end OwnedEntry

/-- The address of the first entry, or this one. -/
def headOr (l : List OwnedEntry) (q : Option Addr) : Option Addr := linkHead OwnedEntry.addr l q

/-- The blocks of a chain that ends with this address. -/
def chainCells (l : List OwnedEntry) (q : Option Addr) : Cells Addr Block :=
  linkedCells OwnedEntry.addr OwnedEntry.cells l q

/-- A table with its blocks. -/
structure OwnedTable where
  /-- the chains -/
  chains : Fin HT_NUM_BUCKETS → List OwnedEntry
  /-- the counter -/
  count : ℕ

namespace OwnedTable

/-- The struct. -/
def node (t : OwnedTable) : TableNode := ⟨fun i => headOr (t.chains i) none, t.count⟩

/-- The table it stands for. -/
def toTable (t : OwnedTable) : Hashtable := ⟨fun i => (t.chains i).map OwnedEntry.toEntry, t.count⟩

/-- Its blocks. -/
def cells (t : OwnedTable) : Cells Addr Block := ∑ i, chainCells (t.chains i) none

/-- The blocks of all chains but one. -/
def others (t : OwnedTable) (i : Fin HT_NUM_BUCKETS) : Cells Addr Block :=
  ∑ j ∈ Finset.univ.erase i, chainCells (t.chains j) none

/-- Another chain in a bucket. -/
def set (t : OwnedTable) (i : Fin HT_NUM_BUCKETS) (l : List OwnedEntry) (count : ℕ) : OwnedTable :=
  ⟨Function.update t.chains i l, count⟩

/-- The empty table. -/
def empty : OwnedTable := ⟨fun _ => [], 0⟩

/-- How a table is kept in memory. -/
def layout : Layout OwnedTable TableNode (Hashtable × Heap) Allocator Addr Block where
  node := node
  cells := cells
  value t s := (t.toTable, s.heap)

end OwnedTable

section Chains

variable {l l₁ l₂ : List OwnedEntry} {q : Option Addr}

theorem headOr_append (l₁ l₂ : List OwnedEntry) (q : Option Addr) :
    headOr (l₁ ++ l₂) q = headOr l₁ (headOr l₂ q) := linkHead_append ..

theorem headOr_cons (e : OwnedEntry) (es : List OwnedEntry) (q : Option Addr) :
    headOr (e :: es) q = some e.addr := rfl

theorem chainCells_nil (q : Option Addr) : chainCells [] q = 0 := rfl

theorem chainCells_cons (e : OwnedEntry) (es : List OwnedEntry) (q : Option Addr) :
    chainCells (e :: es) q = e.cells (headOr es q) + chainCells es q := rfl

theorem chainCells_append (l₁ l₂ : List OwnedEntry) (q : Option Addr) :
    chainCells (l₁ ++ l₂) q = chainCells l₁ (headOr l₂ q) + chainCells l₂ q :=
  linkedCells_append ..

/-- **Three blocks for each entry.** -/
theorem card_chainCells (l : List OwnedEntry) (q : Option Addr) :
    (chainCells l q).card = 3 * l.length := by
  induction l with
  | nil => rfl
  | cons e es ih =>
    rw [chainCells_cons, Multiset.card_add, ih, List.length_cons]
    simp only [OwnedEntry.cells, OwnedEntry.arrays, cell, Multiset.card_add,
      Multiset.card_singleton]
    ring

theorem length_le_card {F : Cells Addr Block} (h : chainCells l q ≤ F) : l.length ≤ F.card := by
  have hcard := Multiset.card_le_card h
  rw [card_chainCells] at hcard
  omega

/-- The first entry with a key. -/
def locate (key : Bytes) (l : List OwnedEntry) : Option OwnedEntry :=
  l.find? fun e => keysEqual e.key key

theorem findVal_locate (key : Bytes) (l : List OwnedEntry) :
    findVal key (l.map OwnedEntry.toEntry) = (locate key l).map OwnedEntry.val := by
  induction l with
  | nil => rfl
  | cons e es ih =>
    rw [List.map_cons, findVal, locate, List.find?_cons, ih, locate]
    change (if keysEqual e.key key = true then some e.val else _) = _
    cases keysEqual e.key key with
    | true => rfl
    | false => rfl

/-- An entry in a chain, and what is before and behind it. -/
theorem locate_split {key : Bytes} {e : OwnedEntry} (h : locate key l = some e) :
    ∃ l₁ l₂, l = l₁ ++ e :: l₂ ∧ e.key = key ∧
      ∀ val, overwriteVal key val (l.map OwnedEntry.toEntry) =
        l₁.map OwnedEntry.toEntry ++ ⟨e.key, val⟩ :: l₂.map OwnedEntry.toEntry := by
  induction l with
  | nil => cases h
  | cons x xs ih =>
    rw [locate, List.find?_cons] at h
    cases hx : keysEqual x.key key with
    | true =>
      rw [hx] at h
      cases h
      refine ⟨[], xs, rfl, keysEqual_iff.mp hx, fun val => ?_⟩
      rw [List.map_cons, overwriteVal]
      exact if_pos hx
    | false =>
      rw [hx] at h
      obtain ⟨l₁, l₂, rfl, hkey, hover⟩ := ih h
      refine ⟨x :: l₁, l₂, rfl, hkey, fun val => ?_⟩
      rw [List.map_cons, overwriteVal, hover]
      exact if_neg (Bool.eq_false_iff.mp hx)

end Chains

namespace OwnedTable

variable (t : OwnedTable) (i : Fin HT_NUM_BUCKETS)

@[simp] theorem chains_set_self (l : List OwnedEntry) (count : ℕ) :
    (t.set i l count).chains i = l := Function.update_self ..

@[simp] theorem chains_set_of_ne {j : Fin HT_NUM_BUCKETS} (hj : j ≠ i) (l : List OwnedEntry)
    (count : ℕ) : (t.set i l count).chains j = t.chains j := Function.update_of_ne hj ..

theorem cells_split : t.cells = chainCells (t.chains i) none + t.others i :=
  (Finset.add_sum_erase _ (fun j => chainCells (t.chains j) none) (Finset.mem_univ i)).symm

theorem others_set (l : List OwnedEntry) (count : ℕ) : (t.set i l count).others i = t.others i := by
  refine Finset.sum_congr rfl fun j hj => ?_
  rw [chains_set_of_ne _ _ (Finset.ne_of_mem_erase hj)]

theorem cells_set (l : List OwnedEntry) (count : ℕ) :
    (t.set i l count).cells = chainCells l none + t.others i := by
  rw [cells_split _ i, others_set, chains_set_self]

theorem node_set (l : List OwnedEntry) (count : ℕ) :
    (t.set i l count).node =
      ⟨Function.update t.node.buckets i (headOr l none), count⟩ := by
  refine congrArg (fun f => (⟨f, count⟩ : TableNode)) (funext fun j => ?_)
  by_cases hj : j = i
  · rw [hj, Function.update_self, chains_set_self]
  · rw [Function.update_of_ne hj, chains_set_of_ne _ _ hj]
    rfl

theorem toTable_set (l : List OwnedEntry) (count : ℕ) :
    (t.set i l count).toTable =
      ⟨Function.update t.toTable.buckets i (l.map OwnedEntry.toEntry), count⟩ := by
  refine congrArg (fun f => (⟨f, count⟩ : Hashtable)) (funext fun j => ?_)
  by_cases hj : j = i
  · rw [hj, Function.update_self, chains_set_self]
  · rw [Function.update_of_ne hj, chains_set_of_ne _ _ hj]
    rfl

/-- The blocks of an entry, and the others. -/
theorem cells_at {l₁ l₂ : List OwnedEntry} {e : OwnedEntry} (h : t.chains i = l₁ ++ e :: l₂) :
    t.cells = e.cells (headOr l₂ none) +
      (chainCells l₁ (some e.addr) + chainCells l₂ none + t.others i) := by
  rw [t.cells_split i, h, chainCells_append, chainCells_cons]
  change chainCells l₁ (some e.addr) + _ + _ = _
  abel

/-- Another entry at the same address: the struct does not change. -/
theorem node_replace {l₁ l₂ : List OwnedEntry} {e e' : OwnedEntry}
    (h : t.chains i = l₁ ++ e :: l₂) (haddr : e'.addr = e.addr) :
    (t.set i (l₁ ++ e' :: l₂) t.count).node = t.node := by
  have hhead : headOr (l₁ ++ e' :: l₂) none = t.node.buckets i := by
    change _ = headOr (t.chains i) none
    rw [h, headOr_append, headOr_append, headOr_cons, headOr_cons, haddr]
  rw [node_set, hhead, Function.update_eq_self]
  rfl

@[simp] theorem cells_empty : empty.cells = 0 := Finset.sum_const_zero

theorem cells_eq_sum : t.cells =
    ((List.finRange HT_NUM_BUCKETS).map fun i => chainCells (t.chains i) none).sum :=
  Fin.sum_univ_def _

-- a sum over all buckets is not for evaluating
attribute [irreducible] cells others

theorem chain_le : chainCells (t.chains i) none ≤ t.cells := by
  rw [t.cells_split i]
  exact Multiset.le_add_right _ _

end OwnedTable

end RedisInC
