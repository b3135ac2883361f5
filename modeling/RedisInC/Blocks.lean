import Mathlib.Order.Lattice.Nat
import RedisInC.BlockMemory
import RedisInC.Bytebuf
import RedisInC.Hashtable
import RedisInC.Server

/-!
# The memory of the program

Everything so far takes strings, chains and buffers by value. Here they are blocks that
`malloc` has returned, and the code reaches them through pointers. Reading or writing a
block that is not there or past its end, copying between parts of one block, and freeing
what is not allocated have no result.

* `Block`, `Allocator`, `Code` — what is allocated, and the code that works on it.
* `Pointer`, `Readable` — where the bytes of an argument are.
* `Raw.malloc`, `Raw.realloc`, `Raw.memcpy`, … — the library functions, each with what it
  leaves.
-/

namespace RedisInC

open BlockMemory

/-- The address of a block. -/
abbrev Addr : Type := ℕ

/-- `ht_entry_t` -/
structure EntryNode where
  /-- the key bytes -/
  key : Addr
  /-- length of the key -/
  klen : ℕ
  /-- the value bytes -/
  val : Addr
  /-- length of the value -/
  vlen : ℕ
  /-- next entry in this bucket's chain -/
  next : Option Addr

/-- `bytebuf_t` -/
structure BufferNode where
  /-- the backing array -/
  data : Option Addr
  /-- allocated capacity -/
  cap : ℕ
  /-- total bytes written -/
  len : ℕ
  /-- bytes consumed from the head -/
  off : ℕ

/-- `conn_t` -/
structure ConnNode where
  /-- the socket -/
  fd : Fd
  /-- bytes read from peer -/
  inBuf : BufferNode
  /-- serialized replies awaiting write -/
  outBuf : BufferNode
  /-- current epoll interest mask -/
  events : UInt32
  /-- close once `outBuf` is fully written -/
  closeAfterDrain : Bool
  /-- link in `g_conns` -/
  next : Option Addr

/-- What is allocated. -/
inductive Block : Type
  /-- an array of bytes -/
  | bytes (data : Bytes)
  /-- an entry of the table -/
  | entry (e : EntryNode)
  /-- a connection -/
  | conn (c : ConnNode)

/-- The size of a block. -/
def Block.size : Block → ℕ
  | bytes data => data.length
  | entry _ => NODE_SIZE
  | conn _ => SIZEOF_CONN

/-- The allocator: whether it grants a request, and where it puts it. -/
structure Allocator where
  /-- what it grants -/
  heap : Heap
  /-- the addresses, request by request -/
  place : ℕ → Chooser Addr

/-- An allocator that grants everything, above all that is in use. -/
def Allocator.ample : Allocator where
  heap := Heap.ample
  place _ := ⟨fun used => used.sup id + 1, fun _ hin => Nat.not_succ_le_self _ (Finset.le_sup (f := id) hin)⟩

/-- Code that works on memory. -/
abbrev Code (α : Type) : Type := Prog Allocator Addr Block α

/-- Where an argument points to. -/
inductive Pointer : Type
  /-- `NULL` -/
  | null
  /-- into a block -/
  | heap (a : Addr) (off : ℕ)
  /-- to a literal or a local array -/
  | here (data : Bytes)

/-- It does not point into this block. -/
def Pointer.apart (dst : Addr) : Pointer → Bool
  | null => false
  | heap a _ => decide (a ≠ dst)
  | here _ => true

/-- A pointer some bytes further. -/
def Pointer.add : Pointer → ℕ → Pointer
  | null, _ => null
  | heap a off, n => heap a (off + n)
  | here data, n => here (data.drop n)

namespace Raw

/-! ## Library functions -/

/-- `malloc` -/
def malloc (size : ℕ) : Code (Option Addr) := do
  let s ← getState
  let r := s.heap.malloc size
  setState ⟨r.2, fun n => s.place (n + 1)⟩
  if r.1 then
    let a ← alloc (s.place 0) (.bytes ((List.range size).map s.heap.fresh))
    return some a
  else return none

/-- `free` -/
def free : Option Addr → Code Unit
  | none => return ()
  | some a => BlockMemory.free a

/-- `len` bytes from a pointer on. -/
def readBytes (p : Pointer) (len : ℕ) : Code Bytes :=
  if len = 0 then return []
  else
    match p with
    | .null => fault
    | .here data => if len ≤ data.length then return data.take len else fault
    | .heap a off => do
      match ← load a with
      | .bytes data => if off + len ≤ data.length then return (data.drop off).take len else fault
      | _ => fault

/-- Write to an array. -/
def writeBytes (dst : Addr) (pos : ℕ) (src : Bytes) : Code Unit := do
  match ← load dst with
  | .bytes data =>
    if pos + src.length ≤ data.length then store dst (.bytes (RedisInC.memcpy data pos src))
    else fault
  | _ => fault

/-- `memcpy(dst + pos, src, len)`; the two may not overlap. -/
def memcpy (dst : Addr) (pos : ℕ) (src : Pointer) (len : ℕ) : Code Unit :=
  if src.apart dst then do
    let bytes ← readBytes src len
    writeBytes dst pos bytes
  else fault

/-- `memmove(dst + pos, dst + off, len)` -/
def memmove (dst : Addr) (pos off len : ℕ) : Code Unit := do
  let bytes ← readBytes (.heap dst off) len
  writeBytes dst pos bytes

/-- `realloc` of an array: a longer one is begun by what the old one held. If the request
is refused, the old one stays. -/
def realloc (p : Option Addr) (size : ℕ) : Code (Option Addr) :=
  match p with
  | none => malloc size
  | some old => do
    match ← load old with
    | .bytes data =>
      let s ← getState
      let r := s.heap.malloc size
      setState ⟨r.2, fun n => s.place (n + 1)⟩
      if r.1 then
        BlockMemory.free old
        let a ← alloc (s.place 0)
          (.bytes (data.take size ++ (List.range (size - data.length)).map s.heap.fresh))
        return some a
      else return none
    | _ => fault

/-- The fields of an entry. -/
def loadEntry (a : Addr) : Code EntryNode := do
  match ← load a with
  | .entry e => return e
  | _ => fault

/-- The fields of a connection. -/
def loadConn (a : Addr) : Code ConnNode := do
  match ← load a with
  | .conn c => return c
  | _ => fault

/-- Other contents for a block, of the same size. -/
def put (a : Addr) (b : Block) : Code Unit := do
  let old ← load a
  if old.size = b.size then store a b else fault

end Raw

/-! ## What they leave -/

/-- The bytes of an argument are there. -/
inductive Readable (F : Cells Addr Block) : Pointer → ℕ → Bytes → Prop
  /-- nothing is read -/
  | empty (p : Pointer) : Readable F p 0 []
  /-- a part of a block -/
  | heap {a : Addr} {data : Bytes} {off len : ℕ} (block : (⟨a, .bytes data⟩ : Σ _, Block) ∈ F)
      (inside : off + len ≤ data.length) : Readable F (.heap a off) len ((data.drop off).take len)
  /-- a part of a local array -/
  | here {data : Bytes} {len : ℕ} (inside : len ≤ data.length) :
      Readable F (.here data) len (data.take len)

namespace Readable

variable {F G : Cells Addr Block} {p : Pointer} {len : ℕ} {bs : Bytes}

/-- More memory does no harm. -/
theorem mono (h : Readable F p len bs) (hle : F ≤ G) : Readable G p len bs := by
  cases h with
  | empty => exact .empty p
  | heap block inside => exact .heap (Multiset.mem_of_le hle block) inside
  | here inside => exact .here inside

theorem add_left (h : Readable F p len bs) (G : Cells Addr Block) : Readable (G + F) p len bs :=
  h.mono (Multiset.le_add_left F G)

theorem add_right (h : Readable F p len bs) (G : Cells Addr Block) : Readable (F + G) p len bs :=
  h.mono (Multiset.le_add_right F G)

theorem length_eq (h : Readable F p len bs) : bs.length = len := by
  cases h with
  | empty => rfl
  | heap block inside =>
    rw [List.length_take, List.length_drop]
    omega
  | here inside => rw [List.length_take, Nat.min_eq_left inside]

/-- A whole local array. -/
theorem all (bs : Bytes) : Readable F (.here bs) bs.length bs := by
  have h : Readable F (.here bs) bs.length (bs.take bs.length) := .here (Nat.le_refl _)
  rwa [List.take_length] at h

/-- The first bytes of an argument. -/
theorem take (h : Readable F p len bs) {n : ℕ} (hn : n ≤ len) : Readable F p n (bs.take n) := by
  cases h with
  | empty =>
    obtain rfl : n = 0 := Nat.le_zero.mp hn
    exact .empty p
  | heap block inside =>
    rw [List.take_take, Nat.min_eq_left hn]
    exact .heap block (by omega)
  | here inside =>
    rw [List.take_take, Nat.min_eq_left hn]
    exact .here (by omega)

/-- A part of an argument. -/
theorem part (h : Readable F p len bs) {start n : ℕ} (hn : start + n ≤ len) :
    Readable F (p.add start) n ((bs.drop start).take n) := by
  cases h with
  | empty =>
    obtain rfl : n = 0 := by omega
    exact .empty _
  | @heap a data off len block inside =>
    rw [List.drop_take, List.take_take, Nat.min_eq_left (by omega), List.drop_drop]
    exact .heap block (by omega)
  | @here data len inside =>
    rw [List.drop_take, List.take_take, Nat.min_eq_left (by omega)]
    exact .here (by rw [List.length_drop]; omega)

/-- An array that begins with these bytes. -/
theorem start {a : Addr} (pad : Bytes) (h : (⟨a, .bytes (bs ++ pad)⟩ : Σ _, Block) ∈ F) :
    Readable F (.heap a 0) bs.length bs := by
  have hr := @Readable.heap F a (bs ++ pad) 0 bs.length h (by simp)
  rwa [List.drop_zero, List.take_left] at hr

/-- A pointer that is read from points outside of a block that is kept apart. -/
theorem apart {a : Addr} {b : Block} (h : Readable F p len bs) (hlen : 0 < len)
    (hkeys : Multiset.NodupKeys (cell a b + F)) : p.apart a = true := by
  cases h with
  | empty => cases hlen
  | here inside => rfl
  | @heap c data off len block inside =>
    refine decide_eq_true ?_
    rintro rfl
    rw [cell, Multiset.singleton_add, ← Multiset.nodup_keys, Multiset.keys_cons,
      Multiset.nodup_cons] at hkeys
    exact hkeys.1 (Multiset.mem_map_of_mem Sigma.fst block)

end Readable

namespace Raw

variable {s : Allocator} {F G : Cells Addr Block} {a : Addr} {data : Bytes}

/-- What `malloc` can come to. -/
theorem malloc_ends (size : ℕ) : Ends (malloc size) s F fun r s' F' =>
    (s.heap.malloc size = (true, s'.heap) ∧ ∃ a, r = some a ∧
      F' = cell a (.bytes ((List.range size).map s.heap.fresh)) + F) ∨
    (s.heap.malloc size = (false, s'.heap) ∧ r = none ∧ F' = F) := by
  rw [malloc]
  refine Sees.getState.bind ?_
  refine (Ends.setState _).bind ?_
  rintro - s' F' ⟨rfl, rfl⟩
  split
  · next hok =>
    refine (Ends.alloc _ _).bind ?_
    rintro a s' F' ⟨rfl, rfl⟩
    exact Ends.pure (Or.inl ⟨Prod.ext hok rfl, a, rfl, rfl⟩)
  · next hno =>
    exact Ends.pure (Or.inr ⟨Prod.ext (Bool.eq_false_of_not_eq_true hno) rfl, rfl, rfl⟩)

theorem free_ends {b : Block} (h : F = cell a b + G) :
    Ends (free (some a)) s F fun _ s' F' => s' = s ∧ F' = G := Ends.free h

theorem readBytes_sees {p : Pointer} {len : ℕ} {bs : Bytes} (h : Readable F p len bs) :
    Sees (readBytes p len) s F bs := by
  rw [readBytes.eq_def]
  split
  · next h0 =>
    subst h0
    rw [List.length_eq_zero_iff.mp h.length_eq]
    exact Sees.pure
  · next h0 =>
    cases h with
    | empty => exact absurd rfl h0
    | here inside =>
      simp only [if_pos inside]
      exact Sees.pure
    | heap block inside =>
      refine (Sees.load block).andThen ?_
      simp only [if_pos inside]
      exact Sees.pure

theorem writeBytes_ends {pos : ℕ} {src : Bytes} (h : F = cell a (.bytes data) + G)
    (hle : pos + src.length ≤ data.length) :
    Ends (writeBytes a pos src) s F fun _ s' F' =>
      s' = s ∧ F' = cell a (.bytes (RedisInC.memcpy data pos src)) + G := by
  have hmem : (⟨a, .bytes data⟩ : Σ _, Block) ∈ F := by
    rw [h]
    simp [cell]
  refine (Sees.load hmem).bind ?_
  simp only [if_pos hle]
  exact Ends.store h _

theorem memcpy_ends {pos len : ℕ} {src : Pointer} {bs : Bytes} (h : F = cell a (.bytes data) + G)
    (hsrc : Readable G src len bs) (hlen : 0 < len) (hle : pos + len ≤ data.length) :
    Ends (memcpy a pos src len) s F fun _ s' F' =>
      s' = s ∧ F' = cell a (.bytes (RedisInC.memcpy data pos bs)) + G := by
  refine Ends.of_nodupKeys fun hkeys => ?_
  rw [memcpy, hsrc.apart hlen (h ▸ hkeys), if_pos rfl]
  refine (readBytes_sees (h ▸ hsrc.add_left _)).bind ?_
  exact writeBytes_ends h (by rwa [hsrc.length_eq])

theorem memmove_ends {pos off len : ℕ} (h : F = cell a (.bytes data) + G)
    (hoff : off + len ≤ data.length) (hpos : pos + len ≤ data.length) :
    Ends (memmove a pos off len) s F fun _ s' F' => s' = s ∧
      F' = cell a (.bytes (RedisInC.memcpy data pos ((data.drop off).take len))) + G := by
  have hread : Readable F (.heap a off) len ((data.drop off).take len) :=
    .heap (by rw [h]; simp [cell]) hoff
  refine (readBytes_sees hread).bind ?_
  exact writeBytes_ends h (by rwa [hread.length_eq])

/-- What `realloc` can come to, where there is an array. -/
theorem realloc_ends {size : ℕ} (h : F = cell a (.bytes data) + G) :
    Ends (realloc (some a) size) s F fun r s' F' =>
      (s.heap.malloc size = (true, s'.heap) ∧ ∃ a, r = some a ∧
        F' = cell a (.bytes (data.take size ++
          (List.range (size - data.length)).map s.heap.fresh)) + G) ∨
      (s.heap.malloc size = (false, s'.heap) ∧ r = none ∧ F' = F) := by
  have hmem : (⟨a, .bytes data⟩ : Σ _, Block) ∈ F := by
    rw [h]
    simp [cell]
  refine (Sees.load hmem).bind ?_
  refine Sees.getState.bind ?_
  refine (Ends.setState _).bind ?_
  rintro - s' F' ⟨rfl, rfl⟩
  split
  · next hok =>
    refine (Ends.free h).bind ?_
    rintro - s' F' ⟨rfl, rfl⟩
    refine (Ends.alloc _ _).bind ?_
    rintro a s' F' ⟨rfl, rfl⟩
    exact Ends.pure (Or.inl ⟨Prod.ext hok rfl, a, rfl, rfl⟩)
  · next hno =>
    exact Ends.pure (Or.inr ⟨Prod.ext (Bool.eq_false_of_not_eq_true hno) rfl, rfl, rfl⟩)

theorem loadEntry_sees {e : EntryNode} (h : (⟨a, .entry e⟩ : Σ _, Block) ∈ F) :
    Sees (loadEntry a) s F e := (Sees.load h).andThen Sees.pure

theorem loadConn_sees {c : ConnNode} (h : (⟨a, .conn c⟩ : Σ _, Block) ∈ F) :
    Sees (loadConn a) s F c := (Sees.load h).andThen Sees.pure

theorem put_ends {b b' : Block} (h : F = cell a b + G) (hsize : b.size = b'.size) :
    Ends (put a b') s F fun _ s' F' => s' = s ∧ F' = cell a b' + G := by
  have hmem : (⟨a, b⟩ : Σ _, Block) ∈ F := by
    rw [h]
    simp [cell]
  refine (Sees.load hmem).bind ?_
  rw [if_pos hsize]
  exact Ends.store h b'

end Raw

end RedisInC
