import RedisInC.Blocks
import RedisInC.BufferSafety
import RedisInC.Resp

/-!
# The byte buffer in memory (`bytebuf.c`)

The functions of `bytebuf.c` once more, on the array they work on, and the serializers of
`resp.c` that write to a buffer.

* `Raw.ensureTailCap` … `Raw.bytebufConsume`, `Raw.respReplyBulk`, … — the functions.
* `OwnedBuffer` — a buffer together with its array.
* `ensureTailCap_follows`, `append_follows`, `reserve_ends`, `consume_ends`, `bytebufFree_ends`,
  `replyBulk_follows`, … — each function stays within the array and what it is given, and does
  what its counterpart on values does. What is copied in may be anywhere but in the array
  itself.
-/

namespace RedisInC

open BlockMemory

namespace Raw

/-! ## The code -/

/-- A pointer that is followed. -/
def followed : Option Addr → Code Addr
  | none => fault
  | some a => return a

def compactInPlace (b : BufferNode) : Code BufferNode :=
  let live := b.len - b.off
  if live > 0 ∧ b.off > 0 then do
    let a ← followed b.data
    memmove a 0 b.off live
    return { b with len := live, off := 0 }
  else return { b with len := live, off := 0 }

/-- The part of `ensure_tail_cap` that asks for a bigger array. -/
def growTail (b : BufferNode) (need : ℕ) : Code (Int × BufferNode) :=
  let newCap := if b.cap = 0 then BYTEBUF_INIT_CAP else b.cap
  match growCap growFuel newCap b.len need with
  | none => return (-1, b)
  | some newCap => do
    match ← realloc b.data newCap with
    | none => return (-1, b)
    | some newData => return (0, { b with data := some newData, cap := newCap })

def ensureTailCap (b : BufferNode) (need : ℕ) : Code (Int × BufferNode) :=
  if b.cap - b.len ≥ need then return (0, b)
  else if b.off > 0 then do
    let b ← compactInPlace b
    if b.cap - b.len ≥ need then return (0, b) else growTail b need
  else growTail b need

def bytebufInit : BufferNode := ⟨none, 0, 0, 0⟩

def bytebufFree (b : BufferNode) : Code BufferNode := do
  free b.data
  return ⟨none, 0, 0, 0⟩

def bytebufReset (b : BufferNode) : BufferNode := { b with len := 0, off := 0 }

def bytebufAppend (b : BufferNode) (src : Pointer) (n : ℕ) : Code (Int × BufferNode) :=
  if n = 0 then return (0, b)
  else do
    let r ← ensureTailCap b n
    if r.1 < 0 then return (-1, r.2)
    else
      let a ← followed r.2.data
      memcpy a r.2.len src n
      return (0, { r.2 with len := r.2.len + n })

/-- `bytebuf_appendf`, where this is the text; the stack buffer holds up to 127 bytes. -/
def bytebufAppendf (b : BufferNode) (text : Bytes) : Code (Int × BufferNode) :=
  if text.length < 128 then bytebufAppend b (.here text) text.length
  else do
    let r ← ensureTailCap b (text.length + 1)
    if r.1 < 0 then return (-1, r.2)
    else
      let a ← followed r.2.data
      writeBytes a r.2.len (text ++ [0])
      return (0, { r.2 with len := r.2.len + text.length })

/-- `bytebuf_reserve`: where the tail is, or `NULL`. -/
def bytebufReserve (b : BufferNode) (n : ℕ) : Code (Option (Addr × ℕ) × BufferNode) := do
  let r ← ensureTailCap b n
  if r.1 < 0 then return (none, r.2) else return (r.2.data.map fun a => (a, r.2.len), r.2)

def bytebufAdvance (b : BufferNode) (n : ℕ) : BufferNode :=
  let n := if n > b.cap - b.len then b.cap - b.len else n
  { b with len := b.len + n }

def bytebufData (b : BufferNode) : Pointer :=
  match b.data with
  | none => .null
  | some a => .heap a b.off

def bytebufLen (b : BufferNode) : ℕ := b.len - b.off

def bytebufConsume (b : BufferNode) (n : ℕ) : Code BufferNode :=
  let live := b.len - b.off
  let n := if n > live then live else n
  let b := { b with off := b.off + n }
  if b.off = b.len then return { b with off := 0, len := 0 }
  else if b.off > BYTEBUF_COMPACT_MIN ∧ b.off > b.cap / 2 then compactInPlace b
  else return b

/-! ### The serializers of `resp.c` -/

/-- `if (append < 0) return -1;` and on with the next one. -/
def thenAppend (r : Int × BufferNode) (next : BufferNode → Code (Int × BufferNode)) :
    Code (Int × BufferNode) :=
  if r.1 < 0 then return (-1, r.2) else next r.2

/-- `bytebuf_append` of a literal -/
def appendLiteral (out : BufferNode) (text : Bytes) : Code (Int × BufferNode) :=
  bytebufAppend out (.here text) text.length

def respReplySimpleString (out : BufferNode) (s : Bytes) : Code (Int × BufferNode) := do
  let r ← appendLiteral out (ascii "+")
  thenAppend r fun out => do
    let r ← appendLiteral out s
    thenAppend r fun out => appendLiteral out CRLF

def respReplyError (out : BufferNode) (msg : Bytes) : Code (Int × BufferNode) := do
  let r ← appendLiteral out (ascii "-")
  thenAppend r fun out => do
    let r ← appendLiteral out msg
    thenAppend r fun out => appendLiteral out CRLF

def respReplyInteger (out : BufferNode) (n : ℤ) : Code (Int × BufferNode) :=
  bytebufAppendf out (ascii ":" ++ DecimalText.intText (int64 n) ++ CRLF)

def respReplyBulk (out : BufferNode) (bytes : Pointer) (len : ℕ) : Code (Int × BufferNode) := do
  let r ← bytebufAppendf out (ascii "$" ++ DecimalText.natText (sizeT len) ++ CRLF)
  thenAppend r fun out => do
    let r ← bytebufAppend out bytes len
    thenAppend r fun out => appendLiteral out CRLF

def respReplyNil (out : BufferNode) : Code (Int × BufferNode) := appendLiteral out (ascii "$-1\r\n")

def respReplyArrayHeader (out : BufferNode) (n : ℕ) : Code (Int × BufferNode) :=
  bytebufAppendf out (ascii "*" ++ DecimalText.natText (sizeT n) ++ CRLF)

end Raw

/-! ## What a buffer owns -/

/-- An array at an address, or nothing. -/
def arrayCells : Option Addr → Bytes → Cells Addr Block
  | none, _ => 0
  | some a, data => cell a (.bytes data)

/-- A buffer with its array. -/
structure OwnedBuffer where
  /-- the buffer -/
  buf : Bytebuf
  /-- where the array is -/
  dataAt : Option Addr
  /-- the buffer is in order -/
  inv : buf.Inv
  /-- there is an array exactly if it has room for anything -/
  null : dataAt = none ↔ buf.cap = 0

namespace OwnedBuffer

variable {b : OwnedBuffer}

/-- The struct. -/
def node (b : OwnedBuffer) : BufferNode := ⟨b.dataAt, b.buf.cap, b.buf.len, b.buf.off⟩

/-- Its array. -/
def cells (b : OwnedBuffer) : Cells Addr Block := arrayCells b.dataAt b.buf.data

/-- How a buffer is kept in memory. -/
def layout : Layout OwnedBuffer BufferNode (Bytebuf × Heap) Allocator Addr Block where
  node := node
  cells := cells
  value b s := (b.buf, s.heap)

/-- The empty buffer. -/
def empty : OwnedBuffer := ⟨RedisInC.bytebufInit, none, Bytebuf.inv_init, Iff.intro (fun _ => rfl) fun _ => rfl⟩

/-- A buffer with its array at an address. -/
def inArray (buf : Bytebuf) (a : Addr) (inv : buf.Inv) (pos : 0 < buf.cap) : OwnedBuffer where
  buf := buf
  dataAt := some a
  inv := inv
  null := ⟨nofun, fun hzero => absurd hzero (Nat.ne_of_gt pos)⟩

/-- The live bytes at the head of the array. -/
def compact (b : OwnedBuffer) : OwnedBuffer :=
  ⟨compactInPlace b.buf, b.dataAt, b.inv.compact, b.null⟩

theorem cap_consume (b : Bytebuf) (n : ℕ) : (bytebufConsume b n).cap = b.cap := by
  simp only [bytebufConsume, compactInPlace, apply_ite Bytebuf.cap, ite_self]

/-- Some bytes are used up. -/
def consume (b : OwnedBuffer) (n : ℕ) : OwnedBuffer :=
  ⟨bytebufConsume b.buf n, b.dataAt, (Bytebuf.bytebufConsume_spec b.inv n).1,
    (cap_consume b.buf n) ▸ b.null⟩

/-- All bytes are used up. -/
def reset (b : OwnedBuffer) : OwnedBuffer :=
  ⟨RedisInC.bytebufReset b.buf, b.dataAt, b.inv.reset, b.null⟩

/-- Where there is room, there is an array. -/
theorem cells_of_room (h : 0 < b.buf.cap) :
    ∃ a, b.dataAt = some a ∧ b.cells = cell a (.bytes b.buf.data) := by
  cases hdata : b.dataAt with
  | none =>
    have hcap := b.null.mp hdata
    omega
  | some a =>
    refine ⟨a, rfl, ?_⟩
    rw [cells, hdata, arrayCells]

/-- There is one block at most. -/
theorem card_cells (b : OwnedBuffer) : b.cells.card ≤ 1 := by
  rw [cells]
  cases b.dataAt with
  | none => exact Nat.zero_le 1
  | some a => exact Nat.le_refl 1

/-- The live bytes are in the array. -/
theorem readable (b : OwnedBuffer) :
    Readable b.cells (Raw.bytebufData b.node) (bytebufLen b.buf) b.buf.live := by
  have hlen := b.inv.len_le
  have hdata := b.inv.length_data
  cases hnull : b.dataAt with
  | none =>
    have hcap := b.null.mp hnull
    have hzero : bytebufLen b.buf = 0 := by
      rw [bytebufLen]
      omega
    have hlive : b.buf.live = [] := by
      rw [Bytebuf.live, hzero, List.take_zero]
    rw [hzero, hlive]
    exact .empty _
  | some a =>
    have hpointer : Raw.bytebufData b.node = .heap a b.buf.off := by
      rw [Raw.bytebufData, node, hnull]
    have hcells : b.cells = cell a (.bytes b.buf.data) := by rw [cells, hnull, arrayCells]
    rw [hpointer, hcells, Bytebuf.live, RedisInC.bytebufData]
    refine .heap ?_ ?_
    · simp [cell]
    · have hoff := b.inv.off_le_len
      rw [bytebufLen]
      omega

end OwnedBuffer

namespace Raw

open OwnedBuffer

variable {s : Allocator} {K : Cells Addr Block} {b : OwnedBuffer} {n : ℕ}

/-- What it means for code to follow a function on buffers. -/
theorem follows_buffer {α : Type} {c : Code (α × BufferNode)} {r : α × Bytebuf × Heap}
    (h : Ends c s (b.cells + K) fun x s' F' => ∃ b' : OwnedBuffer, x.2 = b'.node ∧
      F' = b'.cells + K ∧ r = (x.1, b'.buf, s'.heap)) : Follows layout c s b K r := h

/-! ## Room -/

/-- The live bytes are moved within the array. -/
theorem compact_ends {buf : Bytebuf} (hb : buf.Bounds) {q : Option Addr}
    (hnull : q = none → buf.cap = 0) :
    Ends (compactInPlace ⟨q, buf.cap, buf.len, buf.off⟩) s (arrayCells q buf.data + K)
      fun x s' F' => x = ⟨q, buf.cap, buf.len - buf.off, 0⟩ ∧ s' = s ∧
        F' = arrayCells q (RedisInC.compactInPlace buf).data + K := by
  have hlen := hb.len_le
  have hdata := hb.length_data
  rw [compactInPlace, RedisInC.compactInPlace]
  by_cases hmove : buf.len - buf.off > 0 ∧ buf.off > 0
  · rw [if_pos hmove]
    simp only [if_pos hmove]
    cases q with
    | none =>
      have hcap := hnull rfl
      omega
    | some a =>
      rw [followed, pure_bind, arrayCells]
      refine (memmove_ends rfl (by omega) (by omega)).bind ?_
      rintro - s' F' ⟨rfl, rfl⟩
      exact Ends.pure ⟨rfl, rfl, rfl⟩
  · rw [if_neg hmove]
    simp only [if_neg hmove]
    exact Ends.pure ⟨rfl, rfl, rfl⟩

/-- The array is not made smaller, nor left out. -/
theorem le_grown {b : Bytebuf} (hb : b.Inv) {need newCap : ℕ}
    (hcap : growCap growFuel (if b.cap = 0 then BYTEBUF_INIT_CAP else b.cap) b.len need = some newCap) :
    b.cap ≤ newCap ∧ 0 < newCap := by
  obtain ⟨hstart, hmax, hfuel, hpow⟩ := hb.start_cap
  have hlen := hb.len_le
  rcases Bytebuf.growCap_spec b.len need growFuel _ hfuel (by omega) hmax hpow with
    ⟨c, hc, hle, -, -, k, rfl⟩ | ⟨hno, -⟩
  · rw [hcap] at hc
    cases hc
    exact ⟨hstart.trans hle, Nat.mul_pos (by decide) (Nat.two_pow_pos k)⟩
  · rw [hcap] at hno
    cases hno

/-- A buffer that has got a bigger array. -/
theorem grown_inv {b : Bytebuf} (hb : b.Inv) (hoff : b.off = 0) {need newCap : ℕ} {h : Heap}
    (hcap : growCap growFuel (if b.cap = 0 then BYTEBUF_INIT_CAP else b.cap) b.len need = some newCap)
    (hok : (h.malloc newCap).1 = true) :
    (⟨b.data ++ (List.range (newCap - b.cap)).map h.fresh, newCap, b.len, b.off⟩ : Bytebuf).Inv := by
  have hinv := (Bytebuf.growTail_spec hb hoff need h).inv
  simp only [RedisInC.growTail, hcap, hok, if_true] at hinv
  exact hinv

/-- `realloc` of the array of a buffer: the bytes move, or nothing happens. -/
theorem realloc_array_ends {size : ℕ} (hle : b.buf.cap ≤ size) :
    Ends (realloc b.dataAt size) s (b.cells + K) fun r s' F' =>
      (s.heap.malloc size = (true, s'.heap) ∧ ∃ a, r = some a ∧ F' = cell a (.bytes (b.buf.data ++
        (List.range (size - b.buf.cap)).map s.heap.fresh)) + K) ∨
      (s.heap.malloc size = (false, s'.heap) ∧ r = none ∧ F' = b.cells + K) := by
  have hdata := b.inv.length_data
  rw [cells]
  cases hnull : b.dataAt with
  | none =>
    have hzero := b.null.mp hnull
    have hempty : b.buf.data = [] := List.length_eq_zero_iff.mp (by rw [hdata, hzero])
    rw [hempty, hzero, arrayCells.eq_def, realloc, zero_add]
    exact malloc_ends size
  | some old =>
    have hall : b.buf.data = b.buf.data.take size := (List.take_of_length_le (by omega)).symm
    rw [← hdata, arrayCells.eq_def]
    nth_rewrite 2 [hall]
    exact realloc_ends rfl

theorem growTail_follows (hoff : b.buf.off = 0) (need : ℕ) :
    Follows layout (growTail b.node need) s b K (RedisInC.growTail b.buf need s.heap) := by
  refine follows_buffer ?_
  rw [growTail, RedisInC.growTail]
  obtain ⟨r, hcap⟩ : ∃ r, growCap growFuel (if b.buf.cap = 0 then BYTEBUF_INIT_CAP else b.buf.cap)
    b.buf.len need = r := ⟨_, rfl⟩
  have hnode : growCap growFuel (if b.node.cap = 0 then BYTEBUF_INIT_CAP else b.node.cap)
    b.node.len need = r := hcap
  simp only [hnode, hcap]
  cases r with
  | none => exact Ends.pure ⟨b, rfl, rfl, rfl⟩
  | some newCap =>
    obtain ⟨hle, hpos⟩ := le_grown b.inv hcap
    refine (realloc_array_ends hle).bind ?_
    rintro r s' F' (⟨hm, a, rfl, rfl⟩ | ⟨hm, rfl, rfl⟩)
    · have hinv := @grown_inv b.buf b.inv hoff need newCap s.heap hcap (by rw [hm])
      refine Ends.pure ⟨.inArray _ a hinv hpos, rfl, rfl, ?_⟩
      simp only [hm]
      rfl
    · refine Ends.pure ⟨b, rfl, rfl, ?_⟩
      simp only [hm]
      rfl

/-- **`ensure_tail_cap`** may move the array, and then the old one is gone. -/
theorem ensureTailCap_follows (need : ℕ) :
    Follows layout (ensureTailCap b.node need) s b K
      (RedisInC.ensureTailCap b.buf need s.heap) := by
  rw [ensureTailCap, RedisInC.ensureTailCap]
  change Follows layout (if b.buf.cap - b.buf.len ≥ need then _ else if b.buf.off > 0 then _ else _)
    s b K _
  by_cases hroom : b.buf.cap - b.buf.len ≥ need
  · rw [if_pos hroom, if_pos hroom]
    exact Follows.pure 0
  · rw [if_neg hroom, if_neg hroom]
    by_cases hoff : b.buf.off > 0
    · rw [if_pos hoff, if_pos hoff]
      refine (compact_ends b.inv.toBounds b.null.mp).bind ?_
      rintro x s' F' ⟨rfl, rfl, rfl⟩
      by_cases hroom' : b.buf.cap - (b.buf.len - b.buf.off) ≥ need
      · have hroom₁ : (RedisInC.compactInPlace b.buf).cap - (RedisInC.compactInPlace b.buf).len ≥
          need := hroom'
        simp only [if_pos hroom', if_pos hroom₁]
        exact Ends.pure ⟨b.compact, rfl, rfl, rfl⟩
      · have hroom₁ : ¬ (RedisInC.compactInPlace b.buf).cap - (RedisInC.compactInPlace b.buf).len ≥
          need := hroom'
        simp only [if_neg hroom', if_neg hroom₁]
        exact growTail_follows (b := b.compact) rfl need
    · rw [if_neg hoff, if_neg hoff]
      exact growTail_follows (by omega) need

/-- What a successful request for room leaves: an array with the room. -/
theorem room_spec {b' : OwnedBuffer} {s' : Allocator} {rc : Int} (hn : 0 < n)
    (hr : RedisInC.ensureTailCap b.buf n s.heap = (rc, b'.buf, s'.heap)) (hrc : ¬ rc < 0) :
    n ≤ b'.buf.cap - b'.buf.len ∧ ∃ a, b'.dataAt = some a ∧ b'.cells = cell a (.bytes b'.buf.data) := by
  have hens := Bytebuf.ensureTailCap_spec b.inv n s.heap
  rw [hr] at hens
  rcases hens.cases with ⟨-, hroom, -⟩ | ⟨hneg, -⟩
  · have hroom' : n ≤ b'.buf.cap - b'.buf.len := hroom
    exact ⟨hroom, cells_of_room (by omega)⟩
  · exact absurd hneg hrc

/-! ## The producer side -/

/-- **`bytebuf_append`** copies from anywhere but its own array. -/
theorem append_follows {src : Pointer} {bs : Bytes} (hsrc : Readable K src n bs) :
    Follows layout (bytebufAppend b.node src n) s b K (RedisInC.bytebufAppend b.buf bs s.heap) := by
  obtain rfl := hsrc.length_eq
  rw [bytebufAppend, RedisInC.bytebufAppend]
  by_cases h0 : bs.length = 0
  · rw [if_pos h0, if_pos h0]
    exact Follows.pure 0
  · rw [if_neg h0, if_neg h0]
    refine follows_buffer (Ends.bind (ensureTailCap_follows bs.length) ?_)
    rintro ⟨rc, node⟩ s' F' ⟨b', rfl, rfl, hr⟩
    simp only [hr]
    by_cases hrc : rc < 0
    · simp only [if_pos hrc]
      exact Ends.pure ⟨b', rfl, rfl, rfl⟩
    · obtain ⟨hroom, a, hat, hcells⟩ := room_spec (Nat.pos_of_ne_zero h0) hr hrc
      have hinv := (Bytebuf.tail_written b'.inv hroom).1
      have hdata := b'.inv.length_data
      have hlen := b'.inv.len_le
      have hnode : (layout.node b').data = some a := hat
      have hfits : b'.buf.len + bs.length ≤ b'.buf.data.length := by omega
      have hpos : 0 < b'.buf.cap := by omega
      simp only [if_neg hrc, hnode, followed, pure_bind]
      change Ends _ s' (b'.cells + K) _
      rw [hcells]
      refine (memcpy_ends rfl hsrc (Nat.pos_of_ne_zero h0) hfits).bind ?_
      rintro - s'' F'' ⟨rfl, rfl⟩
      exact Ends.pure ⟨.inArray _ a hinv hpos, rfl, rfl, rfl⟩

/-- **`bytebuf_appendf`**, with a text of any length. -/
theorem appendf_follows (text : Bytes) :
    Follows layout (bytebufAppendf b.node text) s b K
      (RedisInC.bytebufAppendf b.buf text s.heap) := by
  rw [bytebufAppendf, RedisInC.bytebufAppendf]
  by_cases hshort : text.length < 128
  · rw [if_pos hshort, if_pos hshort]
    exact append_follows (.all text)
  · rw [if_neg hshort, if_neg hshort]
    refine follows_buffer (Ends.bind (ensureTailCap_follows (text.length + 1)) ?_)
    rintro ⟨rc, node⟩ s' F' ⟨b', rfl, rfl, hr⟩
    simp only [hr]
    by_cases hrc : rc < 0
    · simp only [if_pos hrc]
      exact Ends.pure ⟨b', rfl, rfl, rfl⟩
    · obtain ⟨hroom, a, hat, hcells⟩ := room_spec (Nat.succ_pos _) hr hrc
      have hinv := (Bytebuf.tail_written_extra b'.inv [0] hroom).1
      have hdata := b'.inv.length_data
      have hlen := b'.inv.len_le
      have hnode : (layout.node b').data = some a := hat
      have hfits : b'.buf.len + (text ++ [0]).length ≤ b'.buf.data.length := by
        rw [List.length_append, List.length_singleton]
        omega
      have hpos : 0 < b'.buf.cap := by omega
      simp only [if_neg hrc, hnode, followed, pure_bind]
      change Ends _ s' (b'.cells + K) _
      rw [hcells]
      refine (writeBytes_ends rfl hfits).bind ?_
      rintro - s'' F'' ⟨rfl, rfl⟩
      exact Ends.pure ⟨.inArray _ a hinv hpos, rfl, rfl, rfl⟩

/-- **`bytebuf_reserve`**: the tail is `n` bytes of the array, or there is no room. -/
theorem reserve_ends (hn : 0 < n) :
    Ends (bytebufReserve b.node n) s (b.cells + K) fun x s' F' =>
      ∃ b' : OwnedBuffer, x.2 = b'.node ∧ F' = b'.cells + K ∧
        ((x.1 = none ∧ RedisInC.bytebufReserve b.buf n s.heap = (none, b'.buf, s'.heap)) ∨
          ∃ a, x.1 = some (a, b'.buf.len) ∧ b'.dataAt = some a ∧ n ≤ b'.buf.cap - b'.buf.len ∧
            RedisInC.bytebufReserve b.buf n s.heap = (some b'.buf.len, b'.buf, s'.heap)) := by
  rw [bytebufReserve, RedisInC.bytebufReserve]
  refine Ends.bind (ensureTailCap_follows n) ?_
  rintro ⟨rc, node⟩ s' F' ⟨b', rfl, rfl, hr⟩
  simp only [hr]
  by_cases hrc : rc < 0
  · simp only [if_pos hrc]
    exact Ends.pure ⟨b', rfl, rfl, Or.inl ⟨rfl, rfl⟩⟩
  · obtain ⟨hroom, a, hat, -⟩ := room_spec hn hr hrc
    have hnode : (layout.node b').data = some a := hat
    simp only [if_neg hrc, hnode]
    exact Ends.pure ⟨b', rfl, rfl, Or.inr ⟨a, rfl, hat, hroom, rfl⟩⟩

/-- No room at all is always there; without an array the result is NULL all the same. -/
theorem reserve_zero_ends :
    Ends (bytebufReserve b.node 0) s (b.cells + K) fun x s' F' =>
      x = (b.dataAt.map fun a => (a, b.buf.len), b.node) ∧ s' = s ∧ F' = b.cells + K := by
  rw [bytebufReserve, ensureTailCap, if_pos (Nat.zero_le _), pure_bind, if_neg (Int.lt_irrefl 0)]
  exact Ends.pure ⟨rfl, rfl, rfl⟩

/-- **Filling the tail**: up to `n` bytes are put there, and the tail is moved over them. -/
theorem fill_ends {a : Addr} (hat : b.dataAt = some a) (hroom : n ≤ b.buf.cap - b.buf.len)
    {bs : Bytes} (hbs : bs.length ≤ n) :
    Ends (writeBytes a b.buf.len bs) s (b.cells + K) fun _ s' F' => s' = s ∧
      ∃ b' : OwnedBuffer, bytebufAdvance b.node bs.length = b'.node ∧ F' = b'.cells + K ∧
        b'.buf = RedisInC.bytebufAdvance (writeTail b.buf b.buf.len bs) bs.length := by
  have hfits : bs.length ≤ b.buf.cap - b.buf.len := Nat.le_trans hbs hroom
  have hinv := (Bytebuf.tail_written b.inv hfits).1
  have hdata := b.inv.length_data
  have hlen := b.inv.len_le
  have hpos : 0 < b.buf.cap := by
    refine Nat.pos_of_ne_zero fun hzero => ?_
    cases hat.symm.trans (b.null.mpr hzero)
  have hadvance : RedisInC.bytebufAdvance (writeTail b.buf b.buf.len bs) bs.length =
      ⟨RedisInC.memcpy b.buf.data b.buf.len bs, b.buf.cap, b.buf.len + bs.length, b.buf.off⟩ :=
    Bytebuf.advance_of_le (b := writeTail b.buf b.buf.len bs) hfits
  have hclamp : bytebufAdvance b.node bs.length =
      ⟨b.dataAt, b.buf.cap, b.buf.len + bs.length, b.buf.off⟩ := by
    have hno : ¬ bs.length > b.buf.cap - b.buf.len := Nat.not_lt.mpr hfits
    change BufferNode.mk _ _ (_ + if bs.length > b.buf.cap - b.buf.len then _ else _) _ = _
    rw [if_neg hno]
    rfl
  rw [cells, hat, arrayCells, hadvance, hclamp]
  refine (writeBytes_ends rfl (by omega)).mono ?_
  rintro - s' F' ⟨rfl, rfl⟩
  exact ⟨rfl, .inArray _ a hinv hpos, by rw [hat]; rfl, rfl, rfl⟩

/-! ## The consumer side -/

/-- **`bytebuf_consume`** -/
theorem consume_ends (b : OwnedBuffer) (n : ℕ) :
    Ends (bytebufConsume b.node n) s (b.cells + K) fun x s' F' =>
      x = (b.consume n).node ∧ s' = s ∧ F' = (b.consume n).cells + K := by
  change Ends _ s _ fun x s' F' => x = BufferNode.mk b.dataAt (RedisInC.bytebufConsume b.buf n).cap
    (RedisInC.bytebufConsume b.buf n).len (RedisInC.bytebufConsume b.buf n).off ∧ s' = s ∧
    F' = arrayCells b.dataAt (RedisInC.bytebufConsume b.buf n).data + K
  have hoff := b.inv.off_le_len
  obtain ⟨m, hm⟩ : ∃ m, m = if n > b.buf.len - b.buf.off then b.buf.len - b.buf.off else n := ⟨_, rfl⟩
  have hle : m ≤ b.buf.len - b.buf.off := by
    rw [hm]
    split <;> omega
  have hcode : (bytebufConsume b.node n : Code BufferNode) =
      if b.buf.off + m = b.buf.len then pure ⟨b.dataAt, b.buf.cap, 0, 0⟩
      else if b.buf.off + m > BYTEBUF_COMPACT_MIN ∧ b.buf.off + m > b.buf.cap / 2 then
        compactInPlace ⟨b.dataAt, b.buf.cap, b.buf.len, b.buf.off + m⟩
      else pure ⟨b.dataAt, b.buf.cap, b.buf.len, b.buf.off + m⟩ := by
    rw [hm]
    rfl
  have hvalue : RedisInC.bytebufConsume b.buf n =
      if b.buf.off + m = b.buf.len then ⟨b.buf.data, b.buf.cap, 0, 0⟩
      else if b.buf.off + m > BYTEBUF_COMPACT_MIN ∧ b.buf.off + m > b.buf.cap / 2 then
        RedisInC.compactInPlace ⟨b.buf.data, b.buf.cap, b.buf.len, b.buf.off + m⟩
      else ⟨b.buf.data, b.buf.cap, b.buf.len, b.buf.off + m⟩ := by
    rw [hm]
    rfl
  rw [hcode, hvalue]
  by_cases hend : b.buf.off + m = b.buf.len
  · rw [if_pos hend, if_pos hend]
    exact Ends.pure ⟨rfl, rfl, rfl⟩
  · rw [if_neg hend, if_neg hend]
    by_cases hwaste : b.buf.off + m > BYTEBUF_COMPACT_MIN ∧ b.buf.off + m > b.buf.cap / 2
    · rw [if_pos hwaste, if_pos hwaste]
      have hb : (⟨b.buf.data, b.buf.cap, b.buf.len, b.buf.off + m⟩ : Bytebuf).Bounds :=
        ⟨b.inv.length_data, b.inv.len_le, by simp only; omega⟩
      exact compact_ends hb b.null.mp
    · rw [if_neg hwaste, if_neg hwaste]
      exact Ends.pure ⟨rfl, rfl, rfl⟩

/-- Freeing an array, or the null pointer. -/
theorem freeArray_ends (q : Option Addr) (data : Bytes) {G : Cells Addr Block} :
    Ends (free q) s (arrayCells q data + G) fun _ s' F' => s' = s ∧ F' = G := by
  cases q with
  | none =>
    rw [arrayCells, zero_add]
    exact Ends.pure ⟨rfl, rfl⟩
  | some a => exact free_ends rfl

/-- **`bytebuf_free`** -/
theorem bytebufFree_ends (b : OwnedBuffer) :
    Ends (bytebufFree b.node) s (b.cells + K) fun x s' F' =>
      x = bytebufInit ∧ s' = s ∧ F' = K := by
  refine (freeArray_ends b.dataAt b.buf.data).bind ?_
  rintro - s' F' ⟨rfl, rfl⟩
  exact Ends.pure ⟨rfl, rfl, rfl⟩

/-! ## The serializers -/

/-- One append, and then the next one unless it has failed. -/
theorem thenAppend_follows {c : Code (Int × BufferNode)} {r : Int × Bytebuf × Heap}
    {next : BufferNode → Code (Int × BufferNode)} {next' : Bytebuf → Heap → Int × Bytebuf × Heap}
    (h : Follows layout c s b K r)
    (h' : ∀ (b' : OwnedBuffer) s', Follows layout (next b'.node) s' b' K (next' b'.buf s'.heap)) :
    Follows layout (c >>= fun r => thenAppend r next) s b K (RedisInC.thenAppend r next') := by
  refine h.bind fun b' s' hr => ?_
  rw [thenAppend, RedisInC.thenAppend, hr]
  split
  · exact Follows.pure (-1)
  · exact h' b' s'

theorem appendLiteral_follows (text : Bytes) :
    Follows layout (appendLiteral b.node text) s b K
      (RedisInC.bytebufAppend b.buf text s.heap) := append_follows (.all text)

theorem replySimpleString_follows (text : Bytes) :
    Follows layout (respReplySimpleString b.node text) s b K
      (RedisInC.respReplySimpleString b.buf text s.heap) :=
  thenAppend_follows (appendLiteral_follows _) fun _ _ =>
    thenAppend_follows (appendLiteral_follows _) fun _ _ => appendLiteral_follows _

theorem replyError_follows (msg : Bytes) :
    Follows layout (respReplyError b.node msg) s b K
      (RedisInC.respReplyError b.buf msg s.heap) :=
  thenAppend_follows (appendLiteral_follows _) fun _ _ =>
    thenAppend_follows (appendLiteral_follows _) fun _ _ => appendLiteral_follows _

theorem replyInteger_follows (i : ℤ) :
    Follows layout (respReplyInteger b.node i) s b K
      (RedisInC.respReplyInteger b.buf i s.heap) := appendf_follows _

/-- **`resp_reply_bulk`** of bytes that are anywhere but in the array of the buffer. -/
theorem replyBulk_follows {p : Pointer} {bs : Bytes} (hp : Readable K p n bs) :
    Follows layout (respReplyBulk b.node p n) s b K
      (RedisInC.respReplyBulk b.buf bs s.heap) := by
  rw [RedisInC.respReplyBulk, hp.length_eq]
  exact thenAppend_follows (appendf_follows _) fun _ _ =>
    thenAppend_follows (append_follows hp) fun _ _ => appendLiteral_follows _

theorem replyNil_follows :
    Follows layout (respReplyNil b.node) s b K (RedisInC.respReplyNil b.buf s.heap) :=
  appendLiteral_follows _

theorem replyArrayHeader_follows (n : ℕ) :
    Follows layout (respReplyArrayHeader b.node n) s b K
      (RedisInC.respReplyArrayHeader b.buf n s.heap) := appendf_follows _

/-! ## Runs -/

/-- A call of the interface, with the bytes that a pointer of its caller points to. -/
inductive BytebufCall : Type
  /-- `bytebuf_append` -/
  | append (src : Pointer) (bytes : Bytes)
  /-- `bytebuf_appendf`, where this is the text -/
  | appendf (text : Bytes)
  /-- `bytebuf_reserve`, writing some bytes there, `bytebuf_advance` by as many -/
  | fill (n : ℕ) (bytes : Bytes) (le : bytes.length ≤ n)
  /-- the bytes at `bytebuf_data` are read, as many as `bytebuf_len` says -/
  | read
  /-- `bytebuf_consume` -/
  | consume (n : ℕ)
  /-- `bytebuf_reset` -/
  | reset
  /-- `bytebuf_free` -/
  | free

namespace BytebufCall

/-- The pointer is good, outside of the array. -/
def Valid (K : Cells Addr Block) : BytebufCall → Prop
  | append src bytes => Readable K src bytes.length bytes
  | _ => True

/-- The call: a return code, and what is read. -/
def exec : BytebufCall → BufferNode → Code ((Int × Bytes) × BufferNode)
  | append src bytes, b => do
    let r ← bytebufAppend b src bytes.length
    return ((r.1, []), r.2)
  | appendf text, b => do
    let r ← bytebufAppendf b text
    return ((r.1, []), r.2)
  | fill n bytes _, b => do
    let r ← bytebufReserve b n
    match r.1 with
    | none => return ((-1, []), r.2)
    | some tail =>
      writeBytes tail.1 tail.2 bytes
      return ((0, []), bytebufAdvance r.2 bytes.length)
  | read, b => do
    let bytes ← readBytes (bytebufData b) (bytebufLen b)
    return ((0, bytes), b)
  | consume n, b => do
    let b ← bytebufConsume b n
    return ((0, []), b)
  | reset, b => return ((0, []), bytebufReset b)
  | free, b => do
    let b ← bytebufFree b
    return ((0, []), b)

/-- The call on values. -/
def means : BytebufCall → Bytebuf × Heap → (Int × Bytes) × Bytebuf × Heap
  | append _ bytes, (b, h) =>
    let r := RedisInC.bytebufAppend b bytes h
    ((r.1, []), r.2)
  | appendf text, (b, h) =>
    let r := RedisInC.bytebufAppendf b text h
    ((r.1, []), r.2)
  | fill n bytes _, (b, h) =>
    match RedisInC.bytebufReserve b n h with
    | (none, b, h) => ((-1, []), b, h)
    | (some tail, b, h) =>
      -- without an array there is no tail, and the pointer returned is NULL too
      if b.cap = 0 then ((-1, []), b, h)
      else ((0, []), RedisInC.bytebufAdvance (writeTail b tail bytes) bytes.length, h)
  | read, (b, h) => ((0, b.live), b, h)
  | consume n, (b, h) => ((0, []), RedisInC.bytebufConsume b n, h)
  | reset, (b, h) => ((0, []), RedisInC.bytebufReset b, h)
  | free, (b, h) => ((0, []), RedisInC.bytebufFree b, h)

/-- Filling what is reserved. -/
theorem fill_follows {n : ℕ} {bytes : Bytes} (le : bytes.length ≤ n) (b : OwnedBuffer)
    (s : Allocator) :
    Follows layout ((BytebufCall.fill n bytes le).exec b.node) s b K
      ((BytebufCall.fill n bytes le).means (layout.value b s)) := by
  rcases Nat.eq_zero_or_pos n with rfl | pos
  · have hres : RedisInC.bytebufReserve b.buf 0 s.heap = (some b.buf.len, b.buf, s.heap) := by
      simp [RedisInC.bytebufReserve, RedisInC.ensureTailCap]
    refine follows_buffer (reserve_zero_ends.bind ?_)
    rintro x s' F' ⟨rfl, rfl, rfl⟩
    cases hat : b.dataAt with
    | none =>
      refine Ends.pure ⟨b, rfl, rfl, ?_⟩
      change means (.fill 0 bytes le) (b.buf, s'.heap) = _
      simp only [means, hres, if_pos (b.null.mp hat)]
    | some a =>
      have hcap : ¬ b.buf.cap = 0 := fun hzero => by cases hat.symm.trans (b.null.mpr hzero)
      refine (fill_ends hat (Nat.zero_le _) le).bind ?_
      rintro - s'' F'' ⟨rfl, b'', hadvance, rfl, hbuf⟩
      refine Ends.pure ⟨b'', hadvance, rfl, ?_⟩
      change means (.fill 0 bytes le) (b.buf, s''.heap) = _
      simp only [means, hres, if_neg hcap, hbuf]
  · refine follows_buffer ((reserve_ends pos).bind ?_)
    rintro ⟨tail, node⟩ s' F' ⟨b', rfl, rfl, ⟨rfl, hr⟩ | ⟨a, rfl, hat, hroom, hr⟩⟩
    · refine Ends.pure ⟨b', rfl, rfl, ?_⟩
      change means (.fill n bytes le) (b.buf, s.heap) = _
      simp only [means, hr]
    · have hcap : ¬ b'.buf.cap = 0 := by omega
      refine (fill_ends hat hroom le).bind ?_
      rintro - s'' F'' ⟨rfl, b'', hadvance, rfl, hbuf⟩
      refine Ends.pure ⟨b'', hadvance, rfl, ?_⟩
      change means (.fill n bytes le) (b.buf, s.heap) = _
      simp only [means, hr, if_neg hcap, hbuf]

theorem exec_follows {call : BytebufCall} (hcall : call.Valid K) (b : OwnedBuffer) (s : Allocator) :
    Follows layout (call.exec b.node) s b K (call.means (layout.value b s)) := by
  cases call with
  | append src bytes =>
    refine (append_follows hcall).bind fun b' s' hr => ?_
    have hvalue : means (.append src bytes) (layout.value b s) =
        (((RedisInC.bytebufAppend b.buf bytes s.heap).1, []), layout.value b' s') :=
      congrArg (fun r => (((RedisInC.bytebufAppend b.buf bytes s.heap).1, []), r)) hr
    rw [hvalue]
    exact Follows.pure _
  | appendf text =>
    refine (appendf_follows text).bind fun b' s' hr => ?_
    have hvalue : means (.appendf text) (layout.value b s) =
        (((RedisInC.bytebufAppendf b.buf text s.heap).1, []), layout.value b' s') :=
      congrArg (fun r => (((RedisInC.bytebufAppendf b.buf text s.heap).1, []), r)) hr
    rw [hvalue]
    exact Follows.pure _
  | fill n bytes le => exact fill_follows le b s
  | read => exact Follows.look (readBytes_sees (b.readable.add_right K)) (Follows.pure _)
  | consume n =>
    refine follows_buffer ((consume_ends b n).bind ?_)
    rintro - s' F' ⟨rfl, rfl, rfl⟩
    exact Ends.pure ⟨b.consume n, rfl, rfl, rfl⟩
  | reset => exact Ends.pure ⟨b.reset, rfl, rfl, rfl⟩
  | free =>
    refine follows_buffer ((bytebufFree_ends b).bind ?_)
    rintro - s' F' ⟨rfl, rfl, rfl⟩
    exact Ends.pure ⟨.empty, rfl, (zero_add _).symm, rfl⟩

end BytebufCall

/-- **A buffer in memory.** Whatever calls are made, with bytes from anywhere outside of the
array, and whatever requests the allocator refuses: no call leaves the array or touches one
that `realloc` has moved, every call returns and reads what it does on values, and there is
one block at most; after `bytebuf_free` there is none. -/
theorem buffer_in_memory (calls : List BytebufCall) (hcalls : ∀ call ∈ calls, call.Valid K) :
    Ends (runCalls BytebufCall.exec calls bytebufInit) s K fun r s' F' =>
      ∃ b : OwnedBuffer, r.2 = b.node ∧ F' = b.cells + K ∧ F'.card ≤ 1 + K.card ∧
        runValues BytebufCall.means calls (RedisInC.bytebufInit, s.heap) = (r.1, b.buf, s'.heap) ∧
        Ends (bytebufFree r.2) s' F' fun n _ F'' => n = bytebufInit ∧ F'' = K := by
  have hrun := Follows.run (fun call hcall => BytebufCall.exec_follows (hcalls call hcall)) .empty s
  have hstart : layout.cells OwnedBuffer.empty + K = K := zero_add K
  rw [Follows, hstart] at hrun
  refine hrun.mono ?_
  rintro ⟨replies, n⟩ s' F' ⟨b, rfl, rfl, hr⟩
  refine ⟨b, rfl, rfl, ?_, hr, ?_⟩
  · rw [Multiset.card_add]
    exact Nat.add_le_add_right b.card_cells _
  · refine (bytebufFree_ends b).mono ?_
    rintro n s'' F'' ⟨rfl, -, rfl⟩
    exact ⟨rfl, rfl⟩

/-- Some of an array is appended, some used up, and the rest read. -/
theorem buffer_in_memory_caller :
    Ends (runCalls BytebufCall.exec [.append (.heap 7 1) (ascii "hello"), .consume 2, .read]
        bytebufInit) .ample (cell 7 (.bytes (ascii "-hello-"))) fun r s' F' =>
      ∃ b : OwnedBuffer, r.2 = b.node ∧ F' = b.cells + cell 7 (.bytes (ascii "-hello-")) ∧
        F'.card ≤ 1 + (cell 7 (Block.bytes (ascii "-hello-"))).card ∧
        runValues BytebufCall.means [.append (.heap 7 1) (ascii "hello"), .consume 2, .read]
          (RedisInC.bytebufInit, Heap.ample) = (r.1, b.buf, s'.heap) ∧
        Ends (bytebufFree r.2) s' F' fun n _ F'' =>
          n = bytebufInit ∧ F'' = cell 7 (.bytes (ascii "-hello-")) := by
  refine buffer_in_memory (K := cell 7 (.bytes (ascii "-hello-"))) _ ?_
  have hsrc : Readable (cell 7 (.bytes (ascii "-hello-"))) (.heap 7 1) 5 (ascii "hello") :=
    .heap (Multiset.mem_singleton_self _) (by decide)
  simp only [List.forall_mem_cons]
  exact ⟨hsrc, trivial, trivial, nofun⟩

end Raw

end RedisInC
