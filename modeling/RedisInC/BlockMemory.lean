import Mathlib.Data.Finmap
import Mathlib.Data.Multiset.AddSub

/-!
# Programs on a memory of blocks

A small library on programs that allocate, read, write and free blocks of memory. What a
block holds, and what else a program carries along, is arbitrary. A program without a result
has touched a block that is not there.

* `Chooser` — an allocator is free to choose an address, but not one in use.
* `Prog`, `load`, `store`, `free`, `alloc` — programs, and what they are made of.
* `Cells` — what is in memory: the addresses with their blocks.
* `linkedCells` — the blocks of nodes that are linked.
* `Ends` — from a memory with these cells, the program ends, and this is what it leaves.
  There is one rule for each construct. The cells that a program does not need are a
  parameter of its specification, so that it frames itself.
* `Sees` — the same for programs that change nothing.
* `Layout` — how a value is kept in memory. `Follows` — the program does in memory what
  a function on values comes to. `Follows.run` — and so do sequences of calls.
-/

namespace BlockMemory

/-- A choice of an address that is not in use. -/
structure Chooser (A : Type) where
  /-- the choice -/
  pick : Finset A → A
  /-- it is not in use -/
  fresh : ∀ used, pick used ∉ used

/-- What is in memory: addresses with their blocks. -/
abbrev Cells (A B : Type) : Type := Multiset (Σ _ : A, B)

/-- A memory. -/
abbrev Memory (A B : Type) : Type := Finmap fun _ : A => B

variable {σ A B : Type}

/-- An address with its block. -/
def cell (a : A) (b : B) : Cells A B := {⟨a, b⟩}

theorem mem_cell_add (a : A) (b : B) (F : Cells A B) : (⟨a, b⟩ : Σ _ : A, B) ∈ cell a b + F :=
  Multiset.mem_add.mpr (Or.inl (Multiset.mem_singleton_self _))

/-- A program that carries a `σ` along. -/
abbrev Prog (σ A B α : Type) : Type := StateT (σ × Memory A B) Option α

/-! ## Constructs -/

section Constructs

/-- There is no result. -/
def fault {α : Type} : Prog σ A B α := fun _ => none

/-- What is carried along. -/
def getState : Prog σ A B σ := fun w => some (w.1, w)

/-- Carry something else along. -/
def setState (s : σ) : Prog σ A B Unit := fun w => some ((), (s, w.2))

/-- The number of blocks. -/
def blockCount : Prog σ A B ℕ := fun w => some (w.2.keys.card, w)

variable [DecidableEq A]

/-- The block at an address. -/
def load (a : A) : Prog σ A B B := fun w => (w.2.lookup a).map fun b => (b, w)

/-- Another block at an address. -/
def store (a : A) (b : B) : Prog σ A B Unit := fun w =>
  if a ∈ w.2 then some ((), (w.1, w.2.insert a b)) else none

/-- The block is no more. -/
def free (a : A) : Prog σ A B Unit := fun w =>
  if a ∈ w.2 then some ((), (w.1, w.2.erase a)) else none

/-- A new block. -/
def alloc (c : Chooser A) (b : B) : Prog σ A B A := fun w =>
  some (c.pick w.2.keys, (w.1, w.2.insert (c.pick w.2.keys) b))

end Constructs

/-! ## Cells of a memory -/

theorem card_keys (m : Memory A B) : m.keys.card = m.entries.card :=
  Multiset.card_map Sigma.fst m.entries

section Entries

variable [DecidableEq A] {m : Memory A B} {a : A} {b : B} {F : Cells A B}

theorem lookup_of_mem (h : (⟨a, b⟩ : Σ _ : A, B) ∈ m.entries) : m.lookup a = some b :=
  Finmap.lookup_eq_some_iff.mpr h

/-- Without its block at `a`, the memory has one cell less. -/
theorem entries_erase (h : m.entries = cell a b + F) : (m.erase a).entries = F := by
  have hlook : m.lookup a = some b := lookup_of_mem (by rw [h]; simp [cell])
  have hback : (m.erase a).insert a b = m := by
    refine Finmap.ext_lookup fun x => ?_
    by_cases hx : x = a
    · rw [hx, Finmap.lookup_insert, hlook]
    · rw [Finmap.lookup_insert_of_ne _ hx, Finmap.lookup_erase_ne hx]
  have hcons := Finmap.entries_insert_of_notMem (b := b) (Finmap.notMem_erase_self (s := m) (a := a))
  rw [hback, h, cell, Multiset.singleton_add] at hcons
  exact (Multiset.cons_inj_right _).mp hcons.symm

theorem entries_insert (h : a ∉ m) : (m.insert a b).entries = cell a b + m.entries := by
  rw [Finmap.entries_insert_of_notMem h, cell, Multiset.singleton_add]

/-- Another block at the same address. -/
theorem entries_replace (h : m.entries = cell a b + F) (b' : B) :
    (m.insert a b').entries = cell a b' + F := by
  have hsame : m.insert a b' = (m.erase a).insert a b' := by
    refine Finmap.ext_lookup fun x => ?_
    by_cases hx : x = a
    · rw [hx, Finmap.lookup_insert, Finmap.lookup_insert]
    · rw [Finmap.lookup_insert_of_ne _ hx, Finmap.lookup_insert_of_ne _ hx,
        Finmap.lookup_erase_ne hx]
  rw [hsame, entries_insert Finmap.notMem_erase_self, entries_erase h]

end Entries

/-! ## Linked nodes -/

section Linked

variable {N : Type} (addr : N → A) (cells : N → Option A → Cells A B)

/-- The address of the first node, or this one. -/
def linkHead : List N → Option A → Option A
  | [], q => q
  | n :: _, _ => some (addr n)

/-- The blocks of nodes that are linked, up to this address. -/
def linkedCells : List N → Option A → Cells A B
  | [], _ => 0
  | n :: ns, q => cells n (linkHead addr ns q) + linkedCells ns q

theorem linkHead_append (l₁ l₂ : List N) (q : Option A) :
    linkHead addr (l₁ ++ l₂) q = linkHead addr l₁ (linkHead addr l₂ q) := by
  cases l₁ with
  | nil => rfl
  | cons n ns => rfl

theorem linkedCells_append (l₁ l₂ : List N) (q : Option A) :
    linkedCells addr cells (l₁ ++ l₂) q =
      linkedCells addr cells l₁ (linkHead addr l₂ q) + linkedCells addr cells l₂ q := by
  induction l₁ with
  | nil => rw [linkedCells, zero_add, List.nil_append]
  | cons n ns ih =>
    rw [List.cons_append, linkedCells, linkedCells, ih, linkHead_append, add_assoc]

end Linked

/-! ## Specifications -/

/-- From a memory with these cells, the program ends, and this is what it leaves. -/
def Ends {α : Type} (c : Prog σ A B α) (s : σ) (F : Cells A B)
    (Q : α → σ → Cells A B → Prop) : Prop :=
  ∀ m : Memory A B, m.entries = F →
    ∃ x s' m', c (s, m) = some (x, (s', m')) ∧ Q x s' m'.entries

namespace Ends

variable {α γ : Type} {c : Prog σ A B α} {f : α → Prog σ A B γ} {s : σ} {F : Cells A B}
  {P Q : α → σ → Cells A B → Prop} {R : γ → σ → Cells A B → Prop} {a : A} {b : B}

theorem pure {x : α} (h : Q x s F) : Ends (pure x) s F Q :=
  fun m hm => ⟨x, s, m, rfl, by rwa [hm]⟩

/-- One program and then another. -/
theorem bind (h : Ends c s F P) (h' : ∀ x s' F', P x s' F' → Ends (f x) s' F' R) :
    Ends (c >>= f) s F R := by
  intro m hm
  obtain ⟨x, s', m', hc, hP⟩ := h m hm
  obtain ⟨y, s'', m'', hf, hR⟩ := h' x s' m'.entries hP m' rfl
  refine ⟨y, s'', m'', ?_, hR⟩
  change (c (s, m)).bind (fun w => f w.1 w.2) = _
  rw [hc]
  exact hf

theorem mono (h : Ends c s F P) (h' : ∀ x s' F', P x s' F' → Q x s' F') : Ends c s F Q := by
  intro m hm
  obtain ⟨x, s', m', hc, hP⟩ := h m hm
  exact ⟨x, s', m', hc, h' x s' m'.entries hP⟩

/-- A memory has no address twice. -/
theorem of_nodupKeys (h : Multiset.NodupKeys F → Ends c s F Q) : Ends c s F Q :=
  fun m hm => h (hm ▸ m.nodupKeys) m hm

theorem setState (s' : σ) :
    Ends (setState s') s F fun _ s'' F' => s'' = s' ∧ F' = F :=
  fun m hm => ⟨(), s', m, rfl, rfl, hm⟩

variable [DecidableEq A]

/-- Writing a block that is there. -/
theorem store {G : Cells A B} (h : F = cell a b + G) (b' : B) :
    Ends (store a b') s F fun _ s' F' => s' = s ∧ F' = cell a b' + G := by
  intro m hm
  have hin : a ∈ m := Finmap.mem_of_lookup_eq_some
    (lookup_of_mem (b := b) (by rw [hm, h]; simp [cell]))
  exact ⟨(), s, m.insert a b', if_pos hin, rfl, entries_replace (hm.trans h) b'⟩

/-- Freeing a block that is there. -/
theorem free {G : Cells A B} (h : F = cell a b + G) :
    Ends (free a) s F fun _ s' F' => s' = s ∧ F' = G := by
  intro m hm
  have hin : a ∈ m := Finmap.mem_of_lookup_eq_some
    (lookup_of_mem (b := b) (by rw [hm, h]; simp [cell]))
  exact ⟨(), s, m.erase a, if_pos hin, rfl, entries_erase (hm.trans h)⟩

/-- A new block is somewhere else. -/
theorem alloc (p : Chooser A) (b : B) :
    Ends (alloc p b) s F fun a s' F' => s' = s ∧ F' = cell a b + F := by
  intro m hm
  refine ⟨_, s, _, rfl, rfl, ?_⟩
  rw [entries_insert fun hin => p.fresh m.keys (Finmap.mem_keys.mpr hin), hm]

end Ends

/-- The program only looks, and this is what it sees. -/
def Sees {α : Type} (c : Prog σ A B α) (s : σ) (F : Cells A B) (v : α) : Prop :=
  Ends c s F fun x s' F' => x = v ∧ s' = s ∧ F' = F

namespace Sees

variable {α γ : Type} {c : Prog σ A B α} {f : α → Prog σ A B γ} {s : σ} {F : Cells A B} {v : α}
  {w : γ} {R : γ → σ → Cells A B → Prop}

theorem pure : Sees (pure v) s F v := Ends.pure ⟨rfl, rfl, rfl⟩

theorem getState : Sees getState s F s := fun m hm => ⟨s, s, m, rfl, rfl, rfl, hm⟩

theorem blockCount : Sees blockCount s F F.card :=
  fun m hm => ⟨_, s, m, rfl, by rw [← hm]; exact card_keys m, rfl, hm⟩

/-- Reading a block that is there. -/
theorem load [DecidableEq A] {a : A} {b : B} (h : (⟨a, b⟩ : Σ _ : A, B) ∈ F) :
    Sees (load a) s F b := by
  intro m hm
  refine ⟨b, s, m, ?_, rfl, rfl, hm⟩
  rw [BlockMemory.load, lookup_of_mem (hm ▸ h), Option.map_some]

/-- Look, and go on with what is seen. -/
theorem bind (h : Sees c s F v) (h' : Ends (f v) s F R) : Ends (c >>= f) s F R := by
  refine Ends.bind h ?_
  rintro x s' F' ⟨rfl, rfl, rfl⟩
  exact h'

/-- Look, and look again. -/
theorem andThen (h : Sees c s F v) (h' : Sees (f v) s F w) : Sees (c >>= f) s F w := h.bind h'

end Sees

/-! ## Values in memory -/

/-- How values are kept in memory. An `O` is a value together with its blocks. -/
structure Layout (O N V σ A B : Type) where
  /-- what the program holds of it -/
  node : O → N
  /-- its blocks -/
  cells : O → Cells A B
  /-- what it stands for -/
  value : O → σ → V

/-- The program does in memory what `r` is on values, and touches no other memory. -/
def Follows {O N V : Type} (L : Layout O N V σ A B) {α : Type} (c : Prog σ A B (α × N)) (s : σ)
    (o : O) (K : Cells A B) (r : α × V) : Prop :=
  Ends c s (L.cells o + K) fun x s' F' =>
    ∃ o', x.2 = L.node o' ∧ F' = L.cells o' + K ∧ r = (x.1, L.value o' s')

namespace Follows

variable {O N V α γ : Type} {L : Layout O N V σ A B} {c : Prog σ A B (α × N)} {s : σ} {o : O}
  {K : Cells A B} {r : α × V}

theorem pure (x : α) : Follows L (pure (x, L.node o)) s o K (x, L.value o s) :=
  Ends.pure ⟨o, rfl, rfl, rfl⟩

/-- One program, and then one that goes on with its result. -/
theorem bind {f : α × N → Prog σ A B (γ × N)} {r' : γ × V} (h : Follows L c s o K r)
    (h' : ∀ o' s', r.2 = L.value o' s' → Follows L (f (r.1, L.node o')) s' o' K r') :
    Follows L (c >>= f) s o K r' := by
  refine Ends.bind h ?_
  rintro ⟨x, n⟩ s' F' ⟨o', rfl, rfl, rfl⟩
  exact h' o' s' rfl

/-- Look, and go on with what is seen. -/
theorem look {γ : Type} {c : Prog σ A B γ} {f : γ → Prog σ A B (α × N)} {v : γ}
    (h : Sees c s (L.cells o + K) v) (h' : Follows L (f v) s o K r) :
    Follows L (c >>= f) s o K r := h.bind h'

/-- Both take the same branch. -/
theorem ite {p : Prop} [Decidable p] {c' : Prog σ A B (α × N)} {r' : α × V}
    (h : p → Follows L c s o K r) (h' : ¬ p → Follows L c' s o K r') :
    Follows L (if p then c else c') s o K (if p then r else r') := by
  split
  · next hp => exact h hp
  · next hp => exact h' hp

end Follows

/-! ## Runs -/

section Runs

variable {O N V ρ ι : Type}

/-- Some calls, one after the other, and what they return. -/
def runCalls (exec : ι → N → Prog σ A B (ρ × N)) : List ι → N → Prog σ A B (List ρ × N)
  | [], n => pure ([], n)
  | i :: is, n => do
    let r ← exec i n
    let rest ← runCalls exec is r.2
    return (r.1 :: rest.1, rest.2)

/-- The same on values. -/
def runValues (exec : ι → V → ρ × V) : List ι → V → List ρ × V
  | [], v => ([], v)
  | i :: is, v =>
    let r := exec i v
    let rest := runValues exec is r.2
    (r.1 :: rest.1, rest.2)

variable {L : Layout O N V σ A B} {K : Cells A B} {exec : ι → N → Prog σ A B (ρ × N)}
  {exec' : (ι → V → ρ × V)} {is : List ι}

/-- If every call follows what it is on values, then so does every sequence of calls. -/
theorem Follows.run (h : ∀ i ∈ is, ∀ o s,
    Follows L (exec i (L.node o)) s o K (exec' i (L.value o s))) (o : O) (s : σ) :
    Follows L (runCalls exec is (L.node o)) s o K (runValues exec' is (L.value o s)) := by
  induction is generalizing o s with
  | nil => exact Follows.pure []
  | cons i is ih =>
    have hrest := ih fun j hj => h j (List.mem_cons_of_mem _ hj)
    refine (h i (List.mem_cons_self ..) o s).bind fun o₁ s₁ h₁ => ?_
    refine (hrest o₁ s₁).bind fun o₂ s₂ h₂ => ?_
    rw [runValues, h₁, h₂]
    exact Follows.pure _

/-- What every call on values keeps, a sequence of calls keeps. -/
theorem runValues_keeps {I : V → Prop} (h : ∀ i ∈ is, ∀ v, I v → I (exec' i v).2) {v : V}
    (hv : I v) : I (runValues exec' is v).2 := by
  induction is generalizing v with
  | nil => exact hv
  | cons i is ih =>
    exact ih (fun j hj => h j (List.mem_cons_of_mem _ hj)) (h i (List.mem_cons_self ..) v hv)

end Runs

end BlockMemory
