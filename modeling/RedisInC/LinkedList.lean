import Mathlib.Data.Finmap
import Mathlib.Data.Finset.Card
import Mathlib.Tactic.Common

/-!
# Singly linked lists in memory

A library about lists of nodes that hold the address of the next one. Addresses
and contents are arbitrary. Reading through an address at which there is no node
has no result.

* `Node`, `Chain` — a node, and the memory with the address of the first node.
* `IsList` — the nodes that are reached from an address, in order, up to the null
  address. They are all different (`IsList.nodup`).
* `Link`, `Chain.read`, `Chain.write` — the places that hold an address.
* `Chain.unlink` — a node is looked for along the places, and the place that holds
  its address gets the address behind it.
* `Chain.Holds.unlink`, `Chain.Holds.push`, `Chain.Holds.pop` — what the
  operations make of the list, and what they leave alone.
-/

namespace LinkedList

universe u

/-- A node: its content, and the address of the next one. -/
structure Node (P : Type u) (D : Type u) : Type u where
  /-- what it holds -/
  data : D
  /-- the next node -/
  next : Option P

/-- A list in memory. -/
structure Chain (P : Type u) (D : Type u) : Type u where
  /-- the first node -/
  head : Option P
  /-- all nodes there are -/
  mem : Finmap fun _ : P => Node P D

variable {P D : Type u} [DecidableEq P]

/-! ## The nodes of a list -/

/-- The nodes reached from an address. -/
inductive IsList (mem : Finmap fun _ : P => Node P D) : Option P → List P → Prop
  /-- the null address -/
  | nil : IsList mem none []
  /-- a node, and what is reached from it -/
  | cons {p : P} {n : Node P D} {ps : List P} (node : mem.lookup p = some n)
      (rest : IsList mem n.next ps) : IsList mem (some p) (p :: ps)

namespace IsList

variable {mem mem' : Finmap fun _ : P => Node P D} {q : Option P} {ps ps' : List P} {p : P}

/-- An address begins one list at most. -/
theorem unique (h : IsList mem q ps) (h' : IsList mem q ps') : ps = ps' := by
  induction h generalizing ps' with
  | nil =>
    cases h'
    rfl
  | cons node rest ih =>
    cases h' with
    | cons node' rest' =>
      cases node.symm.trans node'
      rw [ih rest']

/-- What is reached from a node on the way. -/
theorem suffix {xs : List P} (h : IsList mem q (xs ++ p :: ps)) :
    IsList mem (some p) (p :: ps) := by
  induction xs generalizing q with
  | nil =>
    cases h with
    | cons node rest => exact .cons node rest
  | cons x xs ih =>
    cases h with
    | cons node rest => exact ih rest

/-- **No node comes twice**: the list would never end. -/
theorem nodup (h : IsList mem q ps) : ps.Nodup := by
  induction h with
  | nil => exact List.nodup_nil
  | @cons p n ps node rest ih =>
    refine List.nodup_cons.mpr ⟨fun hmem => ?_, ih⟩
    obtain ⟨xs, ys, rfl⟩ := List.append_of_mem hmem
    have hlen := congrArg List.length ((IsList.cons node rest).unique rest.suffix)
    simp at hlen
    omega

theorem lookup_of_mem (h : IsList mem q ps) (hp : p ∈ ps) : ∃ n, mem.lookup p = some n := by
  obtain ⟨xs, ys, rfl⟩ := List.append_of_mem hp
  cases h.suffix with
  | cons node rest => exact ⟨_, node⟩

/-- Only the addresses in the nodes of the list matter. -/
theorem congr (h : IsList mem q ps)
    (hsame : ∀ p ∈ ps, (mem'.lookup p).map Node.next = (mem.lookup p).map Node.next) :
    IsList mem' q ps := by
  induction h with
  | nil => exact .nil
  | @cons p n ps node rest ih =>
    have hnext := hsame p (List.mem_cons_self ..)
    rw [node, Option.map_some, Option.map_eq_some_iff] at hnext
    obtain ⟨n', hn', heq⟩ := hnext
    refine .cons hn' ?_
    rw [heq]
    exact ih fun p hp => hsame p (List.mem_cons_of_mem _ hp)

theorem length_le_card (h : IsList mem q ps) : ps.length ≤ mem.keys.card := by
  rw [← List.toFinset_card_of_nodup h.nodup]
  refine Finset.card_le_card fun p hp => ?_
  obtain ⟨n, hn⟩ := h.lookup_of_mem (List.mem_toFinset.mp hp)
  rw [Finmap.mem_keys, Finmap.mem_iff]
  exact ⟨n, hn⟩

end IsList

/-! ## Operations -/

/-- A place that holds an address. -/
inductive Link (P : Type u) : Type u
  /-- the address of the first node -/
  | head
  /-- the address in a node -/
  | next (p : P)

namespace Chain

/-- The empty list. -/
def empty : Chain P D := ⟨none, ∅⟩

/-- The content of a node. -/
def data (c : Chain P D) (p : P) : Option D := (c.mem.lookup p).map Node.data

/-- The address at a place. -/
def read (c : Chain P D) : Link P → Option (Option P)
  | .head => some c.head
  | .next p => (c.mem.lookup p).map Node.next

/-- Another address at a place. -/
def write (c : Chain P D) (q : Option P) : Link P → Option (Chain P D)
  | .head => some { c with head := q }
  | .next p => (c.mem.lookup p).map fun n => { c with mem := c.mem.insert p { n with next := q } }

/-- The first place from here on that holds the address, or the null address. -/
def seek (c : Chain P D) (target : P) : ℕ → Link P → Option (Link P)
  | 0, _ => none
  | fuel + 1, link =>
    match c.read link with
    | none => none
    | some none => some link
    | some (some q) => if q = target then some link else c.seek target fuel (.next q)

/-- Take a node out of the list. There are no more places than nodes and one. -/
def unlink (c : Chain P D) (target : P) : Option (Chain P D) := do
  let link ← c.seek target (c.mem.keys.card + 1) .head
  let q ← c.read link
  if q = some target then
    let n ← c.mem.lookup target
    c.write n.next link
  else some c

/-- A new node in front. -/
def push (c : Chain P D) (p : P) (d : D) : Chain P D := ⟨some p, c.mem.insert p ⟨d, c.head⟩⟩

/-- The node is no more. -/
def free (c : Chain P D) (p : P) : Chain P D := { c with mem := c.mem.erase p }

/-- Go on with the next node, and free this one. -/
def pop (c : Chain P D) (p : P) : Option (Chain P D) :=
  (c.mem.lookup p).map fun n => ⟨n.next, c.mem.erase p⟩

/-- Other contents for a node. -/
def update (c : Chain P D) (p : P) (d : D) : Chain P D :=
  match c.mem.lookup p with
  | none => c
  | some n => { c with mem := c.mem.insert p { n with data := d } }

/-- The list consists of these nodes. -/
def Holds (c : Chain P D) (ps : List P) : Prop := IsList c.mem c.head ps

variable {c c' : Chain P D} {ps : List P} {p : P} {d : D}

theorem holds_empty : (empty : Chain P D).Holds [] := .nil

/-! ## Contents -/

theorem data_update (hp : c.data p ≠ none) (q : P) :
    (c.update p d).data q = if q = p then some d else c.data q := by
  rw [update]
  cases hn : c.mem.lookup p with
  | none => exact absurd (by rw [data, hn]; rfl) hp
  | some n =>
    simp only [data]
    by_cases hq : q = p
    · rw [if_pos hq, hq, Finmap.lookup_insert]
      rfl
    · rw [if_neg hq, Finmap.lookup_insert_of_ne _ hq]

theorem data_push (q : P) : (c.push p d).data q = if q = p then some d else c.data q := by
  simp only [data, push]
  by_cases hq : q = p
  · rw [if_pos hq, hq, Finmap.lookup_insert]
    rfl
  · rw [if_neg hq, Finmap.lookup_insert_of_ne _ hq]

theorem data_free (q : P) : (c.free p).data q = if q = p then none else c.data q := by
  simp only [data, free]
  by_cases hq : q = p
  · rw [if_pos hq, hq, Finmap.lookup_erase]
    rfl
  · rw [if_neg hq, Finmap.lookup_erase_ne hq]

/-- Other contents leave the list as it is. -/
theorem Holds.update (h : c.Holds ps) (p : P) (d : D) : (c.update p d).Holds ps := by
  rw [Chain.update]
  cases hn : c.mem.lookup p with
  | none => exact h
  | some n =>
    refine IsList.congr h fun q _ => ?_
    by_cases hq : q = p
    · rw [hq, Finmap.lookup_insert, hn]
      rfl
    · rw [Finmap.lookup_insert_of_ne _ hq]

theorem Holds.push (h : c.Holds ps) (hp : c.mem.lookup p = none) (d : D) :
    (c.push p d).Holds (p :: ps) := by
  refine .cons (Finmap.lookup_insert _) (IsList.congr h fun q hq => ?_)
  have hne : q ≠ p := by
    rintro rfl
    obtain ⟨n, hn⟩ := IsList.lookup_of_mem h hq
    rw [hp] at hn
    cases hn
  rw [Chain.push, Finmap.lookup_insert_of_ne _ hne]

theorem Holds.pop (h : c.Holds (p :: ps)) :
    c.head = some p ∧ ∃ c', c.pop p = some c' ∧ c'.Holds ps ∧
      ∀ q, c'.data q = if q = p then none else c.data q := by
  have hnodup := IsList.nodup h
  rw [Holds] at h
  generalize hhead : c.head = q at h
  cases h with
  | @cons _ n _ node rest =>
    refine ⟨rfl, ⟨n.next, c.mem.erase p⟩, by rw [Chain.pop, node]; rfl,
      IsList.congr rest fun y hy => ?_, fun q => ?_⟩
    · have hne : y ≠ p := fun heq => (List.nodup_cons.mp hnodup).1 (heq ▸ hy)
      rw [Finmap.lookup_erase_ne hne]
    · change (c.free p).data q = _
      exact data_free q

theorem Holds.free (h : c.Holds ps) (hp : p ∉ ps) : (c.free p).Holds ps := by
  refine IsList.congr h fun q hq => ?_
  have hne : q ≠ p := fun heq => hp (heq ▸ hq)
  rw [Chain.free, Finmap.lookup_erase_ne hne]

/-- The links of a list are those between its nodes. -/
theorem IsList.links {mem mem' : Finmap fun _ : P => Node P D} {q q' : Option P}
    (h : IsList mem q ps) (h' : IsList mem' q' ps) :
    q = q' ∧ ∀ p ∈ ps, (mem.lookup p).map Node.next = (mem'.lookup p).map Node.next := by
  induction h generalizing q' with
  | nil =>
    cases h'
    exact ⟨rfl, fun p hp => by cases hp⟩
  | @cons p n ps node rest ih =>
    cases h' with
    | cons node' rest' =>
      obtain ⟨hnext, hlinks⟩ := ih rest'
      refine ⟨rfl, fun x hx => ?_⟩
      rcases List.mem_cons.mp hx with rfl | hx
      · rw [node, node', Option.map_some, Option.map_some, hnext]
      · exact hlinks x hx

/-- **A list with nothing around it** is given by its nodes and what they hold. -/
theorem Holds.ext (h : c.Holds ps) (h' : c'.Holds ps) (hdata : ∀ p, c.data p = c'.data p)
    (hnodes : ∀ p, c.data p ≠ none → p ∈ ps) : c = c' := by
  obtain ⟨hhead, hlinks⟩ := IsList.links h h'
  have hmem : c.mem = c'.mem := by
    refine Finmap.ext_lookup fun p => ?_
    have hp := hdata p
    have hin := hnodes p
    have hnext := hlinks p
    rw [data, data] at hp
    rw [data] at hin
    cases hn : c.mem.lookup p with
    | none =>
      rw [hn, Option.map_none, eq_comm, Option.map_eq_none_iff] at hp
      rw [hp]
    | some n =>
      rw [hn] at hp hin hnext
      cases hn' : c'.mem.lookup p with
      | none =>
        rw [hn'] at hp
        cases hp
      | some n' =>
        rw [hn'] at hp hnext
        have hlink := Option.some.inj (hnext (hin nofun))
        have hcontent := Option.some.inj hp
        obtain ⟨d, x⟩ := n
        obtain ⟨d', x'⟩ := n'
        cases hlink
        cases hcontent
        rfl
  obtain ⟨head, mem⟩ := c
  obtain ⟨head', mem'⟩ := c'
  cases hhead
  cases hmem
  rfl

/-! ## Unlinking -/

/-- What unlinking a node comes to, from some place on. -/
structure Unlinked (c : Chain P D) (target : P) (link : Link P) (ps : List P) (c' : Chain P D) :
    Prop where
  /-- the list from there on -/
  list : ∃ q, c'.read link = some q ∧ IsList c'.mem q (ps.erase target)
  /-- contents stay -/
  data_eq : ∀ p, c'.data p = c.data p
  /-- other nodes stay -/
  frame : ∀ p ∉ ps, link ≠ .next p → c'.mem.lookup p = c.mem.lookup p
  /-- the first address stays, unless it is the place -/
  head_eq : link ≠ .head → c'.head = c.head

/-- The place holds the address: the address behind it is written there. -/
theorem unlinked_here {link : Link P} {n : Node P D} (hread : c.read link = some (some p))
    (rest : IsList c.mem n.next ps) (hlink : ∀ x, link = .next x → x ∉ p :: ps) :
    ∃ c', c.write n.next link = some c' ∧ Unlinked c p link (p :: ps) c' := by
  have herase : (p :: ps).erase p = ps := List.erase_cons_head ..
  cases link with
  | head =>
    refine ⟨_, rfl, ⟨n.next, rfl, ?_⟩, fun _ => rfl, fun _ _ _ => rfl, fun h => absurd rfl h⟩
    rw [herase]
    exact rest
  | next x =>
    have hx := hlink x rfl
    obtain ⟨nx, hnx⟩ : ∃ nx, c.mem.lookup x = some nx := by
      cases hlook : c.mem.lookup x with
      | none => rw [read, hlook] at hread; cases hread
      | some nx => exact ⟨nx, rfl⟩
    refine ⟨{ c with mem := c.mem.insert x { nx with next := n.next } },
      by rw [write, hnx]; rfl, ⟨n.next, ?_, ?_⟩, ?_, ?_, fun _ => rfl⟩
    · rw [read, Finmap.lookup_insert]
      rfl
    · rw [herase]
      refine rest.congr fun y hy => ?_
      have hne : y ≠ x := fun heq => hx (heq ▸ List.mem_cons_of_mem _ hy)
      rw [Finmap.lookup_insert_of_ne _ hne]
    · intro y
      simp only [data]
      by_cases hy : y = x
      · rw [hy, Finmap.lookup_insert, hnx]
        rfl
      · rw [Finmap.lookup_insert_of_ne _ hy]
    · intro y _ hy
      exact Finmap.lookup_insert_of_ne _ fun heq => hy (heq ▸ rfl)

/-- The place is behind the node that is found here. -/
theorem Unlinked.behind {link : Link P} {target : P} (hun : Unlinked c target (.next p) ps c')
    (hread : c.read link = some (some p)) (hlink : ∀ x, link = .next x → x ∉ p :: ps)
    (hp : p ≠ target) : Unlinked c target link (p :: ps) c' := by
  refine ⟨?_, hun.data_eq, ?_, fun _ => hun.head_eq nofun⟩
  · obtain ⟨q', hq', hlist'⟩ := hun.list
    rw [read, Option.map_eq_some_iff] at hq'
    obtain ⟨n', hn', rfl⟩ := hq'
    refine ⟨some p, ?_, ?_⟩
    · -- the place where this node is found is the same
      rw [← hread]
      cases link with
      | head => rw [read, read, hun.head_eq nofun]
      | next x =>
        have hx := hlink x rfl
        have hne : (Link.next p : Link P) ≠ .next x := by
          rintro ⟨⟩
          exact hx (List.mem_cons_self ..)
        rw [read, read, hun.frame x (fun h => hx (List.mem_cons_of_mem _ h)) hne]
    · rw [List.erase_cons_tail (by simpa using hp)]
      exact .cons hn' hlist'
  · intro y hy _
    refine hun.frame y (fun h => hy (List.mem_cons_of_mem _ h)) ?_
    rintro ⟨⟩
    exact hy (List.mem_cons_self ..)

/-- The place that is found holds the address, and its successor is written there. -/
theorem seek_unlinked {link : Link P} {q : Option P} {target : P} {fuel : ℕ}
    (hread : c.read link = some q) (hlist : IsList c.mem q ps)
    (hlink : ∀ p, link = .next p → p ∉ ps) (hmem : target ∈ ps) (hfuel : ps.length ≤ fuel) :
    ∃ place n c', c.seek target fuel link = some place ∧ c.read place = some (some target) ∧
      c.mem.lookup target = some n ∧ c.write n.next place = some c' ∧
      Unlinked c target link ps c' := by
  induction hlist generalizing link fuel with
  | nil => cases hmem
  | @cons p n ps node rest ih =>
    cases fuel with
    | zero => cases hfuel
    | succ fuel =>
      by_cases hp : p = target
      · subst hp
        have hseek : c.seek p (fuel + 1) link = some link := by
          rw [seek, hread]
          simp only [if_pos]
        obtain ⟨c', hwrite, hun⟩ := unlinked_here hread rest hlink
        exact ⟨link, n, c', hseek, hread, node, hwrite, hun⟩
      · have hpout : p ∉ ps := (List.nodup_cons.mp (IsList.cons node rest).nodup).1
        have hseek : c.seek target (fuel + 1) link = c.seek target fuel (.next p) := by
          rw [seek, hread]
          simp only [if_neg hp]
        obtain ⟨place, m, c', hfound, hplace, hm, hwrite, hun⟩ :=
          @ih (.next p) fuel (by rw [read, node]; rfl)
            (fun y hy => by cases hy; exact hpout)
            ((List.mem_cons.mp hmem).resolve_left (Ne.symm hp)) (Nat.le_of_succ_le_succ hfuel)
        exact ⟨place, m, c', hseek.trans hfound, hplace, hm, hwrite, hun.behind hread hlink hp⟩

/-- **Unlinking a node** of the list leaves the others in it, and all contents. -/
theorem Holds.unlink (h : c.Holds ps) {target : P} (hmem : target ∈ ps) :
    ∃ c', c.unlink target = some c' ∧ c'.Holds (ps.erase target) ∧ ∀ p, c'.data p = c.data p := by
  obtain ⟨place, n, c', hseek, hplace, hn, hwrite, hun⟩ :=
    @seek_unlinked P D _ c ps .head c.head target (c.mem.keys.card + 1) rfl h nofun hmem
      (Nat.le_succ_of_le (IsList.length_le_card h))
  refine ⟨c', ?_, ?_, hun.data_eq⟩
  · simp only [Chain.unlink, hseek, hplace, hn, hwrite, Option.bind_eq_bind, Option.bind_some,
      if_true]
  · obtain ⟨q, hq, hlist⟩ := hun.list
    cases hq
    exact hlist

end Chain

end LinkedList
