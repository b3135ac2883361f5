import Mathlib.Data.Finmap
import Mathlib.Data.List.FinRange
import Mathlib.Algebra.BigOperators.Fin

/-!
# Chained tables as finite maps

A library about separate chaining, for any keys, values, number of slots and
slot function: an array of association chains, each key living in the chain its
slot selects and at most once there.

* `WellPlaced` — the two facts a chained table lives by. Nothing is assumed of
  the slot function: keys may collide.
* `entries` — all entries in slot order, `toMap` — the finite map they denote.
* One chain edit at a time (`WellPlaced.replace`, `.cons`, `.erase`): the edits of
  the chain `slot k` selects are the map operations `insert` and `erase` at `k`.
-/

namespace ChainedTable

universe u v

variable {K : Type u} {V : Type v} {n : ℕ}

/-- An array of `n` chains of key-value entries. -/
abbrev Chains (n : ℕ) (K : Type u) (V : Type v) : Type (max u v) := Fin n → List (Σ _ : K, V)

/-- All entries, slot by slot. -/
def entries (t : Chains n K V) : List (Σ _ : K, V) := (List.finRange n).flatMap t

/-- Every key lives in the chain its slot selects, at most once. -/
structure WellPlaced (slot : K → Fin n) (t : Chains n K V) : Prop where
  /-- keys live where their slot says -/
  placed : ∀ i, ∀ e ∈ t i, slot e.1 = i
  /-- no key occurs twice in a chain -/
  nodupKeys : ∀ i, (t i).NodupKeys

variable {slot : K → Fin n} {t : Chains n K V}

theorem mem_entries_iff {e : Σ _ : K, V} : e ∈ entries t ↔ ∃ i, e ∈ t i := by
  simp [entries]

namespace WellPlaced

theorem empty : WellPlaced slot (fun _ => [] : Chains n K V) :=
  ⟨fun _ _ he => absurd he (List.not_mem_nil), fun _ => List.nodupKeys_nil⟩

/-- A key's entries are all in its own chain. -/
theorem mem_entries (h : WellPlaced slot t) {e : Σ _ : K, V} :
    e ∈ entries t ↔ e ∈ t (slot e.1) := by
  rw [mem_entries_iff]
  constructor
  · rintro ⟨i, he⟩
    rwa [h.placed i e he]
  · exact fun he => ⟨_, he⟩

/-- No key occurs twice in the whole table: equal keys share a slot. -/
theorem entries_nodupKeys (h : WellPlaced slot t) : (entries t).NodupKeys := by
  rw [entries, List.flatMap_def, List.nodupKeys_flatten]
  constructor
  · intro l hl
    obtain ⟨i, -, rfl⟩ := List.mem_map.mp hl
    exact h.nodupKeys i
  · rw [List.pairwise_map, List.pairwise_map]
    have hdistinct : (List.finRange n).Pairwise (· ≠ ·) := List.nodup_finRange n
    refine hdistinct.imp ?_
    intro i j hij k hki hkj
    obtain ⟨x, hx⟩ := List.exists_of_mem_keys hki
    obtain ⟨y, hy⟩ := List.exists_of_mem_keys hkj
    have hi : slot k = i := h.placed i (⟨k, x⟩ : Σ _ : K, V) hx
    have hj : slot k = j := h.placed j (⟨k, y⟩ : Σ _ : K, V) hy
    exact hij (hi.symm.trans hj)

/-- **Editing one chain.** Replacing a chain by one that is itself in order. -/
theorem update (h : WellPlaced slot t) {i : Fin n} {l : List (Σ _ : K, V)}
    (hplaced : ∀ e ∈ l, slot e.1 = i) (hnodup : l.NodupKeys) :
    WellPlaced slot (Function.update t i l) := by
  constructor
  · intro j e he
    by_cases hj : j = i
    · subst hj
      rw [Function.update_self] at he
      exact hplaced e he
    · rw [Function.update_of_ne hj] at he
      exact h.placed j e he
  · intro j
    by_cases hj : j = i
    · subst hj
      rw [Function.update_self]
      exact hnodup
    · rw [Function.update_of_ne hj]
      exact h.nodupKeys j

end WellPlaced

/-- Editing one chain changes the number of entries by the change of its
length. -/
theorem length_entries_update (t : Chains n K V) (i : Fin n) (l : List (Σ _ : K, V)) :
    (entries (Function.update t i l)).length + (t i).length = (entries t).length + l.length := by
  have hsum : ∀ s : Chains n K V, (entries s).length = ∑ j, (s j).length := by
    intro s
    rw [entries, List.length_flatMap, Fin.sum_univ_def]
  have hsplit : ∀ s : Chains n K V,
      (entries s).length = (s i).length + ∑ j ∈ Finset.univ.erase i, (s j).length := by
    intro s
    rw [hsum, Finset.add_sum_erase _ (fun j => (s j).length) (Finset.mem_univ i)]
  have hrest : ∑ j ∈ Finset.univ.erase i, (Function.update t i l j).length =
      ∑ j ∈ Finset.univ.erase i, (t j).length := by
    refine Finset.sum_congr rfl fun j hj => ?_
    rw [Function.update_of_ne (Finset.ne_of_mem_erase hj)]
  rw [hsplit, hsplit t, hrest, Function.update_self]
  omega

/-! ## The finite map -/

variable [DecidableEq K]

/-- The finite map a table denotes. -/
def toMap (t : Chains n K V) : Finmap fun _ : K => V := (entries t).toFinmap

@[simp] theorem toMap_empty : toMap (fun _ => [] : Chains n K V) = ∅ := by
  have : entries (fun _ => [] : Chains n K V) = [] := by simp [entries]
  rw [toMap, this, Finmap.toFinmap_nil]

/-- **Lookup.** Searching the chain of the key's slot is looking the key up in
the map. -/
theorem WellPlaced.lookup_toMap (h : WellPlaced slot t) (k : K) :
    (toMap t).lookup k = (t (slot k)).dlookup k := by
  rw [toMap, Finmap.dlookup_list_toFinmap]
  apply Option.ext
  intro x
  rw [← Option.mem_def, ← Option.mem_def, List.mem_dlookup_iff h.entries_nodupKeys,
    List.mem_dlookup_iff (h.nodupKeys _)]
  exact h.mem_entries

/-- The keys of the map are the keys of the entries. -/
theorem WellPlaced.keys_toMap (h : WellPlaced slot t) :
    (toMap t).keys = (entries t).keys.toFinset ∧ (toMap t).keys.card = (entries t).length := by
  have hkeys : (toMap t).keys = (entries t).keys.toFinset := by
    ext k
    rw [Finmap.mem_keys, toMap, Finmap.mem_list_toFinmap, List.mem_toFinset, List.mem_keys]
  refine ⟨hkeys, ?_⟩
  rw [hkeys, List.toFinset_card_of_nodup h.entries_nodupKeys, List.keys, List.length_map]

/-- Lookup after an edit of one chain. -/
theorem WellPlaced.lookup_update (h : WellPlaced slot t) {i : Fin n} {l : List (Σ _ : K, V)}
    (h' : WellPlaced slot (Function.update t i l)) (k : K) :
    (toMap (Function.update t i l)).lookup k =
      if slot k = i then l.dlookup k else (toMap t).lookup k := by
  rw [h'.lookup_toMap]
  split
  · next hk => rw [hk, Function.update_self]
  · next hk => rw [Function.update_of_ne hk, h.lookup_toMap]

theorem kreplace_cons (k : K) (x : V) (e : Σ _ : K, V) (l : List (Σ _ : K, V)) :
    (e :: l).kreplace k x = if k = e.1 then ⟨k, x⟩ :: l else e :: l.kreplace k x := by
  by_cases hk : k = e.1
  · rw [if_pos hk]
    exact List.lookmap_cons_some (fun s => if k = s.1 then some ⟨k, x⟩ else none) l (if_pos hk)
  · rw [if_neg hk]
    exact List.lookmap_cons_none (fun s => if k = s.1 then some ⟨k, x⟩ else none) l (if_neg hk)

/-- Lookup after replacing the first entry of a present key. -/
theorem dlookup_kreplace {k : K} {x : V} {l : List (Σ _ : K, V)} (hk : k ∈ l.keys) (k' : K) :
    (l.kreplace k x).dlookup k' = if k' = k then some x else l.dlookup k' := by
  induction l with
  | nil => exact absurd hk (List.not_mem_nil)
  | cons e l ih =>
    obtain ⟨a, y⟩ := e
    rw [kreplace_cons]
    by_cases hka : k = a
    · subst hka
      rw [if_pos rfl]
      by_cases hk' : k' = k
      · subst hk'
        rw [List.dlookup_cons_eq, if_pos rfl]
      · rw [if_neg hk', List.dlookup_cons_ne _ (⟨k, x⟩ : Σ _ : K, V) hk',
          List.dlookup_cons_ne _ (⟨k, y⟩ : Σ _ : K, V) hk']
    · rw [if_neg hka]
      have hkl : k ∈ l.keys := by
        rw [List.keys_cons, List.mem_cons] at hk
        exact hk.resolve_left hka
      by_cases hk' : k' = a
      · subst hk'
        rw [List.dlookup_cons_eq, List.dlookup_cons_eq, if_neg (Ne.symm hka)]
      · rw [List.dlookup_cons_ne _ (⟨a, y⟩ : Σ _ : K, V) hk',
          List.dlookup_cons_ne _ (⟨a, y⟩ : Σ _ : K, V) hk']
        exact ih hkl

/-- Replacing the value of a present key, in place. -/
theorem WellPlaced.replace (h : WellPlaced slot t) {k : K} (x : V)
    (hk : k ∈ (t (slot k)).keys) :
    WellPlaced slot (Function.update t (slot k) ((t (slot k)).kreplace k x)) ∧
      toMap (Function.update t (slot k) ((t (slot k)).kreplace k x)) = (toMap t).insert k x := by
  have hwf : WellPlaced slot (Function.update t (slot k) ((t (slot k)).kreplace k x)) := by
    refine h.update ?_ ((List.kreplace_nodupKeys k x).mpr (h.nodupKeys _))
    intro e he
    -- the keys of the chain, hence their slots, are as before
    have hkeys : e.1 ∈ (t (slot k)).keys := by
      rw [← List.keys_kreplace k x]
      exact List.mem_keys_of_mem he
    obtain ⟨y, hy⟩ := List.exists_of_mem_keys hkeys
    exact h.placed _ (⟨e.1, y⟩ : Σ _ : K, V) hy
  refine ⟨hwf, Finmap.ext_lookup fun k' => ?_⟩
  rw [h.lookup_update hwf, dlookup_kreplace hk]
  by_cases hkk : k' = k
  · subst hkk
    rw [if_pos rfl, if_pos rfl, Finmap.lookup_insert]
  · rw [if_neg hkk, Finmap.lookup_insert_of_ne _ hkk]
    split
    · next hs => rw [h.lookup_toMap, hs]
    · rfl

/-- Prepending a fresh key to its chain. -/
theorem WellPlaced.cons (h : WellPlaced slot t) {k : K} (x : V)
    (hk : k ∉ (t (slot k)).keys) :
    WellPlaced slot (Function.update t (slot k) (⟨k, x⟩ :: t (slot k))) ∧
      toMap (Function.update t (slot k) (⟨k, x⟩ :: t (slot k))) = (toMap t).insert k x := by
  have hwf : WellPlaced slot (Function.update t (slot k) (⟨k, x⟩ :: t (slot k))) := by
    refine h.update ?_ (List.nodupKeys_cons.mpr ⟨hk, h.nodupKeys _⟩)
    intro e he
    rcases List.mem_cons.mp he with rfl | he
    · rfl
    · exact h.placed _ e he
  refine ⟨hwf, Finmap.ext_lookup fun k' => ?_⟩
  rw [h.lookup_update hwf]
  by_cases hkk : k' = k
  · subst hkk
    rw [if_pos rfl, List.dlookup_cons_eq, Finmap.lookup_insert]
  · rw [Finmap.lookup_insert_of_ne _ hkk]
    split
    · next hs => rw [List.dlookup_cons_ne _ (⟨k, x⟩ : Σ _ : K, V) hkk, h.lookup_toMap, hs]
    · rfl

/-- Unlinking a key from its chain. -/
theorem WellPlaced.erase (h : WellPlaced slot t) (k : K) :
    WellPlaced slot (Function.update t (slot k) ((t (slot k)).kerase k)) ∧
      toMap (Function.update t (slot k) ((t (slot k)).kerase k)) = (toMap t).erase k := by
  have hwf : WellPlaced slot (Function.update t (slot k) ((t (slot k)).kerase k)) :=
    h.update (fun e he => h.placed _ e ((List.kerase_sublist k _).subset he))
      ((h.nodupKeys _).kerase k)
  refine ⟨hwf, Finmap.ext_lookup fun k' => ?_⟩
  rw [h.lookup_update hwf]
  by_cases hkk : k' = k
  · subst hkk
    rw [if_pos rfl, List.dlookup_kerase _ (h.nodupKeys _), Finmap.lookup_erase]
  · rw [Finmap.lookup_erase_ne hkk]
    split
    · next hs => rw [List.dlookup_kerase_ne hkk, h.lookup_toMap, hs]
    · rfl

end ChainedTable
