import Mathlib.Data.Finmap

/-!
# Removing several keys from a finite map

A small library on `Finmap`, over any keys and values: what is left of a map when
a list of keys is removed, one after the other and possibly more than once.

* `eraseAll` — the removal; `lookup_eraseAll`, `keys_eraseAll` — what is left.
* `card_eraseAll` — the keys that were there are removed once each.
* `eraseAll_perm` — the order of the keys does not matter.
-/

namespace FiniteMap

universe u v

variable {α : Type u} [DecidableEq α] {β : α → Type v}

/-- Remove some keys. -/
def eraseAll (m : Finmap β) (keys : List α) : Finmap β := keys.foldl (fun m key => m.erase key) m

@[simp] theorem eraseAll_nil (m : Finmap β) : eraseAll m [] = m := rfl

@[simp] theorem eraseAll_cons (m : Finmap β) (key : α) (keys : List α) :
    eraseAll m (key :: keys) = eraseAll (m.erase key) keys := rfl

/-- The listed keys are gone, and the others keep their values. -/
theorem lookup_eraseAll (m : Finmap β) (keys : List α) (key : α) :
    (eraseAll m keys).lookup key = if key ∈ keys then none else m.lookup key := by
  induction keys generalizing m with
  | nil => simp
  | cons k keys ih =>
    rw [eraseAll_cons, ih]
    by_cases hmem : key ∈ keys
    · rw [if_pos hmem, if_pos (List.mem_cons_of_mem k hmem)]
    · rw [if_neg hmem]
      by_cases hk : key = k
      · rw [hk, Finmap.lookup_erase, if_pos (List.mem_cons_self ..)]
      · rw [Finmap.lookup_erase_ne hk, if_neg (by simp [hk, hmem])]

theorem keys_eraseAll (m : Finmap β) (keys : List α) :
    (eraseAll m keys).keys = m.keys \ keys.toFinset := by
  induction keys generalizing m with
  | nil => simp
  | cons k keys ih =>
    rw [eraseAll_cons, ih, Finmap.keys_erase, List.toFinset_cons, Finset.sdiff_insert,
      Finset.erase_sdiff_comm]

/-- **Each key that was there is removed once**, however often it is listed. -/
theorem card_eraseAll (m : Finmap β) (keys : List α) :
    (eraseAll m keys).keys.card + (keys.toFinset ∩ m.keys).card = m.keys.card := by
  rw [keys_eraseAll, Finset.inter_comm, Finset.card_sdiff_add_card_inter]

/-- **The order does not matter.** -/
theorem eraseAll_perm {keys keys' : List α} (h : keys.Perm keys') (m : Finmap β) :
    eraseAll m keys = eraseAll m keys' := by
  apply Finmap.ext_lookup
  intro key
  simp only [lookup_eraseAll, h.mem_iff]

end FiniteMap
