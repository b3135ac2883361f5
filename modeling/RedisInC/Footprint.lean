import Mathlib.Data.Set.Lattice
import Mathlib.Tactic.Common

/-!
# Clients with disjoint footprints

A library about a store shared by several clients. The store is looked at through
a key-value view, and every operation has a footprint: the keys it depends on and
may change. Nothing here knows what the store, the operations or the keys are.

* `KeyedStore` — a store with its operations, their footprints and the two laws
  of these: an operation changes nothing outside its footprint (`frame`), and
  what it does inside depends on nothing outside (`agree_out`, `agree_get`).
* `final`, `outs` — a run of operations; `project`, `outsOf` — what one client
  did in a run of several, and what it got.
* `outsOf_eq_outs` — with disjoint footprints a client gets in any interleaving
  what it gets alone.
* `get_final_eq` — and all interleavings leave the same view of the store.
-/

namespace Footprint

universe u v w x y z

/-- A store whose operations have footprints. -/
structure KeyedStore (σ : Type u) (α : Type v) (ω : Type w) (κ : Type x) (ν : Type y) where
  /-- the view -/
  get : σ → κ → ν
  /-- an operation: the next store and the output -/
  step : σ → α → σ × ω
  /-- what the store keeps to -/
  Inv : σ → Prop
  /-- the keys of an operation -/
  foot : α → Set κ
  /-- operations keep the store in order -/
  step_inv : ∀ {s : σ} (a : α), Inv s → Inv (step s a).1
  /-- nothing changes outside the footprint -/
  frame : ∀ {s : σ} {a : α} {k : κ}, Inv s → k ∉ foot a → get (step s a).1 k = get s k
  /-- the output depends on the footprint only -/
  agree_out : ∀ {s t : σ} {a : α}, Inv s → Inv t → (∀ k ∈ foot a, get s k = get t k) →
    (step s a).2 = (step t a).2
  /-- what is stored depends on the footprint only -/
  agree_get : ∀ {s t : σ} {a : α}, Inv s → Inv t → (∀ k ∈ foot a, get s k = get t k) →
    ∀ k ∈ foot a, get (step s a).1 k = get (step t a).1 k

section Clients

variable {ι : Type z} [DecidableEq ι] {α : Type v}

/-- The operations of one client in an interleaving. -/
def project (i : ι) : List (ι × α) → List α
  | [] => []
  | p :: l => if p.1 = i then p.2 :: project i l else project i l

theorem mem_project {i : ι} {a : α} {l : List (ι × α)} : a ∈ project i l ↔ (i, a) ∈ l := by
  induction l with
  | nil => simp [project]
  | cons p l ih =>
    obtain ⟨j, b⟩ := p
    by_cases hj : j = i
    · simp [project, hj, ih]
    · have hne : i ≠ j := fun h => hj h.symm
      simp [project, hj, hne, ih]

end Clients

namespace KeyedStore

variable {σ : Type u} {α : Type v} {ω : Type w} {κ : Type x} {ν : Type y} {ι : Type z}
  [DecidableEq ι] (S : KeyedStore σ α ω κ ν)

/-- The store after some operations. -/
def final (s : σ) (ops : List α) : σ := ops.foldl (fun s a => (S.step s a).1) s

/-- The outputs of some operations. -/
def outs : σ → List α → List ω
  | _, [] => []
  | s, a :: ops => (S.step s a).2 :: outs (S.step s a).1 ops

/-- The outputs of one client in an interleaving. -/
def outsOf (i : ι) : σ → List (ι × α) → List ω
  | _, [] => []
  | s, p :: l =>
    if p.1 = i then (S.step s p.2).2 :: outsOf i (S.step s p.2).1 l
    else outsOf i (S.step s p.2).1 l

/-- The operations of different clients have no key in common. -/
def Disjoint (l : List (ι × α)) : Prop :=
  ∀ p ∈ l, ∀ q ∈ l, p.1 ≠ q.1 → ∀ k ∈ S.foot p.2, k ∉ S.foot q.2

variable {S}

theorem final_inv {s : σ} (hs : S.Inv s) (ops : List α) : S.Inv (S.final s ops) := by
  induction ops generalizing s with
  | nil => exact hs
  | cons a ops ih => exact ih (S.step_inv a hs)

/-- Keys of no operation stay as they are. -/
theorem get_final_frame {s : σ} (hs : S.Inv s) {ops : List α} {k : κ}
    (hk : ∀ a ∈ ops, k ∉ S.foot a) : S.get (S.final s ops) k = S.get s k := by
  induction ops generalizing s with
  | nil => rfl
  | cons a ops ih =>
    rw [List.forall_mem_cons] at hk
    exact (ih (S.step_inv a hs) hk.2).trans (S.frame hs hk.1)

/-- **One client among others.** The client runs against `t` alone what it runs
against `s` among others. As long as both agree on a set of keys that holds its
footprints and none of the others', the outputs are the same, and they go on to
agree. -/
theorem isolated {i : ι} {own : Set κ} {l : List (ι × α)} {s t : σ} (hs : S.Inv s) (ht : S.Inv t)
    (hmine : ∀ p ∈ l, p.1 = i → S.foot p.2 ⊆ own)
    (hothers : ∀ p ∈ l, p.1 ≠ i → ∀ k ∈ own, k ∉ S.foot p.2)
    (hagree : ∀ k ∈ own, S.get s k = S.get t k) :
    S.outsOf i s l = S.outs t (project i l) ∧
      ∀ k ∈ own, S.get (S.final s (l.map Prod.snd)) k = S.get (S.final t (project i l)) k := by
  induction l generalizing s t with
  | nil => exact ⟨rfl, hagree⟩
  | cons p l ih =>
    rw [List.forall_mem_cons] at hmine hothers
    by_cases hp : p.1 = i
    · have hfoot : ∀ k ∈ S.foot p.2, S.get s k = S.get t k := fun k hk =>
        hagree k (hmine.1 hp hk)
      have hstep : ∀ k ∈ own, S.get (S.step s p.2).1 k = S.get (S.step t p.2).1 k := by
        intro k hk
        by_cases hin : k ∈ S.foot p.2
        · exact S.agree_get hs ht hfoot k hin
        · rw [S.frame hs hin, S.frame ht hin, hagree k hk]
      obtain ⟨houts, hget⟩ := ih (S.step_inv p.2 hs) (S.step_inv p.2 ht) hmine.2 hothers.2 hstep
      rw [outsOf, project, if_pos hp, if_pos hp, outs, houts, S.agree_out hs ht hfoot]
      exact ⟨rfl, hget⟩
    · have hstep : ∀ k ∈ own, S.get (S.step s p.2).1 k = S.get t k := by
        intro k hk
        rw [S.frame hs (hothers.1 hp k hk), hagree k hk]
      rw [outsOf, project, if_neg hp, if_neg hp]
      exact ih (S.step_inv p.2 hs) ht hmine.2 hothers.2 hstep

/-- The keys of one client. -/
def ownKeys (S : KeyedStore σ α ω κ ν) (i : ι) (l : List (ι × α)) : Set κ :=
  {k | ∃ a ∈ project i l, k ∈ S.foot a}

/-- A client among clients with other keys. -/
theorem isolated_own {i : ι} {l : List (ι × α)} (hl : S.Disjoint l) {s : σ} (hs : S.Inv s) :
    S.outsOf i s l = S.outs s (project i l) ∧
      ∀ k ∈ S.ownKeys i l,
        S.get (S.final s (l.map Prod.snd)) k = S.get (S.final s (project i l)) k := by
  refine isolated hs hs ?_ ?_ fun _ _ => rfl
  · rintro ⟨j, a⟩ hp rfl k hk
    exact ⟨a, mem_project.mpr hp, hk⟩
  · rintro p hp hne k ⟨a, ha, hk⟩
    exact hl (i, a) (mem_project.mp ha) p hp (fun h => hne h.symm) k hk

/-- **Outputs.** A client gets in any interleaving what it gets alone. -/
theorem outsOf_eq_outs {l : List (ι × α)} (hl : S.Disjoint l) {s : σ} (hs : S.Inv s) (i : ι) :
    S.outsOf i s l = S.outs s (project i l) := (isolated_own hl hs).1

/-- **The final store.** Interleavings of the same operations leave the same view. -/
theorem get_final_eq {l l' : List (ι × α)} (hl : S.Disjoint l)
    (hproj : ∀ i, project i l' = project i l) {s : σ} (hs : S.Inv s) (k : κ) :
    S.get (S.final s (l'.map Prod.snd)) k = S.get (S.final s (l.map Prod.snd)) k := by
  have hmem : ∀ p, p ∈ l' ↔ p ∈ l := by
    rintro ⟨i, a⟩
    rw [← mem_project, hproj, mem_project]
  have hl' : S.Disjoint l' := fun p hp q hq =>
    hl p ((hmem p).mp hp) q ((hmem q).mp hq)
  by_cases hk : ∃ i, k ∈ S.ownKeys i l
  · obtain ⟨i, hk⟩ := hk
    have hk' : k ∈ S.ownKeys i l' := by
      rw [ownKeys, hproj]
      exact hk
    rw [(isolated_own hl' hs).2 k hk', (isolated_own hl hs).2 k hk, hproj]
  · have hfree : ∀ p ∈ l, k ∉ S.foot p.2 := fun p hp hin =>
      hk ⟨p.1, p.2, mem_project.mpr hp, hin⟩
    rw [get_final_frame hs, get_final_frame hs]
    · intro a ha
      obtain ⟨p, hp, rfl⟩ := List.mem_map.mp ha
      exact hfree p hp
    · intro a ha
      obtain ⟨p, hp, rfl⟩ := List.mem_map.mp ha
      exact hfree p ((hmem p).mp hp)

end KeyedStore

end Footprint
