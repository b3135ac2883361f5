import Mathlib.Data.List.Basic

/-!
# Transition systems and what refines them

A small library on systems that move by labelled steps. Nothing here knows what the
states or the actions are.

* `System`, `System.Run` — a system, and its runs with the actions taken.
* `Run.forall_mem` — what every step says of its action holds of all actions of a run.
* `Run.collect` — what every step adds to a record is what the record has at the end.
* `Follows` — one move of an implementation is matched by a run of the system, from
  every state of the system that stands for the implementation's. What stands for it may
  depend on the actions taken so far. It composes.
-/

namespace Transition

universe u v w

/-- A system: which actions it can take, and where they lead. -/
structure System (σ : Type u) (α : Type v) where
  /-- one step -/
  step : σ → α → σ → Prop

variable {σ : Type u} {α : Type v} {S : System σ α}

/-- A run, with the actions taken in order. -/
inductive System.Run (S : System σ α) : σ → List α → σ → Prop
  /-- nothing happens -/
  | refl (s : σ) : S.Run s [] s
  /-- a step and the rest -/
  | head {s s' s'' : σ} {a : α} {as : List α} (step : S.step s a s') (rest : S.Run s' as s'') :
      S.Run s (a :: as) s''

namespace System.Run

variable {s s' s'' : σ} {a : α} {as bs : List α}

theorem single (h : S.step s a s') : S.Run s [a] s' := .head h (.refl s')

/-- One run and then another. -/
theorem append (h : S.Run s as s') (h' : S.Run s' bs s'') : S.Run s (as ++ bs) s'' := by
  induction h with
  | refl s => exact h'
  | head step rest ih => exact .head step (ih h')

/-- What every step says of its action holds of all actions of a run. -/
theorem forall_mem {Q : α → Prop} (hstep : ∀ s a s', S.step s a s' → Q a) (h : S.Run s as s') :
    ∀ a ∈ as, Q a := by
  induction h with
  | refl s => exact fun a ha => absurd ha List.not_mem_nil
  | head step rest ih => exact List.forall_mem_cons.mpr ⟨hstep _ _ _ step, ih⟩

/-- **What every step adds to a record** is there at the end. The record may speak of
the actions taken so far. -/
theorem collect {P : List α → σ → Prop}
    (hstep : ∀ past s a s', P past s → S.step s a s' → P (past ++ [a]) s')
    (h : S.Run s as s') (past : List α) (hs : P past s) : P (past ++ as) s' := by
  induction h generalizing past with
  | refl s =>
    rw [List.append_nil]
    exact hs
  | @head s s' s'' a as step rest ih =>
    have hrest := ih (past ++ [a]) (hstep past s a s' hs step)
    rwa [List.append_assoc] at hrest

end System.Run

/-! ## Refinement -/

section Refinement

variable {γ : Type w} {R : γ → List α → σ → Prop} {c c' c'' : γ}

/-- A move of an implementation from `c` to `c'` is matched: whatever state of the
system, with the actions that have led to it, stands for `c`, the system can run on to one
that stands for `c'`. -/
def Follows (S : System σ α) (R : γ → List α → σ → Prop) (c c' : γ) : Prop :=
  ∀ past s, R c past s → ∃ as s', S.Run s as s' ∧ R c' (past ++ as) s'

namespace Follows

/-- A move the system does not see. -/
theorem silent (h : ∀ past s, R c past s → R c' past s) : Follows S R c c' := by
  intro past s hs
  refine ⟨[], s, .refl s, ?_⟩
  rw [List.append_nil]
  exact h past s hs

theorem refl (S : System σ α) (R : γ → List α → σ → Prop) (c : γ) : Follows S R c c :=
  .silent fun _ _ hs => hs

/-- Moves one after the other. -/
theorem trans (h : Follows S R c c') (h' : Follows S R c' c'') : Follows S R c c'' := by
  intro past s hs
  obtain ⟨as, s', hrun, hs'⟩ := h past s hs
  obtain ⟨bs, s'', hrun', hs''⟩ := h' (past ++ as) s' hs'
  refine ⟨as ++ bs, s'', hrun.append hrun', ?_⟩
  rwa [← List.append_assoc]

/-- A move that is one step of the system. -/
theorem one (h : ∀ past s, R c past s → ∃ a s', S.step s a s' ∧ R c' (past ++ [a]) s') :
    Follows S R c c' := by
  intro past s hs
  obtain ⟨a, s', hstep, hs'⟩ := h past s hs
  exact ⟨[a], s', .single hstep, hs'⟩

end Follows

end Refinement

end Transition
