import Mathlib.Computability.Language

/-!
# Languages of wildcard patterns

A small library on patterns of the kind shells and stores use, over any alphabet.
A pattern is a list of tokens; what the tokens look like in writing is no concern
of this module.

* `Token`, `language` — a pattern denotes the product of the languages of its
  tokens.
* `mem_star`, `mem_letter` — membership read off the head of the pattern; this is
  how a backtracking matcher goes through it.
* `language_star_replicate` — stars in a row are one star.
-/

namespace Wildcards

universe u

variable {α : Type u}

/-- One piece of a pattern. -/
inductive Token (α : Type u) : Type u
  /-- any string -/
  | star
  /-- any one letter -/
  | any
  /-- one letter that is listed, or that is not -/
  | oneOf (negated : Bool) (items : List α)
  /-- this letter -/
  | lit (a : α)

namespace Token

/-- What a token stands for. -/
def language : Token α → Language α
  | star => ⊤
  | any => {w | ∃ a, w = [a]}
  | oneOf negated items => {w | ∃ a, w = [a] ∧ (a ∈ items ↔ negated = false)}
  | lit a => {[a]}

/-- The token stands for single letters. -/
def Letter (t : Token α) : Prop := ∀ w ∈ t.language, ∃ a, w = [a]

theorem letter_any : (any : Token α).Letter := fun _ h => h

theorem letter_oneOf (negated : Bool) (items : List α) : (oneOf negated items).Letter :=
  fun _ ⟨a, ha, _⟩ => ⟨a, ha⟩

theorem letter_lit (a : α) : (lit a).Letter := fun _ h => ⟨a, h⟩

/-- All tokens but the star stand for single letters. -/
theorem letter_of_ne_star {t : Token α} (ht : t ≠ star) : t.Letter := by
  cases t with
  | star => exact absurd rfl ht
  | any => exact letter_any
  | oneOf negated items => exact letter_oneOf negated items
  | lit a => exact letter_lit a

@[simp] theorem mem_any (a : α) : [a] ∈ (any : Token α).language := ⟨a, rfl⟩

@[simp] theorem mem_oneOf (negated : Bool) (items : List α) (a : α) :
    [a] ∈ (oneOf negated items).language ↔ (a ∈ items ↔ negated = false) := by
  constructor
  · rintro ⟨b, hb, hitems⟩
    rwa [List.singleton_inj.mp hb]
  · intro h
    exact ⟨a, rfl, h⟩

@[simp] theorem mem_lit (a b : α) : [b] ∈ (lit a).language ↔ b = a := by
  change [b] = [a] ↔ b = a
  exact List.singleton_inj

end Token

open Token

/-- What a pattern stands for: strings its tokens stand for, one after the
other. -/
def language (ts : List (Token α)) : Language α := (ts.map Token.language).prod

theorem language_cons (t : Token α) (ts : List (Token α)) :
    language (t :: ts) = t.language * language ts := List.prod_cons

theorem mem_nil {w : List α} : w ∈ language ([] : List (Token α)) ↔ w = [] :=
  Language.mem_one w

/-- **A star** leaves some tail of the string to the other tokens. -/
theorem mem_star {ts : List (Token α)} {w : List α} :
    w ∈ language (star :: ts) ↔ ∃ u ∈ w.tails, u ∈ language ts := by
  rw [language_cons, Language.mem_mul]
  constructor
  · rintro ⟨v, -, u, hu, rfl⟩
    exact ⟨u, (List.mem_tails _ _).mpr (List.suffix_append v u), hu⟩
  · rintro ⟨u, htail, hu⟩
    obtain ⟨v, rfl⟩ := (List.mem_tails _ _).mp htail
    exact ⟨v, trivial, u, hu, rfl⟩

/-- **A letter** takes the head of the string. -/
theorem mem_letter {t : Token α} (ht : t.Letter) {ts : List (Token α)} {a : α} {w : List α} :
    a :: w ∈ language (t :: ts) ↔ [a] ∈ t.language ∧ w ∈ language ts := by
  rw [language_cons, Language.mem_mul]
  constructor
  · rintro ⟨v, hv, u, hu, heq⟩
    obtain ⟨b, rfl⟩ := ht v hv
    obtain ⟨rfl, rfl⟩ := List.cons_eq_cons.mp heq
    exact ⟨hv, hu⟩
  · rintro ⟨ha, hw⟩
    exact ⟨[a], ha, w, hw, rfl⟩

/-- No letter is found in the empty string. -/
theorem nil_notMem_letter {t : Token α} (ht : t.Letter) (ts : List (Token α)) :
    [] ∉ language (t :: ts) := by
  rw [language_cons, Language.mem_mul]
  rintro ⟨v, hv, u, -, heq⟩
  obtain ⟨b, rfl⟩ := ht v hv
  cases heq

/-- A star at the end takes everything. -/
theorem mem_last_star (w : List α) : w ∈ language [(star : Token α)] :=
  mem_star.mpr ⟨[], (List.mem_tails _ _).mpr (List.nil_suffix), mem_nil.mpr rfl⟩

theorem language_star_star (ts : List (Token α)) :
    language (star :: star :: ts) = language (star :: ts) := by
  apply Language.ext
  intro w
  constructor
  · intro h
    obtain ⟨u, hu, h⟩ := mem_star.mp h
    obtain ⟨v, hv, h⟩ := mem_star.mp h
    rw [List.mem_tails] at hu hv
    exact mem_star.mpr ⟨v, (List.mem_tails _ _).mpr (hv.trans hu), h⟩
  · intro h
    exact mem_star.mpr ⟨w, (List.mem_tails _ _).mpr List.suffix_rfl, h⟩

/-- **Stars in a row** are one star. -/
theorem language_star_replicate (k : ℕ) (ts : List (Token α)) :
    language (star :: (List.replicate k star ++ ts)) = language (star :: ts) := by
  induction k with
  | zero => rfl
  | succ k ih => rw [List.replicate_succ, List.cons_append, language_star_star, ih]

end Wildcards
