import Mathlib.Data.List.TakeWhile
import Mathlib.Tactic.Common

/-!
# The words of a line

A small library on splitting a list at separators: `words p l` are the maximal
non-empty runs of items of `l` that are no separators, in order. Nothing here
knows what the items or the separators are.

* `words_run` — the first word is the longest run at the head, the others are the
  words behind it; this is how a tokenizer finds them.
* `length_words_append` — continuing a line never takes words away.
* `words_append_of_eq_nil`, `words_append_sep` — separators before the first word
  and at the end of a line.
* `words_spaced` — words set with separators in between are found again.
-/

namespace Words

universe u

variable {α : Type u} {p : α → Bool}

/-- The maximal non-empty runs of items that are no separators. -/
def words (p : α → Bool) (l : List α) : List (List α) := (l.splitOnP p).filter fun w => !w.isEmpty

theorem words_nil : words p [] = [] := by
  simp [words]

/-- A separator at the head does not count. -/
theorem words_cons_sep {a : α} (ha : p a = true) (l : List α) : words p (a :: l) = words p l := by
  rw [words, List.splitOnP_cons_eq_if_modifyHead, if_pos ha]
  simp [words]

/-- Separators at the head do not count. -/
theorem words_dropWhile (l : List α) : words p (l.dropWhile p) = words p l := by
  induction l with
  | nil => rfl
  | cons a l ih =>
    rw [List.dropWhile_cons]
    by_cases ha : p a = true
    · rw [if_pos ha, ih, words_cons_sep ha]
    · rw [if_neg ha]

/-- A line of separators has no words. -/
theorem words_blank {l : List α} (hl : l.dropWhile p = []) : words p l = [] := by
  rw [← words_dropWhile, hl, words_nil]

/-- A separator at the end of a line does not count. -/
theorem words_append_sep {a : α} (ha : p a = true) (l : List α) :
    words p (l ++ [a]) = words p l := by
  rw [words, List.splitOnP_append_cons l [] ha]
  simp [words]

/-- A word may be the whole line. -/
theorem words_single {w : List α} (hw : ∀ a ∈ w, p a = false) (hne : w ≠ []) :
    words p w = [w] := by
  rw [words, List.splitOnP_eq_singleton hw]
  simp [hne]

/-- A word, a separator, and the words behind it. -/
theorem words_append_cons {w : List α} (hw : ∀ a ∈ w, p a = false) (hne : w ≠ []) {a : α}
    (ha : p a = true) (l : List α) : words p (w ++ a :: l) = w :: words p l := by
  rw [words, List.splitOnP_append_cons_of_forall_mem hw a ha, List.filter_cons_of_pos]
  · rfl
  · simp [hne]

/-- **Finding the words.** If the line does not start with a separator, its first
word is the run at its head. -/
theorem words_run {a : α} (ha : p a = false) (l : List α) :
    words p (a :: l) =
      ((a :: l).takeWhile fun c => !p c) :: words p ((a :: l).dropWhile fun c => !p c) := by
  set run := (a :: l).takeWhile fun c => !p c with hrun
  have hall : ∀ c ∈ run, p c = false := by
    intro c hc
    have hnot := List.mem_takeWhile_imp hc
    simpa using hnot
  have hne : run ≠ [] := by
    rw [hrun, List.takeWhile_cons, if_pos (by simp [ha])]
    exact List.cons_ne_nil _ _
  have hsplit : run ++ ((a :: l).dropWhile fun c => !p c) = a :: l :=
    List.takeWhile_append_dropWhile
  cases hrest : (a :: l).dropWhile fun c => !p c with
  | nil =>
    rw [hrest, List.append_nil] at hsplit
    rw [← hsplit, words_single hall hne, words_nil]
  | cons b rest =>
    have hb : p b = true := by
      have hhead := List.head?_dropWhile_not (fun c => !p c) (a :: l)
      rw [hrest] at hhead
      simpa using hhead
    rw [hrest] at hsplit
    rw [← hsplit, words_append_cons hall hne hb, words_cons_sep hb]

/-- A line that starts with a word has one. -/
theorem words_ne_nil {a : α} (ha : p a = false) (l : List α) : words p (a :: l) ≠ [] := by
  rw [words_run ha]
  exact List.cons_ne_nil _ _

/-- What stands in front of the first word does not count. -/
theorem words_append_of_eq_nil {l : List α} (hl : words p l = []) (t : List α) :
    words p (l ++ t) = words p t := by
  induction l with
  | nil => rfl
  | cons a l ih =>
    by_cases ha : p a = true
    · rw [words_cons_sep ha] at hl
      rw [List.cons_append, words_cons_sep ha, ih hl]
    · exact absurd hl (words_ne_nil (by simpa using ha) l)

/-- Separators alone make no words. -/
theorem words_of_all_sep {l : List α} (hl : ∀ a ∈ l, p a = true) : words p l = [] :=
  words_blank (List.dropWhile_eq_nil_iff.mpr hl)

/-- A word and, behind some separators, more words. -/
theorem words_tail {first trail : List α} {rest : List (List α × List α)}
    (hfirst : first ≠ [] ∧ ∀ a ∈ first, p a = false)
    (hrest : ∀ g ∈ rest, (g.1 ≠ [] ∧ ∀ a ∈ g.1, p a = true) ∧ g.2 ≠ [] ∧ ∀ a ∈ g.2, p a = false)
    (htrail : ∀ a ∈ trail, p a = true) :
    words p (first ++ (rest.flatMap (fun g => g.1 ++ g.2) ++ trail)) =
      first :: rest.map Prod.snd := by
  induction rest generalizing first with
  | nil =>
    rw [List.flatMap_nil, List.nil_append, List.map_nil]
    cases trail with
    | nil => rw [List.append_nil, words_single hfirst.2 hfirst.1]
    | cons a trail =>
      obtain ⟨ha, htrail⟩ := List.forall_mem_cons.mp htrail
      rw [words_append_cons hfirst.2 hfirst.1 ha, words_of_all_sep htrail]
  | cons g rest ih =>
    obtain ⟨gap, word⟩ := g
    obtain ⟨⟨⟨hne, hgap⟩, hword⟩, hothers⟩ := List.forall_mem_cons.mp hrest
    cases gap with
    | nil => exact absurd rfl hne
    | cons a gap =>
      obtain ⟨ha, hgap⟩ := List.forall_mem_cons.mp hgap
      simp only [List.flatMap_cons, List.cons_append, List.append_assoc, List.map_cons]
      rw [words_append_cons hfirst.2 hfirst.1 ha,
        words_append_of_eq_nil (words_of_all_sep hgap), ih hword hothers]

/-- **Spacing does not matter**: words set with non-empty runs of separators in
between, and any before and behind them, are the words of the line. -/
theorem words_spaced {lead first trail : List α} {rest : List (List α × List α)}
    (hlead : ∀ a ∈ lead, p a = true) (hfirst : first ≠ [] ∧ ∀ a ∈ first, p a = false)
    (hrest : ∀ g ∈ rest, (g.1 ≠ [] ∧ ∀ a ∈ g.1, p a = true) ∧ g.2 ≠ [] ∧ ∀ a ∈ g.2, p a = false)
    (htrail : ∀ a ∈ trail, p a = true) :
    words p (lead ++ (first ++ (rest.flatMap (fun g => g.1 ++ g.2) ++ trail))) =
      first :: rest.map Prod.snd := by
  rw [words_append_of_eq_nil (words_of_all_sep hlead), words_tail hfirst hrest htrail]

/-- An item in front of a word belongs to it, in front of a separator it is a
word of its own. -/
theorem length_words_cons {a : α} (ha : p a = false) (l : List α) :
    (words p (a :: l)).length =
      (words p l).length + if (l.head?.any fun c => !p c) = true then 0 else 1 := by
  cases l with
  | nil =>
    rw [words_single (by simpa using ha) (by simp), words_nil]
    simp
  | cons b l =>
    by_cases hb : p b = true
    · have hword := words_append_cons (by simpa using ha : ∀ c ∈ [a], p c = false) (by simp) hb l
      rw [List.singleton_append] at hword
      rw [hword, words_cons_sep hb]
      simp [hb]
    · have hb' : p b = false := by simpa using hb
      rw [words_run ha, words_run hb', List.dropWhile_cons, if_pos (by simp [ha])]
      simp [hb']

/-- **Continuing a line** never takes words away. -/
theorem length_words_append (l t : List α) : (words p l).length ≤ (words p (l ++ t)).length := by
  induction l with
  | nil =>
    rw [words_nil]
    exact Nat.zero_le _
  | cons a l ih =>
    rw [List.cons_append]
    by_cases ha : p a = true
    · rw [words_cons_sep ha, words_cons_sep ha]
      exact ih
    · have ha' : p a = false := by simpa using ha
      cases l with
      | nil =>
        rw [words_single (by simpa using ha') (by simp), List.length_singleton]
        exact List.length_pos_iff.mpr (words_ne_nil ha' _)
      | cons b l =>
        rw [length_words_cons ha', length_words_cons ha']
        exact Nat.add_le_add_right ih _

end Words
