import RedisInC.Framing

/-!
# Readers

A small library on readers that split something off the head of their input, and on what a
peer sees that reads a stream piece by piece. Nothing here knows what is read.

* `Reader`, `Reader.Exact` — a reader that depends on nothing but what it splits off. Exact
  readers compose.
* `Framer.ofReader` — an exact reader that splits something off is a framer.
* `Framer.outs` — what it finds in an input, `Framer.outs_stream` — all of a stream of
  frames, `Framer.outs_head` — and nothing else at its head, wherever it is cut off.
-/

namespace Framing

universe u v w

variable {α : Type u} {β : Type v} {γ : Type w}

/-- A reader splits something off the head of its input, or fails. -/
abbrev Reader (α : Type u) (β : Type v) : Type (max u v) := List α → Option (β × List α)

namespace Reader

/-- **A reader that looks no further** than it reads: behind what it has split off, there may
be anything. -/
def Exact (p : Reader α β) : Prop :=
  ∀ ⦃s x rest⦄, p s = some (x, rest) → ∃ t, s = t ++ rest ∧ ∀ rest', p (t ++ rest') = some (x, rest')

/-- A reader that fails. -/
theorem Exact.fail : Exact fun _ : List α => (none : Option (β × List α)) := by
  intro s x rest h
  cases h

/-- A reader that takes nothing. -/
theorem Exact.pure (x : β) : Exact fun s : List α => some (x, s) := by
  intro s y rest h
  cases h
  exact ⟨[], rfl, fun _ => rfl⟩

/-- One reader after the other. -/
theorem Exact.bind {p : Reader α β} {q : β → Reader α γ} (hp : p.Exact) (hq : ∀ x, (q x).Exact) :
    Exact fun s => (p s).bind fun r => q r.1 r.2 := by
  intro s y rest h
  obtain ⟨⟨x, mid⟩, hx, hy⟩ := Option.bind_eq_some_iff.mp h
  obtain ⟨t, rfl, ht⟩ := hp hx
  obtain ⟨t', rfl, ht'⟩ := hq x hy
  refine ⟨t ++ t', (List.append_assoc ..).symm, fun rest' => ?_⟩
  rw [List.append_assoc]
  simp only [ht, Option.bind_some, ht']

/-- What is read is put differently. -/
theorem Exact.map {p : Reader α β} (hp : p.Exact) (f : β → γ) :
    Exact fun s => (p s).map fun r => (f r.1, r.2) := by
  intro s y rest h
  obtain ⟨⟨x, mid⟩, hx, hy⟩ := Option.map_eq_some_iff.mp h
  cases hy
  obtain ⟨t, rfl, ht⟩ := hp hx
  exact ⟨t, rfl, fun rest' => by simp only [ht, Option.map_some]⟩

/-- A reader that goes on with something known, if it is. -/
theorem Exact.option {o : Option β} {q : β → Reader α γ} (hq : ∀ x, (q x).Exact) :
    Exact fun s => o.bind fun x => q x s := by
  cases o with
  | none => exact Exact.fail
  | some x => exact hq x

/-- Either reader. -/
theorem Exact.ite {p q : Reader α β} (b : Prop) [Decidable b] (hp : p.Exact) (hq : q.Exact) :
    Exact fun s => if b then p s else q s := by
  by_cases hb : b
  · simp only [if_pos hb]
    exact hp
  · simp only [if_neg hb]
    exact hq

/-- A reader that begins with the first item. -/
theorem exact_cons {p : Reader α β} {q : α → Reader α β} (hnil : p [] = none)
    (hcons : ∀ c s, p (c :: s) = q c s) (hq : ∀ c, (q c).Exact) : p.Exact := by
  intro s x rest h
  cases s with
  | nil =>
    rw [hnil] at h
    cases h
  | cons c s =>
    rw [hcons] at h
    obtain ⟨t, rfl, ht⟩ := hq c h
    exact ⟨c :: t, rfl, fun rest' => by rw [List.cons_append, hcons, ht]⟩

/-- A reader that finds nothing in nothing never reads nothing. -/
theorem Exact.pos {p : Reader α β} (hp : p.Exact) (hnil : p [] = none) {s rest : List α} {x : β}
    (h : p s = some (x, rest)) : rest.length < s.length := by
  obtain ⟨t, rfl, ht⟩ := hp h
  have ht' : t ≠ [] := by
    rintro rfl
    have hempty : p [] = some (x, []) := ht []
    rw [hnil] at hempty
    cases hempty
  rw [List.length_append]
  exact Nat.lt_add_of_pos_left (List.length_pos_of_ne_nil ht')

end Reader

namespace Framer

/-- A reader that looks no further than it reads, and never reads nothing. It does not tell
malformed input from incomplete input. -/
def ofReader (p : Reader α β) (hp : p.Exact) (hnil : p [] = none) : Framer α β where
  parse s :=
    match p s with
    | some (x, rest) => .frame (s.length - rest.length) x
    | none => .more
  parse_nil := by
    cases h : p [] with
    | none => rfl
    | some r =>
      rw [hnil] at h
      cases h
  frame_pos := by
    intro s n out h
    cases hs : p s with
    | none =>
      rw [hs] at h
      cases h
    | some r =>
      have hlt := hp.pos hnil hs
      rw [hs] at h
      cases h
      exact Nat.sub_pos_of_lt hlt
  frame_le := by
    intro s n out h
    cases hs : p s with
    | none =>
      rw [hs] at h
      cases h
    | some r =>
      rw [hs] at h
      cases h
      exact Nat.sub_le _ _
  frame_append := by
    intro s n out t h
    cases hs : p s with
    | none =>
      rw [hs] at h
      cases h
    | some r =>
      rw [hs] at h
      cases h
      obtain ⟨u, rfl, hu⟩ := hp hs
      rw [List.append_assoc, hu]
      simp
  bad_append := by
    intro s t h
    cases hs : p s with
    | none =>
      rw [hs] at h
      cases h
    | some r =>
      rw [hs] at h
      cases h

/-- A reader that finds something at the head of any continuation finds a frame. -/
theorem parse_ofReader {p : Reader α β} {hp : p.Exact} {hnil : p [] = none} {text : List α}
    {x : β} (h : p text = some (x, [])) :
    (ofReader p hp hnil).parse text = .frame text.length x := by
  simp only [ofReader, h, List.length_nil, Nat.sub_zero]

variable {F : Framer α β}

/-- What is found in an input. -/
def outs (F : Framer α β) (s : List α) : List β := (F.split s).frames.map Prod.snd

/-- More input, and perhaps more is found. -/
theorem outs_append (s t : List α) :
    F.outs (s ++ t) = F.outs s ++ F.outs ((F.split s).rest ++ t) := by
  rw [outs, (split_append s t).1, List.map_append]
  rfl

theorem outs_mono {s t : List α} (h : s <+: t) : F.outs s <+: F.outs t := by
  obtain ⟨u, rfl⟩ := h
  rw [outs_append]
  exact List.prefix_append _ _

/-- **A stream of frames** is taken apart as it was put together; then comes what comes
behind it. -/
theorem split_texts {texts : List (List α)} {xs : List β}
    (h : List.Forall₂ (fun text x => F.parse text = .frame text.length x) texts xs) (t : List α) :
    F.outs (texts.flatten ++ t) = xs ++ F.outs t ∧
      (F.split (texts.flatten ++ t)).rest = (F.split t).rest := by
  induction h with
  | nil => exact ⟨rfl, rfl⟩
  | @cons text x texts xs htext _ ih =>
    have hparse : F.parse (text ++ (texts.flatten ++ t)) = .frame text.length x :=
      F.frame_append _ htext
    rw [List.flatten_cons, List.append_assoc, outs, split_frame hparse, List.drop_left]
    exact ⟨congrArg (x :: ·) ih.1, ih.2⟩

/-- A stream that ends with a frame is read to its end. -/
theorem outs_stream {texts : List (List α)} {xs : List β}
    (h : List.Forall₂ (fun text x => F.parse text = .frame text.length x) texts xs) :
    F.outs texts.flatten = xs ∧ (F.split texts.flatten).rest = [] := by
  have hsplit := split_texts h []
  have hnil : F.split ([] : List α) = ⟨[], [], false⟩ := split_more F.parse_nil
  rw [List.append_nil, outs, hnil] at hsplit
  exact ⟨hsplit.1.trans (List.append_nil xs), hsplit.2⟩

/-- **The head of a stream**, cut off anywhere: what is found are the first of its frames, as
many as there are of them or more, if something comes behind. -/
theorem outs_head {texts : List (List α)} {xs : List β}
    (h : List.Forall₂ (fun text x => F.parse text = .frame text.length x) texts xs)
    {s t : List α} (hs : s <+: texts.flatten ++ t) : (F.outs s).take xs.length <+: xs := by
  obtain ⟨ys, hys⟩ := outs_mono (F := F) hs
  rw [(split_texts h t).1] at hys
  have htake := congrArg (List.take xs.length) hys
  rw [List.take_left, List.take_append] at htake
  exact ⟨_, htake⟩

end Framer

end Framing
