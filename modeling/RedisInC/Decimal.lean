import Mathlib.Data.Int.Basic
import Mathlib.Data.List.Basic
import Mathlib.Tactic.Linarith
import Mathlib.Tactic.Ring

/-!
# Decimal numerals as byte strings

A small library, independent of any program: the canonical decimal text of a
number, the value of a digit string, and a digit loop with a guard on the
accumulator, the usual way to keep a fixed-width integer from overflowing.

* `natText`, `intText` — what `printf` writes for `%zu` and for a signed `%d`.
* `value` — the number a digit string denotes, continuing from an accumulator.
* `readNat`, `readInt` — plain readers of decimal numerals. `readInt_eq_some`: what
  `readInt` reads is a `Numeral`, and all of them.
* `readGuarded` — the digit loop that stops as soon as the accumulator exceeds a
  guard `g` before the next digit. `readGuarded_eq_some` gives its exact
  language: digit strings whose value is at most `10 * g + 9`.
-/

namespace DecimalText

/-- The decimal text of a natural number: no leading zeros, `"0"` for zero. -/
def natText (n : ℕ) : List UInt8 := (Nat.toDigits 10 n).map fun c => c.toNat.toUInt8

/-- The decimal text of an integer: a minus sign for the negative ones. -/
def intText (z : ℤ) : List UInt8 :=
  if z < 0 then 45 :: natText z.natAbs else natText z.natAbs

/-- An ASCII digit. -/
def IsDigit (c : UInt8) : Prop := 48 ≤ c ∧ c ≤ 57

instance (c : UInt8) : Decidable (IsDigit c) := inferInstanceAs (Decidable (_ ∧ _))

instance (cs : List UInt8) : Decidable (∀ c ∈ cs, IsDigit c) :=
  List.decidableBAll (fun c => IsDigit c) cs

/-- The number denoted by digits that follow an accumulated value. -/
def value : List UInt8 → ℕ → ℕ
  | [], v => v
  | c :: cs, v => value cs (v * 10 + (c.toNat - 48))

/-- A non-empty digit string. -/
def readNat (cs : List UInt8) : Option ℕ :=
  if cs ≠ [] ∧ ∀ c ∈ cs, IsDigit c then some (value cs 0) else none

/-- An optional minus sign and a non-empty digit string. -/
def readInt : List UInt8 → Option ℤ
  | [] => none
  | c :: cs =>
    if c = 45 then (readNat cs).map fun n : ℕ => -(n : ℤ) else (readNat (c :: cs)).map Nat.cast

/-- A decimal numeral and the integer it denotes: digits, at least one, and a minus
sign in front for the negative ones. -/
inductive Numeral : List UInt8 → ℤ → Prop
  /-- without a sign -/
  | plain {ds : List UInt8} (ne : ds ≠ []) (digits : ∀ c ∈ ds, IsDigit c) :
      Numeral ds (value ds 0)
  /-- with a minus sign -/
  | minus {ds : List UInt8} (ne : ds ≠ []) (digits : ∀ c ∈ ds, IsDigit c) :
      Numeral (45 :: ds) (-(value ds 0 : ℤ))

/-- The digit loop with an overflow guard: before each digit the accumulator
must not exceed `g`. -/
def readGuarded (g : ℕ) : List UInt8 → ℕ → Option ℕ
  | [], v => some v
  | c :: cs, v =>
    if ¬ IsDigit c then none
    else if v > g then none
    else readGuarded g cs (v * 10 + (c.toNat - 48))

/-! ## Texts -/

/-- A digit character as a byte. -/
theorem isDigit_of_char {c : Char} (hc : c.isDigit) :
    IsDigit c.toNat.toUInt8 ∧ c.toNat.toUInt8.toNat = c.toNat := by
  have hbounds : 48 ≤ c.toNat ∧ c.toNat ≤ 57 := by
    simpa [Char.isDigit, UInt32.le_iff_toNat_le] using hc
  have htoNat : c.toNat.toUInt8.toNat = c.toNat := by
    simp only [Nat.toUInt8, UInt8.toNat_ofNat']
    omega
  refine ⟨?_, htoNat⟩
  simp only [IsDigit, UInt8.le_iff_toNat_le, htoNat]
  exact hbounds

theorem natText_isDigit {n : ℕ} : ∀ c ∈ natText n, IsDigit c := by
  intro c hc
  obtain ⟨d, hd, rfl⟩ := List.mem_map.mp hc
  exact (isDigit_of_char (Nat.isDigit_of_mem_toDigits (by decide) (by decide) hd)).1

theorem natText_ne_nil (n : ℕ) : natText n ≠ [] := by
  simp [natText]

/-- Number of digits. -/
theorem length_natText_le {n k : ℕ} (hk : 0 < k) (hn : n < 10 ^ k) : (natText n).length ≤ k := by
  rw [natText, List.length_map]
  exact (Nat.length_toDigits_le_iff (by decide) hk).mpr hn

theorem length_intText_le {z : ℤ} {k : ℕ} (hk : 0 < k) (hz : z.natAbs < 10 ^ k) :
    (intText z).length ≤ k + 1 := by
  have := length_natText_le hk hz
  rw [intText]
  split
  · rw [List.length_cons]
    omega
  · omega

/-- A decimal text starts with a digit, so never with a sign. -/
theorem natText_eq_cons (n : ℕ) : ∃ c cs, natText n = c :: cs ∧ IsDigit c := by
  cases h : natText n with
  | nil => exact absurd h (natText_ne_nil n)
  | cons c cs =>
    exact ⟨c, cs, rfl, natText_isDigit c (by rw [h]; exact List.mem_cons_self ..)⟩

/-- The bytes of an integer's text: digits and at most a sign. -/
theorem mem_intText {z : ℤ} {c : UInt8} (hc : c ∈ intText z) : c = 45 ∨ IsDigit c := by
  rw [intText] at hc
  split at hc
  · rcases List.mem_cons.mp hc with rfl | hc
    · exact Or.inl rfl
    · exact Or.inr (natText_isDigit c hc)
  · exact Or.inr (natText_isDigit c hc)

/-! ## Digits -/

/-- A byte that is no digit lies below or above them. -/
theorem not_isDigit_iff {c : UInt8} : ¬ IsDigit c ↔ c < 48 ∨ c > 57 := by
  rw [IsDigit, not_and_or, UInt8.not_le, UInt8.not_le]

/-- A round of a digit loop over the integers is one over the naturals. -/
theorem cast_digit {c : UInt8} (hc : IsDigit c) (v : ℕ) :
    (v : ℤ) * 10 + ((c.toNat : ℤ) - 48) = ((v * 10 + (c.toNat - 48) : ℕ) : ℤ) := by
  have hlow := UInt8.le_iff_toNat_le.mp hc.1
  simp only [UInt8.reduceToNat] at hlow
  omega

/-! ## Values -/

/-- The accumulator only grows. -/
theorem le_value (v : ℕ) (cs : List UInt8) : v ≤ value cs v := by
  induction cs generalizing v with
  | nil => exact Nat.le_refl v
  | cons c cs ih => exact Nat.le_trans (by omega) (ih (v * 10 + (c.toNat - 48)))

theorem value_append (cs ds : List UInt8) (v : ℕ) : value (cs ++ ds) v = value ds (value cs v) := by
  induction cs generalizing v with
  | nil => rfl
  | cons c cs ih => exact ih (v * 10 + (c.toNat - 48))

theorem value_map_chars {l : List Char} (hl : ∀ c ∈ l, c.isDigit) (v : ℕ) :
    value (l.map fun c => c.toNat.toUInt8) v = Nat.ofDigitChars 10 l v := by
  induction l generalizing v with
  | nil => rw [Nat.ofDigitChars_nil]; rfl
  | cons c cs ih =>
    have hc := (isDigit_of_char (hl c (List.mem_cons_self ..))).2
    rw [List.map_cons, value, hc, Nat.ofDigitChars_cons, Nat.mul_comm 10 v]
    exact ih (fun d hd => hl d (List.mem_cons_of_mem _ hd)) _

/-- **Reading back a text gives the number.** -/
theorem value_natText (n : ℕ) : value (natText n) 0 = n := by
  rw [natText, value_map_chars fun c hc => Nat.isDigit_of_mem_toDigits (by decide) (by decide) hc]
  exact Nat.ofDigitChars_ten_toDigits

theorem readNat_natText (n : ℕ) : readNat (natText n) = some n := by
  rw [readNat, if_pos ⟨natText_ne_nil n, natText_isDigit⟩, value_natText]

theorem readInt_intText (z : ℤ) : readInt (intText z) = some z := by
  rcases lt_or_ge z 0 with hz | hz
  · rw [intText, if_pos hz, readInt, if_pos rfl, readNat_natText, Option.map_some]
    congr 1
    omega
  · obtain ⟨c, cs, hcons, hc⟩ := natText_eq_cons z.natAbs
    have hminus : c ≠ 45 := by
      rintro rfl
      exact absurd hc (by decide)
    rw [intText, if_neg (not_lt.mpr hz), hcons, readInt, if_neg hminus, ← hcons, readNat_natText,
      Option.map_some, Int.natAbs_of_nonneg hz]

theorem readInt_natText (n : ℕ) : readInt (natText n) = some (n : ℤ) := by
  have htext : intText (n : ℤ) = natText n := by
    rw [intText, if_neg (by omega), Int.natAbs_natCast]
  rw [← htext, readInt_intText]

/-! ## Numerals -/

theorem readNat_of_digits {ds : List UInt8} (hne : ds ≠ []) (hds : ∀ c ∈ ds, IsDigit c) :
    readNat ds = some (value ds 0) := if_pos ⟨hne, hds⟩

theorem readNat_eq_some {ds : List UInt8} {n : ℕ} (h : readNat ds = some n) :
    ds ≠ [] ∧ (∀ c ∈ ds, IsDigit c) ∧ value ds 0 = n := by
  obtain ⟨⟨hne, hds⟩, hval⟩ := Option.ite_none_right_eq_some.mp h
  exact ⟨hne, hds, Option.some.inj hval⟩

/-- **The language of the plain reader.** -/
theorem readInt_eq_some {s : List UInt8} {v : ℤ} : readInt s = some v ↔ Numeral s v := by
  constructor
  · intro h
    cases s with
    | nil => cases h
    | cons c cs =>
      rw [readInt] at h
      by_cases hminus : c = 45
      · rw [if_pos hminus] at h
        obtain ⟨n, hn, rfl⟩ := Option.map_eq_some_iff.mp h
        obtain ⟨hne, hds, rfl⟩ := readNat_eq_some hn
        rw [hminus]
        exact .minus hne hds
      · rw [if_neg hminus] at h
        obtain ⟨n, hn, rfl⟩ := Option.map_eq_some_iff.mp h
        obtain ⟨hne, hds, rfl⟩ := readNat_eq_some hn
        exact .plain hne hds
  · intro h
    cases h with
    | plain ne digits =>
      cases s with
      | nil => exact absurd rfl ne
      | cons c cs =>
        have hminus : c ≠ 45 := by
          rintro rfl
          exact absurd (digits 45 (List.mem_cons_self ..)) (by decide)
        rw [readInt, if_neg hminus, readNat_of_digits ne digits]
        rfl
    | minus ne digits =>
      rw [readInt, if_pos rfl, readNat_of_digits ne digits]
      rfl

/-! ## The guarded loop -/

/-- **The language of the guarded loop.** The guard is checked before every
digit, so for a non-empty string it bounds the final value by `10 * g + 9`. -/
theorem readGuarded_eq_some {g v w : ℕ} {cs : List UInt8} :
    readGuarded g cs v = some w ↔
      (∀ c ∈ cs, IsDigit c) ∧ value cs v = w ∧ (cs = [] ∨ w ≤ 10 * g + 9) := by
  induction cs generalizing v with
  | nil => simp [readGuarded, value]
  | cons c cs ih =>
    rw [readGuarded]
    by_cases hc : IsDigit c
    · have hdigit : c.toNat - 48 ≤ 9 := by
        have := UInt8.le_iff_toNat_le.mp hc.2
        simp only [UInt8.reduceToNat] at this
        omega
      have hmono := le_value (v * 10 + (c.toNat - 48)) cs
      rw [if_neg (not_not_intro hc)]
      by_cases hg : v > g
      · rw [if_pos hg]
        constructor
        · intro h
          cases h
        · rintro ⟨-, hw, hlt⟩
          -- too large an accumulator already exceeds the bound
          have hw' : value cs (v * 10 + (c.toNat - 48)) = w := hw
          rcases hlt with hnil | hle
          · cases hnil
          · omega
      · rw [if_neg hg, ih, List.forall_mem_cons]
        constructor
        · rintro ⟨hds, hw, hlast⟩
          refine ⟨⟨hc, hds⟩, hw, Or.inr ?_⟩
          rcases hlast with rfl | hle
          · have hw' : v * 10 + (c.toNat - 48) = w := hw
            omega
          · exact hle
        · rintro ⟨⟨-, hds⟩, hw, hlast⟩
          refine ⟨hds, hw, Or.inr ?_⟩
          rcases hlast with hnil | hle
          · cases hnil
          · exact hle
    · rw [if_pos hc]
      constructor
      · intro h
        cases h
      · rintro ⟨hds, -, -⟩
        exact absurd (hds c (List.mem_cons_self ..)) hc

/-- **The guarded loop against the plain reader**: it reads the same numbers, up to
its bound. -/
theorem readGuarded_iff_readNat {g n : ℕ} {cs : List UInt8} (hne : cs ≠ []) :
    readGuarded g cs 0 = some n ↔ readNat cs = some n ∧ n ≤ 10 * g + 9 := by
  rw [readGuarded_eq_some]
  constructor
  · rintro ⟨hds, rfl, hle⟩
    exact ⟨readNat_of_digits hne hds, hle.resolve_left hne⟩
  · rintro ⟨hread, hle⟩
    obtain ⟨-, hds, hval⟩ := readNat_eq_some hread
    exact ⟨hds, hval, Or.inr hle⟩

end DecimalText
