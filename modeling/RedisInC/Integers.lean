import RedisInC.Counter
import RedisInC.Grammar

/-!
# The two integer readers

Integers reach the server through two loops written by hand: `parse_int64` for the
arguments and values of the counter commands, `parse_int_until_crlf` for the
lengths of the protocol.

* `Int64Text` — what the contract of `parse_int64` accepts: numerals in the range
  from `-INT64_MAX` to `INT64_MAX`.
* `parseInt64_contract_iff` — the code keeps to it for all texts but those of the
  sixteen numbers next to the limits, where its guard gives up early.
* `integer_readers_agree` — the two readers accept the same texts and read the
  same numbers.
-/

namespace RedisInC

open DecimalText

/-! ## The contract -/

/-- What `parse_int64` is documented to accept, and the value it yields. -/
structure Int64Text (s : Bytes) (v : ℤ) : Prop where
  /-- an optional minus sign and one or more digits -/
  numeral : Numeral s v
  /-- the value is at least `-(2^63 - 1)` -/
  low : -INT64_MAX ≤ v
  /-- the value is at most `2^63 - 1` -/
  high : v ≤ INT64_MAX

/-- A numeral in the range of the contract that the guard does not let through. -/
def PastGuard (s : Bytes) : Prop := ∃ v, Int64Text s v ∧ COUNTER_MAX < v.natAbs

/-- What the code accepts, in the words of the contract. -/
theorem parseInt64_iff_int64Text {s : Bytes} {v : ℤ} :
    parseInt64 s = some v ↔ Int64Text s v ∧ v.natAbs ≤ COUNTER_MAX := by
  rw [parseInt64_eq_some, readInt_eq_some]
  constructor
  · rintro ⟨hnum, hle⟩
    have hmax : ((10 * DIGIT_GUARD + 9 : ℕ) : ℤ) ≤ INT64_MAX := by decide
    exact ⟨⟨hnum, by omega, by omega⟩, hle⟩
  · rintro ⟨htext, hle⟩
    exact ⟨htext.numeral, hle⟩

/-- **The contract of `parse_int64`** is kept for a text exactly if the text does not
denote one of the numbers between the guard and the limit. -/
theorem parseInt64_contract_iff (s : Bytes) :
    (∀ v, parseInt64 s = some v ↔ Int64Text s v) ↔ ¬ PastGuard s := by
  constructor
  · rintro hcontract ⟨v, htext, hover⟩
    have hread := (hcontract v).mpr htext
    exact Nat.not_le.mpr hover (parseInt64_iff_int64Text.mp hread).2
  · intro hpast v
    rw [parseInt64_iff_int64Text]
    constructor
    · rintro ⟨htext, -⟩
      exact htext
    · intro htext
      exact ⟨htext, Nat.not_lt.mp fun hover => hpast ⟨v, htext, hover⟩⟩

/-- The largest number of the contract is refused. -/
theorem parseInt64_refuses_max :
    parseInt64 (ascii "9223372036854775807") = none ∧
      Int64Text (ascii "9223372036854775807") INT64_MAX ∧
      ¬ ∀ v, parseInt64 (ascii "9223372036854775807") = some v ↔
        Int64Text (ascii "9223372036854775807") v := by
  have hrefused : parseInt64 (ascii "9223372036854775807") = none := by decide
  have htext : Int64Text (ascii "9223372036854775807") INT64_MAX :=
    ⟨readInt_eq_some.mp (by decide), by decide, Int.le_refl _⟩
  refine ⟨hrefused, htext, fun hcontract => ?_⟩
  have hread := (hcontract INT64_MAX).mpr htext
  rw [hrefused] at hread
  cases hread

/-! ## One language, two readers -/

/-- **The two readers agree.** A text is an integer for `parse_int64` exactly if
`parse_int_until_crlf` reads it up to the CRLF behind it, whatever follows, as the
same number. -/
theorem integer_readers_agree (d r : Bytes) (v : ℤ) :
    parseInt64 d = some v ↔ parseIntUntilCrlf (d ++ (CRLF ++ r)) = .ok (v, d.length + 2) := by
  rw [parseInt64_eq_some, parseIntUntilCrlf_eq_ok]
  constructor
  · rintro ⟨hread, hle⟩
    exact ⟨d, r, rfl, hread, hle, rfl⟩
  · rintro ⟨num, rest, hp, hread, hle, hlen⟩
    -- both numbers end where the CRLF counted begins
    have hnum : d.length = num.length := Nat.add_right_cancel hlen
    obtain ⟨rfl, -⟩ := List.append_inj hp hnum
    exact ⟨hread, hle⟩

end RedisInC
