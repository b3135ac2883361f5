import RedisInC.Grammar

/-!
# What `RESP_NEED_MORE` means

The parser looks at counts and lengths only when their CRLF is there, at the byte
behind a body only when two of them are, and at the words of a line only when it
is complete. So it goes on asking for input that nothing can complete.

* `OpenBulk`, `Open` — the shapes of the inputs that get `RESP_NEED_MORE`.
* `StuckBulk`, `Stuck` — those among them that no continuation can repair: a
  count or a length that is out of range already, a body followed by a byte other
  than CR, a line with too many words or with no room for one.
* `incomplete_iff_not_stuck` — every other incomplete input has a completion.
-/

namespace RedisInC

open DecimalText Words

/-- Some continuation is accepted. -/
def Repairable (p : Bytes) : Prop := ∃ s req, respParseRequest (p ++ s) = .ok req

/-- Digits that pass the overflow guard. -/
def GuardedDigits (digits : Bytes) : Prop := ∃ n, readGuarded DIGIT_GUARD digits 0 = some n

/-- A decimal integer whose CRLF is not complete yet: a sign, digits, and
possibly the CR. -/
def openNumber (negative : Bool) (digits : Bytes) (cr : Bool) : Bytes :=
  (if negative then [45] else []) ++ (digits ++ if cr then [CR] else [])

/-- An incomplete bulk string. -/
inductive OpenBulk : Bytes → Prop
  /-- nothing yet -/
  | nil : OpenBulk []
  /-- within the header -/
  | length {negative cr : Bool} {digits : Bytes} (guarded : GuardedDigits digits) :
      OpenBulk (36 :: openNumber negative digits cr)
  /-- within the body or the CRLF behind it -/
  | body {num rest : Bytes} {len : ℕ} (header : readInt num = some (len : ℤ))
      (cap : len ≤ RESP_MAX_BULK_LEN) (short : rest.length < len + 2) :
      OpenBulk (36 :: (num ++ (CRLF ++ rest)))

/-- An incomplete request. -/
inductive Open : Bytes → Prop
  /-- nothing yet -/
  | nil : Open []
  /-- within the header of an array -/
  | argc {negative cr : Bool} {digits : Bytes} (guarded : GuardedDigits digits) :
      Open (42 :: openNumber negative digits cr)
  /-- behind some complete bulk strings -/
  | bulk {num bulks rest : Bytes} {argc : ℕ} {argv : List Bytes}
      (header : readInt num = some (argc : ℤ)) (le : argc ≤ RESP_MAX_ARGC)
      (done : BulksText argv bulks) (lt : argv.length < argc) (last : OpenBulk rest) :
      Open (42 :: (num ++ (CRLF ++ (bulks ++ rest))))
  /-- within a line -/
  | line {c : UInt8} {line : Bytes} (mark : c ≠ 42) (first : LF ∉ c :: line)
      (short : (c :: line).length < RESP_MAX_INLINE_LEN) : Open (c :: line)

/-- An incomplete bulk string that cannot be completed. -/
inductive StuckBulk : Bytes → Prop
  /-- the length is out of range already, or has its CR but no digit -/
  | length {negative cr : Bool} {digits : Bytes} (guarded : GuardedDigits digits)
      (out : (if negative then 0 else RESP_MAX_BULK_LEN) < value digits 0 ∨
        (cr = true ∧ digits = [])) :
      StuckBulk (36 :: openNumber negative digits cr)
  /-- the body is not followed by a CR -/
  | body {num body : Bytes} {c : UInt8} (header : readInt num = some (body.length : ℤ))
      (cap : body.length ≤ RESP_MAX_BULK_LEN) (end_ne : c ≠ CR) :
      StuckBulk (36 :: (num ++ (CRLF ++ (body ++ [c]))))

/-- An incomplete request that cannot be completed. -/
inductive Stuck : Bytes → Prop
  /-- the count has a sign, is too large already, or is a complete zero -/
  | argc {negative cr : Bool} {digits : Bytes} (guarded : GuardedDigits digits)
      (out : negative = true ∨ RESP_MAX_ARGC < value digits 0 ∨
        (cr = true ∧ value digits 0 = 0)) :
      Stuck (42 :: openNumber negative digits cr)
  /-- a bulk string cannot be completed -/
  | bulk {num bulks rest : Bytes} {argc : ℕ} {argv : List Bytes}
      (header : readInt num = some (argc : ℤ)) (le : argc ≤ RESP_MAX_ARGC)
      (done : BulksText argv bulks) (lt : argv.length < argc) (last : StuckBulk rest) :
      Stuck (42 :: (num ++ (CRLF ++ (bulks ++ rest))))
  /-- ending the line here gives no request, and so does continuing it -/
  | line {c : UInt8} {line : Bytes} (mark : c ≠ 42) (first : LF ∉ c :: line)
      (short : (c :: line).length < RESP_MAX_INLINE_LEN)
      (here : ¬ (1 ≤ (lineWords (c :: line)).length ∧
        (lineWords (c :: line)).length ≤ RESP_MAX_ARGC))
      (on : ¬ ((c :: line).length + 2 ≤ RESP_MAX_INLINE_LEN ∧
        (words isBlank (c :: line)).length ≤ RESP_MAX_ARGC)) :
      Stuck (c :: line)

/-! ## Open numbers -/

theorem open_cons {c : UInt8} {cs digits : Bytes} {cr : Bool} (hc : c ≠ CR)
    (h : c :: cs = digits ++ if cr = true then [CR] else []) :
    ∃ ds, digits = c :: ds ∧ cs = ds ++ if cr = true then [CR] else [] := by
  cases digits with
  | nil =>
    cases cr
    · cases h
    · exact absurd (List.cons_eq_cons.mp h).1 hc
  | cons d ds =>
    obtain ⟨rfl, rfl⟩ := List.cons_eq_cons.mp h
    exact ⟨ds, rfl, rfl⟩

/-- The digit loop runs out of input within the digits or behind the CR. -/
theorem parseIntLoop_eq_needMore {negative : Bool} {digitsAt : ℕ} {p : Bytes} {v i : ℕ} :
    parseIntLoop negative digitsAt p v i = .needMore ↔
      ∃ digits cr, p = digits ++ (if cr = true then [CR] else []) ∧
        ∃ n, readGuarded DIGIT_GUARD digits v = some n := by
  induction p generalizing v i with
  | nil => exact ⟨fun _ => ⟨[], false, rfl, v, rfl⟩, fun _ => rfl⟩
  | cons c cs ih =>
    rw [parseIntLoop]
    by_cases hcr : c = CR
    · rw [if_pos hcr]
      obtain rfl := hcr
      have hnot : ¬ IsDigit CR := by decide
      cases cs with
      | nil => exact ⟨fun _ => ⟨[], true, rfl, v, rfl⟩, fun _ => rfl⟩
      | cons d ds =>
        constructor
        · intro h
          simp only [List.head?_cons] at h
          split at h
          · cases h
          · split at h
            · cases h
            · cases h
        · rintro ⟨digits, cr, hp, n, hread⟩
          cases digits with
          | nil => cases cr <;> simp at hp
          | cons e es =>
            obtain ⟨rfl, -⟩ := List.cons_eq_cons.mp hp
            rw [readGuarded, if_pos hnot] at hread
            cases hread
    · rw [if_neg hcr]
      by_cases hdigit : IsDigit c
      · rw [if_neg (mt not_isDigit_iff.mpr (not_not_intro hdigit)), digit_guard_eq,
          cast_digit hdigit]
        by_cases hguard : v > DIGIT_GUARD
        · rw [if_pos (by omega)]
          constructor
          · intro h
            cases h
          · rintro ⟨digits, cr, hp, n, hread⟩
            obtain ⟨ds, rfl, -⟩ := open_cons hcr hp
            rw [readGuarded, if_neg (not_not_intro hdigit), if_pos hguard] at hread
            cases hread
        · rw [if_neg (by omega), ih]
          constructor
          · rintro ⟨digits, cr, rfl, n, hread⟩
            refine ⟨c :: digits, cr, rfl, n, ?_⟩
            rw [readGuarded, if_neg (not_not_intro hdigit), if_neg hguard, hread]
          · rintro ⟨digits, cr, hp, n, hread⟩
            obtain ⟨ds, rfl, hcs⟩ := open_cons hcr hp
            rw [readGuarded, if_neg (not_not_intro hdigit), if_neg hguard] at hread
            exact ⟨ds, cr, hcs, n, hread⟩
      · rw [if_pos (not_isDigit_iff.mp hdigit)]
        constructor
        · intro h
          cases h
        · rintro ⟨digits, cr, hp, n, hread⟩
          obtain ⟨ds, rfl, -⟩ := open_cons hcr hp
          rw [readGuarded, if_pos hdigit] at hread
          cases hread

/-- **Incomplete numbers** are the open ones. -/
theorem parseIntUntilCrlf_eq_needMore {p : Bytes} :
    parseIntUntilCrlf p = .needMore ↔
      ∃ negative digits cr, p = openNumber negative digits cr ∧ GuardedDigits digits := by
  constructor
  · intro h
    cases p with
    | nil => exact ⟨false, [], false, rfl, 0, rfl⟩
    | cons c cs =>
      rw [parseIntUntilCrlf] at h
      by_cases hminus : c = 45
      · rw [if_pos hminus] at h
        obtain ⟨digits, cr, rfl, hread⟩ := parseIntLoop_eq_needMore.mp h
        exact ⟨true, digits, cr, by rw [hminus]; rfl, hread⟩
      · rw [if_neg hminus] at h
        obtain ⟨digits, cr, hp, hread⟩ := parseIntLoop_eq_needMore.mp h
        exact ⟨false, digits, cr, hp, hread⟩
  · rintro ⟨negative, digits, cr, rfl, hread⟩
    cases negative with
    | true => exact parseIntLoop_eq_needMore.mpr ⟨digits, cr, rfl, hread⟩
    | false =>
      cases hp : openNumber false digits cr with
      | nil => rfl
      | cons c cs =>
        have hminus : c ≠ 45 := by
          rintro rfl
          obtain ⟨ds, rfl, -⟩ := open_cons (by decide) hp.symm
          obtain ⟨n, hn⟩ := hread
          exact absurd ((readGuarded_eq_some.mp hn).1 45 (List.mem_cons_self ..)) (by decide)
        rw [parseIntUntilCrlf, if_neg hminus, ← hp]
        exact parseIntLoop_eq_needMore.mpr ⟨digits, cr, rfl, hread⟩

/-- The digits that follow only make the number larger, and behind the CR there
are none. -/
theorem parseIntLoop_open {negative cr : Bool} {digitsAt n i m : ℕ} {s : Bytes} {w : ℤ}
    (hi : digitsAt ≤ i)
    (h : parseIntLoop negative digitsAt ((if cr = true then [CR] else []) ++ s) n i = .ok (w, m)) :
    ∃ u : ℕ, w = (if negative then -(u : ℤ) else u) ∧ n ≤ u ∧
      (cr = true → digitsAt < i ∧ u = n) := by
  obtain ⟨ds, rest, u, hsplit, hread, hw, -, hpos⟩ := parseIntLoop_eq_ok hi h
  obtain ⟨hds, rfl, -⟩ := readGuarded_eq_some.mp hread
  refine ⟨_, hw, le_value n ds, ?_⟩
  rintro rfl
  cases ds with
  | nil => exact ⟨hpos, rfl⟩
  | cons d ds =>
    obtain ⟨rfl, -⟩ := List.cons_eq_cons.mp hsplit
    exact absurd (hds CR (List.mem_cons_self ..)) (by decide)

/-- **What an open number can become**: its value only grows away from zero. -/
theorem openNumber_ok {negative cr : Bool} {digits s : Bytes} {v : ℤ} {m : ℕ}
    (hd : GuardedDigits digits)
    (h : parseIntUntilCrlf (openNumber negative digits cr ++ s) = .ok (v, m)) :
    value digits 0 ≤ v.natAbs ∧ (negative = true → v ≤ 0) ∧
      (cr = true → digits ≠ [] ∧ v.natAbs = value digits 0) := by
  obtain ⟨n, hn⟩ := hd
  obtain ⟨hds, hvalue, -⟩ := readGuarded_eq_some.mp hn
  rw [openNumber, List.append_assoc, List.append_assoc] at h
  cases negative with
  | true =>
    have hloop : parseIntLoop true 1 (digits ++ ((if cr = true then [CR] else []) ++ s))
        ((0 : ℕ) : ℤ) 1 = .ok (v, m) := h
    rw [parseIntLoop_skip hn] at hloop
    obtain ⟨u, rfl, hle, hcr⟩ := parseIntLoop_open (by omega) hloop
    rw [if_pos rfl, Int.natAbs_neg, Int.natAbs_natCast, hvalue]
    refine ⟨hle, fun _ => by omega, fun hclosed => ⟨?_, (hcr hclosed).2⟩⟩
    rintro rfl
    exact absurd (hcr hclosed).1 (by simp)
  | false =>
    by_cases hnil : digits = [] ∧ cr = false
    · obtain ⟨rfl, rfl⟩ := hnil
      exact ⟨Nat.zero_le _, by simp, by simp⟩
    · have hloop : parseIntLoop false 0 (digits ++ ((if cr = true then [CR] else []) ++ s))
          ((0 : ℕ) : ℤ) 0 = .ok (v, m) := by
        cases digits with
        | nil =>
          obtain rfl : cr = true := by simpa using hnil
          exact h
        | cons d ds =>
          have hminus : d ≠ 45 := by
            rintro rfl
            exact absurd (hds 45 (List.mem_cons_self ..)) (by decide)
          simp only [Bool.false_eq_true, if_false, List.nil_append, List.cons_append] at h ⊢
          rw [parseIntUntilCrlf, if_neg hminus] at h
          exact h
      rw [parseIntLoop_skip hn] at hloop
      obtain ⟨u, rfl, hle, hcr⟩ := parseIntLoop_open (by omega) hloop
      simp only [Bool.false_eq_true, if_false, Int.natAbs_natCast, hvalue]
      refine ⟨hle, fun h => absurd h (by simp), fun hclosed => ⟨?_, (hcr hclosed).2⟩⟩
      rintro rfl
      exact absurd (hcr hclosed).1 (by simp)

/-- The number an open number becomes if nothing is added to its digits. -/
theorem readInt_openNumber {negative : Bool} {digits : Bytes} (hd : ∀ c ∈ digits, IsDigit c)
    (hne : digits ≠ []) : readInt (openNumber negative digits false) =
      some (if negative then -(value digits 0 : ℤ) else value digits 0) := by
  have hread : readNat digits = some (value digits 0) := by
    rw [readNat, if_pos ⟨hne, hd⟩]
  cases negative with
  | true =>
    have htext : openNumber true digits false = 45 :: digits := by simp [openNumber]
    rw [htext, readInt, if_pos rfl, hread]
    rfl
  | false =>
    have htext : openNumber false digits false = digits := by simp [openNumber]
    rw [htext]
    cases digits with
    | nil => exact absurd rfl hne
    | cons c cs =>
      have hminus : c ≠ 45 := by
        rintro rfl
        exact absurd (hd 45 (List.mem_cons_self ..)) (by decide)
      rw [readInt, if_neg hminus, hread]
      rfl

/-- Completing an open number: more digits, unless the CR is there, and the rest
of the CRLF. -/
theorem openNumber_complete (negative : Bool) {cr : Bool} (digits : Bytes) {more : Bytes}
    (hmore : cr = true → more = []) :
    ∃ s, openNumber negative digits cr ++ s =
      openNumber negative (digits ++ more) false ++ CRLF := by
  cases cr with
  | true =>
    obtain rfl := hmore rfl
    exact ⟨[LF], by simp [openNumber]⟩
  | false => exact ⟨more ++ CRLF, by simp [openNumber]⟩

/-! ## Incomplete bulk strings -/

theorem parseIntUntilCrlf_numeral {num : Bytes} {n : ℕ} (hnum : readInt num = some (n : ℤ))
    (hle : n ≤ 10 * DIGIT_GUARD + 9) (t : Bytes) :
    parseIntUntilCrlf (num ++ (CRLF ++ t)) = .ok ((n : ℤ), num.length + 2) :=
  parseIntUntilCrlf_eq_ok.mpr ⟨num, t, rfl, hnum, by rwa [Int.natAbs_natCast], rfl⟩

theorem bulk_cap_le : RESP_MAX_BULK_LEN ≤ 10 * DIGIT_GUARD + 9 := by
  decide

theorem parseBulk_eq_needMore {p : Bytes} {base : ℕ} :
    parseBulk p base = .needMore ↔ OpenBulk p := by
  constructor
  · intro h
    cases p with
    | nil => exact .nil
    | cons c cs =>
      rw [parseBulk] at h
      split at h
      · cases h
      · next hmark =>
        rw [not_not.mp hmark]
        cases hint : parseIntUntilCrlf cs with
        | needMore =>
          obtain ⟨negative, digits, cr, rfl, hd⟩ := parseIntUntilCrlf_eq_needMore.mp hint
          exact .length hd
        | protocolErr =>
          rw [hint] at h
          cases h
        | ok out =>
          obtain ⟨length, hdrUsed⟩ := out
          rw [hint, RespStatus.bind] at h
          obtain ⟨num, rest, rfl, hnum, -, rfl⟩ := parseIntUntilCrlf_eq_ok.mp hint
          simp only at h
          split at h
          · cases h
          · next hlength =>
            split at h
            · cases h
            · split at h
              · next hshort =>
                simp only [List.length_cons, List.length_append, List.length_nil] at hshort
                have hcast : ((length.toNat : ℕ) : ℤ) = length := by omega
                exact .body (by rw [hnum, hcast]) (by omega) (by omega)
              · split at h
                · cases h
                · cases h
  · intro h
    cases h with
    | nil => rfl
    | @length negative cr digits guarded =>
      have hint := parseIntUntilCrlf_eq_needMore.mpr ⟨negative, digits, cr, rfl, guarded⟩
      rw [parseBulk, if_neg (by simp), hint, RespStatus.bind]
    | @body num rest len header cap short =>
      have hint := parseIntUntilCrlf_numeral header (Nat.le_trans cap bulk_cap_le) rest
      have hlen : (36 :: (num ++ (CRLF ++ rest))).length < 1 + (num.length + 2) + len + 2 := by
        simp only [List.length_cons, List.length_append, List.length_nil]
        omega
      rw [parseBulk, if_neg (by simp), hint, RespStatus.bind]
      simp only [Int.toNat_natCast]
      rw [if_neg (by omega), if_neg (by omega), if_pos hlen]

theorem StuckBulk.isOpen {p : Bytes} (h : StuckBulk p) : OpenBulk p := by
  cases h with
  | length guarded out => exact .length guarded
  | body header cap end_ne => exact .body header cap (by simp)

/-- A stuck bulk string is never complete. -/
theorem StuckBulk.ne_ok {p : Bytes} (h : StuckBulk p) (s : Bytes) (base : ℕ)
    (out : RespSlice × ℕ) : parseBulk (p ++ s) base ≠ .ok out := by
  intro hok
  obtain ⟨slice, n⟩ := out
  cases h with
  | @length negative cr digits guarded out =>
    obtain ⟨cs, length, hdrUsed, hcs, hint, hlength, -⟩ := parseBulk_inv hok
    rw [List.cons_append] at hcs
    rw [← (List.cons.inj hcs).2] at hint
    obtain ⟨hle, hneg, hcr⟩ := openNumber_ok guarded hint
    rcases out with hout | ⟨hclosed, hnil⟩
    · cases negative with
      | true =>
        have hnonpos := hneg rfl
        simp only [if_true] at hout
        omega
      | false =>
        simp only [Bool.false_eq_true, if_false] at hout
        omega
    · exact (hcr hclosed).1 hnil
  | @body num body c header cap end_ne =>
    have hsplit : 36 :: (num ++ (CRLF ++ (body ++ [c]))) ++ s =
        36 :: (num ++ (CRLF ++ (body ++ c :: s))) := by simp
    have hnum := parseIntUntilCrlf_numeral header (Nat.le_trans cap bulk_cap_le) (body ++ c :: s)
    have hget : (36 :: (num ++ (CRLF ++ (body ++ c :: s))))[1 + (num.length + 2) + body.length]? =
        some c := by
      rw [← List.getElem?_drop, drop_header, List.getElem?_append_right (Nat.le_refl _),
        Nat.sub_self]
      rfl
    rw [hsplit] at hok
    obtain ⟨cs, length, hdrUsed, hcs, hint, -, -, hcr, -⟩ := parseBulk_inv hok
    rw [← (List.cons.inj hcs).2, hnum] at hint
    cases hint
    rw [Int.toNat_natCast, hget] at hcr
    exact end_ne (Option.some.inj hcr)

theorem BulksText.append {argv argv' : List Bytes} {text text' : Bytes} (h : BulksText argv text)
    (h' : BulksText argv' text') : BulksText (argv ++ argv') (text ++ text') := by
  induction h with
  | nil => exact h'
  | cons bulk bulks ih =>
    rw [List.append_assoc]
    exact .cons bulk ih

/-- Every other incomplete bulk string can be completed. -/
theorem OpenBulk.complete {p : Bytes} (h : OpenBulk p) (hs : ¬ StuckBulk p) :
    ∃ s body, BulkText body (p ++ s) := by
  cases h with
  | nil => exact ⟨_, [], bulkText_encodeBulk (Nat.zero_le _)⟩
  | @length negative cr digits guarded =>
    have hrange : ¬ ((if negative then 0 else RESP_MAX_BULK_LEN) < value digits 0 ∨
        (cr = true ∧ digits = [])) := fun hout => hs (.length guarded hout)
    rw [not_or, not_and, Nat.not_lt] at hrange
    obtain ⟨n, hn⟩ := guarded
    have hds := (readGuarded_eq_some.mp hn).1
    -- a length needs a digit
    obtain ⟨more, hmore, hmore_digits, hne, hvalue⟩ : ∃ more : Bytes, (cr = true → more = []) ∧
        (∀ c ∈ digits ++ more, IsDigit c) ∧ digits ++ more ≠ [] ∧
        value (digits ++ more) 0 = value digits 0 := by
      by_cases hnil : digits = []
      · refine ⟨[48], fun hclosed => absurd hnil (hrange.2 hclosed), ?_, by simp, ?_⟩
        · rw [hnil]
          simp [IsDigit]
        · rw [hnil]
          rfl
      · exact ⟨[], fun _ => rfl, by simpa using hds, by simpa using hnil, by simp⟩
    obtain ⟨s, hcomplete⟩ := openNumber_complete negative digits hmore
    have hnum : readInt (openNumber negative (digits ++ more) false) =
        some ((value digits 0 : ℕ) : ℤ) := by
      rw [readInt_openNumber hmore_digits hne, hvalue]
      cases negative with
      | true =>
        have hzero : value digits 0 = 0 := Nat.le_zero.mp hrange.1
        rw [hzero]
        rfl
      | false => rfl
    have hcap : value digits 0 ≤ RESP_MAX_BULK_LEN := by
      refine Nat.le_trans hrange.1 ?_
      split <;> omega
    refine ⟨s ++ (List.replicate (value digits 0) 0 ++ CRLF), List.replicate (value digits 0) 0,
      _, by rw [List.length_replicate]; exact hnum, by rwa [List.length_replicate], ?_⟩
    rw [List.cons_append, ← List.append_assoc, hcomplete]
    simp
  | @body num rest len header cap short =>
    rcases Nat.lt_or_ge len rest.length with hlong | hbody
    · rcases List.eq_nil_or_concat' rest with rfl | ⟨body, c, rfl⟩
      · exact absurd hlong (by simp)
      · rw [List.length_append, List.length_singleton] at hlong short
        obtain rfl : len = body.length := by omega
        have hc : c = CR := by
          by_contra hne
          exact hs (.body header cap hne)
        exact ⟨[LF], body, num, header, cap, by simp [hc]⟩
    · have hlen : (rest ++ List.replicate (len - rest.length) 0).length = len := by
        rw [List.length_append, List.length_replicate]
        omega
      exact ⟨List.replicate (len - rest.length) 0 ++ CRLF,
        rest ++ List.replicate (len - rest.length) 0, num, by rw [hlen]; exact header,
        by rw [hlen]; exact cap, by simp⟩

/-! ## Incomplete requests -/

theorem parseBulks_eq_needMore {n : ℕ} {p : Bytes} {pos : ℕ} {tmp : List RespSlice} :
    parseBulks n p pos tmp = .needMore ↔
      ∃ argv text rest, p = text ++ rest ∧ BulksText argv text ∧ argv.length < n ∧
        OpenBulk rest := by
  constructor
  · intro h
    induction n generalizing p pos tmp with
    | zero => cases h
    | succ n ih =>
      rw [parseBulks] at h
      cases hbulk : parseBulk p pos with
      | needMore =>
        exact ⟨[], [], p, rfl, .nil, Nat.succ_pos n, parseBulk_eq_needMore.mp hbulk⟩
      | protocolErr =>
        rw [hbulk] at h
        cases h
      | ok out =>
        obtain ⟨slice, bulkUsed⟩ := out
        rw [hbulk, RespStatus.bind] at h
        obtain ⟨text, rest, rfl, htext, rfl⟩ := parseBulk_sound hbulk
        simp only [List.drop_left] at h
        obtain ⟨argv, texts, last, rfl, hargv, hlt, hlast⟩ := ih h
        exact ⟨slice.bytes :: argv, text ++ texts, last, by simp, .cons htext hargv,
          Nat.succ_lt_succ hlt, hlast⟩
  · rintro ⟨argv, text, rest, rfl, hargv, hlt, hlast⟩
    obtain ⟨m, rfl⟩ : ∃ m, n = argv.length + (m + 1) := ⟨n - argv.length - 1, by omega⟩
    obtain ⟨new, hskip, -⟩ := parseBulks_skip hargv (m + 1) rest pos tmp
    rw [hskip, parseBulks, parseBulk_eq_needMore.mpr hlast, RespStatus.bind]

/-- **Incomplete requests** are the open ones. -/
theorem respParseRequest_eq_needMore {p : Bytes} :
    respParseRequest p = .needMore ↔ Open p := by
  constructor
  · intro h
    cases p with
    | nil => exact .nil
    | cons c cs =>
      rw [respParseRequest] at h
      by_cases hstar : c = 42
      · rw [if_pos hstar, parseMultiBulk, List.drop_one, List.tail_cons] at h
        rw [hstar]
        cases hint : parseIntUntilCrlf cs with
        | needMore =>
          obtain ⟨negative, digits, cr, rfl, hd⟩ := parseIntUntilCrlf_eq_needMore.mp hint
          exact .argc hd
        | protocolErr =>
          rw [hint] at h
          cases h
        | ok out =>
          obtain ⟨argc, hdrUsed⟩ := out
          rw [hint, RespStatus.bind] at h
          obtain ⟨num, t, rfl, hnum, -, rfl⟩ := parseIntUntilCrlf_eq_ok.mp hint
          simp only [drop_header] at h
          split at h
          · cases h
          · next hargc =>
            cases hbulks : parseBulks argc.toNat t (1 + (num.length + 2)) [] with
            | needMore =>
              obtain ⟨argv, text, rest, rfl, hargv, hlt, hlast⟩ := parseBulks_eq_needMore.mp hbulks
              have hcast : ((argc.toNat : ℕ) : ℤ) = argc := by omega
              exact .bulk (by rw [hnum, hcast]) (by omega) hargv hlt hlast
            | protocolErr =>
              rw [hbulks] at h
              cases h
            | ok out =>
              rw [hbulks] at h
              cases h
      · rw [if_neg hstar] at h
        by_cases hlf : LF ∈ (c :: cs).take RESP_MAX_INLINE_LEN
        · obtain ⟨line, rest, hinput, first, short⟩ := exists_line hlf
          rw [hinput] at h
          by_cases hwords : 1 ≤ (lineWords line).length ∧ (lineWords line).length ≤ RESP_MAX_ARGC
          · obtain ⟨slices, hparse, -⟩ := (parseInline_line first short rest).1 hwords.1 hwords.2
            rw [hparse] at h
            cases h
          · rw [(parseInline_line first short rest).2 hwords] at h
            cases h
        · rw [parseInline_no_line hlf] at h
          split at h
          · cases h
          · next hshort =>
            rw [List.take_of_length_le (by omega)] at hlf
            exact .line hstar hlf (by omega)
  · intro h
    cases h with
    | nil => rfl
    | @argc negative cr digits guarded =>
      have hint := parseIntUntilCrlf_eq_needMore.mpr ⟨negative, digits, cr, rfl, guarded⟩
      rw [respParseRequest, if_pos rfl, parseMultiBulk, List.drop_one, List.tail_cons, hint,
        RespStatus.bind]
    | bulk header le done lt last =>
      rw [respParseRequest, if_pos rfl, parseMultiBulk_header header (by omega) le,
        parseBulks_eq_needMore.mpr ⟨_, _, _, rfl, done, lt, last⟩, RespStatus.bind]
    | line mark first short =>
      rw [respParseRequest, if_neg mark,
        parseInline_no_line (fun h => first (List.mem_of_mem_take h)), if_neg (by omega)]

theorem Stuck.isOpen {p : Bytes} (h : Stuck p) : Open p := by
  cases h with
  | argc guarded out => exact .argc guarded
  | bulk header le done lt last => exact .bulk header le done lt last.isOpen
  | line mark first short here on => exact .line mark first short

theorem chopCr_append (line : Bytes) {more : Bytes} (hmore : more ≠ []) :
    chopCr (line ++ more) = line ++ chopCr more := by
  rw [chopCr, chopCr, List.getLast?_append_of_ne_nil _ hmore]
  split
  · rw [List.dropLast_append_of_ne_nil hmore]
  · rfl

/-- **Stuck input** has no acceptable continuation. -/
theorem Stuck.not_repairable {p : Bytes} (h : Stuck p) : ¬ Repairable p := by
  rintro ⟨s, req, hok⟩
  cases h with
  | @argc negative cr digits guarded out =>
    rw [List.cons_append, respParseRequest, if_pos rfl, parseMultiBulk, List.drop_one,
      List.tail_cons] at hok
    obtain ⟨⟨argc, hdrUsed⟩, hint, hok⟩ := RespStatus.bind_eq_ok hok
    obtain ⟨hle, hneg, hcr⟩ := openNumber_ok guarded hint
    simp only at hok
    split at hok
    · cases hok
    · next hargc =>
      rcases out with rfl | hout | ⟨hclosed, hzero⟩
      · have hnonpos := hneg rfl
        omega
      · omega
      · have hvalue := (hcr hclosed).2
        omega
  | @bulk num bulks rest argc argv header le done lt last =>
    have hsplit : 42 :: (num ++ (CRLF ++ (bulks ++ rest))) ++ s =
        42 :: (num ++ (CRLF ++ (bulks ++ (rest ++ s)))) := by simp
    obtain ⟨m, rfl⟩ : ∃ m, argc = argv.length + (m + 1) := ⟨argc - argv.length - 1, by omega⟩
    obtain ⟨new, hskip, -⟩ := parseBulks_skip done (m + 1) (rest ++ s) (1 + (num.length + 2)) []
    rw [hsplit, respParseRequest, if_pos rfl, parseMultiBulk_header header (by omega) le, hskip,
      parseBulks] at hok
    obtain ⟨out, hbulks, -⟩ := RespStatus.bind_eq_ok hok
    obtain ⟨slice, hbulk, -⟩ := RespStatus.bind_eq_ok hbulks
    exact last.ne_ok s _ slice hbulk
  | @line c line mark first short here on =>
    rw [List.cons_append, respParseRequest, if_neg mark, ← List.cons_append] at hok
    by_cases hlf : LF ∈ ((c :: line) ++ s).take RESP_MAX_INLINE_LEN
    · obtain ⟨line', rest, hinput, first', short'⟩ := exists_line hlf
      rw [hinput] at hok
      by_cases hwords : 1 ≤ (lineWords line').length ∧ (lineWords line').length ≤ RESP_MAX_ARGC
      · -- the line got longer, or ends where the input ended
        obtain ⟨more, hline'⟩ : ∃ more, line' = (c :: line) ++ more := by
          rcases List.append_eq_append_iff.mp hinput with ⟨more, hmore, -⟩ | ⟨more, hmore, hrest⟩
          · exact ⟨more, hmore⟩
          · cases more with
            | nil => exact ⟨[], by rw [hmore, List.append_nil, List.append_nil]⟩
            | cons d ds =>
              obtain ⟨rfl, -⟩ := List.cons_eq_cons.mp hrest
              exact absurd (by rw [hmore]; simp) first
        cases more with
        | nil =>
          rw [List.append_nil] at hline'
          rw [hline'] at hwords
          exact here hwords
        | cons d ds =>
          have hle := length_words_append (p := isBlank) (c :: line) (chopCr (d :: ds))
          rw [← chopCr_append _ (List.cons_ne_nil d ds), ← hline'] at hle
          rw [hline', List.length_append, List.length_cons (a := d)] at short'
          exact on ⟨by omega, Nat.le_trans hle hwords.2⟩
      · rw [(parseInline_line first' short' rest).2 hwords] at hok
        cases hok
    · rw [parseInline_no_line hlf] at hok
      split at hok
      · cases hok
      · cases hok

/-- A frame at the end of the input is accepted. -/
theorem repairable_of_frame {p s : Bytes} {argv : List Bytes} (h : Frame argv (p ++ s)) :
    Repairable p := by
  obtain ⟨slices, hparse, -⟩ := respParseRequest_frame h []
  rw [List.append_nil] at hparse
  exact ⟨s, _, hparse⟩

/-- Empty bulk strings fill up any count. -/
theorem bulksText_empty (n : ℕ) :
    BulksText (List.replicate n []) ((List.replicate n []).flatMap encodeBulk) := by
  apply bulksText_encode
  intro bytes hbytes
  rw [(List.mem_replicate.mp hbytes).2]
  exact Nat.zero_le _

/-- A count in range can be completed; a zero needs another digit. -/
theorem exists_count {digits : Bytes} {cr : Bool} (hds : ∀ c ∈ digits, IsDigit c)
    (hle : value digits 0 ≤ RESP_MAX_ARGC) (hzero : cr = true → value digits 0 ≠ 0) :
    ∃ more : Bytes, ∃ argc, (cr = true → more = []) ∧ (∀ c ∈ digits ++ more, IsDigit c) ∧
      digits ++ more ≠ [] ∧ value (digits ++ more) 0 = argc ∧ 1 ≤ argc ∧
      argc ≤ RESP_MAX_ARGC := by
  by_cases hz : value digits 0 = 0
  · refine ⟨[49], 1, fun hclosed => absurd hz (hzero hclosed), ?_, by simp, ?_, Nat.le_refl 1,
      by decide⟩
    · intro c hc
      rcases List.mem_append.mp hc with hc | hc
      · exact hds c hc
      · obtain rfl := List.mem_singleton.mp hc
        decide
    · rw [value_append, hz]
      rfl
  · refine ⟨[], value digits 0, fun _ => rfl, by simpa using hds, ?_, by simp,
      Nat.pos_of_ne_zero hz, hle⟩
    intro hnil
    rw [List.append_nil] at hnil
    exact hz (by rw [hnil]; rfl)

theorem repairable_argc {digits : Bytes} {cr : Bool} (hds : ∀ c ∈ digits, IsDigit c)
    (hle : value digits 0 ≤ RESP_MAX_ARGC) (hzero : cr = true → value digits 0 ≠ 0) :
    Repairable (42 :: openNumber false digits cr) := by
  obtain ⟨more, argc, hmore, hmore_digits, hne, hvalue, hpos, hmax⟩ := exists_count hds hle hzero
  obtain ⟨s, hcomplete⟩ := openNumber_complete false digits hmore
  have hnum : readInt (openNumber false (digits ++ more) false) = some (argc : ℤ) := by
    rw [readInt_openNumber hmore_digits hne, hvalue]
    rfl
  have hlen : (List.replicate argc ([] : Bytes)).length = argc := List.length_replicate
  have hframe : Frame (List.replicate argc [])
      (42 :: (openNumber false (digits ++ more) false ++
        (CRLF ++ (List.replicate argc ([] : Bytes)).flatMap encodeBulk))) :=
    .multi (by rw [hlen]; exact hnum) (by rw [hlen]; exact hpos) (by rw [hlen]; exact hmax)
      (bulksText_empty argc)
  rw [← List.append_assoc, ← hcomplete, List.append_assoc, ← List.cons_append] at hframe
  exact repairable_of_frame hframe

theorem repairable_bulk {num bulks rest : Bytes} {argc : ℕ} {argv : List Bytes}
    (header : readInt num = some (argc : ℤ)) (le : argc ≤ RESP_MAX_ARGC)
    (done : BulksText argv bulks) (lt : argv.length < argc) (last : OpenBulk rest)
    (hs : ¬ StuckBulk rest) : Repairable (42 :: (num ++ (CRLF ++ (bulks ++ rest)))) := by
  obtain ⟨s, body, hbody⟩ := last.complete hs
  obtain ⟨m, rfl⟩ : ∃ m, argc = argv.length + (m + 1) := ⟨argc - argv.length - 1, by omega⟩
  have hlen : (argv ++ body :: List.replicate m []).length = argv.length + (m + 1) := by
    rw [List.length_append, List.length_cons, List.length_replicate]
  have hframe := Frame.multi (by rw [hlen]; exact header) (by rw [hlen]; omega)
    (by rw [hlen]; exact le) (done.append (.cons hbody (bulksText_empty m)))
  have hsplit : ∀ t, 42 :: (num ++ (CRLF ++ (bulks ++ (rest ++ s ++ t)))) =
      42 :: (num ++ (CRLF ++ (bulks ++ rest))) ++ (s ++ t) := by
    intro t
    simp
  rw [hsplit] at hframe
  exact repairable_of_frame hframe

/-- A line with room is continued by a word if it has none yet, and by a blank
otherwise. -/
theorem repairable_line {c : UInt8} {line : Bytes} (mark : c ≠ 42) (first : LF ∉ c :: line)
    (hroom : (c :: line).length + 2 ≤ RESP_MAX_INLINE_LEN)
    (hwords : (words isBlank (c :: line)).length ≤ RESP_MAX_ARGC) : Repairable (c :: line) := by
  obtain ⟨d, hlf, hcr, hpos, hle⟩ : ∃ d, d ≠ LF ∧ d ≠ CR ∧
      1 ≤ (words isBlank ((c :: line) ++ [d])).length ∧
      (words isBlank ((c :: line) ++ [d])).length ≤ RESP_MAX_ARGC := by
    by_cases hnil : words isBlank (c :: line) = []
    · refine ⟨97, by decide, by decide, ?_⟩
      rw [words_append_of_eq_nil hnil]
      decide
    · refine ⟨32, by decide, by decide, ?_⟩
      rw [words_append_sep rfl]
      exact ⟨List.length_pos_iff.mpr hnil, hwords⟩
  have hline : lineWords ((c :: line) ++ [d]) = words isBlank ((c :: line) ++ [d]) := by
    rw [lineWords, chopCr_append _ (List.cons_ne_nil d []), chopCr, if_neg (by simpa using hcr)]
  have hfirst : LF ∉ (c :: line) ++ [d] := by
    rw [List.mem_append, List.mem_singleton, not_or]
    exact ⟨first, fun h => hlf h.symm⟩
  have hframe := @Frame.inline ((c :: line) ++ [d]) (by simpa using mark) hfirst
    (by rw [List.length_append, List.length_singleton]; omega) (by rw [hline]; exact hpos)
    (by rw [hline]; exact hle)
  rw [List.append_assoc] at hframe
  exact repairable_of_frame hframe

/-- **Every other incomplete input** has one. -/
theorem Open.repairable {p : Bytes} (h : Open p) (hs : ¬ Stuck p) : Repairable p := by
  cases h with
  | nil =>
    have hframe : Frame [[]] ([] ++ (Reply.array [[]]).encode) :=
      frame_encode (by simp) (by simp [RESP_MAX_ARGC]) (by simp)
    exact repairable_of_frame hframe
  | @argc negative cr digits guarded =>
    have hrange : ¬ (negative = true ∨ RESP_MAX_ARGC < value digits 0 ∨
        (cr = true ∧ value digits 0 = 0)) := fun hout => hs (.argc guarded hout)
    rw [not_or, not_or, not_and, Nat.not_lt] at hrange
    obtain ⟨hplus, hle, hzero⟩ := hrange
    obtain rfl : negative = false := by simpa using hplus
    obtain ⟨n, hn⟩ := guarded
    exact repairable_argc (readGuarded_eq_some.mp hn).1 hle hzero
  | bulk header le done lt last =>
    exact repairable_bulk header le done lt last fun hstuck => hs (.bulk header le done lt hstuck)
  | @line c line mark first short =>
    by_cases here : 1 ≤ (lineWords (c :: line)).length ∧
        (lineWords (c :: line)).length ≤ RESP_MAX_ARGC
    · exact repairable_of_frame (.inline (by simpa using mark) first short here.1 here.2)
    · have on : (c :: line).length + 2 ≤ RESP_MAX_INLINE_LEN ∧
          (words isBlank (c :: line)).length ≤ RESP_MAX_ARGC := by
        by_contra hno
        exact hs (.line mark first short here hno)
      exact repairable_line mark first on.1 on.2

/-- **What `RESP_NEED_MORE` promises**: the input is the head of a frame, and input
that is not is rejected at once. -/
def NeedMorePromise (p : Bytes) : Prop :=
  (respParseRequest p = .needMore → Repairable p) ∧
    (¬ Repairable p → respParseRequest p = .protocolErr)

/-- **The promise is kept** exactly for the inputs that are not stuck. -/
theorem needMorePromise_iff_not_stuck (p : Bytes) : NeedMorePromise p ↔ ¬ Stuck p := by
  constructor
  · rintro ⟨hmore, -⟩ hstuck
    exact hstuck.not_repairable (hmore (respParseRequest_eq_needMore.mpr hstuck.isOpen))
  · intro hs
    have hmore : respParseRequest p = .needMore → Repairable p := fun h =>
      (respParseRequest_eq_needMore.mp h).repairable hs
    refine ⟨hmore, fun hno => ?_⟩
    cases hp : respParseRequest p with
    | ok req => exact absurd ⟨[], req, by rw [List.append_nil, hp]⟩ hno
    | needMore => exact absurd (hmore hp) hno
    | protocolErr => rfl

/-- A count of 99 is too large, but is not rejected before its CRLF. -/
theorem large_count_waits : respParseRequest (ascii "*99") = .needMore ∧
    ¬ Repairable (ascii "*99") := by
  have hstuck : Stuck (ascii "*99") :=
    @Stuck.argc false false (ascii "99") ⟨99, rfl⟩ (Or.inr (Or.inl (by decide)))
  exact ⟨rfl, hstuck.not_repairable⟩

end RedisInC
