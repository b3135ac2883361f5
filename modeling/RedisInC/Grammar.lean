import RedisInC.RespFramer
import RedisInC.Words

/-!
# The grammar of requests

What the request parser accepts, as a language of byte strings that does not
mention the parser.

* `BulkText`, `BulksText` — length-prefixed binary strings.
* `Frame` — a request frame with its arguments: a counted array of bulk strings,
  or a line of words.
* `respParseRequest_iff_frame` — the parser accepts exactly the frames.
* `respParseRequest_final` — a verdict other than `RESP_NEED_MORE` is final.
* `frame_encode` — the encoding of an argument list is a frame; hence parsing it
  gives the list back, `respParseRequest_encode`.
-/

namespace RedisInC

open DecimalText Words

/-! ## Frames -/

/-- `"$L\r\n<L bytes>\r\n"` with the given body; `L` is any decimal integer with
the right value. -/
def BulkText (body text : Bytes) : Prop :=
  ∃ num, readInt num = some (body.length : ℤ) ∧ body.length ≤ RESP_MAX_BULK_LEN ∧
    text = 36 :: (num ++ (CRLF ++ (body ++ CRLF)))

/-- Bulk strings one after the other. -/
inductive BulksText : List Bytes → Bytes → Prop
  /-- none -/
  | nil : BulksText [] []
  /-- one more at the head -/
  | cons {body text : Bytes} {argv : List Bytes} {texts : Bytes} (bulk : BulkText body text)
      (bulks : BulksText argv texts) : BulksText (body :: argv) (text ++ texts)

/-- A line without one CR directly before its newline. -/
def chopCr (line : Bytes) : Bytes := if line.getLast? = some CR then line.dropLast else line

/-- The words of a line: what stands between spaces and tabs. -/
def lineWords (line : Bytes) : List Bytes := words isBlank (chopCr line)

/-- A request frame and its arguments. -/
inductive Frame : List Bytes → Bytes → Prop
  /-- `'*' N CRLF` and exactly `N` bulk strings -/
  | multi {argv : List Bytes} {num bulks : Bytes} (header : readInt num = some (argv.length : ℤ))
      (pos : 1 ≤ argv.length) (le : argv.length ≤ RESP_MAX_ARGC) (body : BulksText argv bulks) :
      Frame argv (42 :: (num ++ (CRLF ++ bulks)))
  /-- a line up to its first newline -/
  | inline {line : Bytes} (mark : line.head? ≠ some 42) (first : LF ∉ line)
      (short : line.length < RESP_MAX_INLINE_LEN) (pos : 1 ≤ (lineWords line).length)
      (le : (lineWords line).length ≤ RESP_MAX_ARGC) : Frame (lineWords line) (line ++ [LF])

/-! ## Numbers -/

/-- The digit loop passes digits that keep to the guard. -/
theorem parseIntLoop_skip {negative : Bool} {digitsAt : ℕ} {cs : Bytes} {v n i : ℕ}
    (h : readGuarded DIGIT_GUARD cs v = some n) (t : Bytes) :
    parseIntLoop negative digitsAt (cs ++ t) v i =
      parseIntLoop negative digitsAt t n (i + cs.length) := by
  induction cs generalizing v i with
  | nil =>
    cases h
    rfl
  | cons c cs ih =>
    rw [readGuarded] at h
    split at h
    · cases h
    · next hdigit =>
      split at h
      · cases h
      · next hguard =>
        have hc := not_not.mp hdigit
        have hcr : c ≠ CR := by
          rintro rfl
          exact absurd hc (by decide)
        have hrange : ¬ (c < 48 ∨ c > 57) := mt not_isDigit_iff.mpr hdigit
        have hbound : ¬ (v : ℤ) > (INT64_MAX - 9) / 10 := by
          rw [digit_guard_eq]
          omega
        rw [List.cons_append, parseIntLoop, if_neg hcr, if_neg hrange, if_neg hbound, cast_digit hc,
          ih h, List.length_cons, Nat.add_right_comm i 1, Nat.add_assoc i]

/-- The digit loop over digits that keep to the guard, up to the CRLF. -/
theorem parseIntLoop_digits {negative : Bool} {digitsAt : ℕ} {cs : Bytes} {v w i : ℕ}
    (h : readGuarded DIGIT_GUARD cs v = some w) (hi : digitsAt < i + cs.length) (t : Bytes) :
    parseIntLoop negative digitsAt (cs ++ (CRLF ++ t)) v i =
      .ok (if negative then -(w : ℤ) else w, i + cs.length + 2) := by
  rw [parseIntLoop_skip h, List.cons_append, parseIntLoop, if_pos rfl]
  simp only [List.cons_append, List.head?_cons]
  rw [if_neg (by simp), if_neg (Nat.ne_of_gt hi)]

/-- **The language of the number parser**: a decimal integer within the guard and
its CRLF, whatever follows. -/
theorem parseIntUntilCrlf_eq_ok {p : Bytes} {v : ℤ} {n : ℕ} :
    parseIntUntilCrlf p = .ok (v, n) ↔
      ∃ num rest, p = num ++ (CRLF ++ rest) ∧ readInt num = some v ∧
        v.natAbs ≤ 10 * DIGIT_GUARD + 9 ∧ n = num.length + 2 := by
  constructor
  · intro h
    cases p with
    | nil => cases h
    | cons c cs =>
      rw [parseIntUntilCrlf] at h
      by_cases hminus : c = 45
      · rw [if_pos hminus] at h
        obtain ⟨ds, rest, u, rfl, hread, rfl, rfl, hpos⟩ := parseIntLoop_eq_ok (Nat.le_refl 1) h
        have hne : ds ≠ [] := by
          rintro rfl
          exact absurd hpos (by simp)
        obtain ⟨hnat, hle⟩ := (readGuarded_iff_readNat hne).mp hread
        refine ⟨c :: ds, rest, rfl, ?_, ?_, by rw [List.length_cons]; omega⟩
        · rw [readInt, if_pos hminus, hnat]
          rfl
        · simpa using hle
      · rw [if_neg hminus] at h
        obtain ⟨ds, rest, u, hp, hread, rfl, rfl, hpos⟩ := parseIntLoop_eq_ok (Nat.le_refl 0) h
        cases ds with
        | nil => exact absurd hpos (by simp)
        | cons d ds =>
          obtain ⟨rfl, -⟩ := List.cons_eq_cons.mp hp
          obtain ⟨hnat, hle⟩ := (readGuarded_iff_readNat (List.cons_ne_nil c ds)).mp hread
          refine ⟨c :: ds, rest, hp, ?_, ?_, by omega⟩
          · rw [readInt, if_neg hminus, hnat]
            rfl
          · simpa using hle
  · rintro ⟨num, rest, rfl, hnum, hle, rfl⟩
    cases num with
    | nil => cases hnum
    | cons c cs =>
      rw [List.cons_append, parseIntUntilCrlf]
      rw [readInt] at hnum
      by_cases hminus : c = 45
      · rw [if_pos hminus] at hnum ⊢
        obtain ⟨u, hu, rfl⟩ := Option.map_eq_some_iff.mp hnum
        have hne : cs ≠ [] := by
          rintro rfl
          cases hu
        rw [Int.natAbs_neg, Int.natAbs_natCast] at hle
        have hread := (readGuarded_iff_readNat hne).mpr ⟨hu, hle⟩
        have hpos := List.length_pos_iff.mpr hne
        have hloop : parseIntLoop true 1 (cs ++ (CRLF ++ rest)) ((0 : ℕ) : ℤ) 1 =
            .ok (-(u : ℤ), 1 + cs.length + 2) := parseIntLoop_digits hread (by omega) rest
        rw [List.length_cons, Nat.add_comm cs.length 1]
        exact hloop
      · rw [if_neg hminus] at hnum ⊢
        obtain ⟨u, hu, rfl⟩ := Option.map_eq_some_iff.mp hnum
        rw [Int.natAbs_natCast] at hle
        have hread := (readGuarded_iff_readNat (List.cons_ne_nil c cs)).mpr ⟨hu, hle⟩
        have hloop : parseIntLoop false 0 (c :: cs ++ (CRLF ++ rest)) ((0 : ℕ) : ℤ) 0 =
            .ok ((u : ℤ), 0 + (c :: cs).length + 2) :=
          parseIntLoop_digits hread (by rw [List.length_cons]; omega) rest
        rw [Nat.zero_add, List.cons_append] at hloop
        exact hloop

/-! ## Bulk strings -/

/-- A CRLF in the middle of some bytes. -/
theorem split_crlf {s : Bytes} {n : ℕ} (hcr : s[n]? = some CR) (hlf : s[n + 1]? = some LF) :
    s = s.take n ++ (CRLF ++ s.drop (n + 2)) := by
  obtain ⟨hn, hcr⟩ := List.getElem?_eq_some_iff.mp hcr
  obtain ⟨hn', hlf⟩ := List.getElem?_eq_some_iff.mp hlf
  have hdrop : s.drop n = CRLF ++ s.drop (n + 2) := by
    rw [List.drop_eq_getElem_cons hn, hcr, List.drop_eq_getElem_cons hn', hlf]
    rfl
  rw [← hdrop, List.take_append_drop]

/-- Behind a header: its mark, its number and its CRLF are skipped. -/
theorem drop_header (mark : UInt8) (num t : Bytes) :
    (mark :: (num ++ (CRLF ++ t))).drop (1 + (num.length + 2)) = t := by
  rw [Nat.add_comm 1, List.drop_succ_cons, ← List.drop_drop, List.drop_left]
  rfl

/-- Every bulk string is parsed, whatever follows. -/
theorem parseBulk_bulkText {body text : Bytes} (h : BulkText body text) (base : ℕ) (t : Bytes) :
    ∃ slice, parseBulk (text ++ t) base = .ok (slice, text.length) ∧ slice.bytes = body := by
  obtain ⟨num, hnum, hcap, rfl⟩ := h
  have hmax : RESP_MAX_BULK_LEN ≤ 10 * DIGIT_GUARD + 9 := by decide
  have hsplit : 36 :: (num ++ (CRLF ++ (body ++ CRLF))) ++ t =
      36 :: (num ++ (CRLF ++ (body ++ (CRLF ++ t)))) := by simp
  have hint : parseIntUntilCrlf (num ++ (CRLF ++ (body ++ (CRLF ++ t)))) =
      .ok ((body.length : ℤ), num.length + 2) :=
    parseIntUntilCrlf_eq_ok.mpr ⟨num, _, rfl, hnum, by rw [Int.natAbs_natCast]; omega, rfl⟩
  have hget : ∀ j, (36 :: (num ++ (CRLF ++ (body ++ (CRLF ++ t)))))[1 + (num.length + 2) + j]? =
      (body ++ (CRLF ++ t))[j]? := by
    intro j
    rw [← List.getElem?_drop, drop_header]
  have hcr := hget body.length
  have hlf := hget (body.length + 1)
  rw [List.getElem?_append_right (Nat.le_refl _), Nat.sub_self] at hcr
  rw [List.getElem?_append_right (by omega), Nat.add_sub_cancel_left, ← Nat.add_assoc] at hlf
  have htotal : ¬ (36 :: (num ++ (CRLF ++ (body ++ (CRLF ++ t))))).length <
      1 + (num.length + 2) + body.length + 2 := by
    simp only [List.length_cons, List.length_append]
    omega
  refine ⟨⟨base + (1 + (num.length + 2)), body⟩, ?_, rfl⟩
  rw [hsplit, parseBulk, if_neg (by simp), hint, RespStatus.bind]
  simp only [Int.toNat_natCast]
  rw [if_neg (by omega), if_neg (by omega), if_neg htotal, hcr, hlf, if_neg (by simp), drop_header,
    List.take_left]
  simp only [List.length_cons, List.length_append, List.length_nil]
  congr 2
  omega

/-- What is parsed is a bulk string. -/
theorem parseBulk_sound {p : Bytes} {base n : ℕ} {slice : RespSlice}
    (h : parseBulk p base = .ok (slice, n)) :
    ∃ text rest, p = text ++ rest ∧ BulkText slice.bytes text ∧ n = text.length := by
  obtain ⟨cs, length, hdrUsed, rfl, hint, hlength, hmore, hcr, hlf, rfl, rfl⟩ := parseBulk_inv h
  obtain ⟨num, rest, rfl, hnum, -, rfl⟩ := parseIntUntilCrlf_eq_ok.mp hint
  have hdrop := drop_header 36 num rest
  -- the CRLF behind the body, seen from the body on
  rw [← List.getElem?_drop, hdrop] at hcr
  rw [Nat.add_assoc _ length.toNat 1, ← List.getElem?_drop, hdrop] at hlf
  have hrest := split_crlf hcr hlf
  have hlen : (rest.take length.toNat).length = length.toNat := by
    rw [List.length_take]
    simp only [List.length_cons, List.length_append, List.length_nil] at hmore
    omega
  refine ⟨36 :: (num ++ (CRLF ++ (rest.take length.toNat ++ CRLF))),
    rest.drop (length.toNat + 2), ?_, ⟨num, ?_, ?_, ?_⟩, ?_⟩
  · conv_lhs => rw [hrest]
    simp
  · rw [hdrop, hlen, hnum]
    congr 1
    omega
  · rw [hdrop, hlen]
    omega
  · rw [hdrop]
  · simp only [List.length_cons, List.length_append, hlen, List.length_nil]
    omega

/-- The loop passes complete bulk strings and goes on behind them. -/
theorem parseBulks_skip {argv : List Bytes} {text : Bytes} (h : BulksText argv text) (m : ℕ)
    (t : Bytes) (pos : ℕ) (tmp : List RespSlice) :
    ∃ new, parseBulks (argv.length + m) (text ++ t) pos tmp =
      parseBulks m t (pos + text.length) (tmp ++ new) ∧ new.map (·.bytes) = argv := by
  induction h generalizing pos tmp with
  | nil => exact ⟨[], by simp, rfl⟩
  | @cons body text argv texts bulk bulks ih =>
    obtain ⟨slice, hbulk, hslice⟩ := parseBulk_bulkText bulk pos (texts ++ t)
    obtain ⟨new, hbulks, hnew⟩ := ih (pos + text.length) (tmp ++ [slice])
    refine ⟨slice :: new, ?_, by rw [List.map_cons, hslice, hnew]⟩
    rw [List.length_cons, Nat.add_right_comm, List.append_assoc, parseBulks, hbulk,
      RespStatus.bind]
    simp only [List.drop_left]
    rw [hbulks, List.append_assoc, List.singleton_append, List.length_append, Nat.add_assoc]

theorem parseBulks_sound {n : ℕ} {p : Bytes} {pos pos' : ℕ} {tmp out : List RespSlice}
    (h : parseBulks n p pos tmp = .ok (out, pos')) :
    ∃ new text rest, out = tmp ++ new ∧ new.length = n ∧ p = text ++ rest ∧
      BulksText (new.map (·.bytes)) text ∧ pos' = pos + text.length := by
  induction n generalizing p pos tmp with
  | zero =>
    cases h
    exact ⟨[], [], p, (List.append_nil _).symm, rfl, rfl, .nil, rfl⟩
  | succ n ih =>
    rw [parseBulks] at h
    obtain ⟨⟨slice, bulkUsed⟩, hbulk, h⟩ := RespStatus.bind_eq_ok h
    obtain ⟨text, rest, rfl, htext, rfl⟩ := parseBulk_sound hbulk
    simp only [List.drop_left] at h
    obtain ⟨new, texts, rest, rfl, hnew, rfl, htexts, rfl⟩ := ih h
    refine ⟨slice :: new, text ++ texts, rest, by simp, by rw [List.length_cons, hnew], by simp,
      .cons htext htexts, ?_⟩
    rw [List.length_append, Nat.add_assoc]

/-! ## Multi-bulk frames -/

/-- The header of an array is passed. -/
theorem parseMultiBulk_header {num : Bytes} {argc : ℕ} (hnum : readInt num = some (argc : ℤ))
    (hpos : 1 ≤ argc) (hle : argc ≤ RESP_MAX_ARGC) (t : Bytes) :
    parseMultiBulk (42 :: (num ++ (CRLF ++ t))) =
      (parseBulks argc t (1 + (num.length + 2)) []).bind fun (tmp, pos) =>
        .ok (commitArgs tmp pos) := by
  have hmax : RESP_MAX_ARGC ≤ 10 * DIGIT_GUARD + 9 := by decide
  have hint : parseIntUntilCrlf (num ++ (CRLF ++ t)) = .ok ((argc : ℤ), num.length + 2) :=
    parseIntUntilCrlf_eq_ok.mpr ⟨num, t, rfl, hnum, by rw [Int.natAbs_natCast]; omega, rfl⟩
  rw [parseMultiBulk, List.drop_one, List.tail_cons, hint, RespStatus.bind]
  simp only [Int.toNat_natCast]
  rw [if_neg (by omega), drop_header]

theorem parseMultiBulk_sound {cs : Bytes} {req : RespRequest}
    (h : parseMultiBulk (42 :: cs) = .ok req) :
    ∃ text rest, 42 :: cs = text ++ rest ∧ Frame req.argv text ∧
      req.bytesConsumed = text.length := by
  obtain ⟨argc, hdrUsed, tmp, pos, hint, hargc, hbulks, rfl⟩ := parseMultiBulk_inv h
  rw [List.drop_one, List.tail_cons] at hint
  obtain ⟨num, t, rfl, hnum, -, rfl⟩ := parseIntUntilCrlf_eq_ok.mp hint
  rw [drop_header] at hbulks
  obtain ⟨new, text, rest, hout, hnew, rfl, htext, rfl⟩ := parseBulks_sound hbulks
  obtain rfl : tmp = new := hout
  have hlen : (tmp.map (·.bytes)).length = argc.toNat := by
    rw [List.length_map, hnew]
  have hmulti : Frame (tmp.map (·.bytes)) (42 :: (num ++ (CRLF ++ text))) := by
    refine .multi ?_ (by omega) (by omega) htext
    rw [hnum, hlen]
    congr 1
    omega
  refine ⟨42 :: (num ++ (CRLF ++ text)), rest, by simp, ?_, ?_⟩
  · rw [argv_commitArgs]
    exact hmulti
  · simp only [commitArgs, List.length_cons, List.length_append, List.length_nil]
    omega

/-! ## Lines -/

/-- **The tokenizer** finds the words of a line, if they fit in the slots. -/
theorem tokenize_words {fuel : ℕ} {rest : Bytes} (i : ℕ) {tmp : List RespSlice}
    (hfuel : rest.length ≤ fuel) (htmp : tmp.length ≤ RESP_MAX_ARGC) :
    (tmp.length + (words isBlank rest).length ≤ RESP_MAX_ARGC →
      ∃ new, tokenize fuel rest i tmp = .ok (tmp ++ new) ∧
        new.map (·.bytes) = words isBlank rest) ∧
    (RESP_MAX_ARGC < tmp.length + (words isBlank rest).length →
      tokenize fuel rest i tmp = .protocolErr) := by
  induction fuel generalizing rest i tmp with
  | zero =>
    obtain rfl : rest = [] := List.length_eq_zero_iff.mp (Nat.le_zero.mp hfuel)
    rw [words_nil, List.length_nil, Nat.add_zero]
    exact ⟨fun _ => ⟨[], by rw [tokenize, List.append_nil], rfl⟩, fun h => absurd h (by omega)⟩
  | succ fuel ih =>
    rw [tokenize]
    simp only
    cases hdrop : rest.dropWhile isBlank with
    | nil =>
      rw [words_blank hdrop, List.length_nil, Nat.add_zero, if_pos List.length_nil]
      exact ⟨fun _ => ⟨[], by rw [List.append_nil], rfl⟩, fun h => absurd h (by omega)⟩
    | cons a l =>
      have ha : isBlank a = false := by
        have hhead := List.head?_dropWhile_not isBlank rest
        rw [hdrop] at hhead
        simpa using hhead
      have hshort : ((a :: l).dropWhile fun c => !isBlank c).length ≤ fuel := by
        rw [List.dropWhile_cons, if_pos (by simp [ha])]
        have hle := (List.dropWhile_suffix isBlank (l := rest)).length_le
        have hle' := (List.dropWhile_suffix (fun c => !isBlank c) (l := l)).length_le
        rw [hdrop, List.length_cons] at hle
        omega
      rw [← words_dropWhile, hdrop, words_run ha, List.length_cons, if_neg (by simp)]
      by_cases hfull : tmp.length ≥ RESP_MAX_ARGC
      · rw [if_pos hfull]
        exact ⟨fun h => absurd h (by omega), fun _ => rfl⟩
      · rw [if_neg hfull]
        set tok := (a :: l).takeWhile fun c => !isBlank c
        set start := i + (rest.takeWhile isBlank).length
        set slice : RespSlice := ⟨start, tok⟩
        have htmp' : (tmp ++ [slice]).length = tmp.length + 1 := by simp
        have hroom : (tmp ++ [slice]).length ≤ RESP_MAX_ARGC := by omega
        obtain ⟨hok, herr⟩ := ih (start + tok.length) hshort hroom
        rw [htmp'] at hok herr
        constructor
        · intro hle
          obtain ⟨new, hnew, hwords⟩ := hok (by omega)
          refine ⟨slice :: new, ?_, by rw [List.map_cons, hwords]⟩
          rw [hnew, List.append_assoc, List.singleton_append]
        · intro hlt
          exact herr (by omega)

theorem inlineLine_line (line rest : Bytes) :
    inlineLine (line ++ LF :: rest) line.length = chopCr line := by
  rw [inlineLine, chopCr, List.getLast?_eq_getElem?]
  cases hline : line with
  | nil => rfl
  | cons c cs =>
    have hpos : 0 < (c :: cs).length := by simp
    rw [List.getElem?_append_left (by omega)]
    by_cases hcr : (c :: cs)[(c :: cs).length - 1]? = some CR
    · rw [if_pos ⟨hpos, hcr⟩, if_pos hcr, List.take_append_of_le_length (by omega),
        List.dropLast_eq_take]
    · rw [if_neg (fun h => hcr h.2), if_neg hcr, List.take_left]

/-- A complete line is accepted if it has 1 to 32 words, and rejected otherwise. -/
theorem parseInline_line {line : Bytes} (first : LF ∉ line)
    (short : line.length < RESP_MAX_INLINE_LEN) (rest : Bytes) :
    (1 ≤ (lineWords line).length → (lineWords line).length ≤ RESP_MAX_ARGC →
      ∃ slices, parseInline (line ++ LF :: rest) = .ok (commitArgs slices (line.length + 1)) ∧
        slices.map (·.bytes) = lineWords line) ∧
    (¬ (1 ≤ (lineWords line).length ∧ (lineWords line).length ≤ RESP_MAX_ARGC) →
      parseInline (line ++ LF :: rest) = .protocolErr) := by
  rw [parseInline]
  simp only
  set input := line ++ LF :: rest with hinput
  set lim := if input.length < RESP_MAX_INLINE_LEN then input.length else RESP_MAX_INLINE_LEN
    with hlim
  have hlen : input.length = line.length + (rest.length + 1) := by
    rw [hinput, List.length_append, List.length_cons]
  have hlt : line.length < lim := by
    rw [hlim]
    split <;> omega
  have hnl : (input.take lim).findIdx (· = LF) = line.length := by
    obtain ⟨k, hk⟩ : ∃ k, lim = line.length + (k + 1) := ⟨lim - line.length - 1, by omega⟩
    rw [hinput, hk, List.take_length_add_append, List.take_succ_cons, List.findIdx_append,
      if_neg (by simpa using first)]
    simp [List.findIdx_cons]
  rw [hnl, if_neg (Nat.ne_of_lt hlt), hinput, inlineLine_line]
  obtain ⟨hok, herr⟩ := @tokenize_words _ (chopCr line) 0 [] (Nat.le_refl _) (Nat.zero_le _)
  rw [List.length_nil, Nat.zero_add] at hok herr
  change ((lineWords line).length ≤ RESP_MAX_ARGC → _) at hok
  change (RESP_MAX_ARGC < (lineWords line).length → _) at herr
  constructor
  · intro hpos hle
    obtain ⟨slices, htok, hslices⟩ := hok hle
    have hcount : slices.length = (lineWords line).length := by
      rw [lineWords, ← hslices, List.length_map]
    refine ⟨slices, ?_, hslices⟩
    rw [htok, RespStatus.bind, List.nil_append, if_neg (by omega)]
  · intro hbad
    by_cases hle : (lineWords line).length ≤ RESP_MAX_ARGC
    · obtain ⟨slices, htok, hslices⟩ := hok hle
      have hcount : slices.length = (lineWords line).length := by
        rw [lineWords, ← hslices, List.length_map]
      rw [htok, RespStatus.bind, List.nil_append, if_pos (by omega)]
    · rw [herr (by omega), RespStatus.bind]

/-- Without a newline within reach there is no line yet, or it is too long. -/
theorem parseInline_no_line {input : Bytes} (h : LF ∉ input.take RESP_MAX_INLINE_LEN) :
    parseInline input =
      if input.length ≥ RESP_MAX_INLINE_LEN then .protocolErr else .needMore := by
  rw [parseInline]
  simp only
  have hlim : (if input.length < RESP_MAX_INLINE_LEN then input.length else RESP_MAX_INLINE_LEN) =
      (input.take RESP_MAX_INLINE_LEN).length := by
    rw [List.length_take]
    split <;> omega
  have htake : input.take (input.take RESP_MAX_INLINE_LEN).length =
      input.take RESP_MAX_INLINE_LEN := by
    rw [List.length_take, ← List.take_take, List.take_length]
  rw [hlim, htake, if_pos]
  rw [List.findIdx_eq_length]
  intro c hc
  simpa using fun hlf : c = LF => h (hlf ▸ hc)

/-- The first line of the input, if its newline is within reach. -/
theorem exists_line {input : Bytes} (h : LF ∈ input.take RESP_MAX_INLINE_LEN) :
    ∃ line rest, input = line ++ LF :: rest ∧ LF ∉ line ∧ line.length < RESP_MAX_INLINE_LEN := by
  obtain ⟨line, rest, hsplit, hfirst⟩ := List.eq_append_cons_of_mem h
  refine ⟨line, rest ++ input.drop RESP_MAX_INLINE_LEN, ?_, hfirst, ?_⟩
  · rw [← List.cons_append, ← List.append_assoc, ← hsplit, List.take_append_drop]
  · have hle := List.length_take_le RESP_MAX_INLINE_LEN input
    rw [hsplit, List.length_append, List.length_cons] at hle
    omega

/-! ## Requests -/

/-- **Completeness.** Every frame is accepted, whatever follows. -/
theorem respParseRequest_frame {argv : List Bytes} {text : Bytes} (h : Frame argv text)
    (t : Bytes) : ∃ slices, respParseRequest (text ++ t) = .ok (commitArgs slices text.length) ∧
      slices.map (·.bytes) = argv := by
  cases h with
  | @multi _ num bulks header pos le body =>
    obtain ⟨slices, hbulks, hslices⟩ := parseBulks_skip body 0 t (1 + (num.length + 2)) []
    refine ⟨slices, ?_, hslices⟩
    have hsplit : 42 :: (num ++ (CRLF ++ bulks)) ++ t = 42 :: (num ++ (CRLF ++ (bulks ++ t))) := by
      simp
    rw [hsplit, respParseRequest, if_pos rfl, parseMultiBulk_header header pos le,
      ← Nat.add_zero argv.length, hbulks, parseBulks, RespStatus.bind, List.nil_append]
    simp only [List.length_cons, List.length_append, List.length_nil]
    congr 2
    omega
  | @inline line mark first short pos le =>
    obtain ⟨slices, hparse, hslices⟩ := (parseInline_line first short t).1 pos le
    refine ⟨slices, ?_, hslices⟩
    rw [List.append_assoc, List.singleton_append, List.length_append, List.length_singleton,
      ← hparse]
    cases line with
    | nil => rfl
    | cons c cs =>
      have hc : c ≠ 42 := by simpa using mark
      rw [List.cons_append, respParseRequest, if_neg hc]

/-- **Soundness.** What is accepted is a frame at the head of the input. -/
theorem respParseRequest_sound {input : Bytes} {req : RespRequest}
    (h : respParseRequest input = .ok req) :
    ∃ text rest, input = text ++ rest ∧ Frame req.argv text ∧ req.bytesConsumed = text.length := by
  cases input with
  | nil => cases h
  | cons c cs =>
    rw [respParseRequest] at h
    by_cases hstar : c = 42
    · rw [if_pos hstar] at h
      obtain rfl := hstar
      exact parseMultiBulk_sound h
    · rw [if_neg hstar] at h
      by_cases hlf : LF ∈ (c :: cs).take RESP_MAX_INLINE_LEN
      · obtain ⟨line, rest, hinput, first, short⟩ := exists_line hlf
        rw [hinput] at h
        have hmark : line.head? ≠ some 42 := by
          cases line with
          | nil => simp
          | cons d ds =>
            obtain ⟨rfl, -⟩ := List.cons_eq_cons.mp hinput
            simpa using hstar
        by_cases hwords : 1 ≤ (lineWords line).length ∧ (lineWords line).length ≤ RESP_MAX_ARGC
        · obtain ⟨slices, hparse, hslices⟩ :=
            (parseInline_line first short rest).1 hwords.1 hwords.2
          rw [hparse] at h
          cases h
          refine ⟨line ++ [LF], rest, by rw [hinput]; simp, ?_, by simp [commitArgs]⟩
          rw [argv_commitArgs, hslices]
          exact .inline hmark first short hwords.1 hwords.2
        · rw [(parseInline_line first short rest).2 hwords] at h
          cases h
      · rw [parseInline_no_line hlf] at h
        split at h
        · cases h
        · cases h

/-- **The language of the parser.** A request with arguments `argv` and length
`n` is accepted exactly if the first `n` bytes are a frame of `argv`. -/
theorem respParseRequest_iff_frame (input : Bytes) (argv : List Bytes) (n : ℕ) :
    (∃ req, respParseRequest input = .ok req ∧ req.argv = argv ∧ req.bytesConsumed = n) ↔
      n ≤ input.length ∧ Frame argv (input.take n) := by
  constructor
  · rintro ⟨req, hparse, rfl, rfl⟩
    obtain ⟨text, rest, rfl, hframe, hlen⟩ := respParseRequest_sound hparse
    rw [hlen, List.take_left, List.length_append]
    exact ⟨Nat.le_add_right _ _, hframe⟩
  · rintro ⟨hle, hframe⟩
    obtain ⟨slices, hparse, hslices⟩ := respParseRequest_frame hframe (input.drop n)
    rw [List.take_append_drop, List.length_take_of_le hle] at hparse
    exact ⟨_, hparse, (argv_commitArgs _ _).trans hslices, rfl⟩

/-- **Verdicts are final.** Neither an accepted request nor a rejection changes
when more bytes arrive. -/
theorem respParseRequest_final (p s : Bytes) :
    (∀ req, respParseRequest p = .ok req → respParseRequest (p ++ s) = .ok req) ∧
      (respParseRequest p = .protocolErr → respParseRequest (p ++ s) = .protocolErr) := by
  constructor
  · intro req hok
    rw [respParseRequest_append (by rw [hok]; simp), hok]
  · intro herr
    rw [respParseRequest_append (by rw [herr]; simp), herr]

theorem respParseRequest_final_examples :
    respParseRequest (ascii "PING\r\n" ++ ascii "*1") = .ok (commitArgs [⟨0, ascii "PING"⟩] 6) ∧
      respParseRequest (ascii "*0\r\n" ++ ascii "PING\r\n") = .protocolErr :=
  ⟨(respParseRequest_final (ascii "PING\r\n") (ascii "*1")).1 _ rfl,
    (respParseRequest_final (ascii "*0\r\n") (ascii "PING\r\n")).2 rfl⟩

/-! ## Encoded argument lists -/

theorem bulkText_encodeBulk {bytes : Bytes} (h : bytes.length ≤ RESP_MAX_BULK_LEN) :
    BulkText bytes (encodeBulk bytes) := by
  have hmax : RESP_MAX_BULK_LEN ≤ SIZE_MAX := by decide
  refine ⟨natText bytes.length, readInt_natText _, h, ?_⟩
  rw [encodeBulk, sizeT_of_le (Nat.le_trans h hmax)]
  simp [ascii]

theorem bulksText_encode {items : List Bytes}
    (h : ∀ bytes ∈ items, bytes.length ≤ RESP_MAX_BULK_LEN) :
    BulksText items (items.flatMap encodeBulk) := by
  induction items with
  | nil => exact .nil
  | cons bytes items ih =>
    rw [List.flatMap_cons]
    exact .cons (bulkText_encodeBulk (h bytes (List.mem_cons_self ..)))
      (ih fun b hb => h b (List.mem_cons_of_mem _ hb))

/-- **The encoding of an argument list** is a frame. -/
theorem frame_encode {items : List Bytes} (hpos : items ≠ [])
    (hargc : items.length ≤ RESP_MAX_ARGC)
    (hitems : ∀ bytes ∈ items, bytes.length ≤ RESP_MAX_BULK_LEN) :
    Frame items (Reply.array items).encode := by
  have hmax : RESP_MAX_ARGC ≤ SIZE_MAX := by decide
  have hheader : (Reply.array items).encode =
      42 :: (natText items.length ++ (CRLF ++ items.flatMap encodeBulk)) := by
    rw [Reply.encode, encodeArrayHeader, sizeT_of_le (Nat.le_trans hargc hmax)]
    simp [ascii]
  rw [hheader]
  exact .multi (readInt_natText _) (List.length_pos_iff.mpr hpos) hargc (bulksText_encode hitems)

/-- **Decoding undoes encoding.** An array of 1 to 32 bulk strings is a request
frame, and its arguments are the elements of the array, whatever follows. -/
theorem respParseRequest_encode {items : List Bytes} (hpos : items ≠ [])
    (hargc : items.length ≤ RESP_MAX_ARGC)
    (hitems : ∀ bytes ∈ items, bytes.length ≤ RESP_MAX_BULK_LEN) (t : Bytes) :
    ∃ slices, respParseRequest ((Reply.array items).encode ++ t) =
      .ok (commitArgs slices (Reply.array items).encode.length) ∧
        slices.map (·.bytes) = items :=
  respParseRequest_frame (frame_encode hpos hargc hitems) t

end RedisInC
