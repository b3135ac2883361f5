import Mathlib.Algebra.Order.BigOperators.Group.List
import RedisInC.Framing
import RedisInC.Reply

/-!
# The request parser as a framer

The parser keeps no state between calls: after every read the whole buffer is
parsed again. What makes this sound:

* `respParseRequest_append` — a verdict other than `RESP_NEED_MORE` never changes
  when more bytes arrive.
* `respParseRequest_parsed` — an accepted request is a non-empty frame of the
  input, with 1 to 32 arguments that lie in it (`RespRequest.Parsed`).
* `respFramer` — hence the parser is a `Framing.Framer`, and all that is known of
  these applies to the stream of a connection.
-/

namespace RedisInC

open DecimalText

/-! ## Stability -/

theorem RespStatus.bind_append {α β : Type} {st st' : RespStatus α} {f f' : α → RespStatus β}
    (h : st.bind f ≠ .needMore) (hst : st ≠ .needMore → st' = st)
    (hf : ∀ a, st = .ok a → f a ≠ .needMore → f' a = f a) : st'.bind f' = st.bind f := by
  cases st with
  | ok a =>
    rw [hst (by simp)]
    exact hf a rfl h
  | needMore => exact absurd rfl h
  | protocolErr =>
    rw [hst (by simp)]
    rfl

theorem parseIntLoop_append {negative : Bool} {digitsAt : ℕ} {p : Bytes} {value : ℤ} {i : ℕ}
    (h : parseIntLoop negative digitsAt p value i ≠ .needMore) (t : Bytes) :
    parseIntLoop negative digitsAt (p ++ t) value i = parseIntLoop negative digitsAt p value i := by
  induction p generalizing value i with
  | nil => exact absurd rfl h
  | cons c cs ih =>
    rw [parseIntLoop] at h
    rw [List.cons_append, parseIntLoop, parseIntLoop]
    by_cases hcr : c = CR
    · rw [if_pos hcr] at h
      rw [if_pos hcr, if_pos hcr]
      cases cs with
      | nil => exact absurd rfl h
      | cons d ds => rfl
    · rw [if_neg hcr] at h
      rw [if_neg hcr, if_neg hcr]
      by_cases hdigit : c < 48 ∨ c > 57
      · rw [if_pos hdigit, if_pos hdigit]
      · rw [if_neg hdigit] at h
        rw [if_neg hdigit, if_neg hdigit]
        by_cases hguard : value > (INT64_MAX - 9) / 10
        · rw [if_pos hguard, if_pos hguard]
        · rw [if_neg hguard] at h
          rw [if_neg hguard, if_neg hguard]
          exact ih h

theorem parseIntUntilCrlf_append {p : Bytes} (h : parseIntUntilCrlf p ≠ .needMore) (t : Bytes) :
    parseIntUntilCrlf (p ++ t) = parseIntUntilCrlf p := by
  cases p with
  | nil => exact absurd rfl h
  | cons c cs =>
    rw [parseIntUntilCrlf] at h
    rw [List.cons_append, parseIntUntilCrlf, parseIntUntilCrlf]
    by_cases hminus : c = 45
    · rw [if_pos hminus] at h
      rw [if_pos hminus, if_pos hminus]
      exact parseIntLoop_append h t
    · rw [if_neg hminus] at h
      rw [if_neg hminus, if_neg hminus, ← List.cons_append]
      exact parseIntLoop_append h t

/-- The digit loop stops with a number at the CRLF behind its digits. -/
theorem parseIntLoop_eq_ok {negative : Bool} {digitsAt : ℕ} {p : Bytes} {v i n : ℕ} {w : ℤ}
    (hi : digitsAt ≤ i) (h : parseIntLoop negative digitsAt p v i = .ok (w, n)) :
    ∃ ds rest u, p = ds ++ (CRLF ++ rest) ∧ readGuarded DIGIT_GUARD ds v = some u ∧
      w = (if negative then -(u : ℤ) else u) ∧ n = i + ds.length + 2 ∧
      digitsAt < i + ds.length := by
  induction p generalizing v i with
  | nil => cases h
  | cons c cs ih =>
    rw [parseIntLoop] at h
    by_cases hcr : c = CR
    · rw [if_pos hcr] at h
      cases cs with
      | nil => cases h
      | cons d rest =>
        simp only [List.head?_cons] at h
        split at h
        · cases h
        · next hlf =>
          split at h
          · cases h
          · next hne =>
            cases h
            refine ⟨[], rest, v, ?_, rfl, rfl, rfl, ?_⟩
            · rw [hcr, not_not.mp hlf]
              rfl
            · rw [List.length_nil]
              omega
    · rw [if_neg hcr] at h
      split at h
      · cases h
      · next hdigit =>
        split at h
        · cases h
        · next hguard =>
          have hc : IsDigit c := not_not.mp (mt not_isDigit_iff.mp hdigit)
          have hbound : ¬ v > DIGIT_GUARD := by
            rw [digit_guard_eq] at hguard
            omega
          rw [cast_digit hc] at h
          obtain ⟨ds, rest, u, rfl, hread, hw, hn, hpos⟩ := ih (Nat.le_succ_of_le hi) h
          refine ⟨c :: ds, rest, u, rfl, ?_, hw, ?_, ?_⟩
          · rw [readGuarded, if_neg (not_not_intro hc), if_neg hbound]
            exact hread
          · rw [List.length_cons]
            omega
          · rw [List.length_cons]
            omega

/-- A number takes a digit and the CRLF at least, and lies in the input. -/
theorem parseIntUntilCrlf_ok {p : Bytes} {v : ℤ} {n : ℕ} (h : parseIntUntilCrlf p = .ok (v, n)) :
    3 ≤ n ∧ n ≤ p.length := by
  cases p with
  | nil => cases h
  | cons c cs =>
    rw [parseIntUntilCrlf] at h
    split at h
    · obtain ⟨ds, rest, u, rfl, -, -, rfl, hpos⟩ := parseIntLoop_eq_ok (Nat.le_refl 1) h
      simp only [List.length_cons, List.length_append]
      omega
    · obtain ⟨ds, rest, u, hp, -, -, rfl, hpos⟩ := parseIntLoop_eq_ok (Nat.le_refl 0) h
      simp only [hp, List.length_cons, List.length_append]
      omega

theorem parseBulk_append {p : Bytes} {base : ℕ} (h : parseBulk p base ≠ .needMore) (t : Bytes) :
    parseBulk (p ++ t) base = parseBulk p base := by
  cases p with
  | nil => exact absurd rfl h
  | cons c cs =>
    rw [parseBulk] at h
    rw [List.cons_append, parseBulk, parseBulk]
    by_cases hmark : c ≠ 36
    · rw [if_pos hmark, if_pos hmark]
    · rw [if_neg hmark] at h
      rw [if_neg hmark, if_neg hmark]
      refine RespStatus.bind_append h (fun hn => parseIntUntilCrlf_append hn t) ?_
      rintro ⟨length, hdrUsed⟩ - hn
      simp only at hn ⊢
      split
      · rfl
      · next hlength =>
        rw [if_neg hlength] at hn
        split
        · rfl
        · next htotal =>
          rw [if_neg htotal] at hn
          by_cases hmore : (c :: cs).length < 1 + hdrUsed + length.toNat + 2
          · rw [if_pos hmore] at hn
            exact absurd rfl hn
          · -- the whole bulk lies in the shorter input already
            have hlong : ¬ (c :: (cs ++ t)).length < 1 + hdrUsed + length.toNat + 2 := by
              simp only [List.length_cons, List.length_append] at hmore ⊢
              omega
            have hget : ∀ j < 1 + hdrUsed + length.toNat + 2,
                (c :: (cs ++ t))[j]? = (c :: cs)[j]? := by
              intro j hj
              rw [← List.cons_append]
              exact List.getElem?_append_left (by omega)
            have hbody : ((c :: (cs ++ t)).drop (1 + hdrUsed)).take length.toNat =
                ((c :: cs).drop (1 + hdrUsed)).take length.toNat := by
              rw [← List.cons_append, List.drop_append_of_le_length (by omega),
                List.take_append_of_le_length]
              rw [List.length_drop]
              omega
            rw [if_neg hmore, if_neg hlong, hget _ (by omega), hget _ (by omega), hbody]

/-- **What `parse_bulk` has checked** when it accepts. -/
theorem parseBulk_inv {p : Bytes} {base n : ℕ} {slice : RespSlice}
    (h : parseBulk p base = .ok (slice, n)) :
    ∃ cs length hdrUsed, p = 36 :: cs ∧ parseIntUntilCrlf cs = .ok (length, hdrUsed) ∧
      ¬ (length < 0 ∨ length.toNat > RESP_MAX_BULK_LEN) ∧
      1 + hdrUsed + length.toNat + 2 ≤ p.length ∧
      p[1 + hdrUsed + length.toNat]? = some CR ∧ p[1 + hdrUsed + length.toNat + 1]? = some LF ∧
      slice = ⟨base + (1 + hdrUsed), (p.drop (1 + hdrUsed)).take length.toNat⟩ ∧
      n = 1 + hdrUsed + length.toNat + 2 := by
  cases p with
  | nil => cases h
  | cons c cs =>
    rw [parseBulk] at h
    split at h
    · cases h
    · next hmark =>
      obtain ⟨⟨length, hdrUsed⟩, hint, h⟩ := RespStatus.bind_eq_ok h
      simp only at h
      split at h
      · cases h
      · next hlength =>
        split at h
        · cases h
        · split at h
          · cases h
          · next hmore =>
            split at h
            · cases h
            · next hend =>
              cases h
              rw [not_or, not_not, not_not] at hend
              exact ⟨cs, length, hdrUsed, by rw [not_not.mp hmark], hint, hlength,
                Nat.le_of_not_lt hmore, hend.1, hend.2, rfl, rfl⟩

/-- A bulk takes its header, its body and the CRLF, and lies in the input. -/
theorem parseBulk_ok {p : Bytes} {base n : ℕ} {slice : RespSlice}
    (h : parseBulk p base = .ok (slice, n)) :
    slice.len + 6 ≤ n ∧ n ≤ p.length ∧ slice.len ≤ RESP_MAX_BULK_LEN := by
  obtain ⟨cs, length, hdrUsed, rfl, hint, hlength, hmore, -, -, rfl, rfl⟩ := parseBulk_inv h
  have hhdr := parseIntUntilCrlf_ok hint
  simp only [RespSlice.len, List.length_take, List.length_drop]
  omega

theorem parseBulks_append {n : ℕ} {p : Bytes} {pos : ℕ} {tmp : List RespSlice}
    (h : parseBulks n p pos tmp ≠ .needMore) (t : Bytes) :
    parseBulks n (p ++ t) pos tmp = parseBulks n p pos tmp := by
  induction n generalizing p pos tmp with
  | zero => rfl
  | succ n ih =>
    rw [parseBulks] at h
    rw [parseBulks, parseBulks]
    refine RespStatus.bind_append h (fun hn => parseBulk_append hn t) ?_
    rintro ⟨slice, bulkUsed⟩ hbulk hn
    simp only at hn ⊢
    rw [List.drop_append_of_le_length (parseBulk_ok hbulk).2.1]
    exact ih hn

/-- Total length of some slices. -/
def sumLen (slices : List RespSlice) : ℕ := (slices.map (·.len)).sum

theorem parseBulks_ok {n : ℕ} {p : Bytes} {pos pos' : ℕ} {tmp out : List RespSlice}
    (h : parseBulks n p pos tmp = .ok (out, pos')) :
    ∃ new, out = tmp ++ new ∧ new.length = n ∧ pos + sumLen new + 6 * n ≤ pos' ∧
      pos' ≤ pos + p.length ∧ ∀ slice ∈ new, slice.len ≤ RESP_MAX_BULK_LEN := by
  induction n generalizing p pos tmp with
  | zero =>
    cases h
    exact ⟨[], (List.append_nil _).symm, rfl, Nat.le_refl _, Nat.le_add_right _ _, by simp⟩
  | succ n ih =>
    rw [parseBulks] at h
    obtain ⟨⟨slice, bulkUsed⟩, hbulk, h⟩ := RespStatus.bind_eq_ok h
    obtain ⟨hlen, hle, hmax⟩ := parseBulk_ok hbulk
    obtain ⟨new, rfl, hnew, hpos, hpos', hmaxs⟩ := ih h
    refine ⟨slice :: new, by simp, by rw [List.length_cons, hnew], ?_, ?_, ?_⟩
    · simp only [sumLen, List.map_cons, List.sum_cons] at hpos ⊢
      omega
    · rw [List.length_drop] at hpos'
      omega
    · rw [List.forall_mem_cons]
      exact ⟨hmax, hmaxs⟩

theorem parseMultiBulk_append {input : Bytes} (h : parseMultiBulk input ≠ .needMore)
    (hne : input ≠ []) (t : Bytes) : parseMultiBulk (input ++ t) = parseMultiBulk input := by
  have hpos : 1 ≤ input.length := List.length_pos_iff.mpr hne
  rw [parseMultiBulk] at h
  rw [parseMultiBulk, parseMultiBulk]
  refine RespStatus.bind_append h (fun hn => ?_) ?_
  · rw [List.drop_append_of_le_length hpos]
    exact parseIntUntilCrlf_append hn t
  · rintro ⟨argc, hdrUsed⟩ hint hn
    have hhdr := (parseIntUntilCrlf_ok hint).2
    rw [List.length_drop] at hhdr
    simp only at hn ⊢
    split
    · rfl
    · next hargc =>
      rw [if_neg hargc] at hn
      refine RespStatus.bind_append hn (fun hn => ?_) (fun _ _ _ => rfl)
      rw [List.drop_append_of_le_length (by omega)]
      exact parseBulks_append hn t

/-- A line is looked for in the input, and up to the cap. -/
theorem scanLimit_le (n : ℕ) :
    (if n < RESP_MAX_INLINE_LEN then n else RESP_MAX_INLINE_LEN) ≤ n ∧
      (if n < RESP_MAX_INLINE_LEN then n else RESP_MAX_INLINE_LEN) ≤ RESP_MAX_INLINE_LEN := by
  split <;> omega

theorem newline_le (input : Bytes) (lim : ℕ) : (input.take lim).findIdx (· = LF) ≤ lim :=
  Nat.le_trans List.findIdx_le_length (List.length_take_le lim input)

/-- The newline of a complete line stays where it is. -/
theorem parseInline_append {input : Bytes} (h : parseInline input ≠ .needMore) (t : Bytes) :
    parseInline (input ++ t) = parseInline input := by
  rw [parseInline] at h
  rw [parseInline, parseInline]
  simp only at h ⊢
  set lim := if input.length < RESP_MAX_INLINE_LEN then input.length else RESP_MAX_INLINE_LEN
    with hlim
  set lim' := if (input ++ t).length < RESP_MAX_INLINE_LEN then (input ++ t).length
    else RESP_MAX_INLINE_LEN with hlim'
  have hlim_le : lim ≤ input.length := (scanLimit_le input.length).1
  have htake_len : (input.take lim).length = lim := List.length_take_of_le hlim_le
  by_cases hnl : (input.take lim).findIdx (· = LF) = lim
  · rw [if_pos hnl] at h
    by_cases hfull : input.length ≥ RESP_MAX_INLINE_LEN
    · -- the line is too long already, and the scan does not go any further
      have hlim_eq : lim = RESP_MAX_INLINE_LEN := by
        rw [hlim, if_neg (by omega)]
      have hfull' : (input ++ t).length ≥ RESP_MAX_INLINE_LEN := by
        rw [List.length_append]
        omega
      have hlim_eq' : lim' = lim := by
        rw [hlim', if_neg (by omega), hlim_eq]
      rw [hlim_eq', List.take_append_of_le_length hlim_le, if_pos hnl, if_pos hnl, if_pos hfull,
        if_pos hfull']
    · rw [if_neg hfull] at h
      exact absurd rfl h
  · have hfound : (input.take lim).findIdx (· = LF) < (input.take lim).length := by
      rw [htake_len]
      exact Nat.lt_of_le_of_ne (newline_le input lim) hnl
    have hmono : lim ≤ lim' := by
      rw [hlim, hlim', List.length_append]
      split <;> split <;> omega
    -- scanning further finds the same newline
    have hsame : ((input ++ t).take lim').findIdx (· = LF) = (input.take lim).findIdx (· = LF) := by
      have hsplit :
          (input ++ t).take lim' = input.take lim ++ ((input ++ t).take lim').drop lim := by
        conv_lhs => rw [← List.take_append_drop lim ((input ++ t).take lim')]
        rw [List.take_take, Nat.min_eq_left hmono, List.take_append_of_le_length hlim_le]
      rw [hsplit, List.findIdx_append, if_pos (by simpa using hfound)]
    have hnl' : ¬ (input.take lim).findIdx (· = LF) = lim' := by omega
    have hline : inlineLine (input ++ t) ((input.take lim).findIdx (· = LF)) =
        inlineLine input ((input.take lim).findIdx (· = LF)) := by
      rw [inlineLine, inlineLine, List.getElem?_append_left (by omega),
        List.take_append_of_le_length]
      split <;> omega
    rw [hsame, if_neg hnl, if_neg hnl', hline]

/-- **Verdict stability.** A verdict on the head of a buffer is final: it does not
change when more bytes arrive. -/
theorem respParseRequest_append {input : Bytes} (h : respParseRequest input ≠ .needMore)
    (t : Bytes) : respParseRequest (input ++ t) = respParseRequest input := by
  cases input with
  | nil => exact absurd rfl h
  | cons c cs =>
    rw [respParseRequest] at h
    rw [List.cons_append, respParseRequest, respParseRequest]
    by_cases hstar : c = 42
    · rw [if_pos hstar] at h
      rw [if_pos hstar, if_pos hstar]
      exact parseMultiBulk_append h (List.cons_ne_nil c cs) t
    · rw [if_neg hstar] at h
      rw [if_neg hstar, if_neg hstar]
      exact parseInline_append h t

/-! ## Accepted requests -/

/-- What holds of every request accepted from `len` bytes of input. The frame
leaves room for its arguments and, in the multi-bulk form, for the header and
six bytes around each of them. -/
structure RespRequest.Parsed (req : RespRequest) (len : ℕ) : Prop where
  /-- the frame is not empty -/
  consumed_pos : 0 < req.bytesConsumed
  /-- the frame lies in the input -/
  consumed_le : req.bytesConsumed ≤ len
  /-- there is a command name -/
  argc_pos : 1 ≤ req.argc
  /-- the slots suffice -/
  argc_le : req.argc ≤ RESP_MAX_ARGC
  /-- every argument is capped -/
  arg_le : ∀ i < req.argc, (req.args i).len ≤ RESP_MAX_BULK_LEN
  /-- the arguments lie in the frame -/
  frame_le : ∀ i < req.argc, (req.args i).len + 6 * req.argc + 4 ≤ req.bytesConsumed ∨
    ((req.args i).len ≤ RESP_MAX_INLINE_LEN ∧ req.bytesConsumed ≤ RESP_MAX_INLINE_LEN)

/-- The committed arguments are the staged slices. -/
theorem commitArgs_mem {tmp : List RespSlice} {n i : ℕ} (hi : i < (commitArgs tmp n).argc) :
    (commitArgs tmp n).args i ∈ tmp := by
  have hi' : i < tmp.length := hi
  have hget : tmp.getD i default = tmp[i] := by
    rw [List.getD_eq_getElem?_getD, List.getElem?_eq_getElem hi', Option.getD_some]
  change tmp.getD i default ∈ tmp
  rw [hget]
  exact List.getElem_mem hi'

theorem len_le_sumLen {slices : List RespSlice} {slice : RespSlice} (h : slice ∈ slices) :
    slice.len ≤ sumLen slices :=
  List.le_sum_of_mem (List.mem_map.mpr ⟨slice, h, rfl⟩)

/-- What an accepted array has passed. -/
theorem parseMultiBulk_inv {input : Bytes} {req : RespRequest} (h : parseMultiBulk input = .ok req) :
    ∃ argc hdrUsed tmp pos, parseIntUntilCrlf (input.drop 1) = .ok (argc, hdrUsed) ∧
      ¬ (argc < 1 ∨ argc.toNat > RESP_MAX_ARGC) ∧
      parseBulks argc.toNat (input.drop (1 + hdrUsed)) (1 + hdrUsed) [] = .ok (tmp, pos) ∧
      req = commitArgs tmp pos := by
  rw [parseMultiBulk] at h
  obtain ⟨⟨argc, hdrUsed⟩, hint, h⟩ := RespStatus.bind_eq_ok h
  simp only at h
  split at h
  · cases h
  · next hargc =>
    obtain ⟨⟨tmp, pos⟩, hbulks, h⟩ := RespStatus.bind_eq_ok h
    cases h
    exact ⟨argc, hdrUsed, tmp, pos, hint, hargc, hbulks, rfl⟩

theorem parseMultiBulk_parsed {input : Bytes} {req : RespRequest} (hne : input ≠ [])
    (h : parseMultiBulk input = .ok req) : req.Parsed input.length := by
  have hpos : 1 ≤ input.length := List.length_pos_iff.mpr hne
  obtain ⟨argc, hdrUsed, tmp, pos, hint, hargc, hbulks, rfl⟩ := parseMultiBulk_inv h
  obtain ⟨hmin, hhdr⟩ := parseIntUntilCrlf_ok hint
  rw [List.length_drop] at hhdr
  obtain ⟨new, hout, hargs, hsum, hle, hmax⟩ := parseBulks_ok hbulks
  obtain rfl : tmp = new := hout
  rw [List.length_drop] at hle
  refine ⟨?_, ?_, ?_, ?_, fun i hi => hmax _ (commitArgs_mem hi), fun i hi => Or.inl ?_⟩
  · simp only [commitArgs]
    omega
  · simp only [commitArgs]
    omega
  · simp only [commitArgs]
    omega
  · simp only [commitArgs]
    omega
  · have hlen := len_le_sumLen (commitArgs_mem hi)
    simp only [commitArgs] at hlen ⊢
    omega

/-- The tokens are parts of the line, and there are at most 32. -/
theorem tokenize_ok {fuel : ℕ} {rest : Bytes} {i : ℕ} {tmp out : List RespSlice} {n : ℕ}
    (hrest : rest.length ≤ n) (htmp : tmp.length ≤ RESP_MAX_ARGC) (hlens : ∀ s ∈ tmp, s.len ≤ n)
    (h : tokenize fuel rest i tmp = .ok out) :
    out.length ≤ RESP_MAX_ARGC ∧ ∀ s ∈ out, s.len ≤ n := by
  induction fuel generalizing rest i tmp with
  | zero =>
    cases h
    exact ⟨htmp, hlens⟩
  | succ fuel ih =>
    rw [tokenize] at h
    simp only at h
    split at h
    · cases h
      exact ⟨htmp, hlens⟩
    · split at h
      · cases h
      · next hroom =>
        have hblank : (rest.dropWhile isBlank).length ≤ n :=
          Nat.le_trans (List.dropWhile_suffix isBlank).length_le hrest
        refine ih ?_ ?_ ?_ h
        · exact Nat.le_trans (List.dropWhile_suffix _).length_le hblank
        · rw [List.length_append, List.length_singleton]
          omega
        · intro s hs
          rcases List.mem_append.mp hs with hs | hs
          · exact hlens s hs
          · obtain rfl := List.mem_singleton.mp hs
            exact Nat.le_trans (List.takeWhile_prefix _).length_le hblank

/-- What an accepted line has passed. -/
theorem parseInline_inv {input : Bytes} {req : RespRequest} (h : parseInline input = .ok req) :
    ∃ nl tmp, nl < input.length ∧ nl < RESP_MAX_INLINE_LEN ∧
      tokenize (inlineLine input nl).length (inlineLine input nl) 0 [] = .ok tmp ∧
      tmp.length ≠ 0 ∧ req = commitArgs tmp (nl + 1) := by
  rw [parseInline] at h
  simp only at h
  obtain ⟨hlim, hlim'⟩ := scanLimit_le input.length
  generalize (if input.length < RESP_MAX_INLINE_LEN then input.length
    else RESP_MAX_INLINE_LEN) = lim at h hlim hlim'
  split at h
  · split at h
    · cases h
    · cases h
  · next hnl =>
    have hfound := Nat.lt_of_le_of_ne (newline_le input lim) hnl
    obtain ⟨tmp, htok, h⟩ := RespStatus.bind_eq_ok h
    split at h
    · cases h
    · next hpos =>
      cases h
      exact ⟨_, tmp, Nat.lt_of_lt_of_le hfound hlim, Nat.lt_of_lt_of_le hfound hlim', htok, hpos,
        rfl⟩

theorem parseInline_parsed {input : Bytes} {req : RespRequest} (h : parseInline input = .ok req) :
    req.Parsed input.length := by
  obtain ⟨nl, tmp, hnl, hshort, htok, hpos, rfl⟩ := parseInline_inv h
  have hline : (inlineLine input nl).length ≤ RESP_MAX_INLINE_LEN := by
    rw [inlineLine, List.length_take]
    split <;> omega
  obtain ⟨hargc, hlens⟩ := tokenize_ok hline (by simp) (by simp) htok
  have hmax : RESP_MAX_INLINE_LEN ≤ RESP_MAX_BULK_LEN := by decide
  exact ⟨Nat.succ_pos _, hnl, Nat.pos_of_ne_zero hpos, hargc,
    fun i hi => Nat.le_trans (hlens _ (commitArgs_mem hi)) hmax,
    fun i hi => Or.inr ⟨hlens _ (commitArgs_mem hi), hshort⟩⟩

/-- **Accepted requests** are non-empty frames of the input, with 1 to 32
arguments that lie in them. -/
theorem respParseRequest_parsed {input : Bytes} {req : RespRequest}
    (h : respParseRequest input = .ok req) : req.Parsed input.length := by
  cases input with
  | nil => cases h
  | cons c cs =>
    rw [respParseRequest] at h
    split at h
    · exact parseMultiBulk_parsed (List.cons_ne_nil c cs) h
    · exact parseInline_parsed h

/-! ## The framer -/

/-- The verdict on the head of a connection's input. -/
def respVerdict (input : Bytes) : Framing.Verdict RespRequest :=
  match respParseRequest input with
  | .ok req => .frame req.bytesConsumed req
  | .needMore => .more
  | .protocolErr => .bad

theorem respVerdict_frame {input : Bytes} {n : ℕ} {req : RespRequest}
    (h : respVerdict input = .frame n req) :
    respParseRequest input = .ok req ∧ n = req.bytesConsumed := by
  rw [respVerdict] at h
  cases hp : respParseRequest input with
  | ok out =>
    rw [hp] at h
    cases h
    exact ⟨rfl, rfl⟩
  | needMore => rw [hp] at h; cases h
  | protocolErr => rw [hp] at h; cases h

theorem respVerdict_append {input : Bytes} (h : respVerdict input ≠ .more) (t : Bytes) :
    respVerdict (input ++ t) = respVerdict input := by
  rw [respVerdict, respVerdict, respParseRequest_append]
  intro hmore
  rw [respVerdict, hmore] at h
  exact h rfl

/-- **The request parser as a framer.** -/
def respFramer : Framing.Framer UInt8 RespRequest where
  parse := respVerdict
  parse_nil := rfl
  frame_pos h := by
    obtain ⟨hok, rfl⟩ := respVerdict_frame h
    exact (respParseRequest_parsed hok).consumed_pos
  frame_le h := by
    obtain ⟨hok, rfl⟩ := respVerdict_frame h
    exact (respParseRequest_parsed hok).consumed_le
  frame_append t h := by
    rw [respVerdict_append (by rw [h]; simp) t, h]
  bad_append t h := by
    rw [respVerdict_append (by rw [h]; simp) t, h]

/-! ## Committed arguments -/

/-- The arguments of a committed request are the bytes of the staged slices. -/
theorem argv_commitArgs (tmp : List RespSlice) (n : ℕ) :
    (commitArgs tmp n).argv = tmp.map (·.bytes) := by
  refine List.ext_getElem ?_ ?_
  · simp [RespRequest.argv, commitArgs]
  · intro i h₁ h₂
    have hi : i < tmp.length := by simpa using h₂
    simp [RespRequest.argv, commitArgs, hi]

/-- A slot of a committed request; slots that are not in use are empty. -/
theorem commitArgs_bytes (tmp : List RespSlice) (n i : ℕ) :
    ((commitArgs tmp n).args i).bytes = (tmp.map (·.bytes)).getD i [] := by
  simp only [commitArgs, List.getD_eq_getElem?_getD, List.getElem?_map]
  cases tmp[i]? with
  | none => rfl
  | some slice => rfl

/-- A request with the given arguments. -/
def requestOf (args : List Bytes) : RespRequest :=
  commitArgs (args.map fun bytes => ⟨0, bytes⟩) (Reply.array args).encode.length

end RedisInC
