import RedisInC.Bounded
import RedisInC.RespFramer

/-!
# The parser stays inside its input

The request parser works with a cursor, on lengths that the client chose. It is
stated here a second time, with its indices: every byte is read by its index in the
input, every sum and difference of sizes is checked for wrap-around, and every
argument takes one of 32 slots.

* `checkedParseInt` … `checkedParseRequest` — the code, with `none` where a read or
  a slice would leave the input, a size would wrap, the slots would not suffice, or
  a loop would go on.
* `checkedParseRequest_eq` — none of this ever happens: the checked parser is the
  parser.
-/

namespace RedisInC

open Bounded

/-! ## The code, with indices -/

/-- `size_t` addition. -/
def sizeAdd (a b : ℕ) : Option ℕ := add SIZE_MAX a b

/-- `if (st != RESP_OK) return st;` -/
def RespStatus.checkedBind {α β : Type} (call : Option (RespStatus α))
    (f : α → Option (RespStatus β)) : Option (RespStatus β) :=
  call.bind fun st =>
    match st with
    | .ok a => f a
    | .needMore => some .needMore
    | .protocolErr => some .protocolErr

/-- The loop of `parse_int_until_crlf` on the `avail` bytes from `p` on. -/
def checkedParseIntLoop (input : Bytes) (p avail : ℕ) (negative : Bool) (digitsAt : ℕ) :
    ℕ → ℤ → ℕ → Option (RespStatus (ℤ × ℕ))
  | 0, _, _ => none
  | rounds + 1, value, i =>
    if i < avail then
      (input[p + i]?).bind fun c =>
        if c = CR then
          (sizeAdd i 1).bind fun next =>
            if next ≥ avail then some .needMore
            else
              (input[p + next]?).bind fun d =>
                if d ≠ LF then some .protocolErr
                else if i = digitsAt then some .protocolErr
                else (sizeAdd i 2).map fun used => .ok (if negative then -value else value, used)
        else if c < 48 ∨ c > 57 then some .protocolErr
        else if value > (INT64_MAX - 9) / 10 then some .protocolErr
        else
          (sizeAdd i 1).bind fun next =>
            checkedParseIntLoop input p avail negative digitsAt rounds
              (value * 10 + (c.toNat - 48)) next
    else some .needMore

/-- `parse_int_until_crlf` -/
def checkedParseInt (input : Bytes) (p avail : ℕ) : Option (RespStatus (ℤ × ℕ)) :=
  if 0 < avail then
    (input[p]?).bind fun c =>
      if c = 45 then checkedParseIntLoop input p avail true 1 (avail + 1) 0 1
      else checkedParseIntLoop input p avail false 0 (avail + 1) 0 0
  else checkedParseIntLoop input p avail false 0 (avail + 1) 0 0

/-- `parse_bulk` -/
def checkedParseBulk (input : Bytes) (p avail : ℕ) : Option (RespStatus (RespSlice × ℕ)) :=
  if avail = 0 then some .needMore
  else
    (input[p]?).bind fun c =>
      if c ≠ 36 then some .protocolErr
      else
        (sub avail 1).bind fun rest =>
          RespStatus.checkedBind (checkedParseInt input (p + 1) rest) fun (length, hdrUsed) =>
            if length < 0 ∨ length.toNat > RESP_MAX_BULK_LEN then some .protocolErr
            else
              (sizeAdd 1 hdrUsed).bind fun headerSize =>
                (sizeAdd headerSize length.toNat).bind fun bodyEnd =>
                  (sizeAdd bodyEnd 2).bind fun total =>
                    if total < headerSize then some .protocolErr
                    else if avail < total then some .needMore
                    else
                      (input[p + bodyEnd]?).bind fun cr =>
                        if cr ≠ CR then some .protocolErr
                        else
                          (sizeAdd bodyEnd 1).bind fun next =>
                            (input[p + next]?).bind fun lf =>
                              if lf ≠ LF then some .protocolErr
                              else
                                (slice input (p + headerSize) length.toNat).map fun bytes =>
                                  .ok (⟨p + headerSize, bytes⟩, total)

/-- The loop of `parse_multi_bulk` over the `n` bulks still expected. -/
def checkedParseBulks (input : Bytes) :
    ℕ → ℕ → List RespSlice → Option (RespStatus (List RespSlice × ℕ))
  | 0, pos, tmp => some (.ok (tmp, pos))
  | n + 1, pos, tmp =>
    (sub input.length pos).bind fun avail =>
      RespStatus.checkedBind (checkedParseBulk input pos avail) fun (slice, bulkUsed) =>
        (push RESP_MAX_ARGC tmp slice).bind fun tmp =>
          (sizeAdd pos bulkUsed).bind fun pos => checkedParseBulks input n pos tmp

/-- `parse_multi_bulk` -/
def checkedParseMultiBulk (input : Bytes) : Option (RespStatus RespRequest) :=
  (sub input.length 1).bind fun rest =>
    RespStatus.checkedBind (checkedParseInt input 1 rest) fun (argc, hdrUsed) =>
      if argc < 1 ∨ argc.toNat > RESP_MAX_ARGC then some .protocolErr
      else
        (sizeAdd 1 hdrUsed).bind fun pos =>
          RespStatus.checkedBind (checkedParseBulks input argc.toNat pos []) fun (tmp, pos) =>
            some (.ok (commitArgs tmp pos))

/-- The tokenizer of `parse_inline`, on the line that ends at `lineEnd`. -/
def checkedTokenize (input : Bytes) (lineEnd : ℕ) :
    ℕ → ℕ → List RespSlice → Option (RespStatus (List RespSlice))
  | 0, _, _ => none
  | rounds + 1, i, tmp =>
    if i < lineEnd then
      (scan isBlank input lineEnd (lineEnd + 1) i).bind fun tokStart =>
        if tokStart ≥ lineEnd then some (.ok tmp)
        else if tmp.length ≥ RESP_MAX_ARGC then some .protocolErr
        else
          (scan (fun c => !isBlank c) input lineEnd (lineEnd + 1) tokStart).bind fun i =>
            (sub i tokStart).bind fun len =>
              (slice input tokStart len).bind fun bytes =>
                (push RESP_MAX_ARGC tmp ⟨tokStart, bytes⟩).bind fun tmp =>
                  checkedTokenize input lineEnd rounds i tmp
    else some (.ok tmp)

/-- Trim an optional CR before the newline at `nl`. -/
def checkedLineEnd (input : Bytes) (nl : ℕ) : Option ℕ :=
  if nl > 0 then
    (sub nl 1).bind fun last => (input[last]?).map fun c => if c = CR then last else nl
  else some nl

/-- `parse_inline` -/
def checkedParseInline (input : Bytes) : Option (RespStatus RespRequest) :=
  let len := input.length
  let scanLimit := if len < RESP_MAX_INLINE_LEN then len else RESP_MAX_INLINE_LEN
  (scan (· ≠ LF) input scanLimit (scanLimit + 1) 0).bind fun nl =>
    if nl = scanLimit then
      some (if len ≥ RESP_MAX_INLINE_LEN then .protocolErr else .needMore)
    else
      (checkedLineEnd input nl).bind fun lineEnd =>
        RespStatus.checkedBind (checkedTokenize input lineEnd (lineEnd + 1) 0 []) fun tmp =>
          if tmp.length = 0 then some .protocolErr
          else (sizeAdd nl 1).map fun bytesConsumed => .ok (commitArgs tmp bytesConsumed)

/-- `resp_parse_request` -/
def checkedParseRequest (input : Bytes) : Option (RespStatus RespRequest) :=
  if input.length = 0 then some .needMore
  else
    (input[0]?).bind fun c =>
      if c = 42 then checkedParseMultiBulk input else checkedParseInline input

/-! ## Nothing goes out of bounds -/

theorem sizeAdd_of_le {a b : ℕ} (h : a + b ≤ SIZE_MAX) : sizeAdd a b = some (a + b) := add_of_le h

theorem RespStatus.checkedBind_eq {α β : Type} {call : Option (RespStatus α)} {st : RespStatus α}
    {f : α → Option (RespStatus β)} {g : α → RespStatus β} (hcall : call = some st)
    (hf : ∀ a, st = .ok a → f a = some (g a)) : RespStatus.checkedBind call f = some (st.bind g) := by
  rw [hcall]
  cases st with
  | ok a => exact hf a rfl
  | needMore => rfl
  | protocolErr => rfl

section Number

variable {input : Bytes} {p avail : ℕ} {negative : Bool} {digitsAt : ℕ}

/-- The digit loop on what the input has from `p` on. -/
theorem checkedParseIntLoop_eq (hp : p + avail = input.length) (hlen : input.length + 2 ≤ SIZE_MAX)
    {rounds i : ℕ} (hi : i ≤ avail) (hrounds : avail < i + rounds) (value : ℤ) :
    checkedParseIntLoop input p avail negative digitsAt rounds value i =
      some (parseIntLoop negative digitsAt (input.drop (p + i)) value i) := by
  induction rounds generalizing value i with
  | zero => exact absurd hrounds (Nat.not_lt.mpr hi)
  | succ rounds ih =>
    rw [checkedParseIntLoop]
    by_cases hlt : i < avail
    · obtain ⟨c, hc, hdrop⟩ := drop_eq_cons (show p + i < input.length by omega)
      rw [if_pos hlt, hc, Option.bind_some, hdrop, parseIntLoop,
        sizeAdd_of_le (show i + 1 ≤ SIZE_MAX by omega),
        sizeAdd_of_le (show i + 2 ≤ SIZE_MAX by omega), Option.bind_some, Option.bind_some,
        Nat.add_assoc p i 1]
      by_cases hcr : c = CR
      · rw [if_pos hcr, if_pos hcr]
        by_cases hend : i + 1 ≥ avail
        · rw [if_pos hend, List.drop_eq_nil_iff.mpr (show input.length ≤ p + (i + 1) by omega)]
          rfl
        · obtain ⟨d, hd, hdrop'⟩ := drop_eq_cons (show p + (i + 1) < input.length by omega)
          rw [if_neg hend, hd, Option.bind_some, hdrop', List.head?_cons]
          by_cases hlf : d ≠ LF
          · simp only [if_pos hlf]
          · simp only [if_neg hlf]
            by_cases hnone : i = digitsAt
            · rw [if_pos hnone, if_pos hnone]
            · rw [if_neg hnone, if_neg hnone, Option.map_some]
      · rw [if_neg hcr, if_neg hcr]
        by_cases hdigit : c < 48 ∨ c > 57
        · rw [if_pos hdigit, if_pos hdigit]
        · rw [if_neg hdigit, if_neg hdigit]
          by_cases hguard : value > (INT64_MAX - 9) / 10
          · rw [if_pos hguard, if_pos hguard]
          · rw [if_neg hguard, if_neg hguard, ih hlt (by omega)]
    · rw [if_neg hlt, List.drop_eq_nil_iff.mpr (show input.length ≤ p + i by omega)]
      rfl

theorem checkedParseInt_eq (hp : p + avail = input.length) (hlen : input.length + 2 ≤ SIZE_MAX) :
    checkedParseInt input p avail = some (parseIntUntilCrlf (input.drop p)) := by
  rw [checkedParseInt]
  by_cases hpos : 0 < avail
  · obtain ⟨c, hc, hdrop⟩ := drop_eq_cons (show p < input.length by omega)
    rw [if_pos hpos, hc, Option.bind_some, hdrop, parseIntUntilCrlf]
    by_cases hminus : c = 45
    · rw [if_pos hminus, if_pos hminus, checkedParseIntLoop_eq hp hlen hpos (by omega)]
    · rw [if_neg hminus, if_neg hminus,
        checkedParseIntLoop_eq hp hlen (Nat.zero_le avail) (by omega), Nat.add_zero, hdrop]
  · rw [if_neg hpos, checkedParseIntLoop_eq hp hlen (Nat.zero_le avail) (by omega),
      List.drop_eq_nil_iff.mpr (show input.length ≤ p + 0 by omega),
      List.drop_eq_nil_iff.mpr (show input.length ≤ p by omega)]
    rfl

end Number

/-- The limit on sizes leaves room for a header and a whole bulk string. -/
theorem size_room {n : ℕ} (h : n < 2 ^ 63) : n + RESP_MAX_BULK_LEN + 8 ≤ SIZE_MAX := by
  simp only [RESP_MAX_BULK_LEN, SIZE_MAX]
  omega

theorem checkedParseBulk_eq {input : Bytes} {p avail : ℕ} (hp : p + avail = input.length)
    (hlen : input.length < 2 ^ 63) :
    checkedParseBulk input p avail = some (parseBulk (input.drop p) p) := by
  have hroom := size_room hlen
  rw [checkedParseBulk]
  by_cases hzero : avail = 0
  · rw [if_pos hzero, List.drop_eq_nil_iff.mpr (show input.length ≤ p by omega)]
    rfl
  · have hdroplen : (input.drop p).length = avail := by
      rw [List.length_drop]
      omega
    have hget : ∀ j, input[p + j]? = (input.drop p)[j]? := fun j => List.getElem?_drop.symm
    have hslice : ∀ start, (input.drop (p + start)) = (input.drop p).drop start :=
      fun start => List.drop_drop.symm
    obtain ⟨c, hc, hdrop⟩ := drop_eq_cons (show p < input.length by omega)
    rw [if_neg hzero, hc, Option.bind_some, sub_of_le (Nat.pos_of_ne_zero hzero), Option.bind_some]
    simp only [hget]
    rw [hdrop] at hdroplen ⊢
    rw [parseBulk]
    by_cases hmark : c ≠ 36
    · rw [if_pos hmark, if_pos hmark]
    · rw [if_neg hmark, if_neg hmark]
      refine RespStatus.checkedBind_eq (checkedParseInt_eq (by omega) (by omega)) ?_
      rintro ⟨length, hdrUsed⟩ hint
      have hhdr := (parseIntUntilCrlf_ok hint).2
      rw [List.length_drop] at hhdr
      simp only
      by_cases hlength : length < 0 ∨ length.toNat > RESP_MAX_BULK_LEN
      · rw [if_pos hlength, if_pos hlength]
      · rw [if_neg hlength, if_neg hlength, sizeAdd_of_le (by omega), Option.bind_some,
          sizeAdd_of_le (by omega), Option.bind_some, sizeAdd_of_le (by omega), Option.bind_some,
          hdroplen]
        by_cases hwrap : 1 + hdrUsed + length.toNat + 2 < 1 + hdrUsed
        · rw [if_pos hwrap, if_pos hwrap]
        · rw [if_neg hwrap, if_neg hwrap]
          by_cases hmore : avail < 1 + hdrUsed + length.toNat + 2
          · rw [if_pos hmore, if_pos hmore]
          · rw [if_neg hmore, if_neg hmore]
            obtain ⟨cr, hcr, -⟩ := drop_eq_cons
              (show 1 + hdrUsed + length.toNat < (c :: input.drop (p + 1)).length by omega)
            obtain ⟨lf, hlf, -⟩ := drop_eq_cons
              (show 1 + hdrUsed + length.toNat + 1 < (c :: input.drop (p + 1)).length by omega)
            rw [hcr, Option.bind_some, hlf]
            by_cases hnocr : cr ≠ CR
            · rw [if_pos hnocr, if_pos (Or.inl (by simpa using hnocr))]
            · rw [if_neg hnocr, sizeAdd_of_le (by omega), Option.bind_some, hlf, Option.bind_some]
              by_cases hnolf : lf ≠ LF
              · rw [if_pos hnolf, if_pos (Or.inr (by simpa using hnolf))]
              · rw [if_neg hnolf, if_neg (by simpa using And.intro hnocr hnolf),
                  slice_of_le (by omega), Option.map_some, hslice, hdrop]

theorem checkedParseBulks_eq {input : Bytes} (hlen : input.length < 2 ^ 63) {n pos : ℕ}
    {tmp : List RespSlice} (hpos : pos ≤ input.length) (hslots : tmp.length + n ≤ RESP_MAX_ARGC) :
    checkedParseBulks input n pos tmp = some (parseBulks n (input.drop pos) pos tmp) := by
  have hroom := size_room hlen
  induction n generalizing pos tmp with
  | zero => rfl
  | succ n ih =>
    rw [checkedParseBulks, parseBulks, sub_of_le hpos, Option.bind_some]
    refine RespStatus.checkedBind_eq (checkedParseBulk_eq (by omega) hlen) ?_
    rintro ⟨slice, bulkUsed⟩ hbulk
    have hused := (parseBulk_ok hbulk).2.1
    rw [List.length_drop] at hused
    simp only
    rw [push_of_lt slice (by omega), Option.bind_some, sizeAdd_of_le (by omega), Option.bind_some,
      ih (by omega) (by rw [List.length_append, List.length_singleton]; omega), List.drop_drop]

theorem checkedParseMultiBulk_eq {input : Bytes} (hne : 0 < input.length)
    (hlen : input.length < 2 ^ 63) :
    checkedParseMultiBulk input = some (parseMultiBulk input) := by
  have hroom := size_room hlen
  rw [checkedParseMultiBulk, parseMultiBulk, sub_of_le hne, Option.bind_some]
  refine RespStatus.checkedBind_eq (checkedParseInt_eq (by omega) (by omega)) ?_
  rintro ⟨argc, hdrUsed⟩ hint
  have hhdr := (parseIntUntilCrlf_ok hint).2
  rw [List.length_drop] at hhdr
  simp only
  by_cases hargc : argc < 1 ∨ argc.toNat > RESP_MAX_ARGC
  · rw [if_pos hargc, if_pos hargc]
  · rw [if_neg hargc, if_neg hargc, sizeAdd_of_le (by omega), Option.bind_some]
    have hslots : ([] : List RespSlice).length + argc.toNat ≤ RESP_MAX_ARGC := by
      rw [List.length_nil]
      omega
    exact RespStatus.checkedBind_eq (checkedParseBulks_eq hlen (by omega) hslots) fun _ _ => rfl

/-! ### Lines -/

/-- Where the tokenizer gets to from `i` on: past the blanks to `start`, and there past
one token. -/
theorem token_spec {line tok : Bytes} {i start : ℕ}
    (hstart : i + ((line.drop i).takeWhile isBlank).length = start)
    (htok : ((line.drop start).takeWhile fun c => !isBlank c) = tok) (hlt : start < line.length) :
    1 ≤ tok.length ∧ start + tok.length ≤ line.length ∧ (line.drop start).take tok.length = tok ∧
      line.drop (start + tok.length) = (line.drop start).dropWhile fun c => !isBlank c := by
  have hrest : line.drop start = (line.drop i).dropWhile isBlank := by
    rw [← drop_length_takeWhile isBlank (line.drop i), List.drop_drop, hstart]
  have hpos : 1 ≤ tok.length := by
    have hhead := List.head?_dropWhile_not isBlank (line.drop i)
    obtain ⟨c, -, hcons⟩ := drop_eq_cons hlt
    rw [← hrest, hcons, List.head?_cons] at hhead
    have hc : isBlank c = false := hhead
    rw [← htok, hcons, List.takeWhile_cons, if_pos (by rw [hc]; rfl), List.length_cons]
    exact Nat.succ_pos _
  have hle := (List.takeWhile_prefix (fun c => !isBlank c) (l := line.drop start)).length_le
  rw [htok, List.length_drop] at hle
  refine ⟨hpos, by omega, ?_, ?_⟩
  · rw [← htok, take_length_takeWhile]
  · rw [← drop_length_takeWhile (fun c => !isBlank c) (line.drop start), List.drop_drop, htok]

/-- The tokenizer on what the line has from `i` on. -/
theorem checkedTokenize_eq {input : Bytes} {lineEnd : ℕ} (hend : lineEnd ≤ input.length)
    {rounds fuel i : ℕ} (hi : i ≤ lineEnd) (hrounds : lineEnd < i + rounds)
    (hfuel : lineEnd ≤ i + fuel) (tmp : List RespSlice) :
    checkedTokenize input lineEnd rounds i tmp =
      some (tokenize fuel ((input.take lineEnd).drop i) i tmp) := by
  have hline : (input.take lineEnd).length = lineEnd := List.length_take_of_le hend
  induction rounds generalizing i tmp fuel with
  | zero => exact absurd hrounds (Nat.not_lt.mpr hi)
  | succ rounds ih =>
    rw [checkedTokenize]
    by_cases hlt : i < lineEnd
    · obtain ⟨fuel, rfl⟩ : ∃ f, fuel = f + 1 := ⟨fuel - 1, by omega⟩
      have hblank := drop_length_takeWhile isBlank ((input.take lineEnd).drop i)
      rw [List.drop_drop] at hblank
      rw [if_pos hlt, scan_eq hend hi (by omega), Option.bind_some, tokenize, ← hblank]
      generalize hstart : i + (((input.take lineEnd).drop i).takeWhile isBlank).length = start
      have hi_le : i ≤ start := hstart ▸ Nat.le_add_right i _
      by_cases hdone : start ≥ lineEnd
      · have hnil : ((input.take lineEnd).drop start).length = 0 := by
          rw [List.length_drop, hline]
          omega
        rw [if_pos hdone, if_pos hnil]
      · have hmore : ¬ ((input.take lineEnd).drop start).length = 0 := by
          rw [List.length_drop, hline]
          omega
        rw [if_neg hdone, if_neg hmore]
        by_cases hfull : tmp.length ≥ RESP_MAX_ARGC
        · rw [if_pos hfull, if_pos hfull]
        · rw [if_neg hfull, if_neg hfull, scan_eq hend (by omega) (by omega), Option.bind_some]
          generalize htok : (((input.take lineEnd).drop start).takeWhile fun c => !isBlank c) = tok
          obtain ⟨hpos, hle, hbytes, hrest⟩ := token_spec hstart htok (by omega)
          rw [List.drop_take, List.take_take, Nat.min_eq_left (by omega)] at hbytes
          rw [sub_of_le (Nat.le_add_right start tok.length), Option.bind_some,
            Nat.add_sub_cancel_left, slice_of_le (by omega), Option.bind_some, hbytes,
            push_of_lt _ (Nat.not_le.mp hfull), Option.bind_some, ← hrest]
          exact ih (by omega) (by omega) (by omega) _
    · have hnil : (input.take lineEnd).drop i = [] := by
        rw [List.drop_eq_nil_iff, hline]
        exact Nat.not_lt.mp hlt
      rw [if_neg hlt, hnil]
      cases fuel with
      | zero => rfl
      | succ fuel => rfl

theorem checkedLineEnd_eq {input : Bytes} {nl : ℕ} (hnl : nl ≤ input.length) :
    ∃ lineEnd, checkedLineEnd input nl = some lineEnd ∧ lineEnd ≤ nl ∧
      inlineLine input nl = input.take lineEnd := by
  rw [checkedLineEnd, inlineLine]
  by_cases hpos : nl > 0
  · obtain ⟨c, hc, -⟩ := drop_eq_cons (show nl - 1 < input.length by omega)
    rw [if_pos hpos, sub_of_le hpos, Option.bind_some, hc, Option.map_some]
    by_cases hcr : c = CR
    · exact ⟨nl - 1, by rw [if_pos hcr], Nat.sub_le nl 1, by rw [if_pos ⟨hpos, by rw [hcr]⟩]⟩
    · refine ⟨nl, by rw [if_neg hcr], Nat.le_refl nl, ?_⟩
      rw [if_neg fun h => hcr (Option.some.inj h.2)]
  · exact ⟨nl, by rw [if_neg hpos], Nat.le_refl nl, by rw [if_neg fun h => hpos h.1]⟩

theorem checkedParseInline_eq {input : Bytes} (hlen : input.length < 2 ^ 63) :
    checkedParseInline input = some (parseInline input) := by
  have hroom := size_room hlen
  rw [checkedParseInline, parseInline]
  simp only
  set lim := if input.length < RESP_MAX_INLINE_LEN then input.length else RESP_MAX_INLINE_LEN
  have hlim_le : lim ≤ input.length := (scanLimit_le input.length).1
  have hnl : scan (· ≠ LF) input lim (lim + 1) 0 =
      some ((input.take lim).findIdx (· = LF)) := by
    have hrun := length_takeWhile_not (· = LF) (input.take lim)
    rw [scan_eq hlim_le (Nat.zero_le lim) (by omega), Nat.zero_add, List.drop_zero, ← hrun]
    simp
  rw [hnl, Option.bind_some]
  by_cases hnone : (input.take lim).findIdx (· = LF) = lim
  · rw [if_pos hnone, if_pos hnone]
  · have hfound := Nat.le_trans (newline_le input lim) hlim_le
    obtain ⟨lineEnd, hchecked, hle, hline⟩ := checkedLineEnd_eq hfound
    have hend : lineEnd ≤ input.length := Nat.le_trans hle hfound
    rw [if_neg hnone, if_neg hnone, hchecked, Option.bind_some, hline,
      List.length_take_of_le hend]
    have htok := checkedTokenize_eq hend (Nat.zero_le lineEnd)
      (show lineEnd < 0 + (lineEnd + 1) by omega) (show lineEnd ≤ 0 + lineEnd by omega) []
    refine RespStatus.checkedBind_eq htok ?_
    intro tmp _
    by_cases hempty : tmp.length = 0
    · rw [if_pos hempty, if_pos hempty]
    · rw [if_neg hempty, if_neg hempty, sizeAdd_of_le (by omega), Option.map_some]

/-- **The parser stays inside its input**: no read, no size and no slot goes wrong, and
every loop ends. -/
theorem checkedParseRequest_eq {input : Bytes} (hlen : input.length < 2 ^ 63) :
    checkedParseRequest input = some (respParseRequest input) := by
  rw [checkedParseRequest]
  cases input with
  | nil => rfl
  | cons c cs =>
    rw [if_neg (show ¬ (c :: cs).length = 0 from Nat.succ_ne_zero cs.length), List.getElem?_cons_zero, Option.bind_some,
      respParseRequest]
    by_cases hstar : c = 42
    · rw [if_pos hstar, if_pos hstar]
      exact checkedParseMultiBulk_eq (Nat.succ_pos cs.length) hlen
    · rw [if_neg hstar, if_neg hstar]
      exact checkedParseInline_eq hlen

end RedisInC
