import RedisInC.Connection
import RedisInC.ParserBounds

/-!
# Frames are consumed one after the other

What the parser accepts lies in the bytes that are consumed for it, so arguments are
never read after they are gone, and the dispatch loop always gets on.

* `RespRequest.Laid` — an accepted request lies in its frame: its arguments are
  parts of the input, one behind the other.
* `dispatchTurns` — the dispatch loop, with its frames counted. There are at most as
  many as bytes of input.
* `parser_bounds` — this and the bounds of the parser together.
-/

namespace RedisInC

open Bounded

/-! ## Accepted requests -/

/-- Slices of the input, one behind the other from `lo` on and before `hi`. -/
structure SlicesIn (input : Bytes) (lo hi : ℕ) (slices : List RespSlice) : Prop where
  /-- they show the input -/
  shows : ∀ s ∈ slices, s.bytes = (input.drop s.start).take s.len
  /-- they lie in between, and something follows each of them -/
  inside : ∀ s ∈ slices, lo ≤ s.start ∧ s.start + s.len < hi
  /-- each of them has ended before the next one starts -/
  apart : slices.Pairwise fun a b => a.start + a.len < b.start

namespace SlicesIn

variable {input : Bytes} {lo lo' mid hi : ℕ} {slices : List RespSlice} {slice : RespSlice}

theorem nil : SlicesIn input lo hi [] := ⟨by simp, by simp, List.Pairwise.nil⟩

theorem mono (h : SlicesIn input lo hi slices) (hlo : lo' ≤ lo) : SlicesIn input lo' hi slices :=
  ⟨h.shows, fun s hs => ⟨Nat.le_trans hlo (h.inside s hs).1, (h.inside s hs).2⟩, h.apart⟩

theorem widen {hi' : ℕ} (h : SlicesIn input lo hi slices) (hhi : hi ≤ hi') :
    SlicesIn input lo hi' slices :=
  ⟨h.shows, fun s hs => ⟨(h.inside s hs).1, Nat.lt_of_lt_of_le (h.inside s hs).2 hhi⟩, h.apart⟩

/-- One more slice in front. -/
theorem cons (hshows : slice.bytes = (input.drop slice.start).take slice.len)
    (hlo : lo ≤ slice.start) (hmid : slice.start + slice.len < mid) (hhi : mid ≤ hi)
    (h : SlicesIn input mid hi slices) : SlicesIn input lo hi (slice :: slices) where
  shows := List.forall_mem_cons.mpr ⟨hshows, h.shows⟩
  inside := by
    refine List.forall_mem_cons.mpr ⟨⟨hlo, by omega⟩, fun s hs => ?_⟩
    have hs := h.inside s hs
    omega
  apart := by
    refine List.pairwise_cons.mpr ⟨fun s hs => ?_, h.apart⟩
    exact Nat.lt_of_lt_of_le hmid (h.inside s hs).1

end SlicesIn

/-- A bulk string lies behind its header and before its CRLF. -/
theorem parseBulk_slice {input : Bytes} {pos used : ℕ} {slice : RespSlice}
    (h : parseBulk (input.drop pos) pos = .ok (slice, used)) :
    slice.bytes = (input.drop slice.start).take slice.len ∧ pos ≤ slice.start ∧
      slice.start + slice.len < pos + used := by
  obtain ⟨cs, length, hdrUsed, -, -, -, hlen, -, -, rfl, rfl⟩ := parseBulk_inv h
  simp only [RespSlice.len, List.drop_drop, List.length_take, List.length_drop] at hlen ⊢
  rw [Nat.min_eq_left (by omega)]
  exact ⟨rfl, by omega, by omega⟩

theorem parseBulks_slices {input : Bytes} {n pos pos' : ℕ} {tmp out : List RespSlice}
    (h : parseBulks n (input.drop pos) pos tmp = .ok (out, pos')) :
    ∃ new, out = tmp ++ new ∧ pos ≤ pos' ∧ SlicesIn input pos pos' new := by
  induction n generalizing pos tmp with
  | zero =>
    cases h
    exact ⟨[], (List.append_nil _).symm, Nat.le_refl _, .nil⟩
  | succ n ih =>
    rw [parseBulks] at h
    obtain ⟨⟨slice, used⟩, hbulk, h⟩ := RespStatus.bind_eq_ok h
    obtain ⟨hshows, hlo, hhi⟩ := parseBulk_slice hbulk
    simp only [List.drop_drop] at h
    obtain ⟨new, rfl, hle, hnew⟩ := ih h
    exact ⟨slice :: new, by simp, by omega, .cons hshows hlo hhi hle hnew⟩

theorem tokenize_nil (fuel i : ℕ) (tmp : List RespSlice) : tokenize fuel [] i tmp = .ok tmp := by
  cases fuel with
  | zero => rfl
  | succ fuel => rfl

/-- The tokens of a line lie in it, with a blank at least between them. -/
theorem tokenize_slices {input : Bytes} {lineEnd : ℕ} (hend : lineEnd ≤ input.length)
    {fuel i : ℕ} {tmp out : List RespSlice}
    (h : tokenize fuel ((input.take lineEnd).drop i) i tmp = .ok out) :
    ∃ new, out = tmp ++ new ∧
      SlicesIn input (i + (((input.take lineEnd).drop i).takeWhile isBlank).length)
        (lineEnd + 1) new := by
  have hline : (input.take lineEnd).length = lineEnd := List.length_take_of_le hend
  induction fuel generalizing i tmp with
  | zero =>
    cases h
    exact ⟨[], (List.append_nil _).symm, .nil⟩
  | succ fuel ih =>
    have hblank := drop_length_takeWhile isBlank ((input.take lineEnd).drop i)
    rw [List.drop_drop] at hblank
    rw [tokenize, ← hblank] at h
    generalize hstart : i + (((input.take lineEnd).drop i).takeWhile isBlank).length = start at h ⊢
    simp only at h
    split at h
    · cases h
      exact ⟨[], (List.append_nil _).symm, .nil⟩
    · next hmore =>
      rw [List.length_drop, hline] at hmore
      split at h
      · cases h
      · generalize htok : (((input.take lineEnd).drop start).takeWhile fun c => !isBlank c) = tok
          at h
        obtain ⟨hpos, hle, hbytes, hrest⟩ := token_spec hstart htok (by omega)
        rw [List.drop_take, List.take_take, Nat.min_eq_left (by omega)] at hbytes
        rw [← hrest] at h
        cases hnext : (input.take lineEnd).drop (start + tok.length) with
        | nil =>
          rw [hnext, tokenize_nil] at h
          cases h
          exact ⟨[⟨start, tok⟩], rfl, .cons hbytes.symm (Nat.le_refl start) (Nat.lt_succ_self _)
            (by simp only [RespSlice.len]; omega) .nil⟩
        | cons c rest =>
          obtain ⟨new, rfl, hnew⟩ := ih h
          -- the token has ended at a blank
          have hc : isBlank c = true := by
            have hhead := List.head?_dropWhile_not (fun c => !isBlank c)
              ((input.take lineEnd).drop start)
            rw [← hrest, hnext] at hhead
            simpa using hhead
          rw [hnext, List.takeWhile_cons, if_pos hc, List.length_cons] at hnew
          refine ⟨⟨start, tok⟩ :: new, by simp, .cons hbytes.symm (Nat.le_refl start) 
            (Nat.lt_succ_self _) ?_ (hnew.mono ?_)⟩
          · simp only [RespSlice.len]
            omega
          · simp only [RespSlice.len]
            omega

/-- **An accepted request lies in its frame**: its arguments are parts of the input, one
behind the other, and its frame goes on behind each of them. -/
structure RespRequest.Laid (req : RespRequest) (input : Bytes) : Prop where
  /-- the frame is not empty -/
  consumed_pos : 1 ≤ req.bytesConsumed
  /-- the frame lies in the input -/
  consumed_le : req.bytesConsumed ≤ input.length
  /-- there is a command name -/
  argc_pos : 1 ≤ req.argc
  /-- the slots suffice -/
  argc_le : req.argc ≤ RESP_MAX_ARGC
  /-- the arguments are parts of the input -/
  shows : ∀ i < req.argc,
    (req.args i).bytes = (input.drop (req.args i).start).take (req.args i).len
  /-- they lie in the frame -/
  inside : ∀ i < req.argc, (req.args i).start + (req.args i).len < req.bytesConsumed
  /-- they are in order, and apart -/
  apart : ∀ i j, i < j → j < req.argc →
    (req.args i).start + (req.args i).len < (req.args j).start

theorem SlicesIn.laid {input : Bytes} {lo n : ℕ} {tmp : List RespSlice}
    (h : SlicesIn input lo n tmp) (hparsed : (commitArgs tmp n).Parsed input.length) :
    (commitArgs tmp n).Laid input where
  consumed_pos := hparsed.consumed_pos
  consumed_le := hparsed.consumed_le
  argc_pos := hparsed.argc_pos
  argc_le := hparsed.argc_le
  shows i hi := h.shows _ (commitArgs_mem hi)
  inside i hi := (h.inside _ (commitArgs_mem hi)).2
  apart i j hij hj := by
    have hj' : j < tmp.length := hj
    have hget : ∀ k (hk : k < tmp.length), (commitArgs tmp n).args k = tmp[k] := by
      intro k hk
      simp [commitArgs, hk]
    rw [hget i (Nat.lt_trans hij hj'), hget j hj']
    exact List.pairwise_iff_getElem.mp h.apart i j (Nat.lt_trans hij hj') hj' hij

theorem parseMultiBulk_laid {input : Bytes} (hne : input ≠ []) {req : RespRequest}
    (h : parseMultiBulk input = .ok req) : req.Laid input := by
  have hparsed := parseMultiBulk_parsed hne h
  obtain ⟨argc, hdrUsed, tmp, pos, -, -, hbulks, rfl⟩ := parseMultiBulk_inv h
  obtain ⟨new, hout, -, hslices⟩ := parseBulks_slices hbulks
  obtain rfl : tmp = new := hout
  exact hslices.laid hparsed

theorem parseInline_laid {input : Bytes} {req : RespRequest} (h : parseInline input = .ok req) :
    req.Laid input := by
  have hparsed := parseInline_parsed h
  obtain ⟨nl, tmp, hnl, -, htok, -, rfl⟩ := parseInline_inv h
  obtain ⟨lineEnd, -, hle, hline⟩ := checkedLineEnd_eq (Nat.le_of_lt hnl)
  rw [hline, ← List.drop_zero (l := input.take lineEnd)] at htok
  obtain ⟨new, hout, hslices⟩ := tokenize_slices (Nat.le_trans hle (Nat.le_of_lt hnl)) htok
  obtain rfl : tmp = new := hout
  exact (hslices.widen (Nat.succ_le_succ hle)).laid hparsed

theorem respParseRequest_laid {input : Bytes} {req : RespRequest}
    (h : respParseRequest input = .ok req) : req.Laid input := by
  cases input with
  | nil => cases h
  | cons c cs =>
    rw [respParseRequest] at h
    split at h
    · exact parseMultiBulk_laid (List.cons_ne_nil c cs) h
    · exact parseInline_laid h

/-! ## The dispatch loop -/

/-- The dispatch loop with the frames it has executed; `none` if it would go on. -/
def dispatchTurns : ℕ → NetState → Option (ℕ × Int × NetState)
  | 0, _ => none
  | rounds + 1, s =>
    match respParseRequest s.conn.inBuf.live with
    | .needMore => some (0, 0, s)
    | .protocolErr => some (0, 0, s.queueError (ascii "ERR Protocol error"))
    | .ok req =>
      if (s.execute req).1 ≠ 0 then some (1, -1, s.drop req)
      else (dispatchTurns rounds (s.serve req)).map fun r => (r.1 + 1, r.2)

/-- Consuming takes off what it is asked to, as far as there is something. -/
theorem bytebufLen_consume (b : Bytebuf) (n : ℕ) :
    bytebufLen (bytebufConsume b n) = bytebufLen b - n := by
  simp only [bytebufLen, bytebufConsume, compactInPlace]
  generalize hm : (if n > b.len - b.off then b.len - b.off else n) = m
  have hcut : b.len - b.off - n = b.len - b.off - m := by
    rw [← hm]
    split <;> omega
  rw [hcut]
  split
  · next hdrained =>
    change 0 - 0 = b.len - b.off - m
    omega
  · split
    · exact (Nat.sub_zero _).trans (Nat.sub_add_eq b.len b.off m)
    · exact Nat.sub_add_eq b.len b.off m

/-- **The dispatch loop ends**, after one frame at most for every byte of input. -/
theorem dispatchTurns_eq {fuel : ℕ} {s : NetState} (hfuel : bytebufLen s.conn.inBuf ≤ fuel) :
    ∃ n ≤ bytebufLen s.conn.inBuf,
      dispatchTurns (fuel + 1) s = some (n, dispatchLoop fuel s) := by
  induction fuel generalizing s with
  | zero =>
    have hnone : s.conn.inBuf.live = [] := by
      rw [Bytebuf.live, Nat.le_zero.mp hfuel, List.take_zero]
    refine ⟨0, Nat.zero_le _, ?_⟩
    rw [dispatchTurns, hnone]
    rfl
  | succ fuel ih =>
    rw [dispatchTurns, dispatchLoop]
    cases hparse : respParseRequest s.conn.inBuf.live with
    | needMore => exact ⟨0, Nat.zero_le _, rfl⟩
    | protocolErr => exact ⟨0, Nat.zero_le _, rfl⟩
    | ok req =>
      have hlaid := respParseRequest_laid hparse
      have hpos := hlaid.consumed_pos
      have hle : req.bytesConsumed ≤ bytebufLen s.conn.inBuf :=
        Nat.le_trans hlaid.consumed_le (List.length_take_le _ _)
      simp only
      by_cases hrc : (s.execute req).1 ≠ 0
      · rw [if_pos hrc, if_pos hrc]
        exact ⟨1, Nat.le_trans hpos hle, rfl⟩
      · -- the frame is gone from the input
        have hrest : bytebufLen (s.serve req).conn.inBuf =
            bytebufLen s.conn.inBuf - req.bytesConsumed := bytebufLen_consume _ _
        obtain ⟨n, hn, hturns⟩ := ih (show bytebufLen (s.serve req).conn.inBuf ≤ fuel by omega)
        rw [if_neg hrc, if_neg hrc, hturns]
        exact ⟨n + 1, by omega, rfl⟩

/-- **Bounds and progress.** On every input the parser reads inside the input, wraps no
size and stages at most 32 arguments; a request that it accepts lies in its frame;
and the dispatch loop ends in every state. -/
theorem parser_bounds (input : Bytes) (hlen : input.length < 2 ^ 63) :
    checkedParseRequest input = some (respParseRequest input) ∧
      (∀ req, respParseRequest input = .ok req → req.Laid input) ∧
      ∀ s : NetState, ∃ n ≤ bytebufLen s.conn.inBuf,
        dispatchTurns (bytebufLen s.conn.inBuf + 1) s =
          some (n, dispatchLoop (bytebufLen s.conn.inBuf) s) :=
  ⟨checkedParseRequest_eq hlen, fun _ hreq => respParseRequest_laid hreq,
    fun _ => dispatchTurns_eq (Nat.le_refl _)⟩

/-- Two empty arguments behind the command, and the next frame behind that. -/
theorem parser_bounds_empty :
    checkedParseRequest (ascii "*3\r\n$3\r\nDEL\r\n$0\r\n\r\n$0\r\n\r\nPING\r\n") =
      some (.ok (commitArgs [⟨8, ascii "DEL"⟩, ⟨17, []⟩, ⟨23, []⟩] 25)) :=
  (parser_bounds (ascii "*3\r\n$3\r\nDEL\r\n$0\r\n\r\n$0\r\n\r\nPING\r\n") (by decide)).1

end RedisInC
