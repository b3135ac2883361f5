import RedisInC.Resp

/-!
# Replies as values

What the serializers of `resp.c` write, said once and for all.

* `Reply` — the six kinds of RESP2 replies a server of strings gives, with
  their encodings; `Reply.WellFormed` — the ones a peer can read back.
* `readReply` — a RESP2 reader that splits one reply off a stream;
  `readReply_encode` — on well-formed replies it finds the reply and stops right
  behind it, so that a stream of them is read reply by reply.
* One lemma for each serializer: it appends the encoding of its reply, or a part
  of it for a reason (`Bytebuf.AppendOutcome`).
-/

namespace RedisInC

open DecimalText

/-- A reply. -/
inductive Reply : Type
  /-- simple string -/
  | simple (text : Bytes)
  /-- error -/
  | error (msg : Bytes)
  /-- 64-bit integer -/
  | integer (n : ℤ)
  /-- bulk string -/
  | bulk (bytes : Bytes)
  /-- the nil bulk string -/
  | nil
  /-- array of bulk strings -/
  | array (items : List Bytes)

/-- `"$<len>\r\n<bytes>\r\n"`; the length is printed as a `size_t`. -/
def encodeBulk (bytes : Bytes) : Bytes :=
  ascii "$" ++ natText (sizeT bytes.length) ++ CRLF ++ (bytes ++ CRLF)

/-- `"*<n>\r\n"` -/
def encodeArrayHeader (n : ℕ) : Bytes := ascii "*" ++ natText (sizeT n) ++ CRLF

namespace Reply

/-- The bytes of a reply on the wire. -/
def encode : Reply → Bytes
  | simple text => ascii "+" ++ (text ++ CRLF)
  | error msg => ascii "-" ++ (msg ++ CRLF)
  | integer n => ascii ":" ++ intText (int64 n) ++ CRLF
  | bulk bytes => encodeBulk bytes
  | nil => ascii "$-1\r\n"
  | array items => encodeArrayHeader items.length ++ items.flatMap encodeBulk

/-- The replies a peer can read back: lines hold no line ends, numbers fit their
types. -/
def WellFormed : Reply → Prop
  | simple text => CR ∉ text ∧ LF ∉ text
  | error msg => CR ∉ msg ∧ LF ∉ msg
  | integer n => INT64_MIN ≤ n ∧ n ≤ INT64_MAX
  | bulk bytes => bytes.length ≤ SIZE_MAX
  | nil => True
  | array items => items.length ≤ SIZE_MAX ∧ ∀ bytes ∈ items, bytes.length ≤ SIZE_MAX

end Reply

/-! ## A reader of replies -/

/-- Split off a line: everything before the first line end, which has to be a
CRLF. -/
def readLine : Bytes → Option (Bytes × Bytes)
  | [] => none
  | c :: cs =>
    if c = CR then if cs.head? = some LF then some ([], cs.tail) else none
    else if c = LF then none
    else (readLine cs).map fun r => (c :: r.1, r.2)

/-- Split off `n` bytes and the CRLF behind them. -/
def readBody (n : ℕ) (s : Bytes) : Option (Bytes × Bytes) :=
  if n ≤ s.length ∧ (s.drop n).take 2 = CRLF then some (s.take n, s.drop (n + 2)) else none

/-- Split off `n` bulk strings. -/
def readBulks : ℕ → Bytes → Option (List Bytes × Bytes)
  | 0, s => some ([], s)
  | n + 1, s =>
    if s.head? = some 36 then
      (readLine s.tail).bind fun (line, s) =>
        (readNat line).bind fun len =>
          (readBody len s).bind fun (bytes, s) =>
            (readBulks n s).map fun r => (bytes :: r.1, r.2)
    else none

/-- Split off one reply. -/
def readReply : Bytes → Option (Reply × Bytes)
  | [] => none
  | c :: s =>
    (readLine s).bind fun (line, s) =>
      if c = 43 then some (.simple line, s)
      else if c = 45 then some (.error line, s)
      else if c = 58 then (readInt line).map fun n => (.integer n, s)
      else if c = 36 then
        if line = ascii "-1" then some (.nil, s)
        else (readNat line).bind fun len => (readBody len s).map fun r => (.bulk r.1, r.2)
      else if c = 42 then
        (readNat line).bind fun n => (readBulks n s).map fun r => (.array r.1, r.2)
      else none

/-- A line without line ends is split off as it is. -/
theorem readLine_append {text : Bytes} (ht : CR ∉ text ∧ LF ∉ text) (rest : Bytes) :
    readLine (text ++ (CRLF ++ rest)) = some (text, rest) := by
  induction text with
  | nil => rfl
  | cons c cs ih =>
    obtain ⟨hcr, hlf⟩ := ht
    rw [List.mem_cons, not_or] at hcr hlf
    rw [List.cons_append, readLine, if_neg (Ne.symm hcr.1), if_neg (Ne.symm hlf.1),
      ih ⟨hcr.2, hlf.2⟩, Option.map_some]

/-- Digits are no line ends. -/
theorem digits_no_eol {text : Bytes} (ht : ∀ c ∈ text, c = 45 ∨ IsDigit c) :
    CR ∉ text ∧ LF ∉ text := by
  constructor
  · intro h
    rcases ht _ h with h | h
    · exact absurd h (by decide)
    · exact absurd h (by decide)
  · intro h
    rcases ht _ h with h | h
    · exact absurd h (by decide)
    · exact absurd h (by decide)

theorem natText_no_eol (n : ℕ) : CR ∉ natText n ∧ LF ∉ natText n :=
  digits_no_eol fun c hc => Or.inr (natText_isDigit c hc)

theorem intText_no_eol (z : ℤ) : CR ∉ intText z ∧ LF ∉ intText z :=
  digits_no_eol fun _ hc => mem_intText hc

theorem readBody_append (bytes rest : Bytes) :
    readBody bytes.length (bytes ++ (CRLF ++ rest)) = some (bytes, rest) := by
  have hdrop : (bytes ++ (CRLF ++ rest)).drop (bytes.length + 2) = rest := by
    rw [← List.drop_drop, List.drop_left]
    rfl
  rw [readBody, List.drop_left, List.take_left, hdrop, if_pos]
  refine ⟨?_, rfl⟩
  rw [List.length_append]
  exact Nat.le_add_right _ _

/-- Bulk strings are read back one by one. -/
theorem readBulks_encode {items : List Bytes} (hitems : ∀ bytes ∈ items, bytes.length ≤ SIZE_MAX)
    (rest : Bytes) :
    readBulks items.length (items.flatMap encodeBulk ++ rest) = some (items, rest) := by
  induction items with
  | nil => rfl
  | cons bytes items ih =>
    have hlen := sizeT_of_le (hitems bytes (List.mem_cons_self ..))
    have hrest := ih fun b hb => hitems b (List.mem_cons_of_mem _ hb)
    have hsplit : (bytes :: items).flatMap encodeBulk ++ rest =
        36 :: (natText bytes.length ++
          (CRLF ++ (bytes ++ (CRLF ++ (items.flatMap encodeBulk ++ rest))))) := by
      rw [List.flatMap_cons, encodeBulk, hlen]
      simp [ascii]
    rw [hsplit, List.length_cons, readBulks, List.head?_cons, if_pos rfl, List.tail_cons,
      readLine_append (natText_no_eol _), Option.bind_some]
    simp only
    rw [readNat_natText, Option.bind_some, readBody_append, Option.bind_some]
    simp only
    rw [hrest, Option.map_some]

/-- **Reading back.** The reader finds a well-formed reply at the head of a
stream and stops right behind it. -/
theorem readReply_encode {r : Reply} (hr : r.WellFormed) (rest : Bytes) :
    readReply (r.encode ++ rest) = some (r, rest) := by
  cases r with
  | simple text =>
    have hsplit : (Reply.simple text).encode ++ rest = 43 :: (text ++ (CRLF ++ rest)) := by
      simp [Reply.encode, ascii]
    rw [hsplit, readReply, readLine_append hr]
    rfl
  | error msg =>
    have hsplit : (Reply.error msg).encode ++ rest = 45 :: (msg ++ (CRLF ++ rest)) := by
      simp [Reply.encode, ascii]
    rw [hsplit, readReply, readLine_append hr]
    rfl
  | integer n =>
    have hsplit : (Reply.integer n).encode ++ rest = 58 :: (intText n ++ (CRLF ++ rest)) := by
      rw [Reply.encode, int64_of_bounds hr.1 hr.2]
      simp [ascii]
    rw [hsplit, readReply, readLine_append (intText_no_eol n), Option.bind_some]
    simp only
    rw [readInt_intText]
    rfl
  | bulk bytes =>
    have hsplit : (Reply.bulk bytes).encode ++ rest =
        36 :: (natText bytes.length ++ (CRLF ++ (bytes ++ (CRLF ++ rest)))) := by
      rw [Reply.encode, encodeBulk, sizeT_of_le hr]
      simp [ascii]
    have hnil : natText bytes.length ≠ ascii "-1" := by
      intro h
      have hminus : (45 : UInt8) ∈ natText bytes.length := by
        rw [h]
        decide
      exact absurd (natText_isDigit _ hminus) (by decide)
    rw [hsplit, readReply, readLine_append (natText_no_eol _), Option.bind_some]
    simp only
    rw [if_neg (by decide), if_neg (by decide), if_neg (by decide), if_pos trivial, if_neg hnil,
      readNat_natText, Option.bind_some, readBody_append]
    rfl
  | nil => rfl
  | array items =>
    have hsplit : (Reply.array items).encode ++ rest =
        42 :: (natText items.length ++ (CRLF ++ (items.flatMap encodeBulk ++ rest))) := by
      rw [Reply.encode, encodeArrayHeader, sizeT_of_le hr.1]
      simp [ascii]
    rw [hsplit, readReply, readLine_append (natText_no_eol _), Option.bind_some]
    simp only
    rw [if_neg (by decide), if_neg (by decide), if_neg (by decide), if_neg (by decide),
      if_pos trivial, readNat_natText, Option.bind_some, readBulks_encode hr.2]
    rfl

/-! ## The serializers -/

namespace Bytebuf

/-- The buffer stays in order either way. -/
theorem AppendOutcome.inv {b : Bytebuf} {s : Bytes} {h : Heap} {r : Int × Bytebuf × Heap}
    (hr : AppendOutcome b s h r) : r.2.1.Inv := by
  cases hr with
  | done inv live_eq failed_eq ample => exact inv
  | short inv is_part live_eq refused ample => exact inv

/-- A part of the text is appended either way. -/
theorem AppendOutcome.appended {b : Bytebuf} {s : Bytes} {h : Heap} {r : Int × Bytebuf × Heap}
    (hr : AppendOutcome b s h r) : ∃ part, r.2.1.live = b.live ++ part ∧ part <+: s := by
  cases hr with
  | done inv live_eq failed_eq ample => exact ⟨s, live_eq, List.prefix_rfl⟩
  | short inv is_part live_eq refused ample => exact ⟨_, live_eq, is_part⟩

/-- The allocator never forgets a failure. -/
theorem AppendOutcome.failed_mono {b : Bytebuf} {s : Bytes} {h : Heap} {r : Int × Bytebuf × Heap}
    (hr : AppendOutcome b s h r) (hf : r.2.2.failed = false) : h.failed = false := by
  cases hr with
  | done inv live_eq failed_eq ample => exact failed_eq.symm.trans hf
  | short inv is_part live_eq refused ample =>
    rcases refused with hfailed | ⟨-, hfailed⟩
    · exact absurd (hfailed.symm.trans hf) (by decide)
    · exact hfailed.symm.trans hf

/-- An ample allocator stays ample. -/
theorem AppendOutcome.ample {b : Bytebuf} {s : Bytes} {h : Heap} {r : Int × Bytebuf × Heap}
    (hr : AppendOutcome b s h r) (ha : h.Ample) : r.2.2.Ample := by
  cases hr with
  | done inv live_eq failed_eq ample => exact ample ha
  | short inv is_part live_eq refused ample => exact ample ha

/-- Without a failure, the text is appended exactly if it fits. -/
theorem AppendOutcome.complete_iff {b : Bytebuf} {s : Bytes} {h : Heap}
    {r : Int × Bytebuf × Heap} (hr : AppendOutcome b s h r) (hf : r.2.2.failed = false) :
    (r.1 = 0 ∧ r.2.1.live = b.live ++ s ∧ b.live.length + s.length ≤ BYTEBUF_MAX) ∨
      (r.1 = -1 ∧ BYTEBUF_MAX < b.live.length + s.length) := by
  cases hr with
  | done inv live_eq failed_eq ample =>
    have hlen := inv.length_live_le
    rw [live_eq, List.length_append] at hlen
    exact Or.inl ⟨rfl, live_eq, hlen⟩
  | short inv is_part live_eq refused ample =>
    rcases refused with hfailed | ⟨hmax, -⟩
    · exact absurd (hfailed.symm.trans hf) (by decide)
    · exact Or.inr ⟨rfl, hmax⟩

/-- The return code is 0 or -1, and 0 means that the text is appended in full. -/
theorem AppendOutcome.rc {b : Bytebuf} {s : Bytes} {h : Heap} {r : Int × Bytebuf × Heap}
    (hr : AppendOutcome b s h r) : (r.1 = 0 ∧ r.2.1.live = b.live ++ s) ∨ r.1 = -1 := by
  cases hr with
  | done inv live_eq failed_eq ample => exact Or.inl ⟨rfl, live_eq⟩
  | short inv is_part live_eq refused ample => exact Or.inr rfl

/-- An append on top of a complete one. -/
theorem AppendOutcome.after {b b' : Bytebuf} {s t : Bytes} {h h' : Heap} {r : Int × Bytebuf × Heap}
    (live_eq : b'.live = b.live ++ s) (failed_eq : h'.failed = h.failed)
    (ample : h.Ample → h'.Ample) (hr : AppendOutcome b' t h' r) :
    AppendOutcome b (s ++ t) h r := by
  cases hr with
  | done inv₂ live_eq₂ failed_eq₂ ample₂ =>
    refine .done inv₂ ?_ (failed_eq₂.trans failed_eq) fun ha => ample₂ (ample ha)
    rw [live_eq₂, live_eq, List.append_assoc]
  | @short _ _ part inv₂ is_part live_eq₂ refused ample₂ =>
    refine .short inv₂ ((List.prefix_append_right_inj s).mpr is_part) ?_ ?_
      fun ha => ample₂ (ample ha)
    · rw [live_eq₂, live_eq, List.append_assoc]
    · rcases refused with hf | ⟨hmax, hf⟩
      · exact Or.inl hf
      · refine Or.inr ⟨?_, hf.trans failed_eq⟩
        rw [live_eq, List.length_append] at hmax
        rw [List.length_append]
        omega

/-- An append that stopped early has stopped early on any longer text as well. -/
theorem AppendOutcome.cut {b b' : Bytebuf} {s : Bytes} {h h' : Heap}
    (hr : AppendOutcome b s h (-1, b', h')) (t : Bytes) :
    AppendOutcome b (s ++ t) h (-1, b', h') := by
  cases hr with
  | short inv is_part live_eq refused ample =>
    refine .short inv (is_part.trans (List.prefix_append s t)) live_eq ?_ ample
    rcases refused with hf | ⟨hmax, hf⟩
    · exact Or.inl hf
    · refine Or.inr ⟨?_, hf⟩
      rw [List.length_append]
      omega

/-- **Appends in sequence** make up the concatenated text. -/
theorem AppendOutcome.thenAppend {b : Bytebuf} {s t : Bytes} {h : Heap} {r : Int × Bytebuf × Heap}
    {next : Bytebuf → Heap → Int × Bytebuf × Heap} (hr : AppendOutcome b s h r)
    (hnext : ∀ b' h', b'.Inv → AppendOutcome b' t h' (next b' h')) :
    AppendOutcome b (s ++ t) h (RedisInC.thenAppend r next) := by
  cases hr with
  | @done b' h' inv live_eq failed_eq ample =>
    rw [RedisInC.thenAppend, if_neg (Int.lt_irrefl 0)]
    exact (hnext b' h' inv).after live_eq failed_eq ample
  | short inv is_part live_eq refused ample =>
    exact (AppendOutcome.short inv is_part live_eq refused ample).cut t

end Bytebuf

open Bytebuf

/-- The three appends every line reply is made of. -/
theorem append_line_spec {b : Bytebuf} (hb : b.Inv) (mark text : Bytes) (h : Heap) :
    AppendOutcome b (mark ++ (text ++ CRLF)) h
      (thenAppend (bytebufAppend b mark h) fun out h =>
        thenAppend (bytebufAppend out text h) fun out h => bytebufAppend out CRLF h) :=
  (bytebufAppend_spec hb mark h).thenAppend fun _ h₁ hb₁ =>
    (bytebufAppend_spec hb₁ text h₁).thenAppend fun _ h₂ hb₂ => bytebufAppend_spec hb₂ CRLF h₂

theorem respReplySimpleString_spec {b : Bytebuf} (hb : b.Inv) (s : Bytes) (h : Heap) :
    AppendOutcome b (Reply.simple s).encode h (respReplySimpleString b s h) :=
  append_line_spec hb (ascii "+") s h

theorem respReplyError_spec {b : Bytebuf} (hb : b.Inv) (msg : Bytes) (h : Heap) :
    AppendOutcome b (Reply.error msg).encode h (respReplyError b msg h) :=
  append_line_spec hb (ascii "-") msg h

/-- Whether it is appended does not depend on what has failed before. -/
theorem thenAppend_recorded {r r' : Int × Bytebuf × Heap}
    {next : Bytebuf → Heap → Int × Bytebuf × Heap} (hr : ∃ failed, r' = recorded r failed)
    (hnext : ∀ b h failed, ∃ failed', next b (h.recorded failed) = recorded (next b h) failed') :
    ∃ failed, thenAppend r' next = recorded (thenAppend r next) failed := by
  obtain ⟨failed, rfl⟩ := hr
  change ∃ failed', (if r.1 < 0 then (-1, (recorded r failed).2) else _) = _
  rw [thenAppend]
  by_cases hneg : r.1 < 0
  · rw [if_pos hneg, if_pos hneg]
    exact ⟨failed, rfl⟩
  · rw [if_neg hneg, if_neg hneg]
    exact hnext _ _ failed

theorem respReplyError_recorded (out : Bytebuf) (msg : Bytes) (h : Heap) (failed : Bool) :
    ∃ failed', respReplyError out msg (h.recorded failed) =
      recorded (respReplyError out msg h) failed' :=
  thenAppend_recorded (bytebufAppend_recorded out _ h failed) fun out h failed =>
    thenAppend_recorded (bytebufAppend_recorded out _ h failed) fun out h failed =>
      bytebufAppend_recorded out _ h failed

/-- A printed `size_t` is short. -/
theorem length_natText_sizeT (n : ℕ) : (natText (sizeT n)).length ≤ 20 := by
  refine length_natText_le (by decide) (Nat.lt_of_le_of_lt (sizeT_le n) ?_)
  decide

/-- A printed `int64_t` is short. -/
theorem length_intText_int64 (z : ℤ) : (intText (int64 z)).length ≤ 20 := by
  refine length_intText_le (by decide) ?_
  have hbounds := int64_bounds z
  simp only [INT64_MIN, INT64_MAX] at hbounds
  omega

/-- The size of a bulk reply. -/
theorem length_encodeBulk_eq (bytes : Bytes) :
    (encodeBulk bytes).length = (natText (sizeT bytes.length)).length + bytes.length + 5 := by
  have hmark : (ascii "$").length = 1 := rfl
  simp only [encodeBulk, List.length_append, List.length_cons, List.length_nil]
  omega

theorem length_encodeBulk_le (bytes : Bytes) : (encodeBulk bytes).length ≤ bytes.length + 25 := by
  have hdigits := length_natText_sizeT bytes.length
  rw [length_encodeBulk_eq]
  omega

theorem respReplyInteger_spec {b : Bytebuf} (hb : b.Inv) (n : ℤ) (h : Heap) :
    AppendOutcome b (Reply.integer n).encode h (respReplyInteger b n h) := by
  refine bytebufAppendf_spec hb ?_ h
  have hlen := length_intText_int64 n
  have hmark : (ascii ":").length = 1 := rfl
  simp only [Reply.encode, List.length_append, List.length_cons, List.length_nil]
  omega

/-- The header of a bulk string or an array. -/
theorem append_header_spec {b : Bytebuf} (hb : b.Inv) {mark : Bytes} (hmark : mark.length = 1)
    (n : ℕ) (h : Heap) : AppendOutcome b (mark ++ natText (sizeT n) ++ CRLF) h
      (bytebufAppendf b (mark ++ natText (sizeT n) ++ CRLF) h) := by
  refine bytebufAppendf_spec hb ?_ h
  have hlen := length_natText_sizeT n
  simp only [List.length_append, List.length_cons, List.length_nil]
  omega

theorem respReplyBulk_spec {b : Bytebuf} (hb : b.Inv) (bytes : Bytes) (h : Heap) :
    AppendOutcome b (Reply.bulk bytes).encode h (respReplyBulk b bytes h) :=
  (append_header_spec hb (by rfl) bytes.length h).thenAppend fun _ h₁ hb₁ =>
    (bytebufAppend_spec hb₁ bytes h₁).thenAppend fun _ h₂ hb₂ => bytebufAppend_spec hb₂ CRLF h₂

theorem respReplyNil_spec {b : Bytebuf} (hb : b.Inv) (h : Heap) :
    AppendOutcome b Reply.nil.encode h (respReplyNil b h) :=
  bytebufAppend_spec hb _ h

theorem respReplyArrayHeader_spec {b : Bytebuf} (hb : b.Inv) (n : ℕ) (h : Heap) :
    AppendOutcome b (encodeArrayHeader n) h (respReplyArrayHeader b n h) :=
  append_header_spec hb (by rfl) n h

end RedisInC
