import RedisInC.Pipeline
import RedisInC.Roundtrip

/-!
# The two wire forms of a request

An argument list can be sent as an array of bulk strings or as a line of words.
Both are written here without the parser, and then parsed.

* `writeArray` — the serializers of the server used to write a request.
* `decode_undoes_encode` — what they write is parsed back, list by list.
* `InlineForm` — an argument list set on a line, with any spacing.
* `wire_forms_agree` — the line is parsed to the arguments of the array.
-/

namespace RedisInC

open Bytebuf Words

/-! ## Arrays of bulk strings -/

/-- `resp_reply_bulk` for each element, up to the first that fails. -/
def writeBulks : List Bytes → Bytebuf → Heap → Int × Bytebuf × Heap
  | [], out, h => (0, out, h)
  | bytes :: items, out, h => thenAppend (respReplyBulk out bytes h) (writeBulks items)

/-- `resp_reply_array_header` and then `resp_reply_bulk` for each element. -/
def writeArray (items : List Bytes) (out : Bytebuf) (h : Heap) : Int × Bytebuf × Heap :=
  thenAppend (respReplyArrayHeader out items.length h) (writeBulks items)

theorem writeBulks_spec (items : List Bytes) {out : Bytebuf} (hout : out.Inv) (h : Heap) :
    AppendOutcome out (items.flatMap encodeBulk) h (writeBulks items out h) := by
  induction items generalizing out h with
  | nil =>
    rw [writeBulks, List.flatMap_nil]
    exact .done hout (List.append_nil _).symm rfl fun ha => ha
  | cons bytes items ih =>
    rw [writeBulks, List.flatMap_cons]
    exact (respReplyBulk_spec hout bytes h).thenAppend fun _ h' hout' => ih hout' h'

theorem writeArray_spec (items : List Bytes) {out : Bytebuf} (hout : out.Inv) (h : Heap) :
    AppendOutcome out (Reply.array items).encode h (writeArray items out h) :=
  (respReplyArrayHeader_spec hout items.length h).thenAppend fun _ h' hout' =>
    writeBulks_spec items hout' h'

/-- An argument list that can be sent: 1 to 32 byte strings, and their encoding
fits a buffer. -/
structure Sendable (items : List Bytes) : Prop where
  /-- there is a command name -/
  pos : 1 ≤ items.length
  /-- the slots suffice -/
  le : items.length ≤ RESP_MAX_ARGC
  /-- the frame is not too long -/
  fits : (Reply.array items).encode.length ≤ BYTEBUF_MAX

/-- A frame that can be sent is accepted, whatever follows it. -/
theorem Sendable.parse {items : List Bytes} (hs : Sendable items) (t : Bytes) :
    ∃ req, respParseRequest ((Reply.array items).encode ++ t) = .ok req ∧ req.argv = items ∧
      req.bytesConsumed = (Reply.array items).encode.length := by
  obtain ⟨slices, hparse, hslices⟩ :=
    respParseRequest_encode (List.length_pos_iff.mp hs.pos) hs.le (words_le_cap hs.fits) t
  exact ⟨_, hparse, (argv_commitArgs _ _).trans hslices, rfl⟩

/-- The requests of frames in a row. -/
theorem requests_encode {lists : List (List Bytes)} (hlists : ∀ items ∈ lists, Sendable items)
    (t : Bytes) :
    (requests ((lists.flatMap fun items => (Reply.array items).encode) ++ t)).map
        RespRequest.argv = lists ++ (requests t).map RespRequest.argv := by
  induction lists with
  | nil => rfl
  | cons items lists ih =>
    obtain ⟨hitems, hothers⟩ := List.forall_mem_cons.mp hlists
    obtain ⟨req, hparse, hargv, hlen⟩ :=
      hitems.parse ((lists.flatMap fun items => (Reply.array items).encode) ++ t)
    rw [List.flatMap_cons, List.append_assoc, requests_frame hparse, hlen, List.drop_left,
      List.map_cons, hargv, ih hothers, List.cons_append]

/-- **Decoding undoes encoding.** Each of the argument lists, written into an
empty buffer without a failed allocation, is parsed back from the live bytes,
whatever follows them, and all of the encoding is consumed. So the encodings one
after the other are parsed back to the lists in order, and then what follows. -/
theorem decode_undoes_encode (lists : List (List Bytes))
    (hlists : ∀ items ∈ lists, Sendable items) (t : Bytes) :
    (∀ items ∈ lists, ∀ (out : Bytebuf) (h : Heap), out.Inv → out.live = [] →
      (writeArray items out h).2.2.failed = false →
        (writeArray items out h).1 = 0 ∧
        (writeArray items out h).2.1.live = (Reply.array items).encode ∧
        ∃ req, respParseRequest ((writeArray items out h).2.1.live ++ t) = .ok req ∧
          req.argv = items ∧ req.bytesConsumed = (Reply.array items).encode.length) ∧
    (requests ((lists.flatMap fun items => (Reply.array items).encode) ++ t)).map
        RespRequest.argv = lists ++ (requests t).map RespRequest.argv := by
  refine ⟨?_, requests_encode hlists t⟩
  intro items hmem out h hout hempty halloc
  have hs := hlists items hmem
  have hfits := hs.fits
  rcases (writeArray_spec items hout h).complete_iff halloc with ⟨hrc, hlive, -⟩ | ⟨-, hmax⟩
  · rw [hempty, List.nil_append] at hlive
    refine ⟨hrc, hlive, ?_⟩
    rw [hlive]
    exact hs.parse t
  · rw [hempty, List.length_nil, Nat.zero_add] at hmax
    exact absurd hfits (Nat.not_le_of_lt hmax)

/-- `GET k` and `PING`, and an incomplete frame behind them; and `GET k` written into
a buffer and parsed back from it. -/
theorem decode_undoes_encode_get_ping :
    (requests (ascii "*2\r\n$3\r\nGET\r\n$1\r\nk\r\n*1\r\n$4\r\nPING\r\n" ++ ascii "*1\r\n")).map
        RespRequest.argv = [[ascii "GET", ascii "k"], [ascii "PING"]] ∧
      (writeArray [ascii "GET", ascii "k"] bytebufInit Heap.ample).1 = 0 ∧
      (writeArray [ascii "GET", ascii "k"] bytebufInit Heap.ample).2.1.live =
        ascii "*2\r\n$3\r\nGET\r\n$1\r\nk\r\n" ∧
      ∃ req, respParseRequest ((writeArray [ascii "GET", ascii "k"] bytebufInit
          Heap.ample).2.1.live ++ ascii "*1\r\n") = .ok req ∧
        req.argv = [ascii "GET", ascii "k"] ∧ req.bytesConsumed = 20 := by
  have hsendable : ∀ items ∈ [[ascii "GET", ascii "k"], [ascii "PING"]], Sendable items := by
    intro items hmem
    rcases List.mem_cons.mp hmem with rfl | hmem
    · exact ⟨by decide, by decide, by decide⟩
    · obtain rfl := List.mem_singleton.mp hmem
      exact ⟨by decide, by decide, by decide⟩
  obtain ⟨hwritten, hparsed⟩ :=
    decode_undoes_encode [[ascii "GET", ascii "k"], [ascii "PING"]] hsendable (ascii "*1\r\n")
  exact ⟨hparsed, hwritten _ (List.mem_cons_self ..) bytebufInit Heap.ample inv_init rfl (by decide)⟩

/-! ## Lines of words -/

/-- An argument list set on a line: words with non-empty runs of spaces and tabs
in between, and any such runs before and behind them. -/
structure InlineForm where
  /-- the run before the first word -/
  lead : Bytes
  /-- the first word -/
  first : Bytes
  /-- the other words, each behind its run -/
  rest : List (Bytes × Bytes)
  /-- the run behind the last word -/
  trail : Bytes
  lead_blank : ∀ c ∈ lead, isBlank c = true
  first_word : first ≠ [] ∧ ∀ c ∈ first, isBlank c = false
  rest_words : ∀ g ∈ rest,
    (g.1 ≠ [] ∧ ∀ c ∈ g.1, isBlank c = true) ∧ g.2 ≠ [] ∧ ∀ c ∈ g.2, isBlank c = false
  trail_blank : ∀ c ∈ trail, isBlank c = true
  /-- no word has a newline -/
  no_newline : ∀ w ∈ first :: rest.map Prod.snd, LF ∉ w
  /-- the first word does not start like an array -/
  mark : first.head? ≠ some 42

namespace InlineForm

/-- The words. -/
def argv (f : InlineForm) : List Bytes := f.first :: f.rest.map Prod.snd

/-- The line, without its end. -/
def line (f : InlineForm) : Bytes :=
  f.lead ++ (f.first ++ (f.rest.flatMap (fun g => g.1 ++ g.2) ++ f.trail))

/-- The line may be ended like this: with a CRLF, or with a newline alone if it
does not end with a CR itself. -/
def Ends (f : InlineForm) (eol : Bytes) : Prop :=
  eol = CRLF ∨ (eol = [LF] ∧ f.line.getLast? ≠ some CR)

theorem words_line (f : InlineForm) : words isBlank f.line = f.argv :=
  words_spaced f.lead_blank f.first_word f.rest_words f.trail_blank

/-- Spaces and tabs are no newlines. -/
theorem blank_no_newline {run : Bytes} (h : ∀ c ∈ run, isBlank c = true) : LF ∉ run :=
  fun hmem => absurd (h LF hmem) (by decide)

theorem line_no_newline (f : InlineForm) : LF ∉ f.line := by
  simp only [line, List.mem_append, not_or]
  refine ⟨blank_no_newline f.lead_blank, f.no_newline _ (List.mem_cons_self ..), ?_,
    blank_no_newline f.trail_blank⟩
  intro hmem
  obtain ⟨g, hg, hlf⟩ := List.mem_flatMap.mp hmem
  rcases List.mem_append.mp hlf with hgap | hword
  · exact blank_no_newline (f.rest_words g hg).1.2 hgap
  · exact f.no_newline g.2 (List.mem_cons_of_mem _ (List.mem_map_of_mem hg)) hword

/-- The line starts with a blank or with the first word. -/
theorem head_line (f : InlineForm) : ∃ c cs, f.line = c :: cs ∧ c ≠ 42 := by
  rw [line]
  cases hlead : f.lead with
  | nil =>
    cases hfirst : f.first with
    | nil => exact absurd hfirst f.first_word.1
    | cons c cs =>
      have hmark := f.mark
      rw [hfirst, List.head?_cons] at hmark
      exact ⟨c, _, rfl, fun hc => hmark (congrArg some hc)⟩
  | cons c cs =>
    refine ⟨c, _, rfl, ?_⟩
    rintro rfl
    exact absurd (f.lead_blank 42 (by rw [hlead]; exact List.mem_cons_self ..)) (by decide)

/-- A line of at most 32 words that is not too long is a frame of its words. -/
theorem frame (f : InlineForm) {eol : Bytes} (heol : f.Ends eol)
    (hargc : f.argv.length ≤ RESP_MAX_ARGC) (hlen : (f.line ++ eol).length ≤ RESP_MAX_INLINE_LEN) :
    Frame f.argv (f.line ++ eol) := by
  obtain ⟨c, cs, hline, hc⟩ := f.head_line
  have hpos : 1 ≤ f.argv.length := Nat.succ_le_succ (Nat.zero_le _)
  rcases heol with rfl | ⟨rfl, hlast⟩
  · -- the CR is cut off
    have hwords : lineWords (f.line ++ [CR]) = f.argv := by
      rw [lineWords, chopCr, List.getLast?_concat, if_pos rfl, List.dropLast_concat, words_line]
    have hframe : Frame (lineWords (f.line ++ [CR])) (f.line ++ [CR] ++ [LF]) := by
      apply Frame.inline
      · rw [hline, List.cons_append, List.head?_cons]
        simpa using hc
      · rw [List.mem_append, not_or]
        exact ⟨f.line_no_newline, by decide⟩
      · simp only [List.length_append, List.length_cons, List.length_nil] at hlen ⊢
        omega
      · rw [hwords]
        exact hpos
      · rw [hwords]
        exact hargc
    rwa [hwords, List.append_assoc] at hframe
  · have hwords : lineWords f.line = f.argv := by
      rw [lineWords, chopCr, if_neg hlast, words_line]
    rw [← hwords] at hpos hargc ⊢
    apply Frame.inline
    · rw [hline, List.head?_cons]
      simpa using hc
    · exact f.line_no_newline
    · simp only [List.length_append, List.length_singleton] at hlen
      omega
    · exact hpos
    · exact hargc

end InlineForm

/-- The words of a line that is not too long are far below the cap of a bulk
string. -/
theorem InlineForm.word_le (f : InlineForm) (hlen : f.line.length ≤ RESP_MAX_INLINE_LEN) :
    ∀ bytes ∈ f.argv, bytes.length ≤ RESP_MAX_BULK_LEN := by
  have hmax : RESP_MAX_INLINE_LEN ≤ RESP_MAX_BULK_LEN := by decide
  intro bytes hmem
  have hle : bytes.length ≤ f.line.length := by
    rcases List.mem_cons.mp hmem with rfl | hmem
    · simp only [InlineForm.line, List.length_append]
      omega
    · obtain ⟨g, hg, rfl⟩ := List.mem_map.mp hmem
      have hpart : g.1 ++ g.2 ∈ f.rest.map fun g => g.1 ++ g.2 :=
        List.mem_map.mpr ⟨g, hg, rfl⟩
      have hsub := (List.sublist_flatten_of_mem hpart).length_le
      rw [← List.flatMap_def] at hsub
      simp only [InlineForm.line, List.length_append] at hsub ⊢
      omega
  omega

/-- **The two wire forms agree.** A list of 1 to 32 words set on a line, with any
spacing, and the array of the same words: both are parsed to the words, whatever
follows, and of the line all is consumed up to and with its newline. -/
theorem wire_forms_agree (f : InlineForm) (eol : Bytes) (heol : f.Ends eol)
    (hargc : f.argv.length ≤ RESP_MAX_ARGC) (hlen : (f.line ++ eol).length ≤ RESP_MAX_INLINE_LEN)
    (t t' : Bytes) :
    ∃ inline multi, respParseRequest (f.line ++ eol ++ t) = .ok inline ∧
      respParseRequest ((Reply.array f.argv).encode ++ t') = .ok multi ∧
      inline.argv = multi.argv ∧ inline.argv = f.argv ∧
      inline.bytesConsumed = (f.line ++ eol).length := by
  obtain ⟨slices, hinline, hslices⟩ := respParseRequest_frame (f.frame heol hargc hlen) t
  have hword : ∀ bytes ∈ f.argv, bytes.length ≤ RESP_MAX_BULK_LEN := by
    apply f.word_le
    rw [List.length_append] at hlen
    exact Nat.le_of_add_right_le hlen
  obtain ⟨slices', hmulti, hslices'⟩ :=
    respParseRequest_encode (List.cons_ne_nil _ _) hargc hword t'
  have hargv := (argv_commitArgs slices (f.line ++ eol).length).trans hslices
  exact ⟨_, _, hinline, hmulti,
    hargv.trans ((argv_commitArgs _ _).trans hslices').symm, hargv, rfl⟩

instance (cs : Bytes) (blank : Bool) : Decidable (∀ c ∈ cs, isBlank c = blank) :=
  List.decidableBAll (fun c => isBlank c = blank) cs

/-- `SET k v<CR>` with a space in front, a tab and two spaces in between. -/
def spacedSet : InlineForm where
  lead := ascii " "
  first := ascii "SET"
  rest := [(ascii "\t", ascii "k"), (ascii "  ", ascii "v\r")]
  trail := []
  lead_blank := by decide
  first_word := by decide
  rest_words := by decide
  trail_blank := by decide
  no_newline := by decide
  mark := by decide

/-- A value that ends with a CR, which the CRLF of the line protects. -/
theorem wire_forms_agree_set : ∃ inline multi,
    respParseRequest (spacedSet.line ++ CRLF ++ ascii "rest") = .ok inline ∧
      respParseRequest ((Reply.array spacedSet.argv).encode ++ []) = .ok multi ∧
      inline.argv = multi.argv ∧ inline.argv = spacedSet.argv ∧
      inline.bytesConsumed = (spacedSet.line ++ CRLF).length :=
  wire_forms_agree spacedSet CRLF (Or.inl rfl) (by decide) (by decide) (ascii "rest") []

end RedisInC
