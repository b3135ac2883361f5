import RedisInC.Bytebuf
import RedisInC.Decimal

/-!
# The RESP2 protocol (`resp.c`)

* `respParseRequest` — the stateless request parser: one frame from the head of
  the buffer, multi-bulk or inline. Every function takes the bytes from its
  position on, so that a byte can be read only where there is one.
* The reply serializers — sequences of appends to the output buffer, given up at
  the first one that fails.

Sizes are `ℕ`. No sum of the parser can wrap: headers lie in the buffer and bulk
lengths are capped before they are used.
-/

namespace RedisInC

/-- Hard cap on the number of arguments. -/
def RESP_MAX_ARGC : ℕ := 32
/-- Hard cap on the length of one bulk string: 512 MiB. -/
def RESP_MAX_BULK_LEN : ℕ := 512 * 1024 * 1024
/-- Cap on a single inline command line. -/
def RESP_MAX_INLINE_LEN : ℕ := 8 * 1024

/-- `resp_slice_t`: a borrowed view into the input, as the offset it starts at
and the bytes it shows. -/
structure RespSlice where
  /-- offset of the first byte in the input -/
  start : ℕ
  /-- the bytes of the slice -/
  bytes : Bytes

instance : Inhabited RespSlice := ⟨⟨0, []⟩⟩

/-- `size_t len` of a slice. -/
abbrev RespSlice.len (s : RespSlice) : ℕ := s.bytes.length

/-- `resp_request_t`. Only the first `argc` entries of `args` mean anything. -/
structure RespRequest where
  /-- the argument slots -/
  args : ℕ → RespSlice
  /-- number of slots in use -/
  argc : ℕ
  /-- length of the frame -/
  bytesConsumed : ℕ

/-- The arguments of a request as byte strings. -/
def RespRequest.argv (req : RespRequest) : List Bytes :=
  (List.range req.argc).map fun i => (req.args i).bytes

/-- `resp_status_t`, together with what the call has produced when it is
`RESP_OK`. -/
inductive RespStatus (α : Type) : Type
  /-- `RESP_OK` -/
  | ok (out : α)
  /-- `RESP_NEED_MORE` -/
  | needMore
  /-- `RESP_PROTOCOL_ERR` -/
  | protocolErr

namespace RespStatus

variable {α β : Type}

/-- `if (st != RESP_OK) return st;` -/
def bind : RespStatus α → (α → RespStatus β) → RespStatus β
  | .ok a, f => f a
  | .needMore, _ => .needMore
  | .protocolErr, _ => .protocolErr

theorem bind_eq_ok {st : RespStatus α} {f : α → RespStatus β} {b : β} (h : st.bind f = .ok b) :
    ∃ a, st = .ok a ∧ f a = .ok b := by
  cases st with
  | ok a => exact ⟨a, rfl, h⟩
  | needMore => cases h
  | protocolErr => cases h

end RespStatus

/-! ## Length / number helpers -/

/-- The loop of `parse_int_until_crlf`, from index `i` on. -/
def parseIntLoop (negative : Bool) (digitsAt : ℕ) : Bytes → ℤ → ℕ → RespStatus (ℤ × ℕ)
  | [], _, _ => .needMore
  | c :: cs, value, i =>
    if c = CR then
      match cs.head? with
      | none => .needMore
      | some d =>
        if d ≠ LF then .protocolErr
        else if i = digitsAt then .protocolErr
        else .ok (if negative then -value else value, i + 2)
    else if c < 48 ∨ c > 57 then .protocolErr
    -- overflow guard: value*10 + 9 must still fit in int64_t
    else if value > (INT64_MAX - 9) / 10 then .protocolErr
    else parseIntLoop negative digitsAt cs (value * 10 + (c.toNat - 48)) (i + 1)

/-- `parse_int_until_crlf`: the value and the number of bytes consumed. -/
def parseIntUntilCrlf : Bytes → RespStatus (ℤ × ℕ)
  | [] => .needMore
  | c :: cs =>
    if c = 45 then parseIntLoop true 1 cs 0 1 else parseIntLoop false 0 (c :: cs) 0 0

/-! ## Bulk string -/

/-- `parse_bulk` at offset `base` of the input: the slice and the number of bytes
consumed. -/
def parseBulk (p : Bytes) (base : ℕ) : RespStatus (RespSlice × ℕ) :=
  match p with
  | [] => .needMore
  | c :: cs =>
    if c ≠ 36 then .protocolErr
    else (parseIntUntilCrlf cs).bind fun (length, hdrUsed) =>
      if length < 0 ∨ length.toNat > RESP_MAX_BULK_LEN then .protocolErr
      else
        let headerSize := 1 + hdrUsed
        let bodySize := length.toNat
        let total := headerSize + bodySize + 2
        if total < headerSize then .protocolErr
        else if p.length < total then .needMore
        else if p[headerSize + bodySize]? ≠ some CR ∨ p[headerSize + bodySize + 1]? ≠ some LF then
          .protocolErr
        else .ok (⟨base + headerSize, (p.drop headerSize).take bodySize⟩, total)

/-! ## Multi-bulk array -/

/-- The loop over the `n` bulks still expected; `tmp` are the staged slices. -/
def parseBulks : ℕ → Bytes → ℕ → List RespSlice → RespStatus (List RespSlice × ℕ)
  | 0, _, pos, tmp => .ok (tmp, pos)
  | n + 1, p, pos, tmp =>
    (parseBulk p pos).bind fun (slice, bulkUsed) =>
      parseBulks n (p.drop bulkUsed) (pos + bulkUsed) (tmp ++ [slice])

/-- Commit the staged slices to the result. -/
def commitArgs (tmp : List RespSlice) (bytesConsumed : ℕ) : RespRequest :=
  ⟨fun i => tmp.getD i default, tmp.length, bytesConsumed⟩

/-- `parse_multi_bulk` -/
def parseMultiBulk (input : Bytes) : RespStatus RespRequest :=
  (parseIntUntilCrlf (input.drop 1)).bind fun (argc, hdrUsed) =>
    if argc < 1 ∨ argc.toNat > RESP_MAX_ARGC then .protocolErr
    else
      (parseBulks argc.toNat (input.drop (1 + hdrUsed)) (1 + hdrUsed) []).bind fun (tmp, pos) =>
        .ok (commitArgs tmp pos)

/-! ## Inline command -/

/-- Space or tab. -/
def isBlank (c : UInt8) : Bool := c = 32 || c = 9

/-- The tokenizer, from offset `i` of the line on; `rest` is what the line has
there. Every round but the last takes a token off the rest, so the length of the
line is fuel enough. -/
def tokenize : ℕ → Bytes → ℕ → List RespSlice → RespStatus (List RespSlice)
  | 0, _, _, tmp => .ok tmp
  | fuel + 1, rest, i, tmp =>
    let i := i + (rest.takeWhile isBlank).length
    let rest := rest.dropWhile isBlank
    if rest.length = 0 then .ok tmp
    else if tmp.length ≥ RESP_MAX_ARGC then .protocolErr
    else
      let tok := rest.takeWhile fun c => !isBlank c
      tokenize fuel (rest.dropWhile fun c => !isBlank c) (i + tok.length) (tmp ++ [⟨i, tok⟩])

/-- The line without its newline at `nl` and without an optional CR before it. -/
def inlineLine (input : Bytes) (nl : ℕ) : Bytes :=
  input.take (if nl > 0 ∧ input[nl - 1]? = some CR then nl - 1 else nl)

/-- `parse_inline` -/
def parseInline (input : Bytes) : RespStatus RespRequest :=
  let len := input.length
  let scanLimit := if len < RESP_MAX_INLINE_LEN then len else RESP_MAX_INLINE_LEN
  let nl := (input.take scanLimit).findIdx (· = LF)
  if nl = scanLimit then
    if len ≥ RESP_MAX_INLINE_LEN then .protocolErr else .needMore
  else
    let line := inlineLine input nl
    (tokenize line.length line 0 []).bind fun tmp =>
      if tmp.length = 0 then .protocolErr else .ok (commitArgs tmp (nl + 1))

/-! ## Public entry point -/

/-- `resp_parse_request`: multi-bulk behind a `'*'`, inline otherwise. -/
def respParseRequest (input : Bytes) : RespStatus RespRequest :=
  match input with
  | [] => .needMore
  | c :: _ => if c = 42 then parseMultiBulk input else parseInline input

/-! ## Reply serializers -/

/-- `if (append < 0) return -1;` and on with the next one. -/
def thenAppend (r : Int × Bytebuf × Heap) (next : Bytebuf → Heap → Int × Bytebuf × Heap) :
    Int × Bytebuf × Heap :=
  if r.1 < 0 then (-1, r.2) else next r.2.1 r.2.2

/-- `"+<s>\r\n"` -/
def respReplySimpleString (out : Bytebuf) (s : Bytes) (h : Heap) : Int × Bytebuf × Heap :=
  thenAppend (bytebufAppend out (ascii "+") h) fun out h =>
    thenAppend (bytebufAppend out s h) fun out h => bytebufAppend out CRLF h

/-- `"-<msg>\r\n"` -/
def respReplyError (out : Bytebuf) (msg : Bytes) (h : Heap) : Int × Bytebuf × Heap :=
  thenAppend (bytebufAppend out (ascii "-") h) fun out h =>
    thenAppend (bytebufAppend out msg h) fun out h => bytebufAppend out CRLF h

/-- `":<n>\r\n"` for an `int64_t`. -/
def respReplyInteger (out : Bytebuf) (n : ℤ) (h : Heap) : Int × Bytebuf × Heap :=
  bytebufAppendf out (ascii ":" ++ DecimalText.intText (int64 n) ++ CRLF) h

/-- `"$<len>\r\n<bytes>\r\n"` -/
def respReplyBulk (out : Bytebuf) (bytes : Bytes) (h : Heap) : Int × Bytebuf × Heap :=
  thenAppend (bytebufAppendf out (ascii "$" ++ DecimalText.natText (sizeT bytes.length) ++ CRLF) h)
    fun out h =>
      thenAppend (bytebufAppend out bytes h) fun out h => bytebufAppend out CRLF h

/-- `"$-1\r\n"` -/
def respReplyNil (out : Bytebuf) (h : Heap) : Int × Bytebuf × Heap :=
  bytebufAppend out (ascii "$-1\r\n") h

/-- `"*<n>\r\n"` -/
def respReplyArrayHeader (out : Bytebuf) (n : ℕ) (h : Heap) : Int × Bytebuf × Heap :=
  bytebufAppendf out (ascii "*" ++ DecimalText.natText (sizeT n) ++ CRLF) h

end RedisInC
