import RedisInC.CommandEffect

/-!
# The reply of a request on the wire

Two consequences of `commandExecute_answered`.

* `one_reply_iff` — executing a request appends exactly one reply that a peer can
  read back, if and only if the command name is known or its echo in the
  unknown-command error has no CR or LF. The echo is the only text of a reply
  line that comes from the client; `echo_desynchronises` is a request that uses
  it to end the line early.
* `error_reply_keeps_store` — a request that is answered by an error, complete or
  cut short, has not touched the store, whatever the allocator did.
-/

namespace RedisInC

open DecimalText Bytebuf

/-! ## Kinds of replies -/

namespace Reply

/-- The byte a reply starts with. -/
def mark : Reply → UInt8
  | simple _ => 43
  | error _ => 45
  | integer _ => 58
  | bulk _ => 36
  | nil => 36
  | array _ => 42

theorem encode_eq_cons (r : Reply) : ∃ t, r.encode = r.mark :: t := by
  cases r with
  | simple text => exact ⟨_, rfl⟩
  | error msg => exact ⟨_, rfl⟩
  | integer n => exact ⟨_, rfl⟩
  | bulk bytes => exact ⟨_, rfl⟩
  | nil => exact ⟨_, rfl⟩
  | array items => exact ⟨_, rfl⟩

/-- Only errors start with a minus sign. -/
theorem eq_error_of_mark {r : Reply} (h : r.mark = 45) : ∃ msg, r = .error msg := by
  cases r with
  | error msg => exact ⟨msg, rfl⟩
  | simple text => cases h
  | integer n => cases h
  | bulk bytes => cases h
  | nil => cases h
  | array items => cases h

/-- The text of a line reply has no line ends. -/
def LineClean : Reply → Prop
  | simple text => CR ∉ text ∧ LF ∉ text
  | error msg => CR ∉ msg ∧ LF ∉ msg
  | _ => True

end Reply

theorem length_flatMap_encodeBulk (items : List Bytes) :
    items.length ≤ (items.flatMap encodeBulk).length ∧
      ∀ bytes ∈ items, bytes.length ≤ (items.flatMap encodeBulk).length := by
  induction items with
  | nil => simp
  | cons b items ih =>
    obtain ⟨hcount, hmax⟩ := ih
    have hb := length_encodeBulk_eq b
    rw [List.flatMap_cons, List.length_append, List.length_cons]
    refine ⟨by omega, fun bytes hbytes => ?_⟩
    rcases List.mem_cons.mp hbytes with rfl | hmem
    · omega
    · have := hmax bytes hmem
      omega

/-- An array that fits a buffer is well formed. -/
theorem Reply.array_wellFormed {items : List Bytes}
    (hlen : (Reply.array items).encode.length ≤ BYTEBUF_MAX) : (Reply.array items).WellFormed := by
  have hmax : BYTEBUF_MAX ≤ SIZE_MAX := by decide
  obtain ⟨hcount, hitems⟩ := length_flatMap_encodeBulk items
  rw [Reply.encode, List.length_append] at hlen
  refine ⟨by omega, fun bytes hbytes => ?_⟩
  have := hitems bytes hbytes
  omega

/-- A reply with clean lines that fits a buffer is the encoding of a well-formed
one; its numbers fit their types because it is short. -/
theorem Reply.exists_wellFormed {r : Reply} (hclean : r.LineClean)
    (hlen : r.encode.length ≤ BYTEBUF_MAX) :
    ∃ r' : Reply, r'.WellFormed ∧ r'.encode = r.encode := by
  have hmax : BYTEBUF_MAX ≤ SIZE_MAX := by decide
  cases r with
  | simple text => exact ⟨.simple text, hclean, rfl⟩
  | error msg => exact ⟨.error msg, hclean, rfl⟩
  | integer n =>
    obtain ⟨hlow, hhigh⟩ := int64_bounds n
    refine ⟨.integer (int64 n), ⟨hlow, hhigh⟩, ?_⟩
    rw [Reply.encode, Reply.encode, int64_of_bounds hlow hhigh]
  | bulk bytes =>
    have hbytes := length_encodeBulk_eq bytes
    rw [Reply.encode] at hlen
    refine ⟨.bulk bytes, ?_, rfl⟩
    rw [Reply.WellFormed]
    omega
  | nil => exact ⟨.nil, trivial, rfl⟩
  | array items => exact ⟨.array items, Reply.array_wellFormed hlen, rfl⟩

/-! ## One reply -/

/-- Exactly one complete reply: well formed, and found by a reader that stops
right behind it. -/
def OneReply (bs : Bytes) : Prop :=
  ∃ r : Reply, r.WellFormed ∧ bs = r.encode ∧ ∀ rest, readReply (bs ++ rest) = some (r, rest)

theorem oneReply_of_clean {r : Reply} (hclean : r.LineClean)
    (hlen : r.encode.length ≤ BYTEBUF_MAX) : OneReply r.encode := by
  obtain ⟨r', hwf, heq⟩ := Reply.exists_wellFormed hclean hlen
  refine ⟨r', hwf, heq.symm, fun rest => ?_⟩
  rw [← heq]
  exact readReply_encode hwf rest

/-- An error line that contains a line end is not one reply. -/
theorem clean_of_oneReply_error {msg : Bytes} (h : OneReply (Reply.error msg).encode) :
    CR ∉ msg ∧ LF ∉ msg := by
  obtain ⟨r, hwf, heq, -⟩ := h
  obtain ⟨t, ht⟩ := r.encode_eq_cons
  have hmark : r.mark = 45 := by
    rw [ht] at heq
    exact (List.cons.inj heq).1.symm
  obtain ⟨msg', rfl⟩ := Reply.eq_error_of_mark hmark
  have htext : msg ++ CRLF = msg' ++ CRLF := (List.cons.inj heq).2
  rw [List.append_cancel_right htext]
  exact hwf

/-! ## The texts of the error replies -/

/-- The arity errors name commands of the table. -/
theorem arityMessage_clean {e : CmdEntry} (he : e ∈ commands) :
    CR ∉ arityMessage e ∧ LF ∉ arityMessage e := by
  have hall : ∀ n ∈ commands.map CmdEntry.name, ∀ lo hi c,
      CR ∉ arityMessage ⟨n, lo, hi, c⟩ ∧ LF ∉ arityMessage ⟨n, lo, hi, c⟩ := by
    intro n hn lo hi c
    have hdec : ∀ n ∈ commands.map CmdEntry.name,
        CR ∉ snprintf 128 (ascii "ERR wrong number of arguments for '" ++ n ++ ascii "'") ∧
          LF ∉ snprintf 128 (ascii "ERR wrong number of arguments for '" ++ n ++ ascii "'") := by
      decide
    exact hdec n hn
  exact hall e.name (List.mem_map_of_mem he) e.minArgc e.maxArgc e.handler

/-- The buffer of the unknown-command error is never too small. -/
theorem unknownMessage_eq (name : Bytes) :
    unknownMessage name = ascii "ERR unknown command '" ++ printableName name ++ ascii "'" := by
  have hlen : (printableName name).length ≤ 64 := by
    refine Nat.le_trans (List.takeWhile_prefix _).length_le ?_
    rw [List.length_take]
    split <;> omega
  have hopen : (ascii "ERR unknown command '").length = 21 := rfl
  have hclose : (ascii "'").length = 1 := rfl
  rw [unknownMessage, snprintf, List.take_of_length_le]
  simp only [List.length_append]
  omega

/-- The unknown-command error is clean exactly if the echo is. -/
theorem unknownMessage_clean (name : Bytes) :
    (CR ∉ unknownMessage name ∧ LF ∉ unknownMessage name) ↔
      (CR ∉ printableName name ∧ LF ∉ printableName name) := by
  have hopen : CR ∉ ascii "ERR unknown command '" ∧ LF ∉ ascii "ERR unknown command '" := by
    decide
  have hclose : CR ∉ ascii "'" ∧ LF ∉ ascii "'" := by
    decide
  simp only [unknownMessage_eq, List.mem_append, not_or]
  exact ⟨fun h => ⟨h.1.1.2, h.2.1.2⟩,
    fun h => ⟨⟨⟨hopen.1, h.1⟩, hclose.1⟩, ⟨⟨hopen.2, h.2⟩, hclose.2⟩⟩⟩

theorem answerIncrby_clean (ht : Hashtable) (key : Bytes) (delta : ℤ) :
    (answerIncrby ht key delta).2.LineClean := by
  rw [answerIncrby]
  cases counterValue ht key with
  | none =>
    show CR ∉ _ ∧ LF ∉ _
    decide
  | some cur =>
    simp only
    split
    · trivial
    · show CR ∉ _ ∧ LF ∉ _
      decide

theorem bulkOrNil_clean (hit : Option Bytes) : (bulkOrNil hit).LineClean := by
  cases hit with
  | none => trivial
  | some val => trivial

/-- The lines of the handlers are fixed texts. -/
theorem answer_clean (ht : Hashtable) (req : RespRequest) (c : Cmd) :
    (answer ht req c).2.LineClean := by
  cases c with
  | ping =>
    rw [answer]
    split
    · show CR ∉ _ ∧ LF ∉ _
      decide
    · trivial
  | get => exact bulkOrNil_clean _
  | set =>
    show CR ∉ _ ∧ LF ∉ _
    decide
  | del => trivial
  | «exists» => trivial
  | command => trivial
  | incr => exact answerIncrby_clean _ _ _
  | decr => exact answerIncrby_clean _ _ _
  | incrby =>
    rw [answer]
    cases parseInt64 (req.arg 2) with
    | none =>
      show CR ∉ _ ∧ LF ∉ _
      decide
    | some delta => exact answerIncrby_clean _ _ _
  | decrby =>
    rw [answer]
    cases parseInt64 (req.arg 2) with
    | none =>
      show CR ∉ _ ∧ LF ∉ _
      decide
    | some delta => exact answerIncrby_clean _ _ _
  | strlen => trivial
  | append =>
    rw [answer, answerAppend]
    cases htGet ht (req.arg 1) with
    | none => trivial
    | some old =>
      simp only
      split
      · show CR ∉ _ ∧ LF ∉ _
        decide
      · trivial
  | keys => trivial
  | dbsize => trivial
  | flushdb =>
    show CR ∉ _ ∧ LF ∉ _
    decide
  | setnx =>
    rw [answer]
    split
    · trivial
    · trivial
  | getset => exact bulkOrNil_clean _

/-- The command name is in the table, or its echo in the unknown-command error
has no line ends. -/
def KnownOrPrintable (name : Bytes) : Prop :=
  lookupCommand name ≠ none ∨ (CR ∉ printableName name ∧ LF ∉ printableName name)

theorem replyTo_clean (ht : Hashtable) {req : RespRequest} (hargc : 1 ≤ req.argc) :
    (replyTo ht req).2.LineClean ↔ KnownOrPrintable (req.arg 0) := by
  rw [replyTo, if_neg (by omega), KnownOrPrintable]
  cases hlookup : lookupCommand (req.arg 0) with
  | none =>
    simp only [ne_eq, not_true_eq_false, false_or]
    exact unknownMessage_clean (req.arg 0)
  | some e =>
    simp only [ne_eq, reduceCtorEq, not_false_eq_true, true_or, iff_true]
    split
    · exact arityMessage_clean (lookupCommand_mem hlookup)
    · exact answer_clean ht req e.handler

/-- A reply that is not clean is the unknown-command error. -/
theorem replyTo_eq_error {ht : Hashtable} {req : RespRequest}
    (h : ¬ (replyTo ht req).2.LineClean) : ∃ msg, (replyTo ht req).2 = .error msg := by
  rw [replyTo] at h ⊢
  split
  · exact ⟨_, rfl⟩
  · next hargc =>
    rw [if_neg hargc] at h
    cases hlookup : lookupCommand (req.arg 0) with
    | none => exact ⟨_, rfl⟩
    | some e =>
      rw [hlookup] at h
      simp only at h ⊢
      split
      · exact ⟨_, rfl⟩
      · next harity =>
        rw [if_neg harity] at h
        exact absurd (answer_clean ht req e.handler) h

/-- **One reply for each request**, exactly if the command name is known or its
echo has no line ends: with room for the reply and no failed allocation,
executing a request returns 0 and appends one complete reply, that a reader
finds and stops behind. -/
theorem one_reply_iff (ctx : CommandCtx) (req : RespRequest) (hout : ctx.out.Inv)
    (hargc : 1 ≤ req.argc)
    (hroom : ctx.out.live.length + (replyTo ctx.store req).2.encode.length ≤ BYTEBUF_MAX)
    (halloc : (commandExecute ctx req).2.heap.failed = false) :
    ((commandExecute ctx req).1 = 0 ∧
      ∃ bs, (commandExecute ctx req).2.out.live = ctx.out.live ++ bs ∧ OneReply bs) ↔
    KnownOrPrintable (req.arg 0) := by
  obtain ⟨hrc, hlive, -⟩ := commandExecute_served hout hroom halloc
  rw [← replyTo_clean ctx.store hargc]
  constructor
  · rintro ⟨-, bs, hbs, hone⟩
    obtain rfl : bs = (replyTo ctx.store req).2.encode :=
      List.append_cancel_left (hbs.symm.trans hlive)
    by_contra hclean
    obtain ⟨msg, hmsg⟩ := replyTo_eq_error hclean
    rw [hmsg] at hone hclean
    exact hclean (clean_of_oneReply_error hone)
  · intro hclean
    exact ⟨hrc, _, hlive, oneReply_of_clean hclean (by omega)⟩

/-- A context with nothing in it. -/
def emptyCtx : CommandCtx := ⟨htInit, bytebufInit, Heap.ample⟩

theorem one_reply_iff_ping :
    ((commandExecute emptyCtx (requestOf [ascii "PING"])).1 = 0 ∧
      ∃ bs, (commandExecute emptyCtx (requestOf [ascii "PING"])).2.out.live =
        emptyCtx.out.live ++ bs ∧ OneReply bs) ↔
    KnownOrPrintable (ascii "PING") :=
  one_reply_iff emptyCtx (requestOf [ascii "PING"]) inv_init (by decide) (by decide) (by decide)

/-- The frame of a request for the command `A\r\nB`. -/
def echoInput : Bytes := ascii "*1\r\n$4\r\nA\r\nB\r\n"

/-- **The echo can end the line.** A well-formed frame, an empty store, an empty
buffer and an ample allocator; the reply is not one reply, and a reader of the
stream takes it for a shorter one. -/
theorem echo_desynchronises : ∃ req, respParseRequest echoInput = .ok req ∧
    1 ≤ req.argc ∧ req.argc ≤ RESP_MAX_ARGC ∧ emptyCtx.store.Inv ∧ emptyCtx.out.Inv ∧
    emptyCtx.out.live.length + (replyTo emptyCtx.store req).2.encode.length ≤ BYTEBUF_MAX ∧
    (commandExecute emptyCtx req).2.heap.failed = false ∧
    (commandExecute emptyCtx req).2.out.live = ascii "-ERR unknown command 'A\r\nB'\r\n" ∧
    readReply (commandExecute emptyCtx req).2.out.live =
      some (.error (ascii "ERR unknown command 'A"), ascii "B'\r\n") ∧
    ¬ ∃ bs, (commandExecute emptyCtx req).2.out.live = emptyCtx.out.live ++ bs ∧ OneReply bs := by
  refine ⟨commitArgs [⟨8, ascii "A\r\nB"⟩] 14, by rfl, by decide, by decide, Hashtable.inv_init,
    inv_init, by decide, by decide, by decide, by rfl, ?_⟩
  rintro ⟨bs, hbs, hone⟩
  have hlive : (commandExecute emptyCtx (commitArgs [⟨8, ascii "A\r\nB"⟩] 14)).2.out.live =
      (Reply.error (ascii "ERR unknown command 'A\r\nB'")).encode := by decide
  have hbs' : bs = (Reply.error (ascii "ERR unknown command 'A\r\nB'")).encode :=
    hbs.symm.trans hlive
  rw [hbs'] at hone
  exact absurd (clean_of_oneReply_error hone).1 (by decide)

/-! ## Errors keep the store -/

/-- **Errors keep the store.** Whatever the store, the request and the outcomes
of the allocations: if what was appended starts as an error, the store is the
one it was. -/
theorem error_reply_keeps_store (ctx : CommandCtx) (req : RespRequest) (hout : ctx.out.Inv)
    (rest : Bytes)
    (herr : (commandExecute ctx req).2.out.live = ctx.out.live ++ 45 :: rest) :
    (commandExecute ctx req).2.store = ctx.store := by
  obtain ⟨part, r, hlive, hpart, hstore⟩ := commandExecute_appended req hout
  obtain rfl : part = 45 :: rest := List.append_cancel_left (hlive.symm.trans herr)
  obtain ⟨t, ht⟩ := r.encode_eq_cons
  have hmark : r.mark = 45 := by
    rw [ht] at hpart
    exact (List.cons_prefix_cons.mp hpart).1.symm
  obtain ⟨msg, rfl⟩ := Reply.eq_error_of_mark hmark
  rcases hstore with heq | ⟨heq, -⟩
  · have hanswer : (replyTo ctx.store req).2 = .error msg := by rw [← heq]
    have hkeep := replyTo_error hanswer
    rw [← heq] at hkeep
    exact hkeep
  · exact heq

/-- A refused value copy: the key stays away, and the client is told. -/
theorem error_reply_keeps_store_oom :
    (commandExecute ⟨htInit, bytebufInit, ⟨fun n => decide (n ≠ 2), fun _ => 0, false⟩⟩
      (requestOf [ascii "SET", ascii "k", ascii "v"])).2.store = htInit :=
  error_reply_keeps_store ⟨htInit, bytebufInit, ⟨fun n => decide (n ≠ 2), fun _ => 0, false⟩⟩
    (requestOf [ascii "SET", ascii "k", ascii "v"]) inv_init (ascii "ERR out of memory\r\n")
    (by decide)

end RedisInC
