import RedisInC.CommandReply
import RedisInC.Readers
import RedisInC.Serializability

/-!
# What a client reads

A client takes its replies off the stream one by one, with what has arrived so far. Whether
that works depends on what the server writes: each reply has to end where the client takes it
to end.

* `readReply_exact`, `replyFramer`, `repliesIn` — the reader of replies looks no further than
  it reads, so it is a framer.
* `refStep_clean` — the lines of the replies of the reference machine, but for the echo of a
  command name.
* `Reply.wire` — a reply as it is read, `run_heard` — what is answered can be read back.
* `Peer.Books.heard_early`, `Peer.Books.heard_all` — what the books of a client are to it.
* `clients_read_replies` — in every run of the server, what a client reads are the replies of
  one reference machine to its own requests, as they are on record, in order.
-/

namespace RedisInC

open DecimalText Framing Transition Service

/-! ## The reader -/

theorem readLine_exact : Reader.Exact readLine := by
  intro s
  induction s with
  | nil =>
    intro line rest h
    cases h
  | cons c cs ih =>
    intro line rest h
    rw [readLine] at h
    by_cases hcr : c = CR
    · rw [if_pos hcr] at h
      by_cases hlf : cs.head? = some LF
      · rw [if_pos hlf] at h
        cases h
        obtain ⟨ds, rfl⟩ := List.head?_eq_some_iff.mp hlf
        refine ⟨[c, LF], rfl, fun rest' => ?_⟩
        simp [readLine, hcr]
      · rw [if_neg hlf] at h
        cases h
    · rw [if_neg hcr] at h
      by_cases hlf : c = LF
      · rw [if_pos hlf] at h
        cases h
      · rw [if_neg hlf] at h
        obtain ⟨⟨line', rest'⟩, hline, heq⟩ := Option.map_eq_some_iff.mp h
        cases heq
        obtain ⟨t, rfl, ht⟩ := ih hline
        refine ⟨c :: t, rfl, fun rest'' => ?_⟩
        rw [List.cons_append, readLine, if_neg hcr, if_neg hlf, ht, Option.map_some]

theorem readBody_exact (n : ℕ) : Reader.Exact (readBody n) := by
  intro s bytes rest h
  rw [readBody] at h
  split at h
  · next hcond =>
    obtain ⟨hlen, hend⟩ := hcond
    cases h
    have htake : (s.take n).length = n := List.length_take_of_le hlen
    have hsplit : s = s.take n ++ CRLF ++ s.drop (n + 2) := by
      rw [← hend, ← List.drop_drop, List.append_assoc, List.take_append_drop, List.take_append_drop]
    refine ⟨s.take n ++ CRLF, hsplit, fun rest' => ?_⟩
    have hread := readBody_append (s.take n) rest'
    rwa [htake, ← List.append_assoc] at hread
  · cases h

theorem readBulks_exact (n : ℕ) : Reader.Exact (readBulks n) := by
  induction n with
  | zero => exact Reader.Exact.pure []
  | succ n ih =>
    have hbulk : ∀ line : Bytes, Reader.Exact fun s =>
        (readNat line).bind fun len => (readBody len s).bind fun r =>
          (readBulks n r.2).map fun r' => (r.1 :: r'.1, r'.2) := fun line =>
      Reader.Exact.option (q := fun len s => (readBody len s).bind fun r =>
          (readBulks n r.2).map fun r' => (r.1 :: r'.1, r'.2)) fun len =>
        Reader.Exact.bind (q := fun bytes s => (readBulks n s).map fun r' => (bytes :: r'.1, r'.2))
          (readBody_exact len) fun bytes => ih.map _
    refine Reader.exact_cons (q := fun c s => if c = 36 then (readLine s).bind fun r =>
      (readNat r.1).bind fun len => (readBody len r.2).bind fun r' =>
        (readBulks n r'.2).map fun r'' => (r'.1 :: r''.1, r''.2) else none) rfl ?_ fun c => ?_
    · intro c s
      simp only [readBulks, List.head?_cons, List.tail_cons, Option.some.injEq]
    · exact Reader.Exact.ite _ (readLine_exact.bind hbulk) Reader.Exact.fail

/-- What `readReply` does behind the first line. -/
def readReplyOf (c : UInt8) (line s : Bytes) : Option (Reply × Bytes) :=
  if c = 43 then some (.simple line, s)
  else if c = 45 then some (.error line, s)
  else if c = 58 then (readInt line).map fun n => (.integer n, s)
  else if c = 36 then
    if line = ascii "-1" then some (.nil, s)
    else (readNat line).bind fun len => (readBody len s).map fun r => (.bulk r.1, r.2)
  else if c = 42 then
    (readNat line).bind fun n => (readBulks n s).map fun r => (.array r.1, r.2)
  else none

theorem readReply_cons (c : UInt8) (s : Bytes) :
    readReply (c :: s) = (readLine s).bind fun r => readReplyOf c r.1 r.2 := rfl

theorem readReplyOf_exact (c : UInt8) (line : Bytes) : Reader.Exact (readReplyOf c line) := by
  refine .ite _ (.pure _) (.ite _ (.pure _) (.ite _ ?_ (.ite _ (.ite _
    (.pure _) ?_) (.ite _ ?_ .fail))))
  · cases readInt line with
    | none => exact .fail
    | some n => exact .pure _
  · exact Reader.Exact.option fun len => (readBody_exact len).map _
  · exact Reader.Exact.option fun n => (readBulks_exact n).map _

/-- **The reader of replies looks no further than it reads.** -/
theorem readReply_exact : Reader.Exact readReply :=
  Reader.exact_cons rfl readReply_cons fun c => readLine_exact.bind (readReplyOf_exact c)

/-- A client that reads replies off a stream. -/
def replyFramer : Framer UInt8 Reply := .ofReader readReply readReply_exact rfl

/-- The replies that are complete. -/
def repliesIn (s : Bytes) : List Reply := replyFramer.outs s

/-! ## What can be read back -/

/-- A reply as it is read: a number is what has been printed of it. -/
def Reply.wire : Reply → Reply
  | integer n => integer (int64 n)
  | r => r

/-- It is well formed, and is the same text. -/
theorem Reply.wire_spec {r : Reply} (hclean : r.LineClean) (hlen : r.encode.length ≤ BYTEBUF_MAX) :
    r.wire.WellFormed ∧ r.wire.encode = r.encode := by
  cases r with
  | simple text => exact ⟨hclean, rfl⟩
  | error msg => exact ⟨hclean, rfl⟩
  | integer n =>
    obtain ⟨hlow, hhigh⟩ := int64_bounds n
    refine ⟨⟨hlow, hhigh⟩, ?_⟩
    rw [wire, Reply.encode, Reply.encode, int64_of_bounds hlow hhigh]
  | bulk bytes =>
    have hbytes := length_encodeBulk_eq bytes
    have hmax : BYTEBUF_MAX ≤ SIZE_MAX := by decide
    rw [Reply.encode] at hlen
    refine ⟨?_, rfl⟩
    change bytes.length ≤ SIZE_MAX
    omega
  | nil => exact ⟨trivial, rfl⟩
  | array items => exact ⟨Reply.array_wellFormed hlen, rfl⟩

/-- A reply with clean lines is a frame. -/
theorem parse_encode {r : Reply} (hclean : r.LineClean) (hlen : r.encode.length ≤ BYTEBUF_MAX) :
    replyFramer.parse r.encode = .frame r.encode.length r.wire := by
  obtain ⟨hwf, heq⟩ := Reply.wire_spec hclean hlen
  refine Framer.parse_ofReader ?_
  have hread := readReply_encode hwf []
  rwa [heq, List.append_nil] at hread

theorem refIncrby_clean (m : RefMap) (key : Bytes) (delta : Option ℤ) :
    (refIncrby m key delta).2.LineClean := by
  unfold refIncrby
  split
  · split
    · trivial
    · show CR ∉ _ ∧ LF ∉ _
      decide
  · show CR ∉ _ ∧ LF ∉ _
    decide

/-- The lines of the commands are fixed texts. -/
theorem refCommand_clean {m : RefMap} {argv : List Bytes} {c : Cmd} {r : Reply}
    (h : (refCommand m argv c).2 r) : r.LineClean := by
  cases c with
  | ping =>
    rw [h]
    split
    · show CR ∉ _ ∧ LF ∉ _
      decide
    · trivial
  | get =>
    rw [h]
    exact bulkOrNil_clean _
  | set =>
    rw [h]
    show CR ∉ _ ∧ LF ∉ _
    decide
  | del =>
    rw [h]
    trivial
  | «exists» =>
    rw [h]
    trivial
  | command =>
    rw [h]
    trivial
  | incr =>
    rw [h]
    exact refIncrby_clean _ _ _
  | decr =>
    rw [h]
    exact refIncrby_clean _ _ _
  | incrby =>
    rw [h]
    exact refIncrby_clean _ _ _
  | decrby =>
    rw [h]
    exact refIncrby_clean _ _ _
  | strlen =>
    rw [h]
    trivial
  | append =>
    rw [h]
    trivial
  | keys =>
    obtain ⟨items, rfl, -⟩ := h
    trivial
  | dbsize =>
    rw [h]
    trivial
  | flushdb =>
    rw [h]
    show CR ∉ _ ∧ LF ∉ _
    decide
  | setnx =>
    rw [refCommand] at h
    split at h
    · rw [h]
      trivial
    · rw [h]
      trivial
  | getset =>
    rw [h]
    exact bulkOrNil_clean _

/-- The only text of a client in a line is the echo of a command name. -/
theorem refStep_clean {m : RefMap} {argv : List Bytes} {r : Reply} (h : (refStep m argv).2 r)
    (hname : KnownOrPrintable (argv.getD 0 [])) : r.LineClean := by
  rw [refStep] at h
  cases hlookup : lookupCommand (argv.getD 0 []) with
  | none =>
    rw [hlookup] at h
    rw [h]
    exact (unknownMessage_clean _).mpr (hname.resolve_left (not_not_intro hlookup))
  | some e =>
    rw [hlookup] at h
    dsimp only at h
    split at h
    · rw [h]
      exact arityMessage_clean (lookupCommand_mem hlookup)
    · exact refCommand_clean h

namespace Service

variable {v v' : Service} {as : List Action}

theorem executes_clean {argv : List Bytes} {r : Reply} {map : RefMap} {starved : Bool}
    (h : v.Executes argv r map starved) (hname : KnownOrPrintable (argv.getD 0 [])) :
    r.LineClean := by
  cases h with
  | done reply => exact refStep_clean reply hname
  | starved =>
    show CR ∉ _ ∧ LF ∉ _
    decide

/-- A request with its reply: the reply can be read back, if the name of the command can be
echoed. -/
def Heard (a : List Bytes × Reply) : Prop :=
  KnownOrPrintable (a.1.getD 0 []) →
    replyFramer.parse a.2.encode = .frame a.2.encode.length a.2.wire

/-- **What is answered can be read back.** -/
theorem run_heard (h : system.Run v as v') (n : ℕ) : ∀ a ∈ answeredTo n as, Heard a := by
  have hall : ∀ a ∈ as, ∀ x ∈ a.answered n, Heard x := by
    refine System.Run.forall_mem (fun v a v' hstep => ?_) h
    cases hstep with
    | @execute k p argv text rest r map starved peer here normal frame pending executes room =>
      intro x hx
      rw [Action.answered] at hx
      split at hx
      · cases List.mem_singleton.mp hx
        exact fun hname =>
          parse_encode (executes_clean executes hname) (Nat.le_of_add_left_le room)
      · cases hx
    | _ => exact fun x hx => absurd hx List.not_mem_nil
  intro x hx
  obtain ⟨a, ha, hxa⟩ := List.mem_flatMap.mp hx
  exact hall a ha x hxa

end Service

/-- Requests whose replies can be read back. -/
theorem heard_texts {answers : List (List Bytes × Reply)} (hheard : ∀ a ∈ answers, Heard a)
    (hname : ∀ a ∈ answers, KnownOrPrintable (a.1.getD 0 [])) :
    List.Forall₂ (fun text x => replyFramer.parse text = .frame text.length x)
      (answers.map fun a => a.2.encode) (answers.map fun a => a.2.wire) := by
  rw [List.forall₂_map_left_iff, List.forall₂_map_right_iff, List.forall₂_same]
  exact fun a ha => hheard a ha (hname a ha)

/-- The first replies a client reads are those to its first requests, whatever comes behind. -/
theorem Peer.Books.heard_early {p : Peer} {answers : List (List Bytes × Reply)}
    (h : p.Books answers) (hheard : ∀ a ∈ answers, Heard a) {early : List (List Bytes × Reply)}
    (hearly : early <+: answers) (hname : ∀ a ∈ early, KnownOrPrintable (a.1.getD 0 [])) :
    (repliesIn p.sent).take early.length <+: early.map (fun a => a.2.wire) := by
  obtain ⟨-, tail, hsent, -⟩ := h
  obtain ⟨later, rfl⟩ := hearly
  rw [List.flatMap_append, List.append_assoc, List.flatMap_def] at hsent
  have htexts := heard_texts (fun a ha => hheard a (List.mem_append_left later ha)) hname
  have hhead := Framer.outs_head htexts (hsent ▸ List.prefix_append p.sent p.unsent)
  rwa [List.length_map] at hhead

/-- A client in normal operation gets all of its replies and nothing else. -/
theorem Peer.Books.heard_all {p : Peer} {answers : List (List Bytes × Reply)}
    (h : p.Books answers) (hheard : ∀ a ∈ answers, Heard a) (hclosing : p.closing = false)
    (hgone : p.gone = false) (hname : ∀ a ∈ answers, KnownOrPrintable (a.1.getD 0 [])) :
    repliesIn (p.sent ++ p.unsent) = answers.map (fun a => a.2.wire) ∧
      (replyFramer.split (p.sent ++ p.unsent)).rest = [] := by
  obtain ⟨-, tail, hsent, htail⟩ := h
  rw [htail hclosing hgone, List.append_nil, List.flatMap_def] at hsent
  rw [hsent]
  exact Framer.outs_stream (heard_texts hheard hname)

namespace Server

/-- **What the clients read.** Whatever arrives on whatever connections, the requests on
record are one history: each has got the reply of the reference machine or, if memory has run
short, was refused. Every connection there has ever been has its part of it: the requests it
has sent, in order. What it reads first, one by one and with as much as has arrived, are the
replies to the first of them, as many as have a name that is known or can be echoed. Unless it
winds down, it gets all of them, if their names all are, and nothing else. -/
theorem clients_read_replies (h : Heap) (others : Finset Fd) (listen epoll : Fresh)
    (turns : List Turn) :
    ∃ (s : Server) (left : Bool) (as : List Action) (r : Record),
      (netInit (startup h).store (startup h).heap others listen epoll).netRun turns =
        some (s, left) ∧
      (netInit (startup h).store (startup h).heap others listen epoll).record turns = r ∧
      Serialized (startup h).store.toMap r s as ∧
      (∀ n < r.count,
        (∃ texts pending,
          List.Forall₂ (fun a text => Frame a.1 text) (answeredTo n as) texts ∧
            readBytes (r.traceOf n) = texts.flatten ++ pending) ∧
        ∀ early, early <+: answeredTo n as → (∀ a ∈ early, KnownOrPrintable (a.1.getD 0 [])) →
          (repliesIn (wroteBytes (r.traceOf n))).take early.length <+:
            early.map (fun a => a.2.wire)) ∧
      ∀ p c, s.conns.data p = some c → r.num p < r.count ∧ c.trace = r.traceOf (r.num p) ∧
        (∃ texts, List.Forall₂ (fun a text => Frame a.1 text) (answeredTo (r.num p) as) texts ∧
          readBytes c.trace = texts.flatten ++ c.conn.inBuf.live) ∧
        (c.conn.closeAfterDrain = false →
          (∀ a ∈ answeredTo (r.num p) as, KnownOrPrintable (a.1.getD 0 [])) →
          repliesIn (wroteBytes c.trace ++ c.conn.outBuf.live) =
              (answeredTo (r.num p) as).map (fun a => a.2.wire) ∧
            (replyFramer.split (wroteBytes c.trace ++ c.conn.outBuf.live)).rest = []) := by
  obtain ⟨hi, hf⟩ := startup_keeps h
  obtain ⟨s, left, as, v, hrun, hsteps, hv, -⟩ :=
    netRun_recorded hi hf (startup h).heap others listen epoll turns
  refine ⟨s, left, as, _, hrun, rfl, hv.serialized hsteps, fun n hn => ?_, fun p c hc => ?_⟩
  · have hbooks := hv.books hsteps hn
    obtain ⟨hreceived, hsent⟩ := hv.moved hsteps n
    constructor
    · obtain ⟨texts, htexts, heq⟩ := hbooks.received_eq
      exact ⟨texts, _, htexts, hreceived.symm.trans heq⟩
    · intro early hearly hname
      rw [← hsent]
      exact hbooks.heard_early (run_heard hsteps n) hearly hname
  · have hbooks := (run_balanced hsteps).1 _ _ (hv.client p c hc)
    refine ⟨hv.count_eq ▸ hv.num_lt hc, hv.trace_eq p c hc, hbooks.received_eq,
      fun hnormal hname => ?_⟩
    exact hbooks.heard_all (run_heard hsteps _) hnormal rfl hname

end Server

end RedisInC
