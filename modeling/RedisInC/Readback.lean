import RedisInC.Grammar
import RedisInC.Reference

/-!
# Reading stored values back

A value comes in through one capped buffer, inside a request frame, and goes out
through another one, inside a bulk reply. The framing of a request is longer
than that of a reply, so whatever one request carries can be read back. Only
`APPEND` stores more than one request carries.

* `READBACK_MAX` — the longest value whose bulk reply fits an empty buffer.
* `replyTo_values` — where the values in the store after a request come from.
* `Session.AppendsFit` — no `APPEND` of a run makes a value longer than that.
* `stored_value_read_back` — a stored value is read back exactly if it is no
  longer than that, and in a run with `AppendsFit` none is.
* `append_outgrows_get` — two requests of ten million bytes each make a value
  that `GET` cannot return.
-/

namespace RedisInC

open DecimalText

/-! ## The two limits -/

/-- The longest value whose bulk reply fits a buffer: 16777203 bytes. The frame
around it has eight digits, the mark and two line ends. -/
def READBACK_MAX : ℕ := BYTEBUF_MAX - 13

/-- **The limit is exact.** -/
theorem bulk_fits_iff (bytes : Bytes) :
    (Reply.bulk bytes).encode.length ≤ BYTEBUF_MAX ↔ bytes.length ≤ READBACK_MAX := by
  rw [Reply.encode, length_encodeBulk_eq, READBACK_MAX, BYTEBUF_MAX]
  rcases Nat.lt_or_ge bytes.length (10 ^ 8) with hsmall | hlarge
  · have hsize : sizeT bytes.length = bytes.length := by
      refine sizeT_of_le (Nat.le_trans (Nat.le_of_lt hsmall) ?_)
      decide
    have hmost := length_natText_le (by decide) hsmall
    rw [hsize]
    rcases Nat.lt_or_ge bytes.length (10 ^ 7) with hseven | height
    · omega
    · have hleast : ¬ (natText bytes.length).length ≤ 7 := by
        rw [natText, List.length_map, Nat.length_toDigits_le_iff (by decide) (by decide)]
        exact Nat.not_lt.mpr height
      omega
  · omega

/-- The request came in a frame that fits an input buffer. -/
def FrameFits (req : RespRequest) : Prop :=
  ∃ input : Bytes, input.length ≤ BYTEBUF_MAX ∧ respParseRequest input = .ok req

/-- A request as it is parsed, with an empty buffer for its reply. -/
def callOf {input : Bytes} {req : RespRequest} (h : respParseRequest input = .ok req) : Call where
  req := req
  out := bytebufInit
  out_inv := Bytebuf.inv_init
  argc_pos := (respParseRequest_parsed h).argc_pos
  argc_le := (respParseRequest_parsed h).argc_le
  arg_le := fun i hi => Nat.le_trans ((respParseRequest_parsed h).arg_le i hi) (by decide)

/-- What a request with at least three words carries can be read back. -/
theorem FrameFits.arg_le {req : RespRequest} (h : FrameFits req) (hargc : 3 ≤ req.argc) :
    (req.arg 2).length ≤ READBACK_MAX := by
  obtain ⟨input, hinput, hparse⟩ := h
  have hparsed := respParseRequest_parsed hparse
  have hconsumed := hparsed.consumed_le
  rw [READBACK_MAX]
  rcases hparsed.frame_le 2 hargc with hframe | ⟨hline, -⟩
  · change (req.arg 2).length + 6 * req.argc + 4 ≤ _ at hframe
    omega
  · refine Nat.le_trans hline ?_
    decide

/-! ## Where values come from -/

/-- The request is an `APPEND` to an existing key, which then holds `val`. -/
def AppendsTo (ht : Hashtable) (req : RespRequest) (val : Bytes) : Prop :=
  sliceEqCi (req.arg 0) (ascii "APPEND") = true ∧ req.argc = 3 ∧
    ∃ old, htGet ht (req.arg 1) = some old ∧ val = old ++ req.arg 2

/-- A value in the store after a request: it was there before, it is a word of
the request, the text of a counter, or what an `APPEND` has made. -/
inductive ValueFrom (ht : Hashtable) (req : RespRequest) (key val : Bytes) : Prop
  | kept (old : htGet ht key = some val)
  | word (argc_le : 3 ≤ req.argc) (val_eq : val = req.arg 2)
  | counter (length_le : val.length ≤ 20)
  | appended (key_eq : key = req.arg 1) (append : AppendsTo ht req val)

section Values

variable {ht : Hashtable} {req : RespRequest} {key val : Bytes}

/-- Storing one value. -/
theorem valueFrom_put (hi : ht.Inv) {k v : Bytes} (hv : key = k → ValueFrom ht req key v)
    (h : htGet (ht.put k v) key = some val) : ValueFrom ht req key val := by
  rw [hi.htGet_put] at h
  split at h
  · next hkey =>
    obtain rfl := Option.some.inj h
    exact hv hkey
  · exact .kept h

/-- Deleting makes no values. -/
theorem delKeys_kept (hi : ht.Inv) (keys : List Bytes) (deleted : ℤ)
    (h : htGet (delKeys keys deleted ht).2 key = some val) : htGet ht key = some val := by
  induction keys generalizing ht deleted with
  | nil => exact h
  | cons k keys ih =>
    have hdel := ih (hi.htDel k).1 _ h
    rw [hi.htGet_del] at hdel
    split at hdel
    · cases hdel
    · exact hdel

/-- **Where the values come from.** -/
theorem replyTo_values (hi : ht.Inv) (h : htGet (replyTo ht req).1 key = some val) :
    ValueFrom ht req key val := by
  have heffect := replyTo_effect ht req
  generalize replyTo ht req = res at h heffect
  cases heffect with
  | kept r => exact .kept h
  | stored argc_le plain => exact valueFrom_put hi (fun _ => .word argc_le rfl) h
  | @counted n lower upper =>
    refine valueFrom_put hi (fun _ => .counter ?_) h
    rw [← int64_of_bounds lower upper]
    exact length_intText_int64 _
  | @appended old name argc_eq present =>
    exact valueFrom_put hi (fun hkey => .appended hkey ⟨name, argc_eq, old, present, rfl⟩) h
  | deleted => exact .kept (delKeys_kept hi req.keys 0 h)
  | flushed => cases h

end Values

/-! ## Runs -/

namespace Session

/-- Every value that an `APPEND` to an existing key has made can be read back. -/
def AppendsFit : Session → List Call → Prop
  | _, [] => True
  | s, c :: calls =>
    (∀ val, AppendsTo s.store c.req val → htGet (s.next c).store (c.req.arg 1) = some val →
        val.length ≤ READBACK_MAX) ∧
      (s.next c).AppendsFit calls

/-- One request keeps the values short. -/
theorem next_values_le {s : Session} {c : Call} (hi : s.store.Inv) (hframe : FrameFits c.req)
    (happend : ∀ val, AppendsTo s.store c.req val →
      htGet (s.next c).store (c.req.arg 1) = some val → val.length ≤ READBACK_MAX)
    (hvalues : ∀ key val, htGet s.store key = some val → val.length ≤ READBACK_MAX) :
    ∀ key val, htGet (s.next c).store key = some val → val.length ≤ READBACK_MAX := by
  intro key val hval
  rcases s.next_store c with heq | heq
  · have hanswer := hval
    rw [heq] at hanswer
    cases replyTo_values hi hanswer with
    | kept old => exact hvalues key val old
    | word argc_le val_eq =>
      rw [val_eq]
      exact hframe.arg_le argc_le
    | counter length_le =>
      refine Nat.le_trans length_le ?_
      decide
    | appended key_eq append =>
      rw [key_eq] at hval
      exact happend val append hval
  · rw [heq] at hval
    exact hvalues key val hval

/-- A run keeps the values short, as long as its appends do. -/
theorem run_values_le {s : Session} (calls : List Call) (hi : s.store.Inv)
    (hframes : ∀ c ∈ calls, FrameFits c.req) (happends : s.AppendsFit calls)
    (hvalues : ∀ key val, htGet s.store key = some val → val.length ≤ READBACK_MAX) :
    ∀ key val, htGet (s.run calls).store key = some val → val.length ≤ READBACK_MAX := by
  induction calls generalizing s with
  | nil => exact hvalues
  | cons c calls ih =>
    obtain ⟨happend, happends⟩ := happends
    obtain ⟨hframe, hframes⟩ := List.forall_mem_cons.mp hframes
    have hi' : (s.next c).store.Inv := run_inv [c] hi
    exact ih hi' hframes happends (next_values_le hi hframe happend hvalues)

end Session

/-- **Reading a stored value back.** After any run from an empty store, of
requests whose frames fit an input buffer, a `GET` of a key that is present, into
an empty buffer and without a failed allocation, returns 0 and the full value
exactly if the value has at most `READBACK_MAX` bytes. Unless an `APPEND` to an
existing key has made a longer one in the run, every value has. -/
theorem stored_value_read_back (h : Heap) (calls : List Call)
    (hframes : ∀ c ∈ calls, FrameFits c.req) (key val : Bytes)
    (hval : htGet (Session.run ⟨htInit, h⟩ calls).store key = some val) (get : Call)
    (hname : sliceEqCi (get.req.arg 0) (ascii "GET") = true) (hargc : get.req.argc = 2)
    (hkey : get.req.arg 1 = key) (hempty : get.out.live = []) (h' : Heap)
    (halloc :
      (Session.exec ⟨(Session.run ⟨htInit, h⟩ calls).store, h'⟩ get).2.heap.failed = false) :
    ((Session.exec ⟨(Session.run ⟨htInit, h⟩ calls).store, h'⟩ get).1 = 0 ∧
        (Session.exec ⟨(Session.run ⟨htInit, h⟩ calls).store, h'⟩ get).2.out.live =
          (Reply.bulk val).encode ↔
      val.length ≤ READBACK_MAX) ∧
    (Session.AppendsFit ⟨htInit, h⟩ calls → val.length ≤ READBACK_MAX) := by
  constructor
  · rw [← hkey] at hval
    obtain ⟨-, hreply⟩ := commandExecute_reply get.out_inv halloc
    rw [replyTo_get hname hargc hval, hempty, List.nil_append, List.length_nil, Nat.zero_add]
      at hreply
    rw [← bulk_fits_iff]
    rcases hreply with ⟨hrc, hlive, hfits⟩ | ⟨hrc, hmax⟩
    · exact ⟨fun _ => hfits, fun _ => ⟨hrc, hlive⟩⟩
    · refine ⟨fun hok => ?_, fun hfits => absurd hfits (Nat.not_le.mpr hmax)⟩
      exact absurd (hrc.symm.trans hok.1) (by decide)
  · intro happends
    refine Session.run_values_le calls Hashtable.inv_init hframes happends ?_ key val hval
    intro k v hmiss
    cases hmiss

/-- The frame of `SET k v`. -/
theorem set_frame : respParseRequest (ascii "*3\r\n$3\r\nSET\r\n$1\r\nk\r\n$1\r\nv\r\n") =
    .ok (commitArgs [⟨8, ascii "SET"⟩, ⟨17, ascii "k"⟩, ⟨24, ascii "v"⟩] 27) := by
  rfl

/-- `SET k v`, and then `GET k`. -/
theorem stored_value_read_back_set :
    (Session.exec ⟨(Session.run ⟨htInit, Heap.ample⟩ [callOf set_frame]).store, Heap.ample⟩
        getCall).1 = 0 ∧
      (Session.exec ⟨(Session.run ⟨htInit, Heap.ample⟩ [callOf set_frame]).store, Heap.ample⟩
        getCall).2.out.live = (Reply.bulk (ascii "v")).encode :=
  (stored_value_read_back Heap.ample [callOf set_frame]
    (fun c hc => by
      obtain rfl := List.mem_singleton.mp hc
      exact ⟨_, by decide, set_frame⟩)
    (ascii "k") (ascii "v") (by decide) getCall (by decide) (by decide) (by decide) rfl Heap.ample
    (by decide)).1.mpr (by decide)

/-! ## A value that cannot be read back -/

/-- Encoded argument lists that are not too long arrive as requests. -/
theorem exists_call {items : List Bytes} (hpos : items ≠ []) (hargc : items.length ≤ RESP_MAX_ARGC)
    (hitems : ∀ bytes ∈ items, bytes.length ≤ RESP_MAX_BULK_LEN)
    (hlen : (Reply.array items).encode.length ≤ BYTEBUF_MAX) :
    ∃ c : Call, c.out = bytebufInit ∧ FrameFits c.req ∧ c.req.argv = items ∧
      ∀ i, c.req.arg i = items.getD i [] := by
  obtain ⟨slices, hparse, hslices⟩ := respParseRequest_encode hpos hargc hitems []
  rw [List.append_nil] at hparse
  have harg : ∀ i, (slices.map (·.bytes)).getD i [] = items.getD i [] := by
    intro i
    rw [hslices]
  exact ⟨callOf hparse, rfl, ⟨_, hlen, hparse⟩, (argv_commitArgs _ _).trans hslices,
    fun i => (commitArgs_bytes slices _ i).trans (harg i)⟩

section Outgrown

variable {name big : Bytes}

/-- The words of a request that stores or appends a big value. -/
def bigWords (name big : Bytes) : List Bytes := [name, ascii "k", big]

theorem length_bigWords (hname : name.length ≤ 10) (hbig : big.length = 10000000) :
    ∀ bytes ∈ bigWords name big, bytes.length ≤ 10000000 := by
  intro bytes hbytes
  simp only [bigWords, List.mem_cons, List.not_mem_nil, or_false] at hbytes
  rcases hbytes with rfl | rfl | rfl
  · omega
  · decide
  · exact Nat.le_of_eq hbig

/-- Such a request comes in a frame that fits. -/
theorem exists_big_call (hname : name.length ≤ 10) (hbig : big.length = 10000000) :
    ∃ c : Call, c.out = bytebufInit ∧ FrameFits c.req ∧ c.req.argv = bigWords name big ∧
      ∀ i, c.req.arg i = (bigWords name big).getD i [] := by
  have hheader : (encodeArrayHeader 3).length ≤ 23 := by decide
  have hone := length_encodeBulk_le name
  have htwo : (encodeBulk (ascii "k")).length ≤ 26 := by decide
  have hthree := length_encodeBulk_le big
  have hlen : (Reply.array (bigWords name big)).encode.length ≤ BYTEBUF_MAX := by
    change (encodeArrayHeader 3 ++ (encodeBulk name ++ (encodeBulk (ascii "k") ++
      (encodeBulk big ++ [])))).length ≤ BYTEBUF_MAX
    simp only [List.length_append, List.length_nil, BYTEBUF_MAX]
    omega
  exact exists_call (List.cons_ne_nil _ _) (show 3 ≤ RESP_MAX_ARGC by decide)
    (fun bytes hbytes => Nat.le_trans (length_bigWords hname hbig bytes hbytes) (by decide)) hlen

/-- Words and values of some megabytes are no burden. -/
theorem sized_words {words : List Bytes} (hwords : ∀ bytes ∈ words, bytes.length ≤ 10000000)
    {req : RespRequest} (harg : ∀ i, req.arg i = words.getD i []) {ht : Hashtable} {val : Bytes}
    (hlen : val.length ≤ 20000000)
    (hvalues : ∀ key v, htGet ht key = some v → v = val) : Sized ht req where
  arg_le i := by
    rw [harg i, List.getD_eq_getElem?_getD]
    cases hget : words[i]? with
    | none => exact Nat.zero_le _
    | some bytes => exact Nat.le_trans (hwords bytes (List.mem_of_getElem? hget)) (by decide)
  val_le key v hv := by
    rw [hvalues key v hv]
    exact Nat.le_trans hlen (by decide)

/-- The store holds one value, under `k`. -/
def HoldsOne (ht : Hashtable) (val : Bytes) : Prop :=
  ht.Inv ∧ ∀ key, htGet ht key = if key = ascii "k" then some val else none

theorem HoldsOne.unique {ht : Hashtable} {val : Bytes} (h : HoldsOne ht val) {key v : Bytes}
    (hv : htGet ht key = some v) : v = val := by
  rw [h.2] at hv
  split at hv
  · exact (Option.some.inj hv).symm
  · cases hv

theorem holdsOne_put (val : Bytes) : HoldsOne (htInit.put (ascii "k") val) val := by
  refine ⟨(Hashtable.inv_init.put _ _).1, fun key => ?_⟩
  rw [Hashtable.inv_init.htGet_put, Hashtable.htGet_init]

/-- Setting the key of an empty store. -/
theorem set_big {set : Call} (hbig : big.length = 10000000) (hout : set.out = bytebufInit)
    (hargv : set.req.argv = bigWords (ascii "SET") big)
    (harg : ∀ i, set.req.arg i = (bigWords (ascii "SET") big).getD i []) :
    (Session.next ⟨htInit, Heap.ample⟩ set).heap.Ample ∧
      HoldsOne (Session.next ⟨htInit, Heap.ample⟩ set).store big := by
  have hmem : (⟨ascii "SET", 3, 3, .set⟩ : CmdEntry) ∈ commands := by simp [commands]
  have hargc : set.req.argc = 3 := by
    rw [← length_argv, hargv]
    rfl
  have hname : sliceEqCi (set.req.arg 0) (ascii "SET") = true := by
    rw [harg]
    exact rfl
  have hreply : replyTo htInit set.req = (htInit.put (ascii "k") big, .simple (ascii "OK")) := by
    rw [replyTo_eq_answer hmem hname (by rw [hargc]; decide) (by rw [hargc]; decide), answer, harg,
      harg]
    rfl
  have hroom : set.out.live.length + (replyTo htInit set.req).2.encode.length ≤ BYTEBUF_MAX := by
    rw [hreply, hout]
    exact (by decide : 0 + (Reply.simple (ascii "OK")).encode.length ≤ BYTEBUF_MAX)
  obtain ⟨hample, hstore⟩ := @Session.next_ample ⟨htInit, Heap.ample⟩ set Heap.ample_ample
    (@sized_words _ (length_bigWords (by decide) hbig) _ harg _ big (by omega)
      fun key v hv => by cases hv) hroom
  refine ⟨hample, ?_⟩
  rw [hstore, hreply]
  exact holdsOne_put big

/-- Appending the same again. -/
theorem append_big {s : Session} {app : Call} (hbig : big.length = 10000000)
    (hout : app.out = bytebufInit) (hargv : app.req.argv = bigWords (ascii "APPEND") big)
    (harg : ∀ i, app.req.arg i = (bigWords (ascii "APPEND") big).getD i []) (ha : s.heap.Ample)
    (hone : HoldsOne s.store big) :
    (s.next app).heap.Ample ∧ HoldsOne (s.next app).store (big ++ big) := by
  have hmem : (⟨ascii "APPEND", 3, 3, .append⟩ : CmdEntry) ∈ commands := by simp [commands]
  have hargc : app.req.argc = 3 := by
    rw [← length_argv, hargv]
    rfl
  have hname : sliceEqCi (app.req.arg 0) (ascii "APPEND") = true := by
    rw [harg]
    exact rfl
  have hkey : app.req.arg 1 = ascii "k" := harg 1
  have hval : app.req.arg 2 = big := harg 2
  have hwrap : ¬ big.length > SIZE_MAX - big.length := by
    rw [hbig]
    decide
  have hreply : replyTo s.store app.req =
      (s.store.put (ascii "k") (big ++ big), .integer (big.length + big.length : ℕ)) := by
    rw [replyTo_eq_answer hmem hname (by rw [hargc]; decide) (by rw [hargc]; decide), answer,
      answerAppend, hkey, hval, hone.2, if_pos rfl]
    exact if_neg hwrap
  have hroom : app.out.live.length + (replyTo s.store app.req).2.encode.length ≤ BYTEBUF_MAX := by
    rw [hreply, hout, hbig]
    exact (by decide : 0 + (Reply.integer (10000000 + 10000000 : ℕ)).encode.length ≤ BYTEBUF_MAX)
  obtain ⟨hample, hstore⟩ := Session.next_ample ha
    (sized_words (length_bigWords (by decide) hbig) harg (by omega)
      fun key v hv => hone.unique hv) hroom
  refine ⟨hample, ?_⟩
  rw [hstore, hreply]
  refine ⟨(hone.1.put _ _).1, fun key => ?_⟩
  rw [hone.1.htGet_put, hone.2]
  split
  · rfl
  · rfl

end Outgrown

/-- **`APPEND` outgrows `GET`.** A key is set to ten million bytes and the same
again are appended to it. All is well until the value is asked for: the reply
does not fit an empty buffer, and there is none. -/
theorem append_outgrows_get : ∃ (big : Bytes) (calls : List Call), big.length = 10000000 ∧
    calls.map (fun c => c.req.argv) = [bigWords (ascii "SET") big, bigWords (ascii "APPEND") big] ∧
    (∀ c ∈ calls, FrameFits c.req) ∧
    htGet (Session.run ⟨htInit, Heap.ample⟩ calls).store (ascii "k") = some (big ++ big) ∧
    getCall.out.live = [] ∧
    (Session.exec (Session.run ⟨htInit, Heap.ample⟩ calls) getCall).2.heap.failed = false ∧
    (Session.exec (Session.run ⟨htInit, Heap.ample⟩ calls) getCall).1 = -1 := by
  obtain ⟨big, hbig⟩ : ∃ big : Bytes, big.length = 10000000 :=
    ⟨List.replicate 10000000 97, List.length_replicate⟩
  obtain ⟨set, hsetOut, hsetFrame, hsetArgv, hsetArg⟩ :=
    @exists_big_call (ascii "SET") big (by decide) hbig
  obtain ⟨app, happOut, happFrame, happArgv, happArg⟩ :=
    @exists_big_call (ascii "APPEND") big (by decide) hbig
  obtain ⟨hampleSet, hsetOne⟩ := set_big hbig hsetOut hsetArgv hsetArg
  obtain ⟨hample, hone⟩ := append_big hbig happOut happArgv happArg hampleSet hsetOne
  have hrun : Session.run ⟨htInit, Heap.ample⟩ [set, app] =
      (Session.next ⟨htInit, Heap.ample⟩ set).next app := rfl
  rw [← hrun] at hample hone
  have hpresent := hone.2 (ascii "k")
  rw [if_pos rfl] at hpresent
  refine ⟨big, [set, app], hbig, ?_, ?_, hpresent, rfl, ?_⟩
  · rw [List.map_cons, List.map_cons, List.map_nil, hsetArgv, happArgv]
  · exact List.forall_mem_cons.mpr ⟨hsetFrame, List.forall_mem_singleton.mpr happFrame⟩
  · generalize Session.run ⟨htInit, Heap.ample⟩ [set, app] = s at hample hone hpresent ⊢
    have hlen : (big ++ big).length = 20000000 := by rw [List.length_append, hbig]
    have hsized : Sized s.store getCall.req :=
      @sized_words [ascii "get", ascii "k"] (by decide) _ (commitArgs_bytes _ _) _ _
        (Nat.le_of_eq hlen) fun key v hv => hone.unique hv
    have halloc : (s.exec getCall).2.heap.failed = false :=
      (commandExecute_ample getCall.out_inv hample hsized).2
    have hbulk : replyTo s.store getCall.req = (s.store, .bulk (big ++ big)) :=
      replyTo_get (by decide) (by decide) hpresent
    obtain ⟨-, hreply⟩ := commandExecute_reply getCall.out_inv halloc
    rw [hbulk] at hreply
    rcases hreply with ⟨-, -, hfits⟩ | ⟨hrc, -⟩
    · have hempty : getCall.out.live.length = 0 := rfl
      rw [hempty, Nat.zero_add, bulk_fits_iff, hlen] at hfits
      exact absurd hfits (by decide)
    · exact ⟨halloc, hrc⟩

end RedisInC
