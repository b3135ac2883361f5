import RedisInC.CommandReply
import RedisInC.Isolation
import RedisInC.Readback

/-!
# From a `SET` frame to a `GET` reply

Parser, dispatcher, table and serializer together, for arbitrary bytes.

* `Session.run_spares` — a key keeps its value through requests that spare it,
  whether or not their allocations succeed.
* `set_get_roundtrip` — what was sent in a `SET` frame comes back as the bulk
  reply of a later `GET` frame, byte for byte.
-/

namespace RedisInC

open DecimalText

/-- Requests that spare a key leave its value. -/
theorem Session.run_spares {s : Session} {calls : List Call} {key : Bytes} (hi : s.store.Inv)
    (hs : ∀ c ∈ calls, Spares c.req key) :
    (s.run calls).store.Inv ∧ htGet (s.run calls).store key = htGet s.store key := by
  refine @Session.run_store (fun ht => ht.Inv ∧ htGet ht key = htGet s.store key) s calls ?_
    ⟨hi, rfl⟩
  rintro ht ⟨hinv, hget⟩ c hc
  exact ⟨replyTo_inv hinv c.req, (replyTo_spares hinv (hs c hc)).trans hget⟩

/-- A parsed argument list, word by word. -/
theorem respParseRequest_words {items : List Bytes} (hpos : items ≠ [])
    (hargc : items.length ≤ RESP_MAX_ARGC)
    (hitems : ∀ bytes ∈ items, bytes.length ≤ RESP_MAX_BULK_LEN) (t : Bytes) :
    ∃ req, respParseRequest ((Reply.array items).encode ++ t) = .ok req ∧
      req.argc = items.length ∧ ∀ i, req.arg i = items.getD i [] := by
  obtain ⟨slices, hparse, hslices⟩ := respParseRequest_encode hpos hargc hitems t
  refine ⟨_, hparse, ?_, fun i => ?_⟩
  · rw [← hslices, List.length_map]
    rfl
  · rw [← hslices]
    exact commitArgs_bytes slices _ i

/-- The words of a frame that fits an input buffer are within the cap. -/
theorem words_le_cap {items : List Bytes}
    (hfits : (Reply.array items).encode.length ≤ BYTEBUF_MAX) :
    ∀ bytes ∈ items, bytes.length ≤ RESP_MAX_BULK_LEN := by
  intro bytes hbytes
  have hmax : BYTEBUF_MAX ≤ RESP_MAX_BULK_LEN := by decide
  have hlen := (length_flatMap_encodeBulk items).2 bytes hbytes
  rw [Reply.encode, List.length_append] at hfits
  omega

/-- A `SET` stores its value. -/
theorem replyTo_set {ht : Hashtable} {req : RespRequest}
    (hname : sliceEqCi (req.arg 0) (ascii "SET") = true) (hargc : req.argc = 3) :
    replyTo ht req = (ht.put (req.arg 1) (req.arg 2), .simple (ascii "OK")) := by
  have hmem : (⟨ascii "SET", 3, 3, .set⟩ : CmdEntry) ∈ commands := by simp [commands]
  rw [replyTo_eq_answer hmem hname (by rw [hargc]; decide) (by rw [hargc]; decide)]
  rfl

/-- **Round trip.** For all bytes `k` and `v`: if the frame of `SET k v` fits an
input buffer, it is parsed, whatever follows it, and so is the frame of `GET k`.
If the `SET` is executed, then any requests that spare `k`, and then the `GET`
with an empty buffer and without a failed allocation, the `GET` returns 0 and
appends the bulk string of `v`. -/
theorem set_get_roundtrip {set get : Bytes} (hset : sliceEqCi set (ascii "SET") = true)
    (hget : sliceEqCi get (ascii "GET") = true) (k v : Bytes)
    (hfits : (Reply.array [set, k, v]).encode.length ≤ BYTEBUF_MAX) (t t' : Bytes) :
    ∃ setReq getReq,
      respParseRequest ((Reply.array [set, k, v]).encode ++ t) = .ok setReq ∧
      respParseRequest ((Reply.array [get, k]).encode ++ t') = .ok getReq ∧
      ∀ (s : Session) (first last : Call) (calls : List Call), s.store.Inv →
        first.req = setReq → last.req = getReq → last.out.live = [] →
        (∀ c ∈ calls, Spares c.req k) →
        (((s.next first).run calls).next last).heap.failed = false →
          (((s.next first).run calls).exec last).1 = 0 ∧
            (((s.next first).run calls).exec last).2.out.live =
              ascii "$" ++ (natText v.length ++ (CRLF ++ (v ++ CRLF))) := by
  have hcap := words_le_cap hfits
  have hcap' : ∀ bytes ∈ [get, k], bytes.length ≤ RESP_MAX_BULK_LEN := by
    intro bytes hbytes
    rcases List.mem_cons.mp hbytes with rfl | hbytes
    · have hlen := congrArg List.length (sliceEqCi_iff.mp hget)
      rw [List.length_map] at hlen
      rw [hlen]
      decide
    · obtain rfl := List.mem_singleton.mp hbytes
      exact hcap bytes (by simp)
  obtain ⟨setReq, hparse, hargc, harg⟩ :=
    @respParseRequest_words [set, k, v] (by simp) (show 3 ≤ RESP_MAX_ARGC by decide) hcap t
  obtain ⟨getReq, hparse', hargc', harg'⟩ :=
    @respParseRequest_words [get, k] (by simp) (show 2 ≤ RESP_MAX_ARGC by decide) hcap' t'
  -- the value fits a reply, because its frame fitted an input buffer
  have hv : v.length ≤ READBACK_MAX := by
    obtain ⟨req, hok, hn, hwords⟩ :=
      @respParseRequest_words [set, k, v] (by simp) (show 3 ≤ RESP_MAX_ARGC by decide) hcap []
    rw [List.append_nil] at hok
    have hle := FrameFits.arg_le ⟨_, hfits, hok⟩ (Nat.le_of_eq hn.symm)
    rwa [hwords 2] at hle
  refine ⟨setReq, getReq, hparse, hparse', ?_⟩
  rintro s first last calls hi rfl rfl hempty hspares halloc
  have hrun : ((s.next first).run calls).heap.failed = false :=
    commandExecute_failed_mono last.req last.out_inv halloc
  have hfirst : (s.next first).store = s.store.put k v := by
    have hreply := commandExecute_reply first.out_inv (Session.run_failed_mono calls hrun)
    refine hreply.1.trans ?_
    rw [replyTo_set (by rw [harg 0]; exact hset) hargc, harg 1, harg 2]
    rfl
  have hinv : (s.next first).store.Inv := by
    rw [hfirst]
    exact (hi.put k v).1
  obtain ⟨-, hkept⟩ := Session.run_spares hinv hspares
  have hval : htGet ((s.next first).run calls).store (last.req.arg 1) = some v := by
    rw [harg' 1]
    change htGet _ k = some v
    rw [hkept, hfirst, hi.htGet_put, if_pos rfl]
  have hreply := replyTo_get (by rw [harg' 0]; exact hget) hargc' hval
  have hroom : last.out.live.length +
      (replyTo ((s.next first).run calls).store last.req).2.encode.length ≤ BYTEBUF_MAX := by
    rw [hempty, hreply, List.length_nil, Nat.zero_add]
    exact (bulk_fits_iff v).mpr hv
  obtain ⟨hrc, hlive, -⟩ := Session.next_served hroom halloc
  refine ⟨hrc, ?_⟩
  have hsize : sizeT v.length = v.length := by
    refine sizeT_of_le (Nat.le_trans hv ?_)
    decide
  rw [hlive, hempty, hreply, List.nil_append, Reply.encode, encodeBulk, hsize]
  simp only [List.append_assoc]

/-- The frame of a `SET k` with bytes that are no text. -/
theorem setBinary_frame :
    respParseRequest ((Reply.array [ascii "SET", ascii "k", [0, 13, 10, 255]]).encode ++ []) =
      .ok (commitArgs [⟨8, ascii "SET"⟩, ⟨17, ascii "k"⟩, ⟨24, [0, 13, 10, 255]⟩] 30) := by
  rfl

/-- The frame of `GET k`. -/
theorem getk_frame : respParseRequest ((Reply.array [ascii "GET", ascii "k"]).encode ++ []) =
    .ok (commitArgs [⟨8, ascii "GET"⟩, ⟨17, ascii "k"⟩] 20) := by
  rfl

/-- A value with a NUL, a CR and a LF in it, written, left alone and read back. -/
theorem set_get_roundtrip_binary :
    (((Session.next ⟨htInit, Heap.ample⟩ (callOf setBinary_frame)).run [keyedIncr.toCall]).exec
        (callOf getk_frame)).2.out.live = ascii "$4\r\n" ++ [0, 13, 10, 255] ++ CRLF := by
  obtain ⟨setReq, getReq, hset, hget, hround⟩ := @set_get_roundtrip (ascii "SET") (ascii "GET")
    (by decide) (by decide) (ascii "k") [0, 13, 10, 255] (by decide) [] []
  obtain rfl := RespStatus.ok.inj (hset.symm.trans setBinary_frame)
  obtain rfl := RespStatus.ok.inj (hget.symm.trans getk_frame)
  have hspares : ∀ c ∈ [keyedIncr.toCall], Spares c.req (ascii "k") := by
    intro c hc
    obtain rfl := List.mem_singleton.mp hc
    exact keyedIncr.keyed.spares (by decide)
  exact (hround ⟨htInit, Heap.ample⟩ (callOf setBinary_frame) (callOf getk_frame)
    [keyedIncr.toCall] Hashtable.inv_init rfl rfl rfl hspares (by decide)).2

end RedisInC
