import RedisInC.Footprint
import RedisInC.Locality
import RedisInC.Reference

/-!
# Clients on disjoint keys

Connections are served by one thread, request by request, against one store. The
requests of several clients arrive in any interleaving; the clients' keys may
share buckets and chains, and the chains differ between interleavings.

* `keyedServer` — the store with the requests that work on keys of their own, as
  a `Footprint.KeyedStore`: lookups are the view, `RespRequest.footprint` the keys.
* `clients_isolated` — clients that have no key in common get, in any
  interleaving, the reply bytes they get alone, and all interleavings leave the
  same map.
-/

namespace RedisInC

open Footprint

/-- **The store with keyed requests.** -/
def keyedServer : KeyedStore Hashtable {req : RespRequest // Keyed req} Reply Bytes
    (Option Bytes) where
  get := htGet
  step ht r := replyTo ht r.1
  Inv := Hashtable.Inv
  foot r := {k | k ∈ r.1.footprint}
  step_inv r hi := replyTo_inv hi r.1
  frame hi hk := replyTo_spares hi (Keyed.spares (Subtype.property _) hk)
  agree_out hi hi' h := (replyTo_agree hi hi' (Subtype.property _) h).1
  agree_get hi hi' h := (replyTo_agree hi hi' (Subtype.property _) h).2

/-- A call of a client that works on keys of its own. -/
structure KeyedCall extends Call where
  /-- any command but `KEYS`, `DBSIZE` and `FLUSHDB` -/
  keyed : Keyed req

/-- The request as an operation. -/
def KeyedCall.op (c : KeyedCall) : {req : RespRequest // Keyed req} := ⟨c.req, c.keyed⟩

namespace Session

/-- The bytes a request appends to its buffer. -/
def appended (s : Session) (c : Call) : Bytes := (s.exec c).2.out.live.drop c.out.live.length

/-- The bytes appended for each request of a run. -/
def replies : Session → List KeyedCall → List Bytes
  | _, [] => []
  | s, c :: calls => s.appended c.toCall :: (s.next c.toCall).replies calls

variable {ι : Type} [DecidableEq ι]

/-- The bytes appended for each request of one client. -/
def repliesOf (i : ι) : Session → List (ι × KeyedCall) → List Bytes
  | _, [] => []
  | s, p :: l =>
    if p.1 = i then s.appended p.2.toCall :: (s.next p.2.toCall).repliesOf i l
    else (s.next p.2.toCall).repliesOf i l

end Session

/-- The calls of an interleaving. -/
def callsOf {ι : Type} (l : List (ι × KeyedCall)) : List Call := l.map fun p => p.2.toCall

/-- The operations of an interleaving. -/
def opsOf {ι : Type} (l : List (ι × KeyedCall)) : List (ι × {req : RespRequest // Keyed req}) :=
  l.map fun p => (p.1, p.2.op)

section Clients

variable {ι : Type} [DecidableEq ι]

/-- A served request: what it appends, and the store it leaves. -/
theorem Session.appended_eq {s : Session} {c : Call}
    (hroom : c.out.live.length + (replyTo s.store c.req).2.encode.length ≤ BYTEBUF_MAX)
    (halloc : (s.next c).heap.failed = false) :
    s.appended c = (replyTo s.store c.req).2.encode ∧
      (s.next c).store = (replyTo s.store c.req).1 := by
  obtain ⟨-, hlive, hstore⟩ := Session.next_served hroom halloc
  rw [Session.appended, hlive, List.drop_left]
  exact ⟨rfl, hstore⟩

theorem replies_eq_outs {s : Session} {calls : List KeyedCall}
    (hroom : s.Room (calls.map KeyedCall.toCall))
    (halloc : (s.run (calls.map KeyedCall.toCall)).heap.failed = false) :
    s.replies calls = (keyedServer.outs s.store (calls.map KeyedCall.op)).map Reply.encode := by
  induction calls generalizing s with
  | nil => rfl
  | cons c calls ih =>
    obtain ⟨hroom, hrooms⟩ := hroom
    obtain ⟨happended, hstore⟩ :=
      Session.appended_eq hroom (Session.run_failed_mono _ halloc)
    rw [Session.replies, happended, ih hrooms halloc, hstore]
    rfl

theorem repliesOf_eq_outsOf {s : Session} {l : List (ι × KeyedCall)} (hroom : s.Room (callsOf l))
    (halloc : (s.run (callsOf l)).heap.failed = false) :
    (∀ i, s.repliesOf i l = (keyedServer.outsOf i s.store (opsOf l)).map Reply.encode) ∧
      (s.run (callsOf l)).store = keyedServer.final s.store ((opsOf l).map Prod.snd) := by
  induction l generalizing s with
  | nil => exact ⟨fun _ => rfl, rfl⟩
  | cons p l ih =>
    obtain ⟨hroom, hrooms⟩ := hroom
    obtain ⟨happended, hstore⟩ :=
      Session.appended_eq hroom (Session.run_failed_mono _ halloc)
    obtain ⟨hreplies, hfinal⟩ := ih hrooms halloc
    rw [hstore] at hreplies hfinal
    refine ⟨fun i => ?_, hfinal⟩
    rw [Session.repliesOf, hreplies, happended]
    change _ = (if p.1 = i then _ :: _ else _ : List Reply).map Reply.encode
    split
    · rfl
    · rfl

/-- The requests of one client. -/
theorem project_opsOf (i : ι) (l : List (ι × KeyedCall)) :
    project i (opsOf l) = (project i l).map KeyedCall.op := by
  induction l with
  | nil => rfl
  | cons p l ih =>
    change (if p.1 = i then _ :: project i (opsOf l) else project i (opsOf l)) = _
    rw [ih, project]
    split
    · rfl
    · rfl

theorem map_op_eq {calls calls' : List KeyedCall}
    (h : calls.map (fun c => c.req) = calls'.map fun c => c.req) :
    calls.map KeyedCall.op = calls'.map KeyedCall.op := by
  have hval : (calls.map KeyedCall.op).map Subtype.val =
      (calls'.map KeyedCall.op).map Subtype.val := by
    rw [List.map_map, List.map_map]
    exact h
  exact (List.map_injective_iff.mpr Subtype.val_injective) hval

/-- **Isolation.** Requests of several clients against one store, in any
interleaving `l`; no two clients name a common key, every reply has room and no
allocation fails. Each client gets the reply bytes it gets alone from the same
store, and any other interleaving of the same requests ends with the same map. -/
theorem clients_isolated {ht : Hashtable} (hi : ht.Inv) (h : Heap) (l : List (ι × KeyedCall))
    (hdisjoint : ∀ p ∈ l, ∀ q ∈ l, p.1 ≠ q.1 →
      ∀ k ∈ p.2.req.footprint, k ∉ q.2.req.footprint)
    (hroom : Session.Room ⟨ht, h⟩ (callsOf l))
    (halloc : (Session.run ⟨ht, h⟩ (callsOf l)).heap.failed = false) :
    (∀ (i : ι) (h' : Heap) (solo : List KeyedCall),
      (solo.map fun c => c.req) = (project i l).map (fun c => c.req) →
      Session.Room ⟨ht, h'⟩ (solo.map KeyedCall.toCall) →
      (Session.run ⟨ht, h'⟩ (solo.map KeyedCall.toCall)).heap.failed = false →
        Session.repliesOf i ⟨ht, h⟩ l = Session.replies ⟨ht, h'⟩ solo) ∧
    ∀ (h' : Heap) (l' : List (ι × KeyedCall)),
      (∀ i, (project i l').map (fun c => c.req) = (project i l).map fun c => c.req) →
      Session.Room ⟨ht, h'⟩ (callsOf l') →
      (Session.run ⟨ht, h'⟩ (callsOf l')).heap.failed = false →
        (Session.run ⟨ht, h'⟩ (callsOf l')).store.toMap =
          (Session.run ⟨ht, h⟩ (callsOf l)).store.toMap := by
  have hdisj : keyedServer.Disjoint (opsOf l) := by
    intro op hop op' hop' hne k hk
    obtain ⟨p, hp, rfl⟩ := List.mem_map.mp hop
    obtain ⟨q, hq, rfl⟩ := List.mem_map.mp hop'
    exact hdisjoint p hp q hq hne k hk
  obtain ⟨hreplies, hfinal⟩ := repliesOf_eq_outsOf hroom halloc
  constructor
  · intro i h' solo hsolo hroom' halloc'
    rw [hreplies, replies_eq_outs hroom' halloc', map_op_eq hsolo, ← project_opsOf,
      keyedServer.outsOf_eq_outs hdisj hi]
  · intro h' l' hsame hroom' halloc'
    obtain ⟨-, hfinal'⟩ := repliesOf_eq_outsOf hroom' halloc'
    have hproj : ∀ i, project i (opsOf l') = project i (opsOf l) := by
      intro i
      rw [project_opsOf, project_opsOf, map_op_eq (hsame i)]
    have hinv : keyedServer.Inv ht := hi
    have hget := KeyedStore.get_final_eq hdisj hproj hinv
    rw [hfinal, hfinal']
    refine Finmap.ext_lookup fun k => ?_
    rw [← (KeyedStore.final_inv hinv _ : Hashtable.Inv _).htGet_eq,
      ← (KeyedStore.final_inv hinv _ : Hashtable.Inv _).htGet_eq]
    exact hget k

end Clients

theorem Keyed.of_dispatched {req : RespRequest} {c : Cmd} (h : req.dispatched = some c)
    (hc : c ≠ .keys ∧ c ≠ .dbsize ∧ c ≠ .flushdb) : Keyed req := by
  intro c' h'
  obtain rfl := Option.some.inj (h.symm.trans h')
  exact hc

/-- `SET k v` -/
def keyedSet : KeyedCall :=
  ⟨setCall, Keyed.of_dispatched (by decide : _ = some Cmd.set) (by decide)⟩

/-- `get k` -/
def keyedGet : KeyedCall :=
  ⟨getCall, Keyed.of_dispatched (by decide : _ = some Cmd.get) (by decide)⟩

/-- `INCR n` -/
def keyedIncr : KeyedCall :=
  ⟨⟨requestOf [ascii "INCR", ascii "n"], bytebufInit, Bytebuf.inv_init, by decide, by decide,
    by decide⟩, Keyed.of_dispatched (by decide : _ = some Cmd.incr) (by decide)⟩

theorem clients_isolated_set_incr :
    Session.repliesOf true ⟨htInit, Heap.ample⟩
        [(true, keyedSet), (false, keyedIncr), (true, keyedGet)] =
      Session.replies ⟨htInit, Heap.ample⟩ [keyedSet, keyedGet] ∧
    (Session.run ⟨htInit, Heap.ample⟩
        (callsOf [(false, keyedIncr), (true, keyedSet), (true, keyedGet)])).store.toMap =
      (Session.run ⟨htInit, Heap.ample⟩
        (callsOf [(true, keyedSet), (false, keyedIncr), (true, keyedGet)])).store.toMap := by
  have hisolated := clients_isolated Hashtable.inv_init Heap.ample
    [(true, keyedSet), (false, keyedIncr), (true, keyedGet)] (by decide)
    ⟨by decide, by decide, by decide, trivial⟩ (by decide)
  refine ⟨hisolated.1 true Heap.ample [keyedSet, keyedGet] rfl
    ⟨by decide, by decide, trivial⟩ (by decide), hisolated.2 Heap.ample _ ?_
    ⟨by decide, by decide, by decide, trivial⟩ (by decide)⟩
  intro i
  cases i
  · rfl
  · rfl

end RedisInC
