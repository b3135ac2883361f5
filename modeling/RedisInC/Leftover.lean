import RedisInC.Reference
import RedisInC.Startup

/-!
# The keys the smoke tests leave behind

The store the clients find is not empty. What they see of that is described by
following the stale keys through a run: a `SET` of a stale key makes it the
clients' own, a flush removes them all.

* `observes`, `forget`, `Blind` — whether a request can tell a stale key from a
  missing one; which keys are stale after it; a run that never observes one.
* `Differ` — a store with stale keys next to one without.
* `Differ.step`, `Differ.observed` — a request that observes nothing gets a reply
  of the clean store, and one that observes a stale key does not.
* `startup_replies_iff` — the server replies like the reference machine from an
  empty map exactly in the runs that are blind to `gs` and `sk`.
-/

namespace RedisInC

open DecimalText

/-- Whether a request looks at one of the stale keys. -/
def observes (stale : List Bytes) (req : RespRequest) : Bool :=
  match req.dispatched with
  | some .get | some .strlen | some .append | some .setnx | some .getset | some .incr
  | some .decr => decide (req.arg 1 ∈ stale)
  -- an operand that is no number is refused before the key is looked up
  | some .incrby | some .decrby => decide (req.arg 1 ∈ stale) && (parseInt64 (req.arg 2)).isSome
  | some .exists | some .del => req.keys.any fun key => decide (key ∈ stale)
  | some .dbsize => !stale.isEmpty
  | some .keys => stale.any fun key => globMatch (req.arg 1) key
  | some .ping | some .command | some .set | some .flushdb | none => false

/-- The keys that are still stale after a request. -/
def forget (stale : List Bytes) (req : RespRequest) : List Bytes :=
  match req.dispatched with
  | some .set => stale.filter fun key => decide (key ≠ req.arg 1)
  | some .flushdb => []
  | _ => stale

/-- No request observes a key that is stale when it is executed. -/
def Blind : List Bytes → List RespRequest → Prop
  | _, [] => True
  | stale, req :: reqs => observes stale req = false ∧ Blind (forget stale req) reqs

/-- A store with some stale keys, and one that has not got them. The stale values
are short texts that are no numbers. -/
structure Differ (stale : List Bytes) (ht ht' : Hashtable) : Prop where
  /-- the first is in order -/
  inv : ht.Inv
  /-- and so is the second -/
  inv' : ht'.Inv
  /-- there are at most two stale keys -/
  few : stale.length ≤ 2
  /-- other keys are the same -/
  agree : ∀ key, key ∉ stale → htGet ht key = htGet ht' key
  /-- stale keys are there in the first -/
  present : ∀ key ∈ stale, ∃ val, htGet ht key = some val ∧ 0 < val.length ∧ val.length ≤ 5 ∧
    parseInt64 val = none
  /-- and missing in the second -/
  missing : ∀ key ∈ stale, htGet ht' key = none

/-- The machine dispatches like the server. -/
theorem refStep_dispatched (m : RefMap) (c : Call) :
    refStep m c.req.argv =
      match c.req.dispatched with
      | some cmd => refCommand m c.req.argv cmd
      | none => (m, exactly (undispatched c.req)) := by
  have hpos := c.argc_pos
  rw [refStep, RespRequest.dispatched, undispatched, if_neg (by omega), if_neg (by omega),
    argv_getD (by omega), length_argv]
  cases lookupCommand (c.req.arg 0) with
  | none => rfl
  | some e =>
    simp only
    by_cases harity : e.badArity c.req.argc = true
    · rw [if_pos harity, if_pos harity]
    · rw [if_neg harity, if_neg harity]

namespace Differ

variable {stale : List Bytes} {ht ht' : Hashtable} {req : RespRequest}

/-- The second store holds objects if the first does. -/
theorem fits (hd : Differ stale ht ht') (hfits : ht.Fits) : ht'.Fits := by
  intro key val hval
  by_cases hkey : key ∈ stale
  · rw [hd.missing key hkey] at hval
    cases hval
  · rw [← hd.agree key hkey] at hval
    exact hfits key val hval

/-- Without stale keys both denote one map. -/
theorem toMap_eq (hd : Differ [] ht ht') : ht.toMap = ht'.toMap := by
  refine Finmap.ext_lookup fun key => ?_
  rw [← hd.inv.htGet_eq, ← hd.inv'.htGet_eq, hd.agree key (List.not_mem_nil)]

/-! ## Requests that observe nothing -/

/-- A request on other keys. -/
theorem keyed (hd : Differ stale ht ht') (hk : Keyed req)
    (hfoot : ∀ key ∈ req.footprint, key ∉ stale) :
    (replyTo ht req).2 = (replyTo ht' req).2 ∧
      Differ stale (replyTo ht req).1 (replyTo ht' req).1 := by
  obtain ⟨hreply, hget⟩ :=
    replyTo_agree hd.inv hd.inv' hk fun key hkey => hd.agree key (hfoot key hkey)
  have hframe : ∀ key ∈ stale, htGet (replyTo ht req).1 key = htGet ht key ∧
      htGet (replyTo ht' req).1 key = htGet ht' key := by
    intro key hkey
    have hspares : Spares req key := hk.spares fun hin => hfoot key hin hkey
    exact ⟨replyTo_spares hd.inv hspares, replyTo_spares hd.inv' hspares⟩
  refine ⟨hreply, replyTo_inv hd.inv req, replyTo_inv hd.inv' req, hd.few, ?_, ?_, ?_⟩
  · intro key hkey
    by_cases hin : key ∈ req.footprint
    · exact hget key hin
    · rw [replyTo_spares hd.inv (hk.spares hin), replyTo_spares hd.inv' (hk.spares hin),
        hd.agree key hkey]
  · intro key hkey
    rw [(hframe key hkey).1]
    exact hd.present key hkey
  · intro key hkey
    rw [(hframe key hkey).2]
    exact hd.missing key hkey

/-- Storing a value makes a key the clients' own. -/
theorem put (hd : Differ stale ht ht') (key val : Bytes) :
    Differ (stale.filter fun k => decide (k ≠ key)) (ht.put key val) (ht'.put key val) := by
  refine ⟨(hd.inv.put key val).1, (hd.inv'.put key val).1,
    Nat.le_trans (List.length_filter_le _ _) hd.few, ?_, ?_, ?_⟩
  · intro k hk
    rw [hd.inv.htGet_put, hd.inv'.htGet_put]
    split
    · rfl
    · next hne =>
      refine hd.agree k fun hin => hk ?_
      rw [List.mem_filter]
      exact ⟨hin, decide_eq_true hne⟩
  · intro k hk
    obtain ⟨hin, hne⟩ := List.mem_filter.mp hk
    rw [hd.inv.htGet_put, if_neg (of_decide_eq_true hne)]
    exact hd.present k hin
  · intro k hk
    obtain ⟨hin, hne⟩ := List.mem_filter.mp hk
    rw [hd.inv'.htGet_put, if_neg (of_decide_eq_true hne)]
    exact hd.missing k hin

/-- **A request that observes no stale key** gets the reply of the clean store (the
keys of a `KEYS` may come in another order), and the stores go on to differ in
stale keys only. -/
theorem step (hd : Differ stale ht ht') (hob : observes stale req = false) :
    (req.dispatched ≠ some .keys → (replyTo ht req).2 = (replyTo ht' req).2) ∧
      Differ (forget stale req) (replyTo ht req).1 (replyTo ht' req).1 := by
  cases hc : req.dispatched with
  | none =>
    have hk : Keyed req := by
      intro c h
      rw [hc] at h
      cases h
    obtain ⟨hreply, hd'⟩ := hd.keyed hk (by simp [RespRequest.footprint, hc])
    rw [forget, hc]
    exact ⟨fun _ => hreply, hd'⟩
  | some c =>
    have hkeyed : c ≠ .keys ∧ c ≠ .dbsize ∧ c ≠ .flushdb → (∀ key ∈ c.keysIn req, key ∉ stale) →
        (some c ≠ some .keys → (replyTo ht req).2 = (replyTo ht' req).2) ∧
          Differ stale (replyTo ht req).1 (replyTo ht' req).1 := by
      intro hne hfoot
      have hk : Keyed req := by
        intro c' h
        obtain rfl := Option.some.inj (hc.symm.trans h)
        exact hne
      obtain ⟨hreply, hd'⟩ := hd.keyed hk (by rw [RespRequest.footprint, hc]; exact hfoot)
      exact ⟨fun _ => hreply, hd'⟩
    have hone : req.arg 1 ∉ stale → ∀ key ∈ [req.arg 1], key ∉ stale := by
      intro hnot key hkey
      rw [List.mem_singleton.mp hkey]
      exact hnot
    have hanswer : ∀ ht, replyTo ht req = answer ht req c := by
      intro ht
      rw [replyTo_dispatched, hc]
    rw [observes, hc] at hob
    rw [forget, hc]
    cases c with
    | ping => exact hkeyed (by decide) (by simp [Cmd.keysIn])
    | command => exact hkeyed (by decide) (by simp [Cmd.keysIn])
    | get => exact hkeyed (by decide) (hone (of_decide_eq_false hob))
    | strlen => exact hkeyed (by decide) (hone (of_decide_eq_false hob))
    | append => exact hkeyed (by decide) (hone (of_decide_eq_false hob))
    | setnx => exact hkeyed (by decide) (hone (of_decide_eq_false hob))
    | getset => exact hkeyed (by decide) (hone (of_decide_eq_false hob))
    | incr => exact hkeyed (by decide) (hone (of_decide_eq_false hob))
    | decr => exact hkeyed (by decide) (hone (of_decide_eq_false hob))
    | incrby =>
      by_cases hin : req.arg 1 ∈ stale
      · -- the operand is refused by both
        have hnone : parseInt64 (req.arg 2) = none := by simpa [hin] using hob
        rw [hanswer, hanswer, answer, answer, hnone]
        exact ⟨fun _ => rfl, hd⟩
      · exact hkeyed (by decide) (hone hin)
    | decrby =>
      by_cases hin : req.arg 1 ∈ stale
      · have hnone : parseInt64 (req.arg 2) = none := by simpa [hin] using hob
        rw [hanswer, hanswer, answer, answer, hnone]
        exact ⟨fun _ => rfl, hd⟩
      · exact hkeyed (by decide) (hone hin)
    | «exists» =>
      have hkeys : ∀ key ∈ req.keys, key ∉ stale := by simpa using hob
      exact hkeyed (by decide) hkeys
    | del =>
      have hkeys : ∀ key ∈ req.keys, key ∉ stale := by simpa using hob
      exact hkeyed (by decide) hkeys
    | set =>
      rw [hanswer, hanswer]
      exact ⟨fun _ => rfl, hd.put _ _⟩
    | dbsize =>
      obtain rfl : stale = [] := by simpa using hob
      rw [hanswer, hanswer, answer, answer, hd.inv.count_eq_card, hd.inv'.count_eq_card,
        hd.toMap_eq]
      exact ⟨fun _ => rfl, hd⟩
    | keys =>
      rw [hanswer, hanswer]
      exact ⟨fun h => absurd rfl h, hd⟩
    | flushdb =>
      rw [hanswer, hanswer]
      exact ⟨fun _ => rfl, Hashtable.inv_init, Hashtable.inv_init, Nat.zero_le 2,
        fun _ _ => rfl, by simp, by simp⟩

/-- The keys a pattern matches are the same, if it matches no stale one. -/
theorem mem_matchingKeys (hd : Differ stale ht ht') {pattern : Bytes}
    (hob : ∀ key ∈ stale, globMatch pattern key = false) (key : Bytes) :
    key ∈ matchingKeys ht pattern ↔ key ∈ ht'.toMap ∧ globMatch pattern key = true := by
  have hfresh : globMatch pattern key = true → key ∉ stale := by
    intro hmatch hin
    rw [hob key hin] at hmatch
    cases hmatch
  rw [(matchingKeys_spec hd.inv pattern).2, hd.inv.mem_toMap, hd.inv'.mem_toMap]
  constructor
  · rintro ⟨hmem, hmatch⟩
    rw [← hd.agree key (hfresh hmatch)]
    exact ⟨hmem, hmatch⟩
  · rintro ⟨hmem, hmatch⟩
    rw [hd.agree key (hfresh hmatch)]
    exact ⟨hmem, hmatch⟩

/-- **The machine without the stale keys** gives the reply, too. -/
theorem replies (hd : Differ stale ht ht') (hfits : ht.Fits) {c : Call}
    (hob : observes stale c.req = false) :
    (refStep ht'.toMap c.req.argv).2 (replyTo ht c.req).2 := by
  obtain ⟨-, hclean⟩ := replyTo_refines hd.inv' (hd.fits hfits) c
  by_cases hkeys : c.req.dispatched = some .keys
  · have hpattern : c.req.argv.getD 1 [] = c.req.arg 1 := argv_getD (dispatched_needs hkeys)
    have hmatch : ∀ key ∈ stale, globMatch (c.req.arg 1) key = false := by
      rw [observes, hkeys] at hob
      simpa using hob
    rw [refStep_dispatched, replyTo_dispatched, hkeys]
    refine ⟨_, rfl, (matchingKeys_spec hd.inv _).1, fun key => ?_⟩
    rw [hpattern]
    exact hd.mem_matchingKeys hmatch key
  · rw [(hd.step hob).1 hkeys]
    exact hclean

end Differ

/-! ## Replies that differ on the wire -/

theorem int64_ne {a b : ℤ} (hlt : b < a) (hle : a < b + 2 ^ 64) : int64 a ≠ int64 b := by
  intro h
  have ha : int64 a % 2 ^ 64 = a % 2 ^ 64 := Int.bmod_emod
  have hb : int64 b % 2 ^ 64 = b % 2 ^ 64 := Int.bmod_emod
  rw [h] at ha
  omega

theorem integer_encode_ne {a b : ℤ} (hlt : b < a) (hle : a < b + 2 ^ 64) :
    (Reply.integer a).encode ≠ (Reply.integer b).encode := by
  intro h
  rw [Reply.encode, Reply.encode, List.append_left_inj, List.append_right_inj] at h
  have hread := congrArg readInt h
  rw [readInt_intText, readInt_intText] at hread
  exact int64_ne hlt hle (Option.some.inj hread)

theorem array_encode_ne {items items' : List Bytes} (hlt : items'.length < items.length)
    (hle : items.length < items'.length + 2 ^ 64) :
    (Reply.array items).encode ≠ (Reply.array items').encode := by
  intro h
  rw [Reply.encode, Reply.encode, encodeArrayHeader, encodeArrayHeader, List.append_assoc,
    List.append_assoc, List.append_assoc, List.append_assoc, List.append_right_inj] at h
  have hread := congrArg readLine h
  rw [readLine_append (natText_no_eol _), readLine_append (natText_no_eol _)] at hread
  have htext : natText (sizeT items.length) = natText (sizeT items'.length) := by
    simpa using congrArg (fun r => r.map Prod.fst) hread
  have hsize := congrArg (fun cs => value cs 0) htext
  simp only [value_natText, sizeT] at hsize
  omega

theorem bulk_encode_ne_nil (val : Bytes) : (Reply.bulk val).encode ≠ Reply.nil.encode := by
  obtain ⟨c, cs, hcons, hc⟩ := natText_eq_cons (sizeT val.length)
  intro h
  rw [Reply.encode, encodeBulk, hcons] at h
  have hhead : c = 45 := by
    have := congrArg (fun bs : Bytes => bs[1]?) h
    simpa [ascii, Reply.encode] using this
  rw [hhead] at hc
  exact absurd hc (by decide)

theorem error_encode_ne_integer (msg : Bytes) (n : ℤ) :
    (Reply.error msg).encode ≠ (Reply.integer n).encode := by
  intro h
  have := congrArg List.head? h
  simp [Reply.encode, ascii] at this

/-! ## Counts that differ -/

/-- A larger map has more of the keys to delete. -/
theorem refDel_mono {m m' : RefMap} (hsub : ∀ key ∈ m, key ∈ m') (keys : List Bytes) :
    (refDel keys m).1 ≤ (refDel keys m').1 ∧ (refDel keys m').1 ≤ keys.length ∧
      ((∃ key ∈ keys, key ∈ m' ∧ key ∉ m) → (refDel keys m).1 < (refDel keys m').1) := by
  induction keys generalizing m m' with
  | nil => exact ⟨Nat.le_refl _, Nat.le_refl _, fun ⟨_, h, _⟩ => absurd h (List.not_mem_nil)⟩
  | cons k keys ih =>
    have hsub' : ∀ key ∈ m.erase k, key ∈ m'.erase k := by
      intro key hkey
      rw [Finmap.mem_erase] at hkey ⊢
      exact ⟨hkey.1, hsub key hkey.2⟩
    obtain ⟨hle, hmax, hlt⟩ := ih hsub'
    simp only [refDel, List.length_cons]
    have hhead : (if k ∈ m then 1 else 0) ≤ if k ∈ m' then 1 else 0 := by
      by_cases hk : k ∈ m
      · rw [if_pos hk, if_pos (hsub k hk)]
      · rw [if_neg hk]
        exact Nat.zero_le _
    have hone : (if k ∈ m' then 1 else 0) ≤ 1 := by
      split <;> omega
    refine ⟨by omega, by omega, ?_⟩
    rintro ⟨key, hkey, hin, hout⟩
    by_cases heq : key = k
    · rw [← heq, if_pos hin, if_neg hout]
      rw [← heq] at hle
      omega
    · have hrest : (refDel keys (m.erase k)).1 < (refDel keys (m'.erase k)).1 := by
        refine hlt ⟨key, (List.mem_cons.mp hkey).resolve_left heq, ?_, ?_⟩
        · exact Finmap.mem_erase.mpr ⟨heq, hin⟩
        · exact fun h => hout (Finmap.mem_erase.mp h).2
      omega

/-- A larger map has more of the keys to count. -/
theorem countP_lt {m m' : RefMap} (hsub : ∀ key ∈ m, key ∈ m') {keys : List Bytes}
    (hex : ∃ key ∈ keys, key ∈ m' ∧ key ∉ m) :
    (keys.countP fun key => key ∈ m) < keys.countP fun key => key ∈ m' := by
  obtain ⟨key, hkey, hin, hout⟩ := hex
  obtain ⟨l, l', rfl⟩ := List.append_of_mem hkey
  have hmono : ∀ keys : List Bytes,
      (keys.countP fun key => key ∈ m) ≤ keys.countP fun key => key ∈ m' := by
    intro keys
    refine List.countP_mono_left fun k _ hk => ?_
    simpa using hsub k (by simpa using hk)
  have hl := hmono l
  have hl' := hmono l'
  rw [List.countP_append, List.countP_append, List.countP_cons_of_neg (by simpa using hout),
    List.countP_cons_of_pos (by simpa using hin)]
  omega

namespace Differ

variable {stale : List Bytes} {ht ht' : Hashtable} {req : RespRequest}

/-! ## Requests that observe a stale key -/

theorem mem_toMap (hd : Differ stale ht ht') (key : Bytes) :
    key ∈ ht.toMap ↔ key ∈ stale ∨ key ∈ ht'.toMap := by
  rw [hd.inv.mem_toMap, hd.inv'.mem_toMap]
  by_cases hkey : key ∈ stale
  · obtain ⟨val, hval, -⟩ := hd.present key hkey
    simp [hkey, hval]
  · simp [hkey, hd.agree key hkey]

theorem not_mem_toMap (hd : Differ stale ht ht') {key : Bytes} (hkey : key ∈ stale) :
    key ∉ ht'.toMap := by
  rw [hd.inv'.mem_toMap, hd.missing key hkey]
  simp

/-- `DBSIZE` counts the stale keys. -/
theorem count (hd : Differ stale ht ht') (hne : stale ≠ []) :
    ht'.count < ht.count ∧ ht.count ≤ ht'.count + 2 := by
  rw [hd.inv.count_eq_card, hd.inv'.count_eq_card]
  constructor
  · refine Finset.card_lt_card ⟨fun key hkey => ?_, fun hsub => ?_⟩
    · rw [Finmap.mem_keys] at hkey ⊢
      exact (hd.mem_toMap key).mpr (Or.inr hkey)
    · obtain ⟨key, hkey⟩ := List.exists_mem_of_ne_nil stale hne
      have hin := hsub (Finmap.mem_keys.mpr ((hd.mem_toMap key).mpr (Or.inl hkey)))
      exact hd.not_mem_toMap hkey (Finmap.mem_keys.mp hin)
  · have hsub : ht.toMap.keys ⊆ ht'.toMap.keys ∪ stale.toFinset := by
      intro key hkey
      rw [Finset.mem_union, Finmap.mem_keys, List.mem_toFinset]
      exact ((hd.mem_toMap key).mp (Finmap.mem_keys.mp hkey)).symm
    have hcard := Finset.card_le_card hsub
    have hunion := Finset.card_union_le ht'.toMap.keys stale.toFinset
    have hstale := stale.toFinset_card_le
    have hfew := hd.few
    omega

/-- `KEYS` lists the stale keys it matches. -/
theorem length_matchingKeys (hd : Differ stale ht ht') {pattern : Bytes} {items : List Bytes}
    (hitems : items.Nodup)
    (hmem : ∀ key, key ∈ items ↔ key ∈ ht'.toMap ∧ globMatch pattern key = true)
    (hex : ∃ key ∈ stale, globMatch pattern key = true) :
    items.length < (matchingKeys ht pattern).length ∧
      (matchingKeys ht pattern).length ≤ items.length + 2 := by
  obtain ⟨hnodup, hspec⟩ := matchingKeys_spec hd.inv pattern
  constructor
  · obtain ⟨key, hkey, hmatch⟩ := hex
    have hnew : key ∉ items := fun hin => hd.not_mem_toMap hkey ((hmem key).mp hin).1
    have hsub : key :: items ⊆ matchingKeys ht pattern := by
      intro k hk
      rw [hspec, hd.mem_toMap]
      rcases List.mem_cons.mp hk with rfl | hk
      · exact ⟨Or.inl hkey, hmatch⟩
      · exact ⟨Or.inr ((hmem k).mp hk).1, ((hmem k).mp hk).2⟩
    exact ((List.nodup_cons.mpr ⟨hnew, hitems⟩).subperm hsub).length_le
  · have hsub : matchingKeys ht pattern ⊆ items ++ stale := by
      intro k hk
      obtain ⟨hin, hmatch⟩ := (hspec k).mp hk
      rw [List.mem_append]
      rcases (hd.mem_toMap k).mp hin with hstale | hin
      · exact Or.inr hstale
      · exact Or.inl ((hmem k).mpr ⟨hin, hmatch⟩)
    have hle := (hnodup.subperm hsub).length_le
    have hfew := hd.few
    rw [List.length_append] at hle
    omega

/-- A counter command refuses a stale value, and starts from zero without it. -/
theorem answerIncrby_stale (hd : Differ stale ht ht') {key : Bytes} (hkey : key ∈ stale) {delta : ℤ}
    (hdelta : delta.natAbs ≤ 10 * DIGIT_GUARD + 9) :
    (answerIncrby ht' key delta).2.encode ≠ (answerIncrby ht key delta).2.encode := by
  obtain ⟨val, hval, -, -, hparse⟩ := hd.present key hkey
  have hnone : counterValue ht key = none := by
    rw [counterValue, hval]
    exact hparse
  have hzero : counterValue ht' key = some 0 := by
    rw [counterValue, hd.missing key hkey]
  have hrange : INT64_MIN ≤ 0 + delta ∧ 0 + delta ≤ INT64_MAX := by
    simp only [DIGIT_GUARD] at hdelta
    simp only [INT64_MIN, INT64_MAX]
    omega
  rw [answerIncrby, answerIncrby, hnone, hzero]
  simp only [if_pos hrange]
  exact (error_encode_ne_integer _ _).symm

/-- Apart from `KEYS`, the machine leaves no choice. -/
theorem refCommand_exact (m : RefMap) (argv : List Bytes) {c : Cmd} (hc : c ≠ .keys) :
    ∃ r, (refCommand m argv c).2 = exactly r := by
  cases c with
  | keys => exact absurd rfl hc
  | setnx =>
    rw [refCommand]
    split
    · exact ⟨_, rfl⟩
    · exact ⟨_, rfl⟩
  | _ => exact ⟨_, rfl⟩

/-- Every key of the clean store is in the other one. -/
theorem mem_of_clean (hd : Differ stale ht ht') (key : Bytes) (hkey : key ∈ ht'.toMap) :
    key ∈ ht.toMap :=
  (hd.mem_toMap key).mpr (Or.inr hkey)

/-- A stale argument is a key of one store only. -/
theorem exists_stale (hd : Differ stale ht ht') {keys : List Bytes}
    (hany : (keys.any fun key => decide (key ∈ stale)) = true) :
    ∃ key ∈ keys, key ∈ ht.toMap ∧ key ∉ ht'.toMap := by
  obtain ⟨key, hkey, hin⟩ := List.any_eq_true.mp hany
  have hstale : key ∈ stale := of_decide_eq_true hin
  exact ⟨key, hkey, (hd.mem_toMap key).mpr (Or.inl hstale), hd.not_mem_toMap hstale⟩

/-- The two answers differ on the wire, whatever the command. -/
theorem answer_encode_ne (hd : Differ stale ht ht') {cmd : Cmd} (hc : req.dispatched = some cmd)
    (hcmd : cmd ≠ .keys) (hkeys : req.keys.length ≤ 32) (hob : observes stale req = true) :
    (answer ht' req cmd).2.encode ≠ (answer ht req cmd).2.encode := by
  rw [observes, hc] at hob
  -- a stale value of the first argument
  have hone : decide (req.arg 1 ∈ stale) = true → ∃ val, htGet ht (req.arg 1) = some val ∧
      0 < val.length ∧ val.length ≤ 5 ∧ htGet ht' (req.arg 1) = none := by
    intro h
    obtain ⟨val, hval, hpos, hle, -⟩ := hd.present _ (of_decide_eq_true h)
    exact ⟨val, hval, hpos, hle, hd.missing _ (of_decide_eq_true h)⟩
  cases cmd with
  | keys => exact absurd rfl hcmd
  | ping => cases hob
  | command => cases hob
  | set => cases hob
  | flushdb => cases hob
  | get =>
    obtain ⟨val, hval, -, -, hmiss⟩ := hone hob
    rw [answer, answer, hval, hmiss]
    exact (bulk_encode_ne_nil val).symm
  | getset =>
    obtain ⟨val, hval, -, -, hmiss⟩ := hone hob
    rw [answer, answer, hval, hmiss]
    exact (bulk_encode_ne_nil val).symm
  | strlen =>
    obtain ⟨val, hval, hpos, hle, hmiss⟩ := hone hob
    rw [answer, answer, hval, hmiss]
    simp only [Option.getD_some, Option.getD_none, List.length_nil]
    exact (integer_encode_ne (by omega) (by omega)).symm
  | setnx =>
    obtain ⟨val, hval, -, -, hmiss⟩ := hone hob
    rw [answer, answer, hval, hmiss]
    exact integer_encode_ne (by decide) (by decide)
  | append =>
    obtain ⟨val, hval, hpos, hle, hmiss⟩ := hone hob
    rw [answer, answer, answerAppend, answerAppend, hval, hmiss]
    simp only
    split
    · exact (error_encode_ne_integer _ _).symm
    · exact (integer_encode_ne (by omega) (by omega)).symm
  | incr => exact hd.answerIncrby_stale (of_decide_eq_true hob) (by decide)
  | decr => exact hd.answerIncrby_stale (of_decide_eq_true hob) (by decide)
  | incrby =>
    simp only [Bool.and_eq_true, decide_eq_true_eq] at hob
    obtain ⟨delta, hdelta⟩ := Option.isSome_iff_exists.mp hob.2
    rw [answer, answer, hdelta]
    exact hd.answerIncrby_stale hob.1 (parseInt64_bounds hdelta)
  | decrby =>
    simp only [Bool.and_eq_true, decide_eq_true_eq] at hob
    obtain ⟨delta, hdelta⟩ := Option.isSome_iff_exists.mp hob.2
    rw [answer, answer, hdelta]
    refine hd.answerIncrby_stale hob.1 ?_
    rw [Int.natAbs_neg]
    exact parseInt64_bounds hdelta
  | dbsize =>
    have hne : stale ≠ [] := by simpa using hob
    obtain ⟨hlt, hle⟩ := hd.count hne
    exact (integer_encode_ne (by omega) (by omega)).symm
  | «exists» =>
    have hlt := countP_lt hd.mem_of_clean (hd.exists_stale hob)
    have hle : (req.keys.countP fun key => key ∈ ht.toMap) ≤ req.keys.length :=
      List.countP_le_length
    rw [answer, answer, countKeys_eq hd.inv, countKeys_eq hd.inv']
    exact (integer_encode_ne (by omega) (by omega)).symm
  | del =>
    obtain ⟨-, hle, hlt⟩ := refDel_mono hd.mem_of_clean req.keys
    have hless := hlt (hd.exists_stale hob)
    rw [answer, answer, (delKeys_eq hd.inv _ _).1, (delKeys_eq hd.inv' _ _).1]
    exact (integer_encode_ne (by omega) (by omega)).symm

/-- **A request that observes a stale key** gets no reply of the machine without
it. -/
theorem observed (hd : Differ stale ht ht') (hfits : ht.Fits) {c : Call}
    (hob : observes stale c.req = true) {r : Reply}
    (hr : (refStep ht'.toMap c.req.argv).2 r) : r.encode ≠ (replyTo ht c.req).2.encode := by
  obtain ⟨-, hclean⟩ := replyTo_refines hd.inv' (hd.fits hfits) c
  rw [refStep_dispatched] at hr hclean
  rw [replyTo_dispatched] at hclean ⊢
  have hkeys : c.req.keys.length ≤ 32 := by
    have hargc := c.argc_le
    rw [RESP_MAX_ARGC] at hargc
    rw [RespRequest.keys, List.length_map, List.length_range']
    omega
  cases hc : c.req.dispatched with
  | none =>
    rw [observes, hc] at hob
    cases hob
  | some cmd =>
    rw [hc] at hr hclean
    simp only at hr hclean ⊢
    by_cases hcmd : cmd = .keys
    · obtain rfl := hcmd
      rw [observes, hc] at hob
      have hpattern : c.req.argv.getD 1 [] = c.req.arg 1 := argv_getD (dispatched_needs hc)
      obtain ⟨items, rfl, hnodup, hmem⟩ := hr
      rw [hpattern] at hmem
      obtain ⟨hlt, hle⟩ := hd.length_matchingKeys hnodup hmem (by simpa using hob)
      exact (array_encode_ne hlt (by omega)).symm
    · have hexact : r = (answer ht' c.req cmd).2 := by
        obtain ⟨r₀, hr₀⟩ := refCommand_exact ht'.toMap c.req.argv hcmd
        rw [hr₀] at hr hclean
        exact hr.trans hclean.symm
      rw [hexact]
      exact hd.answer_encode_ne hc hcmd hkeys hob

end Differ

/-! ## Runs -/

/-- **A run from a store with stale keys** is served like one of the machine
without them exactly if it is blind, by induction on the requests. -/
theorem serves_iff_blind {stale : List Bytes} {s : Session} {ht' : Hashtable} (calls : List Call)
    (hd : Differ stale s.store ht') (hfits : s.store.Fits) (hroom : s.Room calls)
    (halloc : (s.run calls).heap.failed = false) :
    (∃ replies m', s.Serves calls replies ∧
        RefRun ht'.toMap (calls.map fun c => c.req.argv) replies m') ↔
      Blind stale (calls.map fun c => c.req) := by
  induction calls generalizing stale s ht' with
  | nil => exact ⟨fun _ => trivial, fun _ => ⟨[], _, trivial, .done _⟩⟩
  | cons c calls ih =>
    obtain ⟨hroom, hrooms⟩ := hroom
    obtain ⟨hrc, hlive, hstore⟩ := Session.next_served hroom (Session.run_failed_mono calls halloc)
    obtain ⟨hmap, -⟩ := replyTo_refines hd.inv' (hd.fits hfits) c
    have hfits' : (s.next c).store.Fits := commandExecute_fits c.req c.out_inv hd.inv hfits
    have hnext : observes stale c.req = false →
        Differ (forget stale c.req) (s.next c).store (replyTo ht' c.req).1 := by
      intro hob
      rw [hstore]
      exact (hd.step hob).2
    rw [List.map_cons, List.map_cons, Blind]
    constructor
    · rintro ⟨replies, m', hserves, hrun⟩
      cases hrun with
      | @step _ _ _ _ r replies reply rest =>
        obtain ⟨-, hlive', hserves⟩ := hserves
        have hob : observes stale c.req = false := by
          refine Bool.eq_false_iff.mpr fun hob => hd.observed hfits hob reply ?_
          exact List.append_cancel_left (hlive'.symm.trans hlive)
        rw [← hmap] at rest
        exact ⟨hob, (ih (hnext hob) hfits' hrooms halloc).mp ⟨replies, m', hserves, rest⟩⟩
    · rintro ⟨hob, hblind⟩
      obtain ⟨replies, m', hserves, hrun⟩ := (ih (hnext hob) hfits' hrooms halloc).mpr hblind
      rw [hmap] at hrun
      exact ⟨_ :: replies, m', ⟨hrc, hlive, hserves⟩, .step (hd.replies hfits hob) hrun⟩

/-- The keys the smoke tests leave. -/
def leftoverKeys : List Bytes := [ascii "gs", ascii "sk"]

/-- The store at startup, next to the empty one. -/
theorem startup_differ {h : Heap} (halloc : (startup h).heap.failed = false) :
    Differ leftoverKeys (startup h).store htInit ∧ (startup h).store.Fits := by
  obtain ⟨hinv, hget⟩ := startup_store halloc
  refine ⟨⟨hinv, Hashtable.inv_init, Nat.le_refl 2, ?_, ?_, fun _ _ => rfl⟩, ?_⟩
  · intro key hkey
    simp only [leftoverKeys, List.mem_cons, List.not_mem_nil, or_false, not_or] at hkey
    rw [hget, leftover, if_neg hkey.1, if_neg hkey.2]
    rfl
  · intro key hkey
    simp only [leftoverKeys, List.mem_cons, List.not_mem_nil, or_false] at hkey
    rw [hget]
    rcases hkey with rfl | rfl
    · exact ⟨ascii "v2", by decide, by decide, by decide, by decide⟩
    · exact ⟨ascii "first", by decide, by decide, by decide, by decide⟩
  · intro key val hval
    rw [hget, leftover] at hval
    split at hval
    · obtain rfl := Option.some.inj hval
      decide
    · split at hval
      · obtain rfl := Option.some.inj hval
        decide
      · cases hval

/-- **Replies after startup.** Requests executed by the server once `main` has
entered the event loop, with room for the replies and no failed allocation: the
replies are those of the reference machine started from the empty map exactly if
no request observes `gs` or `sk` before the clients have set or flushed it. -/
theorem startup_replies_iff (h : Heap) (calls : List Call) (hroom : (startup h).Room calls)
    (halloc : ((startup h).run calls).heap.failed = false) :
    (∃ replies m', (startup h).Serves calls replies ∧
        RefRun ∅ (calls.map fun c => c.req.argv) replies m') ↔
      Blind leftoverKeys (calls.map fun c => c.req) := by
  obtain ⟨hd, hfits⟩ := startup_differ (Session.run_failed_mono calls halloc)
  rw [← Hashtable.toMap_init]
  exact serves_iff_blind calls hd hfits hroom halloc

/-- `SET k v` and `GET k` after startup: the replies are the reference machine's. -/
theorem startup_replies_iff_set_get :
    ∃ replies m', (startup Heap.ample).Serves [setCall, getCall] replies ∧
        RefRun ∅ ([setCall, getCall].map fun c => c.req.argv) replies m' :=
  (startup_replies_iff Heap.ample [setCall, getCall] ⟨by decide +kernel, by decide +kernel, trivial⟩
    (by decide +kernel)).mpr ⟨by decide, by decide, trivial⟩

/-- `DBSIZE` -/
def dbsizeCall : Call :=
  ⟨requestOf [ascii "DBSIZE"], bytebufInit, Bytebuf.inv_init, by decide, by decide, by decide⟩

/-- There is always room for the reply to `DBSIZE` in an empty buffer. -/
theorem dbsizeCall_room (s : Session) : s.Room [dbsizeCall] := by
  have hreply : replyTo s.store dbsizeCall.req = (s.store, .integer s.store.count) := rfl
  have hlen := length_intText_int64 s.store.count
  refine ⟨?_, trivial⟩
  rw [hreply]
  change 0 + (ascii ":" ++ intText (int64 s.store.count) ++ CRLF).length ≤ BYTEBUF_MAX
  have hmax : 23 ≤ BYTEBUF_MAX := by decide
  have hcolon : (ascii ":").length = 1 := rfl
  simp only [List.length_append, hcolon, List.length_cons, List.length_nil]
  omega

/-- The first `DBSIZE` of a client counts keys no client has made. -/
theorem dbsize_not_empty :
    (startup Heap.ample).Room [dbsizeCall] ∧
      ((startup Heap.ample).run [dbsizeCall]).heap.failed = false ∧
      ¬ ∃ replies m', (startup Heap.ample).Serves [dbsizeCall] replies ∧
        RefRun ∅ ([dbsizeCall].map fun c => c.req.argv) replies m' := by
  have hroom := dbsizeCall_room (startup Heap.ample)
  have halloc : ((startup Heap.ample).run [dbsizeCall]).heap.failed = false := by decide +kernel
  obtain ⟨hd, hfits⟩ := startup_differ (Session.run_failed_mono [dbsizeCall] halloc)
  refine ⟨hroom, halloc, fun h => ?_⟩
  rw [← Hashtable.toMap_init] at h
  obtain ⟨hob, -⟩ := (serves_iff_blind [dbsizeCall] hd hfits hroom halloc).mp h
  exact absurd hob (by decide)

end RedisInC
