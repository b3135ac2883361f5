import RedisInC.Session

/-!
# The counter commands as integer addition

Between two commands a counter is a decimal text. Whether a run of `INCR`,
`DECR`, `INCRBY` and `DECRBY` on one key adds up therefore depends on which of
the texts the commands write are read again.

* `parseInt64_intText` — `parse_int64` reads the text of a number exactly up to
  `COUNTER_MAX`, a little below `INT64_MAX`: its guard stops eight numbers early.
* `CounterLaw` — the law of a run: every command replies the running sum, and a
  `GET` after it returns its text.
* `counter_law_iff` — the law holds exactly when no operand and no running sum
  that a later command has to read is beyond `COUNTER_MAX`.
-/

namespace RedisInC

open DecimalText

/-- The largest number the guard of `parse_int64` lets through:
9223372036854775799. -/
def COUNTER_MAX : ℕ := 10 * DIGIT_GUARD + 9

/-- **Reading back** the text of a number. -/
theorem parseInt64_intText (z : ℤ) :
    parseInt64 (intText z) = if z.natAbs ≤ COUNTER_MAX then some z else none := by
  split
  · next hle => exact parseInt64_eq_some.mpr ⟨readInt_intText z, hle⟩
  · next hover =>
    cases hparse : parseInt64 (intText z) with
    | none => rfl
    | some w =>
      obtain ⟨hread, hle⟩ := parseInt64_eq_some.mp hparse
      rw [readInt_intText, Option.some.injEq] at hread
      exact absurd (hread ▸ hle) hover

/-! ## Commands and their requests -/

/-- One counter command. -/
inductive CounterCmd : Type
  | incr
  | decr
  | incrby (d : ℤ)
  | decrby (d : ℤ)

namespace CounterCmd

/-- What the command adds. -/
def delta : CounterCmd → ℤ
  | incr => 1
  | decr => -1
  | incrby d => d
  | decrby d => -d

/-- The number the command has to read from its request, if any. -/
def operand : CounterCmd → ℤ
  | incr => 0
  | decr => 0
  | incrby d => d
  | decrby d => d

/-- The entry of the dispatch table. -/
def entry : CounterCmd → CmdEntry
  | incr => ⟨ascii "INCR", 2, 2, .incr⟩
  | decr => ⟨ascii "DECR", 2, 2, .decr⟩
  | incrby _ => ⟨ascii "INCRBY", 3, 3, .incrby⟩
  | decrby _ => ⟨ascii "DECRBY", 3, 3, .decrby⟩

/-- The number of words of the request. -/
def argc : CounterCmd → ℕ
  | incr => 2
  | decr => 2
  | incrby _ => 3
  | decrby _ => 3

theorem entry_mem (op : CounterCmd) : op.entry ∈ commands := by
  cases op with
  | incr => simp [entry, commands]
  | decr => simp [entry, commands]
  | incrby d => simp [entry, commands]
  | decrby d => simp [entry, commands]

/-- A request for the command on a key: the name in any case, the key, and the
decimal text of the operand. -/
structure IsReq (op : CounterCmd) (key : Bytes) (req : RespRequest) : Prop where
  /-- the command name -/
  name : sliceEqCi (req.arg 0) op.entry.name = true
  /-- the number of words -/
  argc_eq : req.argc = op.argc
  /-- the key -/
  key_eq : req.arg 1 = key
  /-- the operand -/
  operand_eq : op.argc = 3 → req.arg 2 = intText op.operand

end CounterCmd

/-- The answer to a counter command. -/
theorem replyTo_counter {op : CounterCmd} {key : Bytes} {req : RespRequest}
    (hreq : op.IsReq key req) (ht : Hashtable) : replyTo ht req =
      if op.operand.natAbs ≤ COUNTER_MAX then answerIncrby ht key op.delta
      else (ht, notInteger) := by
  have hargc : req.argc ≠ 0 ∧ op.entry.badArity req.argc = false := by
    rw [hreq.argc_eq]
    cases op with
    | incr => exact ⟨by decide, by decide⟩
    | decr => exact ⟨by decide, by decide⟩
    | incrby d => exact ⟨by simp [CounterCmd.argc], rfl⟩
    | decrby d => exact ⟨by simp [CounterCmd.argc], rfl⟩
  rw [replyTo_eq_answer op.entry_mem hreq.name hargc.1 hargc.2]
  cases op with
  | incr => rw [CounterCmd.entry, answer, hreq.key_eq, if_pos (by decide)]; rfl
  | decr => rw [CounterCmd.entry, answer, hreq.key_eq, if_pos (by decide)]; rfl
  | incrby d =>
    have harg : req.arg 2 = intText d := hreq.operand_eq rfl
    rw [CounterCmd.entry, answer, hreq.key_eq, harg, parseInt64_intText]
    by_cases hd : d.natAbs ≤ COUNTER_MAX
    · rw [if_pos hd]
      exact (if_pos hd).symm
    · rw [if_neg hd]
      exact (if_neg hd).symm
  | decrby d =>
    have harg : req.arg 2 = intText d := hreq.operand_eq rfl
    rw [CounterCmd.entry, answer, hreq.key_eq, harg, parseInt64_intText]
    by_cases hd : d.natAbs ≤ COUNTER_MAX
    · rw [if_pos hd]
      exact (if_pos hd).symm
    · rw [if_neg hd]
      exact (if_neg hd).symm

/-! ## The law -/

/-- The store holds a counter: its decimal text, or nothing for zero. -/
def HoldsCounter (ht : Hashtable) (key : Bytes) (cur : ℤ) : Prop :=
  htGet ht key = some (intText cur) ∨ (htGet ht key = none ∧ cur = 0)

theorem HoldsCounter.value {ht : Hashtable} {key : Bytes} {cur : ℤ}
    (h : HoldsCounter ht key cur) :
    counterValue ht key = if cur.natAbs ≤ COUNTER_MAX then some cur else none := by
  rw [counterValue]
  rcases h with hget | ⟨hget, rfl⟩
  · rw [hget]
    exact parseInt64_intText cur
  · rw [hget]
    rfl

/-- A `GET` of the key with any buffer that has room for the reply returns the
text, as long as no allocation fails. -/
def GetReturns (ht : Hashtable) (key text : Bytes) : Prop :=
  ∀ (c : Call) (h : Heap), sliceEqCi (c.req.arg 0) (ascii "GET") = true → c.req.argc = 2 →
    c.req.arg 1 = key → c.out.live.length + (Reply.bulk text).encode.length ≤ BYTEBUF_MAX →
    (Session.exec ⟨ht, h⟩ c).2.heap.failed = false →
      (Session.exec ⟨ht, h⟩ c).1 = 0 ∧
        (Session.exec ⟨ht, h⟩ c).2.out.live = c.out.live ++ (Reply.bulk text).encode

/-- **The law of a run** that has added up to `cur` so far: every command
succeeds with the running sum, and a `GET` after it returns its text. -/
def CounterLaw (key : Bytes) : Session → ℤ → List (CounterCmd × Call) → Prop
  | _, _, [] => True
  | s, cur, (op, c) :: cmds =>
    (s.exec c).1 = 0 ∧
      (s.exec c).2.out.live = c.out.live ++ (Reply.integer (cur + op.delta)).encode ∧
      GetReturns (s.next c).store key (intText (cur + op.delta)) ∧
      CounterLaw key (s.next c) (cur + op.delta) cmds

/-- All running sums lie in the symmetric 64-bit range. -/
def SumsInRange : ℤ → List CounterCmd → Prop
  | _, [] => True
  | cur, op :: ops =>
    -INT64_MAX ≤ cur + op.delta ∧ cur + op.delta ≤ INT64_MAX ∧ SumsInRange (cur + op.delta) ops

/-- No operand, and no sum a command has to read, is beyond `COUNTER_MAX`. -/
def WithinGuard : ℤ → List CounterCmd → Prop
  | _, [] => True
  | cur, op :: ops =>
    op.operand.natAbs ≤ COUNTER_MAX ∧ cur.natAbs ≤ COUNTER_MAX ∧ WithinGuard (cur + op.delta) ops

theorem getReturns_of_get {ht : Hashtable} {key text : Bytes} (hget : htGet ht key = some text) :
    GetReturns ht key text := by
  intro c h hname hargc hkey hroom halloc
  rw [← hkey] at hget
  have hreply : replyTo ht c.req = (ht, .bulk text) := replyTo_get hname hargc hget
  have hroom' : c.out.live.length + (replyTo ht c.req).2.encode.length ≤ BYTEBUF_MAX := by
    rw [hreply]
    exact hroom
  obtain ⟨hrc, hlive, -⟩ := @Session.next_served ⟨ht, h⟩ c hroom' halloc
  rw [hreply] at hlive
  exact ⟨hrc, hlive⟩

/-- One command, as far as its operand and the current value are readable. -/
theorem counter_step {op : CounterCmd} {key : Bytes} {req : RespRequest} {ht : Hashtable} {cur : ℤ}
    (hreq : op.IsReq key req) (hholds : HoldsCounter ht key cur)
    (hlow : -INT64_MAX ≤ cur + op.delta) (hhigh : cur + op.delta ≤ INT64_MAX) :
    replyTo ht req =
      if op.operand.natAbs ≤ COUNTER_MAX ∧ cur.natAbs ≤ COUNTER_MAX then
        (ht.put key (intText (cur + op.delta)), .integer (cur + op.delta))
      else (ht, notInteger) := by
  have hrange : INT64_MIN ≤ cur + op.delta ∧ cur + op.delta ≤ INT64_MAX := by
    refine ⟨?_, hhigh⟩
    simp only [INT64_MIN, INT64_MAX] at hlow ⊢
    omega
  rw [replyTo_counter hreq, answerIncrby, hholds.value]
  by_cases hoperand : op.operand.natAbs ≤ COUNTER_MAX
  · rw [if_pos hoperand]
    by_cases hcur : cur.natAbs ≤ COUNTER_MAX
    · rw [if_pos hcur, if_pos ⟨hoperand, hcur⟩]
      simp only [if_pos hrange]
    · rw [if_neg hcur, if_neg fun h => hcur h.2]
  · rw [if_neg hoperand, if_neg fun h => hoperand h.1]

/-- **A run from any value of the counter**, by induction on the commands: a
command that gets through leaves the new sum as the text to read next. -/
theorem counterLaw_iff_withinGuard {key : Bytes} (cmds : List (CounterCmd × Call)) {s : Session}
    {cur : ℤ} (hi : s.store.Inv) (hholds : HoldsCounter s.store key cur)
    (hreq : ∀ p ∈ cmds, p.1.IsReq key p.2.req) (hsums : SumsInRange cur (cmds.map Prod.fst))
    (hroom : s.Room (cmds.map Prod.snd))
    (halloc : (s.run (cmds.map Prod.snd)).heap.failed = false) :
    CounterLaw key s cur cmds ↔ WithinGuard cur (cmds.map Prod.fst) := by
  induction cmds generalizing s cur with
  | nil => exact Iff.rfl
  | cons p cmds ih =>
    obtain ⟨op, c⟩ := p
    obtain ⟨hlow, hhigh, hsums⟩ := hsums
    obtain ⟨hroom, hrooms⟩ := hroom
    obtain ⟨hop, hops⟩ := List.forall_mem_cons.mp hreq
    obtain ⟨hrc, hlive, hstore⟩ :=
      Session.next_served hroom (Session.run_failed_mono (cmds.map Prod.snd) halloc)
    have hstep := counter_step hop hholds hlow hhigh
    rw [List.map_cons, CounterLaw, WithinGuard]
    by_cases hguard : op.operand.natAbs ≤ COUNTER_MAX ∧ cur.natAbs ≤ COUNTER_MAX
    · -- the command succeeds, and the rest of the run starts from the new sum
      rw [if_pos hguard] at hstep
      rw [hstep] at hlive hstore
      have hget : htGet (s.next c).store key = some (intText (cur + op.delta)) := by
        rw [hstore, hi.htGet_put, if_pos rfl]
      have hinv : (s.next c).store.Inv := by
        rw [hstore]
        exact (hi.put _ _).1
      rw [← ih hinv (Or.inl hget) hops hsums hrooms halloc]
      exact ⟨fun hlaw => ⟨hguard.1, hguard.2, hlaw.2.2.2⟩,
        fun hwithin => ⟨hrc, hlive, getReturns_of_get hget, hwithin.2.2⟩⟩
    · -- the command fails with an error, which is not the reply the law asks for
      rw [if_neg hguard] at hstep
      rw [hstep] at hlive
      refine ⟨fun hlaw => ?_, fun hwithin => absurd ⟨hwithin.1, hwithin.2.1⟩ hguard⟩
      have hbytes := List.append_cancel_left (hlaw.2.1.symm.trans hlive)
      cases (List.cons.inj hbytes).1

/-- **When counters add up.** A run of counter commands on one key of a store,
with sums in the symmetric 64-bit range, room for the replies and no failed
allocation, obeys the law exactly if every operand, and every sum that is read
again, is at most `COUNTER_MAX` in absolute value. -/
theorem counter_law_iff (ht : Hashtable) (hi : ht.Inv) (key : Bytes) (hmiss : htGet ht key = none)
    (h : Heap) (cmds : List (CounterCmd × Call)) (hreq : ∀ p ∈ cmds, p.1.IsReq key p.2.req)
    (hsums : SumsInRange 0 (cmds.map Prod.fst))
    (hroom : Session.Room ⟨ht, h⟩ (cmds.map Prod.snd))
    (halloc : (Session.run ⟨ht, h⟩ (cmds.map Prod.snd)).heap.failed = false) :
    CounterLaw key ⟨ht, h⟩ 0 cmds ↔ WithinGuard 0 (cmds.map Prod.fst) :=
  counterLaw_iff_withinGuard cmds hi (Or.inr ⟨hmiss, rfl⟩) hreq hsums hroom halloc

/-- `INCR k` into an empty buffer. -/
def incrCall : Call :=
  ⟨requestOf [ascii "INCR", ascii "k"], bytebufInit, Bytebuf.inv_init, by decide, by decide,
    by decide⟩

/-- `DECRBY k 3` into an empty buffer. -/
def decrbyCall : Call :=
  ⟨requestOf [ascii "DECRBY", ascii "k", ascii "3"], bytebufInit, Bytebuf.inv_init, by decide,
    by decide, by decide⟩

/-- The second command reads the counter back, and the third one what that leaves. -/
theorem counter_law_iff_incr :
    CounterLaw (ascii "k") ⟨htInit, Heap.ample⟩ 0
      [(.incr, incrCall), (.decrby 3, decrbyCall), (.incr, incrCall)] :=
  (counter_law_iff htInit Hashtable.inv_init (ascii "k") rfl Heap.ample
    [(.incr, incrCall), (.decrby 3, decrbyCall), (.incr, incrCall)]
    (by
      intro p hp
      simp only [List.mem_cons, List.not_mem_nil, or_false] at hp
      rcases hp with rfl | rfl | rfl
      · exact ⟨by decide, by decide, by decide, fun h => absurd h (by decide)⟩
      · exact ⟨by decide, by decide, by decide, fun _ => by decide⟩
      · exact ⟨by decide, by decide, by decide, fun h => absurd h (by decide)⟩)
    ⟨by decide, by decide, by decide, by decide, by decide, by decide, trivial⟩
    ⟨by decide, by decide, by decide, trivial⟩ (by decide)).mpr
    ⟨by decide, by decide, by decide, by decide, by decide, by decide, trivial⟩

/-- `INCRBY k 9223372036854775807` into an empty buffer. -/
def incrbyMaxCall : Call :=
  ⟨requestOf [ascii "INCRBY", ascii "k", ascii "9223372036854775807"], bytebufInit,
    Bytebuf.inv_init, by decide, by decide, by decide⟩

/-- **The guard stops too early.** One `INCRBY` of `INT64_MAX` on a missing key:
the sum is in range, and the command is refused. -/
theorem counter_law_fails :
    (CounterCmd.incrby INT64_MAX).IsReq (ascii "k") incrbyMaxCall.req ∧
    htGet htInit (ascii "k") = none ∧ SumsInRange 0 [.incrby INT64_MAX] ∧
    Session.Room ⟨htInit, Heap.ample⟩ [incrbyMaxCall] ∧
    (Session.run ⟨htInit, Heap.ample⟩ [incrbyMaxCall]).heap.failed = false ∧
    (Session.exec ⟨htInit, Heap.ample⟩ incrbyMaxCall).2.out.live =
      ascii "-ERR value is not an integer or out of range\r\n" ∧
    ¬ CounterLaw (ascii "k") ⟨htInit, Heap.ample⟩ 0 [(.incrby INT64_MAX, incrbyMaxCall)] := by
  refine ⟨⟨by decide, by decide, by decide, fun _ => by decide⟩, rfl,
    ⟨by decide, by decide, trivial⟩, ⟨by decide, trivial⟩, by decide, by decide, ?_⟩
  rintro ⟨-, hlive, -⟩
  exact absurd hlive (by decide)

end RedisInC
