import RedisInC.Checked
import RedisInC.Keyspace

/-!
# The arithmetic of the counters

The handlers of `INCR` and its kin work on signed integers, where an overflow is
undefined behaviour in C. They are stated here a second time, operation by
operation, over integers that notice an overflow.

* `checkedParseInt64` … `checkedDecrby` — the code with every signed operation
  checked; `none` where one of them would overflow.
* `CounterOp.checked_eq` — none ever does: the checked handlers are the handlers.
* `increment_exact` — what the handlers do, as integer addition.
-/

namespace RedisInC

open DecimalText Bytebuf Checked

/-- `int64_t` -/
def int64W : Width := ⟨INT64_MIN, INT64_MAX, by decide, by decide⟩

theorem fits_iff {z : ℤ} : int64W.Fits z ↔ INT64_MIN ≤ z ∧ z ≤ INT64_MAX := Iff.rfl

/-- What `parse_int64` accepts is far from the limits. -/
theorem fits_of_natAbs {z : ℤ} (hz : z.natAbs ≤ 10 * DIGIT_GUARD + 9) :
    int64W.Fits z ∧ int64W.Fits (-z) := by
  simp only [DIGIT_GUARD] at hz
  simp only [fits_iff, INT64_MIN, INT64_MAX]
  omega

/-! ## The code, checked -/

/-- The digit loop. -/
def checkedParseInt64Loop : Bytes → ℤ → Option (Option ℤ)
  | [], v => some (some v)
  | c :: cs, v =>
    if c < 48 ∨ c > 57 then some none
    else
      (int64W.sub INT64_MAX 9).bind fun room =>
        if v > room / 10 then some none
        else
          (int64W.mul v 10).bind fun shifted =>
            (int64W.sub c.toNat 48).bind fun digit =>
              (int64W.add shifted digit).bind fun v => checkedParseInt64Loop cs v

/-- `parse_int64`; the inner `none` is its `return -1`. -/
def checkedParseInt64 : Bytes → Option (Option ℤ)
  | [] => some none
  | c :: cs =>
    if c = 45 then
      if cs.length = 0 then some none
      else
        (checkedParseInt64Loop cs 0).bind fun parsed =>
          match parsed with
          | none => some none
          | some v => (int64W.neg v).map some
    else checkedParseInt64Loop (c :: cs) 0

/-- `incrby_op` -/
def checkedIncrbyOp (ctx : CommandCtx) (key : Bytes) (delta : ℤ) : Option (Int × CommandCtx) :=
  let cur? := match htGet ctx.store key with
    | some val => checkedParseInt64 val
    | none => some (some 0)
  cur?.bind fun parsed =>
    match parsed with
    | none => some (ctx.replyError (ascii "ERR value is not an integer or out of range"))
    | some cur =>
      (int64W.sumOverflows cur delta).bind fun overflows =>
        if overflows then
          some (ctx.replyError (ascii "ERR increment or decrement would overflow"))
        else
          (int64W.add cur delta).map fun next =>
            let n := (intText next).length
            let fmt := snprintf 24 (intText next)
            if n ≥ 24 then ctx.replyError (ascii "ERR internal format error")
            else
              let r := ctx.htSet key (fmt.take n)
              if r.1 ≠ 0 then r.2.replyError (ascii "ERR out of memory") else r.2.replyInteger next

def checkedIncr (ctx : CommandCtx) (req : RespRequest) : Option (Int × CommandCtx) :=
  checkedIncrbyOp ctx (req.arg 1) 1

def checkedDecr (ctx : CommandCtx) (req : RespRequest) : Option (Int × CommandCtx) :=
  checkedIncrbyOp ctx (req.arg 1) (-1)

def checkedIncrby (ctx : CommandCtx) (req : RespRequest) : Option (Int × CommandCtx) :=
  (checkedParseInt64 (req.arg 2)).bind fun parsed =>
    match parsed with
    | none => some (ctx.replyError (ascii "ERR value is not an integer or out of range"))
    | some delta => checkedIncrbyOp ctx (req.arg 1) delta

def checkedDecrby (ctx : CommandCtx) (req : RespRequest) : Option (Int × CommandCtx) :=
  (checkedParseInt64 (req.arg 2)).bind fun parsed =>
    match parsed with
    | none => some (ctx.replyError (ascii "ERR value is not an integer or out of range"))
    | some delta =>
      if delta = INT64_MIN then
        some (ctx.replyError (ascii "ERR increment or decrement would overflow"))
      else (int64W.neg delta).bind fun delta => checkedIncrbyOp ctx (req.arg 1) delta

/-! ## Nothing overflows -/

/-- **The digit loop**, from any value that is not negative: the guard is checked
before every digit, so the next value fits. -/
theorem checkedParseInt64Loop_eq (cs : Bytes) (v : ℕ) :
    checkedParseInt64Loop cs v = some (parseInt64Loop cs v) := by
  have hroom : int64W.sub INT64_MAX 9 = some (INT64_MAX - 9) := by decide
  induction cs generalizing v with
  | nil => rfl
  | cons c cs ih =>
    rw [checkedParseInt64Loop, parseInt64Loop]
    by_cases hc : IsDigit c
    · have hrange : ¬ (c < 48 ∨ c > 57) := mt not_isDigit_iff.mpr (not_not_intro hc)
      rw [if_neg hrange, if_neg hrange, hroom, Option.bind_some]
      by_cases hguard : (v : ℤ) > (INT64_MAX - 9) / 10
      · rw [if_pos hguard, if_pos hguard]
      · have hlow := UInt8.le_iff_toNat_le.mp hc.1
        have hhigh := UInt8.le_iff_toNat_le.mp hc.2
        simp only [UInt8.reduceToNat] at hlow hhigh
        have hdigit : int64W.sub c.toNat 48 = some ((c.toNat : ℤ) - 48) := by
          apply Width.checked_of_fits
          rw [fits_iff, INT64_MIN, INT64_MAX]
          omega
        obtain ⟨hmul, hadd⟩ := Width.mul_ten_add_fits (w := int64W) (d := (c.toNat : ℤ) - 48)
          (Int.natCast_nonneg v) (not_lt.mp hguard) (by omega) (by omega)
        rw [if_neg hguard, if_neg hguard, hmul, Option.bind_some, hdigit, Option.bind_some, hadd,
          Option.bind_some, cast_digit hc, ih]
    · have hrange := not_isDigit_iff.mp hc
      rw [if_pos hrange, if_pos hrange]

/-- **`parse_int64`** negates only what the loop accepts. -/
theorem checkedParseInt64_eq (s : Bytes) : checkedParseInt64 s = some (parseInt64 s) := by
  cases s with
  | nil => rfl
  | cons c cs =>
    have hloop : ∀ ds : Bytes, checkedParseInt64Loop ds 0 = some (parseInt64Loop ds 0) :=
      fun ds => checkedParseInt64Loop_eq ds 0
    rw [checkedParseInt64]
    by_cases hminus : c = 45
    · subst hminus
      rw [if_pos rfl]
      by_cases hlen : cs.length = 0
      · rw [if_pos hlen, parseInt64, if_pos rfl, if_pos hlen]
      · have hparse : parseInt64 (45 :: cs) = (parseInt64Loop cs 0).map fun v => -v := by
          rw [parseInt64, if_pos rfl, if_neg hlen]
        rw [if_neg hlen, hloop, Option.bind_some, hparse]
        cases hv : parseInt64Loop cs 0 with
        | none => rfl
        | some v =>
          rw [hv] at hparse
          have hneg := (fits_of_natAbs (parseInt64_bounds hparse)).1
          simp only [Width.neg_of_fits hneg, Option.map_some]
    · rw [if_neg hminus, parseInt64, if_neg hminus, hloop]

/-- **The counter core**: the test before the addition is exact. -/
theorem checkedIncrbyOp_eq (ctx : CommandCtx) (key : Bytes) {delta : ℤ}
    (hdelta : int64W.Fits delta) :
    checkedIncrbyOp ctx key delta = some (incrbyOp ctx key delta) := by
  have hread : (match htGet ctx.store key with
      | some val => checkedParseInt64 val
      | none => some (some 0)) = some (counterValue ctx.store key) := by
    rw [counterValue]
    cases htGet ctx.store key with
    | none => rfl
    | some val => exact checkedParseInt64_eq val
  simp only [checkedIncrbyOp, hread, Option.bind_some]
  change _ = some (match counterValue ctx.store key with
    | none => _
    | some cur => _)
  cases hcur : counterValue ctx.store key with
  | none => rfl
  | some cur =>
    have hfits := (fits_of_natAbs (counterValue_bounds hcur)).1
    have htest := overflow_test_iff hcur delta
    simp only [Width.sumOverflows_eq hfits hdelta, Option.bind_some, decide_eq_true_eq]
    by_cases hsum : int64W.Fits (cur + delta)
    · rw [if_neg (not_not_intro hsum), if_neg (mt htest.mp (not_not_intro hsum)),
        Width.add_of_fits hsum, Option.map_some]
    · rw [if_pos hsum, if_pos (htest.mpr hsum)]

/-- The four commands. -/
inductive CounterOp : Type
  | incr
  | decr
  | incrby
  | decrby

namespace CounterOp

/-- The handler in the table. -/
def handler : CounterOp → Cmd
  | incr => .incr
  | decr => .decr
  | incrby => .incrby
  | decrby => .decrby

/-- The handler with its arithmetic checked. -/
def checked : CounterOp → CommandCtx → RespRequest → Option (Int × CommandCtx)
  | incr => checkedIncr
  | decr => checkedDecr
  | incrby => checkedIncrby
  | decrby => checkedDecrby

/-- The delta handed on to `incrby_op`, if the command gets that far. -/
def handed (req : RespRequest) : CounterOp → Option ℤ
  | incr => some 1
  | decr => some (-1)
  | incrby => parseInt64 (req.arg 2)
  | decrby => (parseInt64 (req.arg 2)).map fun delta => -delta

/-- **No signed operation overflows.** -/
theorem checked_eq (op : CounterOp) (ctx : CommandCtx) (req : RespRequest) :
    op.checked ctx req = some (op.handler.run ctx req) := by
  cases op with
  | incr => exact checkedIncrbyOp_eq ctx (req.arg 1) ⟨by decide, by decide⟩
  | decr => exact checkedIncrbyOp_eq ctx (req.arg 1) ⟨by decide, by decide⟩
  | incrby =>
    change checkedIncrby ctx req = some (cmdIncrby ctx req)
    rw [checkedIncrby, cmdIncrby, checkedParseInt64_eq, Option.bind_some]
    cases hparse : parseInt64 (req.arg 2) with
    | none => rfl
    | some delta =>
      exact checkedIncrbyOp_eq ctx (req.arg 1) (fits_of_natAbs (parseInt64_bounds hparse)).1
  | decrby =>
    change checkedDecrby ctx req = some (cmdDecrby ctx req)
    rw [checkedDecrby, cmdDecrby, checkedParseInt64_eq, Option.bind_some]
    cases hparse : parseInt64 (req.arg 2) with
    | none => rfl
    | some delta =>
      have hneg := (fits_of_natAbs (parseInt64_bounds hparse)).2
      simp only
      by_cases hmin : delta = INT64_MIN
      · rw [if_pos hmin, if_pos hmin]
      · rw [if_neg hmin, if_neg hmin, Width.neg_of_fits hneg, Option.bind_some]
        exact checkedIncrbyOp_eq ctx (req.arg 1) hneg

/-- A command that gets as far as the core gives the core's answer. -/
theorem answer_handler {op : CounterOp} {req : RespRequest} {d : ℤ} (hd : op.handed req = some d)
    (ht : Hashtable) : answer ht req op.handler = answerIncrby ht (req.arg 1) d := by
  cases op with
  | incr =>
    cases hd
    rfl
  | decr =>
    cases hd
    rfl
  | incrby =>
    have hparse : parseInt64 (req.arg 2) = some d := hd
    rw [handler, answer, hparse]
  | decrby =>
    obtain ⟨delta, hparse, rfl⟩ := Option.map_eq_some_iff.mp hd
    rw [handler, answer, hparse]

end CounterOp

/-! ## Addition -/

/-- What a counter command owes, with the current value `x` and the delta `d`. -/
structure CounterStep (ctx : CommandCtx) (key : Bytes) (x d : ℤ) (r : Int × CommandCtx) :
    Prop where
  /-- in range, the text of the sum fits the buffer it is formatted in -/
  fits : INT64_MIN ≤ x + d → x + d ≤ INT64_MAX → (intText (x + d)).length < 24
  /-- in range, the key then holds the text of the sum -/
  stored : INT64_MIN ≤ x + d → x + d ≤ INT64_MAX → r.2.heap.failed = false →
    htGet r.2.store key = some (intText (x + d))
  /-- in range, the sum is replied -/
  replied : INT64_MIN ≤ x + d → x + d ≤ INT64_MAX → Gives ctx (integerLine (x + d)) r
  /-- out of range, the store stays as it was -/
  kept : ¬ (INT64_MIN ≤ x + d ∧ x + d ≤ INT64_MAX) → r.2.store = ctx.store
  /-- out of range, the error is replied -/
  refused : ¬ (INT64_MIN ≤ x + d ∧ x + d ≤ INT64_MAX) →
    Gives ctx (ascii "-ERR increment or decrement would overflow\r\n") r

theorem counterStep_of_answered {ctx : CommandCtx} {req : RespRequest} {x d : ℤ}
    {r : Int × CommandCtx} (hi : ctx.store.Inv)
    (hx : counterValue ctx.store (req.arg 1) = some x)
    (ha : Answered ctx req (answerIncrby ctx.store (req.arg 1) d) r) :
    CounterStep ctx (req.arg 1) x d r := by
  by_cases hrange : INT64_MIN ≤ x + d ∧ x + d ≤ INT64_MAX
  · have hanswer : answerIncrby ctx.store (req.arg 1) d =
        (ctx.store.put (req.arg 1) (intText (x + d)), .integer (x + d)) := by
      rw [answerIncrby, hx]
      exact if_pos hrange
    have hlen := length_intText_le_twenty hrange
    rw [hanswer] at ha
    refine ⟨fun _ _ => by omega, fun _ _ hf => ?_, fun _ _ hroom hf => ?_,
      fun hout => absurd hrange hout, fun hout => absurd hrange hout⟩
    · rw [(ha.given hf).1, hi.htGet_put, if_pos rfl]
    · obtain ⟨-, h, houtcome⟩ := ha.given hf
      rw [← encode_integer hrange.1 hrange.2] at hroom ⊢
      exact gives_of_outcome houtcome hroom hf
  · have hanswer : answerIncrby ctx.store (req.arg 1) d = (ctx.store, wouldOverflow) := by
      rw [answerIncrby, hx]
      exact if_neg hrange
    rw [hanswer] at ha
    refine ⟨fun hlow hhigh => absurd ⟨hlow, hhigh⟩ hrange,
      fun hlow hhigh => absurd ⟨hlow, hhigh⟩ hrange,
      fun hlow hhigh => absurd ⟨hlow, hhigh⟩ hrange, fun _ => ?_, fun _ hroom hf => ?_⟩
    · exact ha.store_or.elim id id
    · obtain ⟨-, h, houtcome⟩ := ha.given hf
      exact gives_of_outcome houtcome hroom hf

/-- **Increments are exact and never overflow.** For every store, buffer,
allocator and request: no signed operation of the handler leaves `int64_t`; and
with the current value `x` of the key and the delta `d` the command hands on, the
handler does what integer addition says. -/
theorem increment_exact (op : CounterOp) (ctx : CommandCtx) (req : RespRequest)
    (hi : ctx.store.Inv) (hout : ctx.out.Inv) :
    op.checked ctx req = some (op.handler.run ctx req) ∧
      ∀ x d : ℤ, counterValue ctx.store (req.arg 1) = some x → op.handed req = some d →
        CounterStep ctx (req.arg 1) x d (op.handler.run ctx req) := by
  refine ⟨op.checked_eq ctx req, fun x d hx hd => ?_⟩
  have hanswered := @run_answered ctx req hout op.handler
  rw [CounterOp.answer_handler hd] at hanswered
  exact counterStep_of_answered hi hx hanswered

/-- `DECRBY k 5` on a missing key. -/
theorem increment_exact_decrby :
    htGet (cmdDecrby ⟨htInit, bytebufInit, Heap.ample⟩
        (requestOf [ascii "DECRBY", ascii "k", ascii "5"])).2.store (ascii "k") =
          some (ascii "-5") ∧
      (cmdDecrby ⟨htInit, bytebufInit, Heap.ample⟩
        (requestOf [ascii "DECRBY", ascii "k", ascii "5"])).2.out.live = ascii ":-5\r\n" := by
  have hstep : CounterStep ⟨htInit, bytebufInit, Heap.ample⟩ (ascii "k") 0 (-5)
      (cmdDecrby ⟨htInit, bytebufInit, Heap.ample⟩
        (requestOf [ascii "DECRBY", ascii "k", ascii "5"])) :=
    (increment_exact .decrby ⟨htInit, bytebufInit, Heap.ample⟩
      (requestOf [ascii "DECRBY", ascii "k", ascii "5"]) Hashtable.inv_init inv_init).2 0 (-5)
      (by decide) (by decide)
  exact ⟨hstep.stored (by decide) (by decide) (by decide),
    (hstep.replied (by decide) (by decide) (by decide) (by decide)).2⟩

end RedisInC
