import RedisInC.Command
import RedisInC.Wildcards

/-!
# The language of `glob_match`

How a pattern is read, as a grammar that does not mention the matcher, and that
the matcher decides what it denotes.

* `TokenText`, `PatternText` — the text of a token, and of a pattern.
* `Unterminated` — a pattern with a class that is never closed. Every pattern has
  a reading or is one of these (`patternText_or_unterminated`).
* `globRun` — the matcher once more, saying so if its rounds run out.
* `glob_match_decides` — it never does, and it accepts the language of the
  pattern.
-/

namespace RedisInC

open Wildcards

/-! ## Patterns -/

/-- The items of a class in writing; a backslash takes the byte behind it. -/
inductive ClassText : List UInt8 → Bytes → Prop
  /-- none -/
  | nil : ClassText [] []
  /-- a byte that is neither a closing bracket nor a backslash -/
  | plain {c : UInt8} {items : List UInt8} {text : Bytes} (close : c ≠ 93) (escape : c ≠ 92)
      (rest : ClassText items text) : ClassText (c :: items) (c :: text)
  /-- any byte, escaped -/
  | escaped {items : List UInt8} {text : Bytes} (c : UInt8) (rest : ClassText items text) :
      ClassText (c :: items) (92 :: c :: text)

/-- A class without its closing bracket: the pattern ends before one. -/
inductive OpenClass : Bytes → Prop
  /-- the pattern ends -/
  | nil : OpenClass []
  /-- it ends with a backslash -/
  | last : OpenClass [92]
  /-- a byte that is neither a closing bracket nor a backslash -/
  | plain {c : UInt8} {text : Bytes} (close : c ≠ 93) (escape : c ≠ 92) (rest : OpenClass text) :
      OpenClass (c :: text)
  /-- any byte, escaped -/
  | escaped {text : Bytes} (c : UInt8) (rest : OpenClass text) : OpenClass (92 :: c :: text)

/-- A class starts with a caret or an exclamation mark if it is negated. `body`
is what follows. -/
inductive ClassHead : Bool → Bytes → Bytes → Prop
  /-- a mark -/
  | negated {c : UInt8} (body : Bytes) (mark : c = 94 ∨ c = 33) : ClassHead true (c :: body) body
  /-- no mark -/
  | listed {body : Bytes} (caret : body.head? ≠ some 94) (bang : body.head? ≠ some 33) :
      ClassHead false body body

/-- A token in writing. -/
inductive TokenText : Token UInt8 → Bytes → Prop
  /-- `*` -/
  | star : TokenText .star [42]
  /-- `?` -/
  | any : TokenText .any [63]
  /-- a class, from its opening to its first closing bracket that is not escaped -/
  | oneOf {negated : Bool} {items : List UInt8} {text body : Bytes}
      (head : ClassHead negated text body) (body : ClassText items body) :
      TokenText (.oneOf negated items) (91 :: (text ++ [93]))
  /-- any byte, escaped -/
  | escaped (c : UInt8) : TokenText (.lit c) [92, c]
  /-- a byte that means itself -/
  | plain {c : UInt8} (star : c ≠ 42) (any : c ≠ 63) (class_ : c ≠ 91) (escape : c ≠ 92) :
      TokenText (.lit c) [c]

/-- A pattern in writing. A backslash that is its very last byte means itself. -/
inductive PatternText : List (Token UInt8) → Bytes → Prop
  /-- the empty pattern -/
  | nil : PatternText [] []
  /-- a lone backslash -/
  | last : PatternText [.lit 92] [92]
  /-- a token and a pattern -/
  | cons {t : Token UInt8} {text : Bytes} {ts : List (Token UInt8)} {pat : Bytes}
      (token : TokenText t text) (rest : PatternText ts pat) : PatternText (t :: ts) (text ++ pat)

/-- A pattern with a class that is never closed. -/
inductive Unterminated : Bytes → Prop
  /-- the class is open here -/
  | here {negated : Bool} {text body : Bytes} (head : ClassHead negated text body)
      (body : OpenClass body) : Unterminated (91 :: text)
  /-- it is open behind a token -/
  | behind {t : Token UInt8} {text pat : Bytes} (token : TokenText t text)
      (rest : Unterminated pat) : Unterminated (text ++ pat)

theorem TokenText.length_pos {t : Token UInt8} {text : Bytes} (h : TokenText t text) :
    0 < text.length := by
  cases h with
  | star => simp
  | any => simp
  | oneOf head body => simp
  | escaped c => simp
  | plain star any class_ escape => simp

/-- The empty pattern has no tokens. -/
theorem PatternText.eq_nil {ts : List (Token UInt8)} (h : PatternText ts []) : ts = [] := by
  generalize hpat : ([] : Bytes) = pat at h
  cases h with
  | nil => rfl
  | last => cases hpat
  | cons token rest =>
    have hpos := token.length_pos
    rw [(List.append_eq_nil_iff.mp hpat.symm).1] at hpos
    exact absurd hpos (Nat.lt_irrefl 0)

theorem Unterminated.ne_nil {pat : Bytes} (h : Unterminated pat) : pat ≠ [] := by
  cases h with
  | here head body => exact List.cons_ne_nil _ _
  | behind token rest =>
    have hpos := token.length_pos
    intro hnil
    rw [(List.append_eq_nil_iff.mp hnil).1] at hpos
    exact absurd hpos (Nat.lt_irrefl 0)

/-- Every token but the star starts with another byte. -/
theorem TokenText.dropWhile {t : Token UInt8} {text : Bytes} (h : TokenText t text)
    (pat : Bytes) :
    (t = .star ∧ text = [42]) ∨ (text ++ pat).dropWhile (· = 42) = text ++ pat := by
  cases h with
  | star => exact Or.inl ⟨rfl, rfl⟩
  | any => exact Or.inr rfl
  | oneOf head body => exact Or.inr rfl
  | escaped c => exact Or.inr rfl
  | plain star any class_ escape =>
    refine Or.inr ?_
    rw [List.singleton_append, List.dropWhile_cons, if_neg (by simpa using star)]

/-- Stars at the head of a pattern. -/
theorem PatternText.dropWhile {ts : List (Token UInt8)} {pat : Bytes} (h : PatternText ts pat) :
    ∃ k ts', ts = List.replicate k .star ++ ts' ∧ PatternText ts' (pat.dropWhile (· = 42)) := by
  induction h with
  | nil => exact ⟨0, [], rfl, .nil⟩
  | last => exact ⟨0, [.lit 92], rfl, .last⟩
  | @cons t text ts pat token rest ih =>
    rcases token.dropWhile pat with ⟨rfl, rfl⟩ | hsame
    · obtain ⟨k, ts', rfl, hrest⟩ := ih
      exact ⟨k + 1, ts', rfl, hrest⟩
    · rw [hsame]
      exact ⟨0, t :: ts, rfl, .cons token rest⟩

theorem Unterminated.dropWhile {pat : Bytes} (h : Unterminated pat) :
    Unterminated (pat.dropWhile (· = 42)) := by
  induction h with
  | here head body => exact .here head body
  | @behind t text pat token rest ih =>
    rcases token.dropWhile pat with ⟨rfl, rfl⟩ | hsame
    · exact ih
    · rw [hsame]
      exact .behind token rest

/-! ## Every pattern has a reading, or a class that is never closed -/

theorem classText_or_open (pat : Bytes) :
    (∃ items body rest, ClassText items body ∧ pat = body ++ 93 :: rest) ∨ OpenClass pat := by
  induction pat using List.twoStepInduction with
  | nil => exact Or.inr .nil
  | singleton c =>
    by_cases hclose : c = 93
    · exact Or.inl ⟨[], [], [], .nil, by rw [hclose]; rfl⟩
    · by_cases hescape : c = 92
      · exact Or.inr (by rw [hescape]; exact .last)
      · exact Or.inr (.plain hclose hescape .nil)
  | cons_cons c d pat ih₁ ih₂ =>
    by_cases hclose : c = 93
    · exact Or.inl ⟨[], [], d :: pat, .nil, by rw [hclose]; rfl⟩
    · by_cases hescape : c = 92
      · rw [hescape]
        rcases ih₁ with ⟨items, body, rest, hbody, rfl⟩ | hopen
        · exact Or.inl ⟨d :: items, 92 :: d :: body, rest, .escaped d hbody, rfl⟩
        · exact Or.inr (.escaped d hopen)
      · rcases ih₂ d with ⟨items, body, rest, hbody, hpat⟩ | hopen
        · exact Or.inl ⟨c :: items, c :: body, rest, .plain hclose hescape hbody, by rw [hpat]; rfl⟩
        · exact Or.inr (.plain hclose hescape hopen)

theorem exists_classHead (pat : Bytes) : ∃ negated body, ClassHead negated pat body := by
  by_cases hmark : pat.head? = some 94 ∨ pat.head? = some 33
  · cases pat with
    | nil => rcases hmark with h | h <;> cases h
    | cons c body =>
      simp only [List.head?_cons, Option.some.injEq] at hmark
      exact ⟨true, body, .negated body hmark⟩
  · rw [not_or] at hmark
    exact ⟨false, pat, .listed hmark.1 hmark.2⟩

/-- A mark stays a mark without what stands behind the class. -/
theorem ClassHead.take {negated : Bool} {text body rest : Bytes}
    (h : ClassHead negated text (body ++ 93 :: rest)) :
    ∃ text', text = text' ++ 93 :: rest ∧ ClassHead negated text' body := by
  cases h with
  | negated _ mark => exact ⟨_ :: body, rfl, .negated body mark⟩
  | listed caret bang =>
    refine ⟨body, rfl, ?_⟩
    cases body with
    | nil => exact .listed (by simp) (by simp)
    | cons c body => exact .listed caret bang

/-- A token in front of a pattern. -/
theorem TokenText.behind {t : Token UInt8} {text pat : Bytes} (token : TokenText t text)
    (h : (∃ ts, PatternText ts pat) ∨ Unterminated pat) :
    (∃ ts, PatternText ts (text ++ pat)) ∨ Unterminated (text ++ pat) := by
  rcases h with ⟨ts, hread⟩ | hopen
  · exact Or.inl ⟨t :: ts, .cons token hread⟩
  · exact Or.inr (.behind token hopen)

/-- **Every pattern has a reading**, or a class that is never closed. -/
theorem patternText_or_unterminated (pat : Bytes) :
    (∃ ts, PatternText ts pat) ∨ Unterminated pat := by
  induction hlen : pat.length using Nat.strongRecOn generalizing pat with
  | ind len ih =>
    cases pat with
    | nil => exact Or.inl ⟨[], .nil⟩
    | cons c pat =>
      rw [List.length_cons] at hlen
      by_cases hstar : c = 42
      · rw [hstar]
        exact TokenText.star.behind (ih pat.length (by omega) pat rfl)
      by_cases hany : c = 63
      · rw [hany]
        exact TokenText.any.behind (ih pat.length (by omega) pat rfl)
      by_cases hclass : c = 91
      · rw [hclass]
        obtain ⟨negated, body, head⟩ := exists_classHead pat
        rcases classText_or_open body with ⟨items, body, rest, hbody, rfl⟩ | hopen
        · obtain ⟨text, rfl, hhead⟩ := head.take
          rw [List.length_append, List.length_cons] at hlen
          have hrest := (TokenText.oneOf hhead hbody).behind (ih rest.length (by omega) rest rfl)
          rwa [List.cons_append, List.append_assoc] at hrest
        · exact Or.inr (.here head hopen)
      by_cases hescape : c = 92
      · rw [hescape]
        cases pat with
        | nil => exact Or.inl ⟨_, .last⟩
        | cons d pat =>
          rw [List.length_cons] at hlen
          exact (TokenText.escaped d).behind (ih pat.length (by omega) pat rfl)
      · exact (TokenText.plain hstar hany hclass hescape).behind (ih pat.length (by omega) pat rfl)

/-! ## The matcher on a class -/

theorem globClass_close (pat str : Bytes) (matched : Bool) :
    globClass (93 :: pat) str matched = some (matched, pat) := by
  cases pat with
  | nil => rfl
  | cons d pat => rw [globClass, if_pos rfl]

/-- A byte of a class that is neither its end nor a backslash. -/
theorem globClass_plain {c : UInt8} (hclose : c ≠ 93) (hescape : c ≠ 92) {pat : Bytes}
    (hpat : pat ≠ []) (str : Bytes) (matched : Bool) :
    globClass (c :: pat) str matched = globClass pat str (matched || str.head? == some c) := by
  cases pat with
  | nil => exact absurd rfl hpat
  | cons d pat => rw [globClass, if_neg hclose, if_neg hescape]

theorem globClass_escaped (c : UInt8) (pat str : Bytes) (matched : Bool) :
    globClass (92 :: c :: pat) str matched = globClass pat str (matched || str.head? == some c) :=
  rfl

theorem globClass_last {c : UInt8} (hclose : c ≠ 93) (str : Bytes) (matched : Bool) :
    globClass [c] str matched = none := by
  rw [globClass, if_neg hclose]

/-- **A closed class**: the scan ends behind it and has looked for the head of the
string among its items. -/
theorem ClassText.scan {items : List UInt8} {body : Bytes} (h : ClassText items body)
    (rest str : Bytes) (matched : Bool) : globClass (body ++ 93 :: rest) str matched =
      some (matched || items.any fun c => str.head? == some c, rest) := by
  induction h generalizing matched with
  | nil =>
    rw [List.nil_append, globClass_close, List.any_nil, Bool.or_false]
  | @plain c items text close escape _ ih =>
    rw [List.cons_append, globClass_plain close escape (by simp), ih, List.any_cons, Bool.or_assoc]
  | escaped c _ ih =>
    rw [List.cons_append, List.cons_append, globClass_escaped, ih, List.any_cons, Bool.or_assoc]

/-- An open class: the scan ends with the pattern. -/
theorem OpenClass.scan {pat : Bytes} (h : OpenClass pat) (str : Bytes) (matched : Bool) :
    globClass pat str matched = none := by
  induction h generalizing matched with
  | nil => rfl
  | last => rfl
  | @plain c text close escape _ ih =>
    cases text with
    | nil => exact globClass_last close str matched
    | cons d text => rw [globClass_plain close escape (by simp), ih]
  | escaped c _ ih => rw [globClass_escaped, ih]

/-- The scan takes bytes off the pattern. -/
theorem globClass_length {pat str rest : Bytes} {matched m : Bool}
    (h : globClass pat str matched = some (m, rest)) : rest.length < pat.length := by
  rcases classText_or_open pat with ⟨items, body, rest', hbody, rfl⟩ | hopen
  · rw [hbody.scan] at h
    obtain rfl : rest' = rest := congrArg Prod.snd (Option.some.inj h)
    rw [List.length_append, List.length_cons]
    omega
  · rw [hopen.scan] at h
    cases h

/-- What the code takes for the negation of a class. -/
def negates (pat : Bytes) : Bool := pat.head? == some 94 || pat.head? == some 33

/-- The mark is recognized and skipped. -/
theorem ClassHead.skip {negated : Bool} {text body : Bytes} (h : ClassHead negated text body)
    {rest : Bytes} (hrest : rest.head? ≠ some 94 ∧ rest.head? ≠ some 33) :
    negates (text ++ rest) = negated ∧
      (if negated then (text ++ rest).tail else text ++ rest) = body ++ rest := by
  cases h with
  | negated body mark =>
    rcases mark with rfl | rfl
    · exact ⟨rfl, rfl⟩
    · exact ⟨rfl, rfl⟩
  | listed caret bang =>
    refine ⟨?_, rfl⟩
    cases text with
    | nil => simp [negates, hrest.1, hrest.2]
    | cons c text => simpa [negates] using And.intro caret bang

/-! ## The matcher on a token -/

/-- A round on a star: stars in a row are skipped. -/
theorem globRounds_star (fuel : ℕ) (pat str : Bytes) :
    globRounds (fuel + 1) (42 :: pat) str =
      if (pat.dropWhile (· = 42)).length = 0 then true
      else str.tails.any fun s => globRounds fuel (pat.dropWhile (· = 42)) s := rfl

/-- A round on a class. -/
theorem globRounds_class (fuel : ℕ) (pat str : Bytes) :
    globRounds (fuel + 1) (91 :: pat) str =
      match globClass (if negates pat then pat.tail else pat) str false with
      | none => false
      | some (matched, pat') =>
        match str with
        | [] => false
        | _ :: str => if matched ≠ negates pat then globRounds fuel pat' str else false := rfl

/-- **A round on any other token** takes one byte off the string, if it is one the
token stands for. -/
theorem TokenText.round {t : Token UInt8} {text : Bytes} (token : TokenText t text)
    (ht : t ≠ .star) (fuel : ℕ) (pat : Bytes) :
    globRounds (fuel + 1) (text ++ pat) [] = false ∧
      ∀ a str, globRounds (fuel + 1) (text ++ pat) (a :: str) = true ↔
        [a] ∈ t.language ∧ globRounds fuel pat str = true := by
  cases token with
  | star => exact absurd rfl ht
  | any => exact ⟨rfl, fun a str => by simp [globRounds]⟩
  | @oneOf negated items text body head hbody =>
    obtain ⟨hneg, hskip⟩ := @ClassHead.skip _ _ _ head (93 :: pat) ⟨by simp, by simp⟩
    rw [List.cons_append, List.append_assoc, List.singleton_append]
    constructor
    · rw [globRounds_class, hneg, hskip, hbody.scan]
    · intro a str
      rw [globRounds_class, hneg, hskip, hbody.scan]
      have hitem : (items.any fun c => (a :: str).head? == some c) = decide (a ∈ items) := by
        rw [Bool.eq_iff_iff, List.any_eq_true, decide_eq_true_iff]
        constructor
        · rintro ⟨c, hmem, hc⟩
          simp only [List.head?_cons, beq_iff_eq, Option.some.injEq] at hc
          rwa [hc]
        · intro hmem
          exact ⟨a, hmem, by simp⟩
      simp only [hitem, Bool.false_or, Token.mem_oneOf]
      cases negated with
      | true => by_cases hmem : a ∈ items <;> simp [hmem]
      | false => by_cases hmem : a ∈ items <;> simp [hmem]
  | escaped c =>
    refine ⟨rfl, fun a str => ?_⟩
    change (if c = a then globRounds fuel pat str else false) = true ↔ _
    by_cases hc : c = a
    · simp [hc]
    · simp [hc, Ne.symm hc]
  | @plain c hstar hany hclass hescape =>
    have hlit : ¬ (c = 92 ∧ pat.length > 0) := fun h => hescape h.1
    rw [List.singleton_append]
    constructor
    · rw [globRounds, if_neg hstar, if_neg hany, if_neg hclass]
    · intro a str
      rw [globRounds, if_neg hstar, if_neg hany, if_neg hclass]
      simp only [if_neg hlit]
      by_cases hc : c = a
      · simp [hc]
      · simp [hc, Ne.symm hc]

/-! ## The matcher on a pattern -/

/-- **A pattern with a reading**, by induction on the rounds: each goes on with
the rest of the reading. -/
theorem globRounds_iff_mem {fuel : ℕ} {ts : List (Token UInt8)} {pat : Bytes} (str : Bytes)
    (hfuel : pat.length < fuel) (hread : PatternText ts pat) :
    globRounds fuel pat str = true ↔ str ∈ language ts := by
  induction fuel generalizing ts pat str with
  | zero => exact absurd hfuel (Nat.not_lt_zero _)
  | succ fuel ih =>
    cases hread with
    | nil => rw [globRounds, mem_nil, decide_eq_true_iff, List.length_eq_zero_iff]
    | last =>
      cases str with
      | nil => simp [globRounds, nil_notMem_letter (Token.letter_lit (92 : UInt8))]
      | cons a str =>
        -- the backslash means itself, and the pattern is over
        have hround : globRounds (fuel + 1) [92] (a :: str) = true ↔
            92 = a ∧ globRounds fuel [] str = true := by simp [globRounds]
        rw [hround, mem_letter (Token.letter_lit 92), Token.mem_lit, eq_comm,
          ih str (by simpa using hfuel) .nil]
    | @cons t text ts pat token rest =>
      have hpos := token.length_pos
      rw [List.length_append] at hfuel
      by_cases hstar : t = .star
      · obtain rfl := hstar
        cases token with
        | star =>
          obtain ⟨k, ts', rfl, hrest⟩ := rest.dropWhile
          have hlen := (List.dropWhile_suffix (fun c : UInt8 => decide (c = 42)) (l := pat)).length_le
          rw [List.singleton_append, globRounds_star, language_star_replicate]
          split
          · next hnil =>
            rw [List.length_eq_zero_iff.mp hnil] at hrest
            rw [hrest.eq_nil]
            exact ⟨fun _ => mem_last_star str, fun _ => rfl⟩
          · rw [List.any_eq_true, mem_star]
            have hsub : ∀ s, globRounds fuel (pat.dropWhile (· = 42)) s = true ↔ s ∈ language ts' :=
              fun s => ih s (by omega) hrest
            simp only [hsub]
      · obtain ⟨hnil, hcons⟩ := token.round hstar fuel pat
        have hletter := Token.letter_of_ne_star hstar
        cases str with
        | nil =>
          rw [hnil]
          exact ⟨fun h => (by cases h), fun h => absurd h (nil_notMem_letter hletter ts)⟩
        | cons a str => rw [hcons, mem_letter hletter, ih str (by omega) rest]

/-- **A pattern with a class that is never closed** matches nothing. -/
theorem globRounds_unterminated {fuel : ℕ} {pat : Bytes} (str : Bytes)
    (hfuel : pat.length < fuel) (hopen : Unterminated pat) : globRounds fuel pat str = false := by
  induction fuel generalizing pat str with
  | zero => rfl
  | succ fuel ih =>
    cases hopen with
    | here head body =>
      obtain ⟨hneg, hskip⟩ := @ClassHead.skip _ _ _ head [] ⟨by simp, by simp⟩
      rw [List.append_nil] at hneg hskip
      rw [globRounds_class, hneg, hskip, List.append_nil, body.scan]
    | @behind t text pat token rest =>
      have hpos := token.length_pos
      rw [List.length_append] at hfuel
      by_cases hstar : t = .star
      · obtain rfl := hstar
        cases token with
        | star =>
          have hlen := (List.dropWhile_suffix (fun c : UInt8 => decide (c = 42)) (l := pat)).length_le
          have hne := rest.dropWhile.ne_nil
          rw [List.singleton_append, globRounds_star,
            if_neg (fun hnil => hne (List.length_eq_zero_iff.mp hnil)), List.any_eq_false]
          intro s _
          rw [ih s (by omega) rest.dropWhile]
          decide
      · obtain ⟨hnil, hcons⟩ := token.round hstar fuel pat
        cases str with
        | nil => exact hnil
        | cons a str =>
          rw [Bool.eq_false_iff, ne_eq, hcons, ih str (by omega) rest]
          rintro ⟨-, htrue⟩
          cases htrue

/-! ## Termination -/

/-- `glob_match` once more: `none` if the rounds run out. -/
def globRun : ℕ → Bytes → Bytes → Option Bool
  | 0, _, _ => none
  | _ + 1, [], str => some (str.length = 0)
  | fuel + 1, pc :: pat, str =>
    if pc = 42 then
      let pat := pat.dropWhile (· = 42)
      if pat.length = 0 then some true else str.tails.anyM fun s => globRun fuel pat s
    else if pc = 63 then
      match str with
      | [] => some false
      | _ :: str => globRun fuel pat str
    else if pc = 91 then
      let negate := pat.head? == some 94 || pat.head? == some 33
      match globClass (if negate then pat.tail else pat) str false with
      | none => some false
      | some (matched, pat) =>
        match str with
        | [] => some false
        | _ :: str => if matched ≠ negate then globRun fuel pat str else some false
    else
      let escaped := pc = 92 ∧ pat.length > 0
      let lit := if escaped then pat.headD pc else pc
      let pat := if escaped then pat.tail else pat
      match str with
      | [] => some false
      | c :: str => if lit = c then globRun fuel pat str else some false

/-- **The rounds do not run out**: each takes a byte off the pattern. -/
theorem globRun_eq {fuel : ℕ} {pat : Bytes} (str : Bytes) (hfuel : pat.length < fuel) :
    globRun fuel pat str = some (globRounds fuel pat str) := by
  induction fuel generalizing pat str with
  | zero => exact absurd hfuel (Nat.not_lt_zero _)
  | succ fuel ih =>
    cases pat with
    | nil => rfl
    | cons pc pat =>
      rw [List.length_cons] at hfuel
      unfold globRun globRounds
      split
      · have hlen := (List.dropWhile_suffix (fun c : UInt8 => decide (c = 42)) (l := pat)).length_le
        have hsub : (fun s => globRun fuel (pat.dropWhile (· = 42)) s) =
            fun s => pure (globRounds fuel (pat.dropWhile (· = 42)) s) := by
          funext s
          exact ih s (by omega)
        simp only [hsub, List.anyM_pure]
        split
        · rfl
        · rfl
      · split
        · cases str with
          | nil => rfl
          | cons a str => exact ih str (by omega)
        · split
          · have hskip : (if negates pat then pat.tail else pat).length ≤ pat.length := by
              split
              · rw [List.length_tail]
                omega
              · exact Nat.le_refl _
            change (match globClass (if negates pat then pat.tail else pat) str false with
                | none => some false
                | some (matched, pat') => _) = some (match
                  globClass (if negates pat then pat.tail else pat) str false with
                | none => false
                | some (matched, pat') => _)
            cases hscan : globClass (if negates pat then pat.tail else pat) str false with
            | none => rfl
            | some r =>
              have hlen := globClass_length hscan
              cases str with
              | nil => rfl
              | cons a str =>
                simp only
                split
                · exact ih str (by omega)
                · rfl
          · have htail : pat.tail.length ≤ pat.length := by
              rw [List.length_tail]
              omega
            cases str with
            | nil => rfl
            | cons a str =>
              have hlit : ∀ {c : UInt8} {p : Bytes}, p.length ≤ pat.length →
                  (if c = a then globRun fuel p str else some false) =
                    some (if c = a then globRounds fuel p str else false) := by
                intro c p hp
                split
                · exact ih str (by omega)
                · rfl
              simp only
              -- with and without an escape
              split
              · exact hlit htail
              · exact hlit (Nat.le_refl _)

/-! ## The result -/

/-- More rounds than the pattern has bytes change nothing. -/
theorem globRounds_eq_globMatch {fuel : ℕ} {pat : Bytes} (str : Bytes)
    (hfuel : pat.length < fuel) : globRounds fuel pat str = globMatch pat str := by
  have hmatch : pat.length < pat.length + 1 := Nat.lt_succ_self _
  rw [globMatch]
  rcases patternText_or_unterminated pat with ⟨ts, hts⟩ | hopen
  · rw [Bool.eq_iff_iff, globRounds_iff_mem str hfuel hts, globRounds_iff_mem str hmatch hts]
  · rw [globRounds_unterminated str hfuel hopen, globRounds_unterminated str hmatch hopen]

/-- **`glob_match` decides the language of its pattern.** Its rounds do not run
out, however many more there are; it accepts exactly what the reading of the pattern
stands for; without a reading, that is with a class that is never closed, the
pattern matches nothing. -/
theorem glob_match_decides (pat str : Bytes) :
    (∀ fuel, pat.length < fuel → globRun fuel pat str = some (globMatch pat str)) ∧
      (∀ ts, PatternText ts pat → (globMatch pat str = true ↔ str ∈ language ts)) ∧
      (Unterminated pat → globMatch pat str = false) ∧
      (¬ Unterminated pat → ∃ ts, PatternText ts pat) := by
  refine ⟨fun fuel hfuel => ?_, fun ts hts => ?_, ?_, fun hclosed => ?_⟩
  · rw [globRun_eq str hfuel, globRounds_eq_globMatch str hfuel]
  · exact globRounds_iff_mem str (Nat.lt_succ_self _) hts
  · exact globRounds_unterminated str (Nat.lt_succ_self _)
  · exact (patternText_or_unterminated pat).resolve_right hclosed

end RedisInC
