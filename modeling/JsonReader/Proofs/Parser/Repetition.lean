import JsonReader.Proofs.Object.SinglePass

/-!
# Repetition

A parser that reads a token whenever it succeeds can be repeated until it fails. The number of
attempts that `Parser.many` allows itself is then no limit: the runs end by themselves, with a
failure, before it is reached. So repetition is the loop without a limit, which `Parser.Runs`
describes.

## Main definitions

* `Parser.Advances` holds of a parser that reads a token whenever it succeeds.
* `Parser.Runs` relates a cursor to the values of runs that begin there, one behind the other.

## Main statements

* `Runs.length_le`: there are no more runs than tokens.
* `Advances.exists_runs`: the runs come to a failure.
* `located_many_eq_ok_iff_runs`: repetition collects the values of the runs before the first
  failure.
-/

namespace JsonReader.Parser

variable {α β : Type} {p : Parser α} {s : Settings} {c d : Cursor} {as : List α}

/-- A run that succeeds moves the cursor on. A run that fails may leave it anywhere. -/
def Advances (p : Parser α) : Prop :=
  ∀ ⦃s c a⦄, (p.run s c).result = .ok a →
    c.LeadsTo (p.run s c).cursor ∧ c.position < (p.run s c).cursor.position

/-- Runs that succeed with these values, each from where the one before it ended. -/
inductive Runs (p : Parser α) (s : Settings) : Cursor → List α → Cursor → Prop
  | nil {c : Cursor} : Runs p s c [] c
  | cons {c d : Cursor} {a : α} {as : List α} (ha : (p.run s c).result = .ok a)
      (has : Runs p s (p.run s c).cursor as d) : Runs p s c (a :: as) d

/-! ## Parsers that advance -/

namespace Advances

theorem length_ahead_lt (hp : p.Advances) {a : α} (h : (p.run s c).result = .ok a) :
    (p.run s c).cursor.ahead.length < c.ahead.length := by
  obtain ⟨hleads, hlt⟩ := hp h
  have htokens := congrArg List.length hleads.tokens_eq
  rw [Cursor.length_tokens, Cursor.length_tokens] at htokens
  omega

/-- A token that is taken is read. -/
theorem token {x : TokenPattern} (hx : x.advance = true) : x.parser.Advances := by
  intro s c k h
  refine ⟨x.leadsTo_run s c, ?_⟩
  rw [TokenPattern.parser] at h ⊢
  simp only [hx, if_true] at h ⊢
  split at h
  · next d hd =>
    rw [TokenPattern.cursor_check, Cursor.position_of_advance? hd]
    omega
  · simp at h

/-- What goes on from a parser that advances need not advance itself. -/
theorem bind {next : α → Parser β} (hp : p.Advances) (hnext : ∀ a, (next a).Forward) :
    (p >>= next).Advances := by
  intro s c b h
  cases ha : (p.run s c).result with
  | error e =>
    rw [run_bind_of_error ha] at h
    simp at h
  | ok a =>
    obtain ⟨hleads, hlt⟩ := hp ha
    have hrest := hnext a s (p.run s c).cursor
    have hle := hrest.position_le
    rw [run_bind_of_ok ha, Outcome.cursor_after]
    exact ⟨hleads.trans hrest, by omega⟩

end Advances

/-! ## Runs in turn -/

/-- Every run takes a token of its own. -/
theorem Runs.length_le (hp : p.Advances) (h : Runs p s c as d) :
    d.tokens = c.tokens ∧ as.length + d.ahead.length ≤ c.ahead.length := by
  induction h with
  | nil => simp
  | @cons c d a as ha _ ih =>
    obtain ⟨htokens, hlength⟩ := ih
    have hlt := hp.length_ahead_lt ha
    refine ⟨htokens.trans (hp ha).1.tokens_eq, ?_⟩
    rw [List.length_cons]
    omega

/-- Since no run goes on without a token, one of them fails in the end. By induction on the tokens
ahead. -/
theorem Advances.exists_runs (hp : p.Advances) (s : Settings) (c : Cursor) :
    ∃ as d, Runs p s c as d ∧ ∃ e, (p.run s d).result = .error e := by
  induction hn : c.ahead.length using Nat.strongRecOn generalizing c with
  | ind n ih =>
    subst hn
    cases h : (p.run s c).result with
    | error e => exact ⟨[], c, .nil, e, h⟩
    | ok a =>
      obtain ⟨as, d, hruns, hend⟩ := ih _ (hp.length_ahead_lt h) (p.run s c).cursor rfl
      exact ⟨a :: as, d, .cons h hruns, hend⟩

/-! ## Repetition -/

/-- With one attempt to spare, repetition collects what the runs before a failure yield. -/
theorem Runs.located_manyAtMost (h : Runs p s c as d) {e : ParseError}
    (hend : (p.run s d).result = .error e) {count : Nat} (hcount : as.length < count) :
    (p.manyAtMost s count c).located = .ok (as, d) := by
  induction h generalizing count with
  | nil =>
    obtain ⟨count, rfl⟩ := Nat.exists_eq_succ_of_ne_zero (Nat.ne_of_gt hcount)
    exact Outcome.located_eq_ok_iff.mpr (manyAtMost_of_error hend count)
  | @cons c d a as ha _ ih =>
    obtain ⟨count, rfl⟩ := Nat.exists_eq_succ_of_ne_zero (Nat.ne_of_gt (Nat.zero_lt_of_lt hcount))
    rw [List.length_cons] at hcount
    obtain ⟨hresult, hcursor⟩ :=
      Outcome.located_eq_ok_iff.mp (ih hend (Nat.lt_of_succ_lt_succ hcount))
    rw [manyAtMost_of_ok ha]
    exact Outcome.located_eq_ok_iff.mpr ⟨by rw [hresult]; rfl, hcursor⟩

theorem Runs.located_many (hp : p.Advances) (h : Runs p s c as d) {e : ParseError}
    (hend : (p.run s d).result = .error e) : (p.many.run s c).located = .ok (as, d) := by
  have hlength := (h.length_le hp).2
  exact h.located_manyAtMost hend (by omega)

/-- What repetition yields does not depend on how many attempts are left over. -/
theorem Advances.manyAtMost_eq (hp : p.Advances) {count count' : Nat}
    (hcount : c.ahead.length < count) (hcount' : c.ahead.length < count') :
    p.manyAtMost s count c = p.manyAtMost s count' c := by
  induction count generalizing c count' with
  | zero => omega
  | succ count ih =>
    obtain ⟨count', rfl⟩ := Nat.exists_eq_succ_of_ne_zero (Nat.ne_of_gt (Nat.zero_lt_of_lt hcount'))
    cases h : (p.run s c).result with
    | error e => simp [manyAtMost, h]
    | ok a =>
      have hlt := hp.length_ahead_lt h
      have hrest : p.manyAtMost s count (p.run s c).cursor =
          p.manyAtMost s count' (p.run s c).cursor := ih (by omega) (by omega)
      rw [manyAtMost_of_ok h, manyAtMost_of_ok h, hrest]

theorem many1_of_error {e : ParseError} (h : (p.run s c).result = .error e) :
    p.many1.run s c = ⟨.error e, (p.run s c).cursor, (p.run s c).notes⟩ :=
  run_bind_of_error h

/-- Behind a first success, repetition that needs one is repetition. -/
theorem Advances.many1_of_ok (hp : p.Advances) {a : α} (h : (p.run s c).result = .ok a) :
    p.many1.run s c = p.many.run s c := by
  have hlt := hp.length_ahead_lt h
  have hmany : p.many.run s c = p.manyAtMost s (c.ahead.length + 1) c := rfl
  have hrest : p.manyAtMost s c.ahead.length (p.run s c).cursor =
      p.many.run s (p.run s c).cursor := hp.manyAtMost_eq hlt (Nat.lt_succ_self _)
  rw [hmany, manyAtMost_of_ok h, hrest, many1, run_bind_of_ok h, bind_pure_comp, run_map]
  rfl

theorem Advances.exists_many1_eq_ok (hp : p.Advances) {a : α} (h : (p.run s c).result = .ok a) :
    ∃ as, (p.many1.run s c).result = .ok as := by
  rw [hp.many1_of_ok h]
  exact exists_manyAtMost_eq_ok p s (c.ahead.length + 1) c

/-- The first run alone decides whether repetition that needs one fails. -/
theorem Advances.many1_eq_error_iff (hp : p.Advances) {e : ParseError} :
    (p.many1.run s c).result = .error e ↔ (p.run s c).result = .error e := by
  cases h : (p.run s c).result with
  | error e' => simp [many1_of_error h]
  | ok a =>
    obtain ⟨as, has⟩ := hp.exists_many1_eq_ok h
    simp [has]

/-- Repetition that may yield nothing is repetition. -/
theorem Advances.many_eq_or (hp : p.Advances) : p.many = p.many1.or (pure []) := by
  ext s c : 2
  cases h : (p.run s c).result with
  | error e => simp [many, manyAtMost, Parser.or, many1_of_error h, h, Outcome.after]
  | ok a =>
    obtain ⟨as, has⟩ := hp.exists_many1_eq_ok h
    simp only [Parser.or, has]
    exact (hp.many1_of_ok h).symm

/-- Repetition never fails. It yields the values of the runs that succeed in turn, and leaves the
cursor where the next run begins, which fails; there are no more values than tokens. It is
repetition with at least one run, or nothing; and that repetition fails only as the first run
does. -/
theorem located_many_eq_ok_iff_runs (hp : p.Advances) (s : Settings) (c : Cursor) :
    (∃ as d, (p.many.run s c).located = .ok (as, d)) ∧
      (∀ as d, (p.many.run s c).located = .ok (as, d) ↔
        Runs p s c as d ∧ ∃ e, (p.run s d).result = .error e) ∧
      (∀ as d, (p.many.run s c).located = .ok (as, d) →
        d.tokens = c.tokens ∧ as.length + d.ahead.length ≤ c.ahead.length) ∧
      p.many = p.many1.or (pure []) ∧
      ∀ e, (p.many1.run s c).result = .error e ↔ (p.run s c).result = .error e := by
  obtain ⟨as, d, hruns, e, hend⟩ := hp.exists_runs s c
  have hmany := hruns.located_many hp hend
  have hunique : ∀ as' d', (p.many.run s c).located = .ok (as', d') → as' = as ∧ d' = d := by
    intro as' d' h
    rw [hmany] at h
    cases h
    exact ⟨rfl, rfl⟩
  refine ⟨⟨as, d, hmany⟩, ?_, ?_, hp.many_eq_or, fun e => hp.many1_eq_error_iff⟩
  · intro as' d'
    constructor
    · intro h
      obtain ⟨rfl, rfl⟩ := hunique as' d' h
      exact ⟨hruns, e, hend⟩
    · rintro ⟨hruns', e', hend'⟩
      exact hruns'.located_many hp hend'
  · intro as' d' h
    obtain ⟨rfl, rfl⟩ := hunique as' d' h
    exact hruns.length_le hp

/-- A number and a null behind it. -/
def numberAndNull : Parser TokenKind := do
  let k ← TokenPattern.number.parser
  let _ ← TokenPattern.null.parser
  return k

/-- A number with a null and a number without one. -/
def brokenPairs : List LocatedToken :=
  [⟨.number "1", {}⟩, ⟨.null, {}⟩, ⟨.number "2", {}⟩, ⟨.bool true, {}⟩]

/-- The second number is read by the run that fails, and is ahead again behind repetition. -/
theorem located_many_numberAndNull :
    numberAndNull.Advances ∧
      (numberAndNull.many.run {} (Cursor.ofTokens brokenPairs)).located =
        .ok ([.number], ⟨(brokenPairs.take 2).reverse, brokenPairs.drop 2⟩) ∧
      Runs numberAndNull {} (Cursor.ofTokens brokenPairs) [.number]
        ⟨(brokenPairs.take 2).reverse, brokenPairs.drop 2⟩ ∧
      numberAndNull.many = numberAndNull.many1.or (pure []) := by
  have hadvances : numberAndNull.Advances :=
    .bind (.token rfl) fun _ => .bind (.token _) fun _ _ => .pure _
  obtain ⟨-, hiff, -, hor, -⟩ :=
    located_many_eq_ok_iff_runs hadvances {} (Cursor.ofTokens brokenPairs)
  have hmany : (numberAndNull.many.run {} (Cursor.ofTokens brokenPairs)).located =
      .ok ([.number], ⟨(brokenPairs.take 2).reverse, brokenPairs.drop 2⟩) := by
    rfl
  exact ⟨hadvances, hmany, ((hiff _ _).mp hmany).1, hor⟩

end JsonReader.Parser
