import JsonReader.Proofs.Parser.Forward

/-!
# The algebra of choice

Laws of choice and of going back, for all parsers and from every cursor. Each combinator keeps a
cursor of its own to go back to, and a failure may leave the cursor anywhere, so parsers are
compared by what they yield and by the cursor that they leave, on failure too.

Most laws make equal parsers. Where a common prefix is read once and not twice, the notes of its
second run are missing and all else is the same.

## Main definitions

* `Parser.SameRuns` compares two parsers by their results and the cursors that they leave.

## Main statements

* `or_assoc`, `throw_or`, `pure_or`, `optional_eq_or`: equal parsers.
* `sameRuns_or_bind`, `sameRuns_foldl_or_bind`: a common prefix of alternatives may be read once.
* `run_capture`: a captured result is that of an attempt, and the cursor too.
* `choice_laws`: all of them.
-/

namespace JsonReader.Parser

variable {α β : Type} {p p' q q' r : Parser α} {s : Settings} {c : Cursor} {a : α} {e : ParseError}

/-- From every cursor the two parsers yield the same result, a failure too, and leave the same
cursor. -/
def SameRuns (p q : Parser α) : Prop :=
  ∀ s c, (p.run s c).result = (q.run s c).result ∧ (p.run s c).cursor = (q.run s c).cursor

/-! ## Two alternatives -/

theorem run_or_of_ok (h : (p.run s c).result = .ok a) : (p.or q).run s c = p.run s c := by
  simp only [Parser.or, h]

/-- The second alternative begins where the first one began, wherever that was left. -/
theorem run_or_of_error (h : (p.run s c).result = .error e) :
    (p.or q).run s c = (q.run s c).after (p.run s c).notes := by
  simp only [Parser.or, h]

theorem or_assoc (p q r : Parser α) : (p.or q).or r = p.or (q.or r) := by
  ext s c : 2
  cases hp : (p.run s c).result with
  | ok a =>
    have hpq : ((p.or q).run s c).result = .ok a := by rw [run_or_of_ok hp, hp]
    rw [run_or_of_ok hpq, run_or_of_ok hp, run_or_of_ok hp]
  | error e =>
    have hpq := run_or_of_error (q := q) hp
    rw [run_or_of_error (q := q.or r) hp]
    cases hq : (q.run s c).result with
    | ok b =>
      have hright : ((p.or q).run s c).result = .ok b := by rw [hpq, Outcome.result_after, hq]
      rw [run_or_of_ok hright, hpq, run_or_of_ok hq]
    | error e' =>
      have hboth : ((p.or q).run s c).result = .error e' := by
        rw [hpq, Outcome.result_after, hq]
      rw [run_or_of_error hboth, hpq, run_or_of_error hq, Outcome.after_after,
        Outcome.notes_after]

theorem throw_or (e : ParseError) (p : Parser α) : (throw e).or p = p := by
  ext s c : 2
  exact run_or_of_error (congrArg Outcome.result (run_throw e s c))

theorem pure_or (a : α) (p : Parser α) : (pure a : Parser α).or p = pure a := by
  ext s c : 2
  exact run_or_of_ok (congrArg Outcome.result (run_pure a s c))

/-! ## Going on without a value -/

theorem optional_eq_or (p : Parser α) : p.optional = (some <$> p).or (pure none) := by
  ext s c : 2
  cases h : (p.run s c).result with
  | ok a => simp [optional, Parser.or, run_map, h, Except.map]
  | error e => simp [optional, Parser.or, run_map, h, Except.map, Outcome.after]

/-- Capturing a result is an attempt whose failure counts as a value. -/
theorem run_capture (p : Parser α) (s : Settings) (c : Cursor) :
    p.capture.run s c =
      ⟨.ok (p.attempt.run s c).result, (p.attempt.run s c).cursor, (p.attempt.run s c).notes⟩ := by
  cases h : (p.run s c).result with
  | ok a => simp [capture, attempt, h]
  | error e => simp [capture, attempt, h]

/-! ## Common prefixes -/

namespace SameRuns

theorem refl (p : Parser α) : p.SameRuns p := fun _ _ => ⟨rfl, rfl⟩

theorem trans (h : p.SameRuns q) (h' : q.SameRuns r) : p.SameRuns r :=
  fun s c => ⟨(h s c).1.trans (h' s c).1, (h s c).2.trans (h' s c).2⟩

/-- Alternatives may be replaced by parsers with the same runs. -/
theorem or (hp : p.SameRuns p') (hq : q.SameRuns q') : (p.or q).SameRuns (p'.or q') := by
  intro s c
  obtain ⟨hresult, hcursor⟩ := hp s c
  cases h : (p.run s c).result with
  | ok a =>
    rw [run_or_of_ok h, run_or_of_ok (hresult.symm.trans h)]
    exact ⟨hresult, hcursor⟩
  | error e =>
    rw [run_or_of_error h, run_or_of_error (hresult.symm.trans h)]
    exact hq s c

theorem foldl_or (hp : p.SameRuns p') (ps : List (Parser α)) :
    (ps.foldl Parser.or p).SameRuns (ps.foldl Parser.or p') := by
  induction ps generalizing p p' with
  | nil => exact hp
  | cons q ps ih => exact ih (hp.or (.refl q))

end SameRuns

/-- A prefix that two alternatives share may be read once. If it fails, it does so in both; if it
succeeds, the second alternative comes to the same value and the same cursor once more before it
goes on in its own way. -/
theorem sameRuns_or_bind (first : Parser β) (f g : β → Parser α) :
    ((first >>= f).or (first >>= g)).SameRuns (first >>= fun b => (f b).or (g b)) := by
  intro s c
  cases hfirst : (first.run s c).result with
  | error e =>
    have hrun : ∀ next : β → Parser α, (first >>= next).run s c =
        ⟨.error e, (first.run s c).cursor, (first.run s c).notes⟩ :=
      fun next => run_bind_of_error hfirst
    rw [run_or_of_error (congrArg Outcome.result (hrun f)), hrun g, hrun fun b => (f b).or (g b)]
    exact ⟨rfl, rfl⟩
  | ok b =>
    have hrun : ∀ next : β → Parser α, (first >>= next).run s c =
        ((next b).run s (first.run s c).cursor).after (first.run s c).notes :=
      fun next => run_bind_of_ok hfirst
    have hresult : ((first >>= f).run s c).result =
        ((f b).run s (first.run s c).cursor).result := by
      rw [hrun, Outcome.result_after]
    rw [hrun fun b => (f b).or (g b)]
    cases hf : ((f b).run s (first.run s c).cursor).result with
    | ok a =>
      rw [run_or_of_ok (hresult.trans hf), hrun, run_or_of_ok hf]
      exact ⟨rfl, rfl⟩
    | error e =>
      rw [run_or_of_error (hresult.trans hf), hrun g, run_or_of_error hf]
      exact ⟨rfl, rfl⟩

/-- Any number of alternatives with a common prefix, of which the first two share it first. -/
theorem sameRuns_foldl_or_bind (first : Parser β) (f : β → Parser α) (gs : List (β → Parser α)) :
    ((gs.map (first >>= ·)).foldl Parser.or (first >>= f)).SameRuns
      (first >>= fun b => (gs.map (· b)).foldl Parser.or (f b)) := by
  induction gs generalizing f with
  | nil => exact .refl _
  | cons g gs ih => exact ((sameRuns_or_bind first f g).foldl_or _).trans (ih _)

/-- Choice is associative; a failure is no alternative, and a value is the last one. A common prefix
may be read once. Doing without a value is choice, and a captured result is that of an attempt,
which leaves the same cursor. -/
theorem choice_laws (p q r : Parser α) (e : ParseError) (a : α) (first : Parser β)
    (f g : β → Parser α) :
    (p.or q).or r = p.or (q.or r) ∧
      (throw e).or p = p ∧
      (pure a : Parser α).or p = pure a ∧
      ((first >>= f).or (first >>= g)).SameRuns (first >>= fun b => (f b).or (g b)) ∧
      p.optional = (some <$> p).or (pure none) ∧
      ∀ s c, (p.capture.run s c).result = .ok (p.attempt.run s c).result ∧
        (p.capture.run s c).cursor = (p.attempt.run s c).cursor := by
  refine ⟨or_assoc p q r, throw_or e p, pure_or a p, sameRuns_or_bind first f g, optional_eq_or p,
    fun s c => ?_⟩
  rw [run_capture]
  exact ⟨rfl, rfl⟩

end JsonReader.Parser
