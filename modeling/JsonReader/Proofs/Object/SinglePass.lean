import JsonReader.Proofs.Parser.Forward

/-!
# Objects are read in a single pass

The engine repeats a parser for entries that keeps failures as values, and looks for the first
failure and the end of the object only afterwards. `ForwardSelector.singlePass` is the plain loop:
it takes one token after the other, changes the aggregate at once and stops at the first failure.
Both yield the same value or the same failure, and where they succeed they leave the same cursor.

That the loop ends rests on the selected parsers: none of them moves the cursor back. So a name that
was read is never read again.

## Main definitions

* `ForwardSelector` is a selector of such parsers.
* `ForwardSelector.singlePass` is the loop, `ForwardSelector.entryLoop` its body.

## Main statements

* `located_object`: the engine computes what the loop computes.
-/

namespace JsonReader

/-- The value with the cursor behind it, or the failure. -/
def Outcome.located {ε α : Type} (o : Outcome ε α) : Except ε (α × Cursor) :=
  o.result.map fun a => (a, o.cursor)

@[simp] theorem Outcome.located_after {ε α : Type} (notes : List Note) (o : Outcome ε α) :
    (o.after notes).located = o.located := rfl

theorem Outcome.located_eq_ok_iff {ε α : Type} {o : Outcome ε α} {a : α} {d : Cursor} :
    o.located = .ok (a, d) ↔ o.result = .ok a ∧ o.cursor = d := by
  rcases o with ⟨_ | a', d', notes⟩ <;> simp [located, Except.map]

/-- A selector whose parsers do not move the cursor back. -/
structure ForwardSelector (α : Type) where
  select : Selector α
  forward : ∀ name, (select name).Forward

namespace ForwardSelector

variable {α : Type} (x : ForwardSelector α) (s : Settings)

theorem length_ahead_lt (name : String) (passed : List LocatedToken) (t : LocatedToken)
    (ahead : List LocatedToken) :
    ((x.select name).run s ⟨t :: passed, ahead⟩).cursor.ahead.length < (t :: ahead).length :=
  Nat.lt_succ_of_le (x.forward name s ⟨t :: passed, ahead⟩).length_ahead_le

/-- Takes the tokens of the entries one by one, up to the end of the object. -/
def entryLoop (a : α) (c : Cursor) : Except ParseError (α × Cursor) :=
  match _hc : c.ahead with
  | [] => .error (.endOfStream c.position)
  | t :: ahead =>
    match t.token with
    | .propertyName name =>
      match ((x.select name).run s ⟨t :: c.passed, ahead⟩).result with
      | .ok u => entryLoop (u.apply a) ((x.select name).run s ⟨t :: c.passed, ahead⟩).cursor
      | .error e => .error (.property name e)
    | .objectEnd => .ok (a, ⟨t :: c.passed, ahead⟩)
    | other => .error (.tokenMismatch TokenKind.objectEnd.name other.kind (c.position + 1))
termination_by c.ahead.length
decreasing_by
  rw [_hc]
  exact x.length_ahead_lt s name c.passed t ahead

/-- Takes the start of an object, and the entries from an initial aggregate on. -/
def singlePass (initial : α) (c : Cursor) : Except ParseError (α × Cursor) :=
  match c.ahead with
  | [] => .error (.endOfStream c.position)
  | t :: ahead =>
    if t.token = .objectStart then x.entryLoop s initial ⟨t :: c.passed, ahead⟩
    else .error (.tokenMismatch TokenKind.objectStart.name t.token.kind (c.position + 1))

/-- Where the loop succeeds, the end of an object is the current token. -/
theorem kind?_of_entryLoop {a b : α} {c d : Cursor} (h : x.entryLoop s a c = .ok (b, d)) :
    d.kind? = some .objectEnd := by
  induction hn : c.ahead.length using Nat.strongRecOn generalizing a c with
  | ind n ih =>
    subst hn
    rw [entryLoop] at h
    split at h
    · simp at h
    · next t ahead hc =>
      split at h
      · next name _ =>
        split at h
        · refine ih _ ?_ h rfl
          rw [hc]
          exact x.length_ahead_lt s name c.passed t ahead
        · simp at h
      · next ht =>
        cases h
        simp [Cursor.kind?, Cursor.token?, Cursor.current?, ht, Token.kind]
      · simp at h

end ForwardSelector

/-! ## The parts of the engine -/

namespace Token

theorem kind_eq_propertyName_iff {t : Token} :
    t.kind = .propertyName ↔ ∃ name, t = .propertyName name := by
  cases t with
  | bool b => cases b <;> simp [kind]
  | _ => simp [kind]

theorem kind_eq_objectStart_iff {t : Token} : t.kind = .objectStart ↔ t = .objectStart := by
  cases t with
  | bool b => cases b <;> simp [kind]
  | _ => simp [kind]

theorem kind_eq_objectEnd_iff {t : Token} : t.kind = .objectEnd ↔ t = .objectEnd := by
  cases t with
  | bool b => cases b <;> simp [kind]
  | _ => simp [kind]

end Token

namespace Parser

variable {α : Type}

/-- A token that is looked for by its kind alone. -/
theorem run_token_cons (k : TokenKind) (s : Settings) (passed ahead : List LocatedToken)
    (t : LocatedToken) :
    (TokenPattern.parser ⟨[k], true⟩).run s ⟨passed, t :: ahead⟩ =
      if t.token.kind = k then ⟨.ok k, ⟨t :: passed, ahead⟩, []⟩
      else ⟨.error (.tokenMismatch k.name t.token.kind (passed.length + 1)), ⟨t :: passed, ahead⟩,
        []⟩ := by
  have hdescribe : TokenKind.describe [k] = k.name := by cases k <;> rfl
  simp only [TokenPattern.parser, Cursor.advance?, TokenPattern.check, Cursor.kind?, Cursor.token?,
    Cursor.current?, List.head?_cons, Option.map_some, List.mem_singleton, hdescribe,
    Cursor.position, List.length_cons, if_true]
  split
  · next hk => rw [hk]
  · rfl

theorem run_token_nil (k : TokenKind) (s : Settings) (passed : List LocatedToken) :
    (TokenPattern.parser ⟨[k], true⟩).run s ⟨passed, []⟩ =
      ⟨.error (.endOfStream passed.length), ⟨passed, []⟩, []⟩ := rfl

/-- An entry is a name and whatever its parser yields, a failure too. -/
theorem run_propertyEntry_name (select : Selector α) (s : Settings)
    (passed ahead : List LocatedToken) {t : LocatedToken} {name : String}
    (ht : t.token = .propertyName name) :
    (propertyEntry select).run s ⟨passed, t :: ahead⟩ =
      match ((select name).run s ⟨t :: passed, ahead⟩).result with
      | .ok u => ⟨.ok (.ok u), ((select name).run s ⟨t :: passed, ahead⟩).cursor,
          ((select name).run s ⟨t :: passed, ahead⟩).notes⟩
      | .error e => ⟨.ok (.error (.property name e)), ⟨t :: passed, ahead⟩,
          ((select name).run s ⟨t :: passed, ahead⟩).notes⟩ := by
  have hname : Scalar.propertyName.parser.run s ⟨passed, t :: ahead⟩ =
      ⟨.ok name, ⟨t :: passed, ahead⟩, []⟩ := by
    have htoken := run_token_cons .propertyName s passed ahead t
    rw [ht, if_pos (by rfl)] at htoken
    simp [Scalar.parser, Scalar.propertyName, TokenPattern.propertyName, htoken, Cursor.text?,
      Cursor.token?, Cursor.current?, ht]
  rw [propertyEntry, run_bind_of_ok (a := name) (by rw [hname]), hname]
  cases h : ((select name).run s ⟨t :: passed, ahead⟩).result with
  | ok u => simp [run_map, capture, h, Outcome.after, mapError_ok, Except.map]
  | error e => simp [run_map, capture, h, Outcome.after, mapError_error, Except.map]

/-- No entry begins with another token. -/
theorem run_propertyEntry_other (select : Selector α) (s : Settings)
    (passed ahead : List LocatedToken) {t : LocatedToken} (ht : t.token.kind ≠ .propertyName) :
    ∃ e, ((propertyEntry select).run s ⟨passed, t :: ahead⟩).result = .error e := by
  have htoken := run_token_cons .propertyName s passed ahead t
  rw [if_neg ht] at htoken
  have hname : (Scalar.propertyName.parser.run s ⟨passed, t :: ahead⟩).result =
      .error (.tokenMismatch TokenKind.propertyName.name t.token.kind (passed.length + 1)) := by
    simp [Scalar.parser, Scalar.propertyName, TokenPattern.propertyName, htoken]
  exact ⟨_, by rw [propertyEntry, run_bind_of_error hname]⟩

theorem run_propertyEntry_nil (select : Selector α) (s : Settings) (passed : List LocatedToken) :
    ∃ e, ((propertyEntry select).run s ⟨passed, []⟩).result = .error e :=
  ⟨_, rfl⟩

theorem manyAtMost_of_error {p : Parser α} {s : Settings} {c : Cursor} {e : ParseError}
    (h : (p.run s c).result = .error e) (count : Nat) :
    (p.manyAtMost s (count + 1) c).result = .ok [] ∧ (p.manyAtMost s (count + 1) c).cursor = c := by
  simp [manyAtMost, h]

theorem manyAtMost_of_ok {p : Parser α} {s : Settings} {c : Cursor} {a : α}
    (h : (p.run s c).result = .ok a) (count : Nat) :
    p.manyAtMost s (count + 1) c =
      ⟨(p.manyAtMost s count (p.run s c).cursor).result.map (a :: ·),
        (p.manyAtMost s count (p.run s c).cursor).cursor,
        (p.run s c).notes ++ (p.manyAtMost s count (p.run s c).cursor).notes⟩ := by
  simp [manyAtMost, h]

/-- Repetition does not fail. -/
theorem exists_manyAtMost_eq_ok (p : Parser α) (s : Settings) (count : Nat) (c : Cursor) :
    ∃ as, (p.manyAtMost s count c).result = .ok as := by
  induction count generalizing c with
  | zero => exact ⟨[], rfl⟩
  | succ count ih =>
    cases h : (p.run s c).result with
    | ok a =>
      obtain ⟨as, has⟩ := ih (p.run s c).cursor
      exact ⟨a :: as, by simp [manyAtMost, h, has, Except.map]⟩
    | error e => exact ⟨[], (manyAtMost_of_error h count).1⟩

end Parser

/-! ## The engine and the loop -/

namespace ForwardSelector

open JsonReader.Parser

variable {α : Type} (x : ForwardSelector α) (s : Settings)

/-- What the engine makes of the entries that it has collected: the first failure, or the end of the
object and the changed aggregate. -/
def finish (a : α) (o : Outcome ParseError (List (ParseResult (Updater α)))) :
    Except ParseError (α × Cursor) :=
  match o.result with
  | .error e => .error e
  | .ok entries =>
    match collect entries with
    | .error e => .error e
    | .ok updaters =>
      (TokenPattern.endObject.parser.run s o.cursor).located.map fun (_, d) =>
        ((Updater.sequence updaters).apply a, d)

theorem finish_nil (a : α) {o : Outcome ParseError (List (ParseResult (Updater α)))}
    (h : o.result = .ok []) :
    finish s a o =
      (TokenPattern.endObject.parser.run s o.cursor).located.map fun (_, d) => (a, d) := by
  simp only [finish, h, collect, Updater.apply_sequence_nil]

/-- A change that is collected first is made first. -/
theorem finish_cons_ok (a : α) (u : Updater α) (notes : List Note)
    (o : Outcome ParseError (List (ParseResult (Updater α)))) :
    finish s a ⟨o.result.map (.ok u :: ·), o.cursor, notes⟩ = finish s (u.apply a) o := by
  cases hr : o.result with
  | error e => simp [finish, hr, Except.map]
  | ok entries =>
    cases hc : collect entries with
    | error e => simp [finish, hr, hc, collect, Except.map]
    | ok updaters => simp [finish, hr, hc, collect, Except.map]

theorem entryLoop_name (a : α) (passed ahead : List LocatedToken) {t : LocatedToken}
    {name : String} (ht : t.token = .propertyName name) :
    x.entryLoop s a ⟨passed, t :: ahead⟩ =
      match ((x.select name).run s ⟨t :: passed, ahead⟩).result with
      | .ok u =>
        x.entryLoop s (u.apply a) ((x.select name).run s ⟨t :: passed, ahead⟩).cursor
      | .error e => .error (.property name e) := by
  rw [entryLoop]
  simp only [ht]

theorem entryLoop_other (a : α) (passed ahead : List LocatedToken) {t : LocatedToken}
    (ht : t.token.kind ≠ .propertyName) :
    x.entryLoop s a ⟨passed, t :: ahead⟩ =
      if t.token.kind = .objectEnd then .ok (a, ⟨t :: passed, ahead⟩)
      else .error (.tokenMismatch TokenKind.objectEnd.name t.token.kind (passed.length + 1)) := by
  rw [entryLoop]
  dsimp only
  split
  · next name hname => simp [hname, Token.kind] at ht
  · next hend => simp [hend, Token.kind]
  · next hend =>
    rw [if_neg (mt Token.kind_eq_objectEnd_iff.mp hend)]
    rfl

/-- With enough attempts the engine computes what the loop computes, by induction on the attempts:
an entry takes one of them and at least one token. -/
theorem finish_manyAtMost (count : Nat) (a : α) (c : Cursor) (hcount : c.ahead.length < count) :
    finish s a ((propertyEntry x.select).manyAtMost s count c) = x.entryLoop s a c := by
  induction count generalizing a c with
  | zero => omega
  | succ count ih =>
    obtain ⟨passed, ahead⟩ := c
    cases ahead with
    | nil =>
      obtain ⟨e, he⟩ := run_propertyEntry_nil x.select s passed
      obtain ⟨hresult, hcursor⟩ := manyAtMost_of_error he count
      rw [finish_nil s a hresult, hcursor, entryLoop]
      rfl
    | cons t ahead =>
      by_cases hname : ∃ name, t.token = .propertyName name
      · obtain ⟨name, ht⟩ := hname
        have hentry := run_propertyEntry_name x.select s passed ahead ht
        rw [entryLoop_name x s a passed ahead ht]
        cases h : ((x.select name).run s ⟨t :: passed, ahead⟩).result with
        | ok u =>
          rw [h] at hentry
          have hresult := congrArg Outcome.result hentry
          have hcursor := congrArg Outcome.cursor hentry
          dsimp only at hcursor
          have hlt := x.length_ahead_lt s name passed t ahead
          simp only [List.length_cons] at hcount hlt
          rw [manyAtMost_of_ok hresult, finish_cons_ok, hcursor]
          exact ih _ _ (by omega)
        | error e =>
          rw [h] at hentry
          obtain ⟨entries, hrest⟩ :=
            exists_manyAtMost_eq_ok (propertyEntry x.select) s count ⟨t :: passed, ahead⟩
          rw [manyAtMost_of_ok (by rw [hentry])]
          simp [finish, hentry, hrest, Except.map, collect]
      · have hkind : t.token.kind ≠ .propertyName := mt Token.kind_eq_propertyName_iff.mp hname
        obtain ⟨e, he⟩ := run_propertyEntry_other x.select s passed ahead hkind
        obtain ⟨hresult, hcursor⟩ := manyAtMost_of_error he count
        rw [finish_nil s a hresult, hcursor, TokenPattern.endObject, run_token_cons,
          entryLoop_other x s a passed ahead hkind]
        split <;> rfl

theorem located_map {β γ : Type} (f : β → γ) (p : Parser β) (c : Cursor) :
    ((f <$> p).run s c).located = (p.run s c).located.map fun (b, d) => (f b, d) := by
  rw [run_map]
  rcases p.run s c with ⟨_ | _, _, _⟩ <;> rfl

/-- Behind the start of an object the engine finishes what repetition leaves. -/
theorem located_startedObject (a : α) (c : Cursor) :
    ((startedObjectUpdater x.select).run s c).located.map (fun (u, d) => (u.apply a, d)) =
      x.entryLoop s a c := by
  rw [← finish_manyAtMost x s (c.ahead.length + 1) a c (by omega)]
  change _ = finish s a ((propertyEntry x.select).many.run s c)
  obtain ⟨entries, hmany⟩ :
      ∃ entries, ((propertyEntry x.select).many.run s c).result = .ok entries :=
    exists_manyAtMost_eq_ok (propertyEntry x.select) s (c.ahead.length + 1) c
  rw [startedObjectUpdater, run_bind_of_ok hmany]
  cases hcollect : collect entries with
  | error e => simp [run_bind, ofResult, finish, hmany, hcollect, Outcome.located, Except.map]
  | ok updaters =>
    have hrest : ((ofResult (.ok updaters)).run s ((propertyEntry x.select).many.run s c).cursor) =
        ⟨.ok updaters, ((propertyEntry x.select).many.run s c).cursor, []⟩ := rfl
    rw [run_bind_of_ok (congrArg Outcome.result hrest), hrest]
    simp only [Outcome.located_after, bind_pure_comp, located_map, finish, hmany, hcollect]
    cases (TokenPattern.endObject.parser.run s
      ((propertyEntry x.select).many.run s c).cursor).located
    · rfl
    · rfl

/-- The engine computes what the loop computes: the same value and the same cursor, or the same
failure. Where they succeed, the end of the object is the current token. -/
theorem located_object (initial : α) (c : Cursor) :
    ((object x.select initial).run s c).located = x.singlePass s initial c ∧
      ∀ a d, x.singlePass s initial c = .ok (a, d) → d.kind? = some .objectEnd := by
  obtain ⟨passed, ahead⟩ := c
  rw [object, located_map, objectUpdater, TokenPattern.startObject]
  cases ahead with
  | nil =>
    have hstart := congrArg Outcome.result (run_token_nil .objectStart s passed)
    rw [run_bind_of_error hstart]
    exact ⟨rfl, fun a d h => by simp [singlePass] at h⟩
  | cons t ahead =>
    have hstart := run_token_cons .objectStart s passed ahead t
    by_cases ht : t.token = .objectStart
    · rw [ht, if_pos (by rfl)] at hstart
      rw [run_bind_of_ok (congrArg Outcome.result hstart), hstart]
      simp only [singlePass, ht, if_true, Outcome.located_after]
      exact ⟨located_startedObject x s initial _, fun a d h => kind?_of_entryLoop x s h⟩
    · have hkind : t.token.kind ≠ .objectStart := mt Token.kind_eq_objectStart_iff.mp ht
      rw [if_neg hkind] at hstart
      rw [run_bind_of_error (congrArg Outcome.result hstart)]
      simp only [singlePass, ht, if_false]
      exact ⟨rfl, fun a d h => by simp at h⟩

end ForwardSelector

end JsonReader
