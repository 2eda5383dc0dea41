import JsonReader.Proofs.Object.SinglePass
import JsonReader.Proofs.Parser.LooksAhead
import JsonReader.Proofs.Value.Skip

/-!
# Local parsers

A local parser is one whose successes depend on nothing but the tokens that it takes. The same
tokens come to the same value wherever they stand and whatever follows, and again all of them are
taken. So such a parser knows by itself where its value ends.

Failures are another matter. A parser may well fail because of what follows, and trying it is then
not local: the combinators here are those that take no failure for an answer.

## Main definitions

* `Parser.Reads` holds of tokens that come to a value wherever they stand.
* `Parser.Local` holds of a parser that reads whatever tokens it takes.
* `Parser.TakesOne` holds of a parser of single tokens.

## Main statements

* `Local.reads`: what is taken in one place is read in every other one.
* `Local.of_takesOne`, `Local.skipValue`, `Local.value` and others: the primitives.
* `Local.bind`, `Local.of_narrows`: the combinators.
-/

namespace JsonReader

/-! ## Successes -/

namespace Parser

variable {α β : Type} {p : Parser α} {next : α → Parser β} {s : Settings} {c d : Cursor} {a : α}
  {b : β} {ts ts' : List Token}

theorem located_bind_of_ok (h : (p.run s c).located = .ok (a, d)) :
    ((p >>= next).run s c).located = ((next a).run s d).located := by
  obtain ⟨hresult, rfl⟩ := Outcome.located_eq_ok_iff.mp h
  rw [run_bind_of_ok hresult, Outcome.located_after]

/-- A sequence succeeds where its parts do. -/
theorem exists_of_located_bind (h : ((p >>= next).run s c).located = .ok (b, d)) :
    ∃ a c', (p.run s c).located = .ok (a, c') ∧ ((next a).run s c').located = .ok (b, d) := by
  cases hr : (p.run s c).result with
  | ok a =>
    refine ⟨a, (p.run s c).cursor, Outcome.located_eq_ok_iff.mpr ⟨hr, rfl⟩, ?_⟩
    rwa [run_bind_of_ok hr, Outcome.located_after] at h
  | error e =>
    rw [run_bind_of_error hr] at h
    cases h

/-- Wherever tokens of these kinds and texts stand and whatever follows, the parser takes all of
them and no more, and comes to the value. -/
def Reads (p : Parser α) (s : Settings) (ts : List Token) (a : α) : Prop :=
  ∀ tokens : List LocatedToken, tokens.map (·.token) = ts → ∀ passed rest,
    (p.run s ⟨passed, tokens ++ rest⟩).located = .ok (a, ⟨tokens.reverse ++ passed, rest⟩)

/-- Where the parser succeeds, it reads the tokens that it took. -/
def Local (p : Parser α) : Prop :=
  ∀ (s : Settings) (passed ahead : List LocatedToken) (a : α) (d : Cursor),
    (p.run s ⟨passed, ahead⟩).located = .ok (a, d) →
      ∃ taken rest, ahead = taken ++ rest ∧ d = ⟨taken.reverse ++ passed, rest⟩ ∧
        p.Reads s (taken.map (·.token)) a

/-- The tokens that a local parser takes in one place it reads in every other place. -/
theorem Local.reads (hp : p.Local) {tokens passed rest : List LocatedToken}
    (h : (p.run s ⟨passed, tokens ++ rest⟩).located = .ok (a, ⟨tokens.reverse ++ passed, rest⟩)) :
    p.Reads s (tokens.map (·.token)) a := by
  obtain ⟨taken, rest', hahead, hcursor, hreads⟩ := hp s passed _ a _ h
  obtain rfl : rest = rest' := congrArg Cursor.ahead hcursor
  obtain rfl : tokens = taken := List.append_cancel_right hahead
  exact hreads

/-! ## Sequences -/

theorem Reads.pure (a : α) : (Pure.pure a : Parser α).Reads s [] a := by
  intro tokens htokens passed rest
  cases List.map_eq_nil_iff.mp htokens
  rfl

theorem Reads.bind (hp : p.Reads s ts a) (hnext : (next a).Reads s ts' b) :
    (p >>= next).Reads s (ts ++ ts') b := by
  intro tokens htokens passed rest
  obtain ⟨first, second, rfl, hfirst, hsecond⟩ := List.map_eq_append_iff.mp htokens
  rw [List.append_assoc, located_bind_of_ok (hp first hfirst passed _), hnext second hsecond]
  simp

theorem Reads.map (f : α → β) (hp : p.Reads s ts a) : (f <$> p).Reads s ts (f a) := by
  have h : (p >>= fun a => Pure.pure (f a)).Reads s (ts ++ []) (f a) := hp.bind (.pure (f a))
  rwa [List.append_nil, ← map_eq_pure_bind] at h

namespace Local

theorem pure (a : α) : (Pure.pure a : Parser α).Local := by
  rintro s passed ahead _ _ ⟨⟩
  exact ⟨[], ahead, rfl, rfl, .pure a⟩

theorem bind (hp : p.Local) (hnext : ∀ a, (∃ s c, (p.run s c).result = .ok a) → (next a).Local) :
    (p >>= next).Local := by
  intro s passed ahead b d h
  obtain ⟨a, c, ha, hb⟩ := exists_of_located_bind h
  obtain ⟨first, ahead, rfl, rfl, hfirst⟩ := hp s passed ahead a c ha
  obtain ⟨second, rest, rfl, rfl, hsecond⟩ :=
    hnext a ⟨s, _, (Outcome.located_eq_ok_iff.mp ha).1⟩ s _ ahead b d hb
  refine ⟨first ++ second, rest, by simp, by simp, ?_⟩
  rw [List.map_append]
  exact hfirst.bind hsecond

theorem map (f : α → β) (hp : p.Local) : (f <$> p).Local :=
  hp.bind fun a _ => .pure (f a)

end Local

/-! ## Values that are accepted -/

/-- The one parser succeeds where the other one does, as far as the value is accepted. -/
def Narrows (q : Parser β) (p : Parser α) (accept : Settings → α → Option β) : Prop :=
  ∀ (s : Settings) (c d : Cursor) (b : β), (q.run s c).located = .ok (b, d) ↔
    ∃ a, (p.run s c).located = .ok (a, d) ∧ accept s a = some b

theorem Reads.of_narrows {q : Parser β} {accept : Settings → α → Option β}
    (hp : p.Reads s ts a) (hq : q.Narrows p accept) (hb : accept s a = some b) : q.Reads s ts b :=
  fun tokens htokens passed rest => (hq s _ _ b).mpr ⟨a, hp tokens htokens passed rest, hb⟩

theorem Local.of_narrows {q : Parser β} {accept : Settings → α → Option β} (hp : p.Local)
    (hq : q.Narrows p accept) : q.Local := by
  intro s passed ahead b d h
  obtain ⟨a, ha, hb⟩ := (hq s _ d b).mp h
  obtain ⟨taken, rest, rfl, rfl, hreads⟩ := hp s passed ahead a d ha
  exact ⟨taken, rest, rfl, rfl, hreads.of_narrows hq hb⟩

theorem narrows_filter [Shown α] (test : α → Bool) (p : Parser α) :
    (p.filter test).Narrows p fun _ a => if test a then some a else none := by
  intro s c d b
  simp only [Parser.filter]
  rcases hr : p.run s c with ⟨_ | a, d', notes⟩
  · simp [Outcome.located, Except.map]
  · by_cases htest : test a = true <;> grind [Outcome.located, Except.map]

theorem narrows_withContext (message : String) (p : Parser α) :
    (p.withContext message).Narrows p fun _ a => some a := by
  intro s c d b
  simp only [Parser.withContext]
  rcases p.run s c with ⟨_ | a, d', notes⟩ <;>
    simp [Outcome.located, Except.map, mapError_ok, mapError_error]

theorem narrows_expectText (x : Scalar String) (expected : List String)
    (fits : Settings → String → Bool) :
    (expectText x expected fits).Narrows x.parser fun s text =>
      if fits s text then some text else none := by
  intro s c d b
  simp only [Parser.expectText]
  rcases hr : x.parser.run s c with ⟨_ | a, d', notes⟩
  · simp [Outcome.located, Except.map]
  · by_cases hfits : fits s a = true <;> grind [Outcome.located, Except.map]

theorem narrows_typed (target : String) (decode : Decoder α) (read : NumberReader) :
    (typed target decode read).Narrows (value read) fun _ v => decode v := by
  intro s c d b
  simp only [Parser.typed]
  rcases hr : (value read).run s c with ⟨_ | v, d', notes⟩
  · simp [Outcome.located, Except.map]
  · cases hv : decode v with
    | some a => grind [Outcome.located, Except.map]
    | none => cases c.advance? <;> grind [Outcome.located, Except.map]

/-! ## Primitives -/

/-- The parser takes one token, and makes of it what `read` makes of it. -/
def TakesOne (p : Parser α) (read : Token → Option α) : Prop :=
  ∀ (s : Settings) (c d : Cursor) (a : α), (p.run s c).located = .ok (a, d) ↔
    ∃ t ahead, c.ahead = t :: ahead ∧ d = ⟨t :: c.passed, ahead⟩ ∧ read t.token = some a

theorem Reads.of_takesOne {read : Token → Option α} (hp : p.TakesOne read) {t : Token}
    (ha : read t = some a) : p.Reads s [t] a := by
  intro tokens htokens passed rest
  obtain ⟨t', tokens, rfl, rfl, hnil⟩ := List.map_eq_cons_iff.mp htokens
  cases List.map_eq_nil_iff.mp hnil
  exact (hp s _ _ a).mpr ⟨t', rest, rfl, rfl, ha⟩

theorem Local.of_takesOne {read : Token → Option α} (hp : p.TakesOne read) : p.Local := by
  intro s passed ahead a d h
  obtain ⟨t, rest, hahead, rfl, ha⟩ := (hp s _ d a).mp h
  exact ⟨[t], rest, hahead, rfl, .of_takesOne hp ha⟩

end Parser

/-- The kind of a token, if it is one that is wanted. -/
def TokenPattern.kindOf? (x : TokenPattern) (t : Token) : Option TokenKind :=
  if t.kind ∈ x.kinds then some t.kind else none

theorem TokenPattern.kindOf?_eq_some_iff {x : TokenPattern} {t : Token} {k : TokenKind} :
    x.kindOf? t = some k ↔ t.kind ∈ x.kinds ∧ t.kind = k := by
  simp [kindOf?]

/-- What a scalar makes of a token alone. -/
def Scalar.readToken? {α : Type} (x : Scalar α) (t : Token) : Option α :=
  (x.token.kindOf? t).bind fun _ => x.read ⟨[⟨t, {}⟩], []⟩

namespace Parser

variable {α : Type} {s : Settings} {c d : Cursor} {a : α}

theorem takesOne_token {x : TokenPattern} (hx : x.advance = true) :
    x.parser.TakesOne x.kindOf? := by
  rintro s ⟨passed, ahead⟩ d k
  cases ahead with
  | nil => simp [TokenPattern.parser, hx, Cursor.advance?, Outcome.located, Except.map]
  | cons t ahead =>
    simp only [TokenPattern.parser, hx, if_true, Cursor.advance?_cons, TokenPattern.check,
      Cursor.kind?, Cursor.token?, Cursor.current?, List.head?_cons, Option.map_some,
      TokenPattern.kindOf?]
    by_cases hkind : t.token.kind ∈ x.kinds <;> grind [Outcome.located, Except.map]

theorem located_scalar_eq_ok_iff (x : Scalar α) :
    (x.parser.run s c).located = .ok (a, d) ↔
      ∃ k, (x.token.parser.run s c).located = .ok (k, d) ∧ x.read d = some a := by
  simp only [Scalar.parser]
  rcases x.token.parser.run s c with ⟨_ | k, d', notes⟩
  · simp [Outcome.located, Except.map]
  · simp only [Outcome.located_eq_ok_iff, Except.ok.injEq]
    constructor
    · intro h
      cases hread : x.read d' <;> simp_all
    · rintro ⟨_, ⟨-, rfl⟩, ha⟩
      simp [ha]

/-- The scalars of the library look at the token alone. -/
theorem takesOne_scalar {x : Scalar α} (hx : x.Standard) : x.parser.TakesOne x.readToken? := by
  intro s c d a
  have hread : ∀ t passed ahead, x.read ⟨t :: passed, ahead⟩ = x.read ⟨[⟨t.token, {}⟩], []⟩ :=
    fun _ _ _ => hx.read_eq rfl
  rw [located_scalar_eq_ok_iff]
  constructor
  · rintro ⟨k, hk, ha⟩
    obtain ⟨t, ahead, hahead, rfl, hkind⟩ := (takesOne_token hx.advance s c d k).mp hk
    rw [hread] at ha
    exact ⟨t, ahead, hahead, rfl, by rw [Scalar.readToken?, hkind, Option.bind_some, ha]⟩
  · rintro ⟨t, ahead, hahead, rfl, ha⟩
    obtain ⟨k, hkind, ha⟩ := Option.bind_eq_some_iff.mp ha
    rw [← hread t c.passed ahead] at ha
    exact ⟨k, (takesOne_token hx.advance s c _ k).mpr ⟨t, ahead, hahead, rfl, hkind⟩, ha⟩

end Parser

/-- The tokens of a value that is put together, and how they are taken. -/
theorem Assembly.exists_takes_of_run {read : NumberReader} {limit : Nat} {a : Assembly}
    {passed ahead : List LocatedToken} {v : Value} {d : Cursor}
    (h : a.run read limit passed ahead = (.ok v, d)) :
    ∃ taken rest, ahead = taken ++ rest ∧ d = ⟨taken.reverse ++ passed, rest⟩ ∧
      Takes read limit a (taken.map (·.token)) (.inl v) := by
  induction ahead generalizing a passed with
  | nil => cases h
  | cons t ahead ih =>
    rw [run] at h
    split at h
    · cases h
    · next hstep =>
      cases h
      exact ⟨[t], ahead, rfl, rfl, .last hstep⟩
    · next more hstep =>
      obtain ⟨taken, rest, rfl, rfl, htakes⟩ := ih h
      exact ⟨t :: taken, rest, rfl, by simp, .cons hstep htakes⟩

namespace Parser

variable {α : Type} {s : Settings} {c d : Cursor} {ts : List Token}

theorem located_value_eq_ok_iff {read : NumberReader} {passed ahead : List LocatedToken}
    {v : Value} :
    ((value read).run s ⟨passed, ahead⟩).located = .ok (v, d) ↔
      (Assembly.value .whole).run read s.maxDepth passed ahead = (.ok v, d) := by
  rw [Outcome.located_eq_ok_iff, Prod.ext_iff]
  rfl

theorem Reads.value {read : NumberReader} {v : Value}
    (h : Assembly.Takes read s.maxDepth (.value .whole) ts (.inl v)) :
    (Parser.value read).Reads s ts v := by
  intro tokens htokens passed rest
  rw [located_value_eq_ok_iff, h.run htokens]
  rfl

/-- What skipping takes closes what it opens. -/
theorem located_skipValue_eq_ok_iff {passed : List LocatedToken} {t : LocatedToken}
    {ahead : List LocatedToken} :
    (Parser.skipValue.run s ⟨passed, t :: ahead⟩).located = .ok ((), d) ↔
      Cursor.skipValue ⟨t :: passed, ahead⟩ = (true, d) := by
  simp only [Parser.skipValue, Cursor.advance?_cons]
  rcases Cursor.skipValue ⟨t :: passed, ahead⟩ with ⟨_ | _, d'⟩
  · cases d'.kind? <;> simp [Outcome.located, Except.map]
  · simp [Outcome.located, Except.map]

theorem Reads.skipValue (h : Cursor.Skipped ts) : Parser.skipValue.Reads s ts () := by
  intro tokens htokens passed rest
  cases tokens with
  | nil =>
    subst htokens
    cases h
  | cons t tokens =>
    rw [List.cons_append, located_skipValue_eq_ok_iff, h.skipValue htokens]
    simp

theorem located_ignoreObject_eq_ok_iff {passed : List LocatedToken} {t : LocatedToken}
    {ahead : List LocatedToken} :
    (Parser.ignoreObject.run s ⟨passed, t :: ahead⟩).located = .ok ((), d) ↔
      t.token = .objectStart ∧ Cursor.skipValue ⟨t :: passed, ahead⟩ = (true, d) := by
  have hstart := run_token_cons .objectStart s passed ahead t
  rw [Parser.ignoreObject, TokenPattern.startObject, ← Token.kind_eq_objectStart_iff]
  by_cases hkind : t.token.kind = .objectStart
  · rw [if_pos hkind] at hstart
    rw [run_bind_of_ok (congrArg Outcome.result hstart), hstart, Outcome.located_after]
    dsimp only
    rcases Cursor.skipValue ⟨t :: passed, ahead⟩ with ⟨_ | _, d'⟩ <;>
      simp [Outcome.located, Except.map, hkind]
  · rw [if_neg hkind] at hstart
    rw [run_bind_of_error (congrArg Outcome.result hstart)]
    simp [Outcome.located, Except.map, hkind]

theorem Reads.ignoreObject (h : Cursor.Skipped (.objectStart :: ts)) :
    Parser.ignoreObject.Reads s (.objectStart :: ts) () := by
  intro tokens htokens passed rest
  cases tokens with
  | nil => cases htokens
  | cons t tokens =>
    have ht : t.token = .objectStart := (List.cons.inj htokens).1
    rw [List.cons_append, located_ignoreObject_eq_ok_iff, h.skipValue htokens]
    exact ⟨ht, by simp⟩

namespace Local

theorem token {x : TokenPattern} (hx : x.advance = true) : x.parser.Local :=
  .of_takesOne (takesOne_token hx)

theorem scalar {x : Scalar α} (hx : x.Standard) : x.parser.Local :=
  .of_takesOne (takesOne_scalar hx)

theorem expectText {x : Scalar String} (hx : x.Standard) (expected : List String)
    (fits : Settings → String → Bool) : (Parser.expectText x expected fits).Local :=
  (scalar hx).of_narrows (narrows_expectText x expected fits)

theorem value (read : NumberReader) : (Parser.value read).Local := by
  intro s passed ahead v d h
  obtain ⟨taken, rest, rfl, rfl, htakes⟩ :=
    Assembly.exists_takes_of_run (located_value_eq_ok_iff.mp h)
  exact ⟨taken, rest, rfl, rfl, .value htakes⟩

theorem typed (target : String) (decode : Decoder α) (read : NumberReader) :
    (Parser.typed target decode read).Local :=
  (value read).of_narrows (narrows_typed target decode read)

theorem skipValue : Parser.skipValue.Local := by
  intro s passed ahead _ d h
  cases ahead with
  | nil => cases h
  | cons t ahead =>
    obtain ⟨taken, rest, rfl, rfl, hskipped⟩ :=
      Cursor.exists_skipped_of_skipValue (located_skipValue_eq_ok_iff.mp h)
    exact ⟨t :: taken, rest, rfl, by simp, .skipValue hskipped⟩

theorem ignoreObject : Parser.ignoreObject.Local := by
  intro s passed ahead _ d h
  cases ahead with
  | nil => cases h
  | cons t ahead =>
    obtain ⟨ht, hskip⟩ := located_ignoreObject_eq_ok_iff.mp h
    obtain ⟨taken, rest, rfl, rfl, hskipped⟩ := Cursor.exists_skipped_of_skipValue hskip
    rw [ht] at hskipped
    refine ⟨t :: taken, rest, rfl, by simp, ?_⟩
    rw [List.map_cons, ht]
    exact .ignoreObject hskipped

end Local

end Parser

end JsonReader
