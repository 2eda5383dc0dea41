import JsonReader.Proofs.Parser.Marks
import JsonReader.Proofs.Parser.Repetition

/-!
# The engine for objects comes to an end

Repetition without a limit need not end: a parser that succeeds in place succeeds there again. The
engine for objects repeats all the same, whatever the parsers of the values do, because it reads the
name of each entry itself. A parser that fails takes the cursor back no further than behind the
name, and one that reads nothing leaves it there. So the parsers of values are run behind different
tokens, each of which is a name, and there are no more such runs than tokens.

How often they are run can be told from the notes of a run, if each run of a selected parser leaves
one note and nothing else does.

## Main definitions

* `Parser.Loops` relates a cursor to what repetition without a limit leaves, `Parser.ObjectLoops` to
  what the engine leaves that repeats without a limit.
* `ForwardSelector.logged` leaves a note at every run of a selected parser.
* `Parser.PerName` holds of notes that were left behind different names.

## Main statements

* `Parser.Advances.loops_iff`: a parser that advances is repeated as often as the tokens allow.
* `Parser.not_loops_of_still`: a parser that succeeds in place is repeated for ever.
* `ForwardSelector.object_returns`: the engine returns, with at most one run for each token.
-/

namespace JsonReader

/-! ## Repetition without a limit -/

namespace Parser

variable {α : Type} {p : Parser α} {s : Settings} {c : Cursor} {o o' : Outcome ParseError (List α)}

/-- Repetition until the first failure, which leaves nothing but its notes. Where no run fails,
there is nothing that it leaves. -/
inductive Loops (p : Parser α) (s : Settings) : Cursor → Outcome ParseError (List α) → Prop
  | stop {c : Cursor} {e : ParseError} (he : (p.run s c).result = .error e) :
      Loops p s c ⟨.ok [], c, (p.run s c).notes⟩
  | again {c : Cursor} {a : α} {o : Outcome ParseError (List α)} (ha : (p.run s c).result = .ok a)
      (ho : Loops p s (p.run s c).cursor o) :
      Loops p s c ⟨o.result.map (a :: ·), o.cursor, (p.run s c).notes ++ o.notes⟩

theorem Loops.unique (h : Loops p s c o) (h' : Loops p s c o') : o' = o := by
  induction h generalizing o' with
  | stop he =>
    cases h' with
    | stop => rfl
    | again ha _ => cases he.symm.trans ha
  | again ha _ ih =>
    cases h' with
    | stop he => cases ha.symm.trans he
    | again ha' ho' =>
      cases ha.symm.trans ha'
      rw [ih ho']

/-- A parser that succeeds and stays in place is repeated for ever. By induction on the runs, all of
which begin at the same place. -/
theorem not_loops_of_still {a : α} (ha : (p.run s c).result = .ok a)
    (hstill : (p.run s c).cursor = c) : ¬ Loops p s c o := by
  intro h
  induction h with
  | stop he => cases he.symm.trans ha
  | again _ _ ih =>
    rw [hstill] at ih
    exact ih ha hstill

/-- With an attempt to spare, the limit is not reached. By induction on the attempts. -/
theorem Advances.loops_manyAtMost (hp : p.Advances) {count : Nat}
    (hcount : c.ahead.length < count) : Loops p s c (p.manyAtMost s count c) := by
  induction count generalizing c with
  | zero => omega
  | succ count ih =>
    cases hr : (p.run s c).result with
    | error e =>
      have hstop : p.manyAtMost s (count + 1) c = ⟨.ok [], c, (p.run s c).notes⟩ := by
        simp [manyAtMost, hr]
      rw [hstop]
      exact .stop hr
    | ok a =>
      have hlt := hp.length_ahead_lt hr
      rw [manyAtMost_of_ok hr]
      exact .again hr (ih (by omega))

theorem Advances.loops_iff (hp : p.Advances) : Loops p s c o ↔ o = p.many.run s c := by
  have hmany : Loops p s c (p.many.run s c) := hp.loops_manyAtMost (Nat.lt_succ_self _)
  constructor
  · exact hmany.unique
  · rintro rfl
    exact hmany

theorem Advances.scalar {x : Scalar α} (hx : x.token.advance = true) : x.parser.Advances := by
  intro s c a ha
  rw [x.cursor_run]
  cases hr : (x.token.parser.run s c).result with
  | ok k => exact Advances.token hx hr
  | error e => simp [Scalar.parser, hr] at ha

end Parser

/-! ## The engine without a limit -/

namespace Parser

variable {α : Type} {select : Selector α} {s : Settings} {initial : α} {c : Cursor}
  {started : Bool} {o : Outcome ParseError α}

/-- What the engine does with the entries: it looks for a failure and for the end of the object, and
makes the changes. -/
def closeObject (initial : α) (entries : List (ParseResult (Updater α))) : Parser α := do
  let updaters ← ofResult (collect entries)
  let _ ← TokenPattern.endObject.parser
  return (Updater.sequence updaters).apply initial

/-- The engine, from the start of the object or from behind it. -/
def objectFrom (started : Bool) (select : Selector α) (initial : α) : Parser α :=
  if started then startedObject select initial else object select initial

/-- What the engine leaves if it repeats without a limit. -/
inductive ObjectLoops (select : Selector α) (s : Settings) (initial : α) :
    Bool → Cursor → Outcome ParseError α → Prop
  | noStart {c : Cursor} {e : ParseError}
      (he : (TokenPattern.startObject.parser.run s c).result = .error e) :
      ObjectLoops select s initial false c
        ⟨.error e, (TokenPattern.startObject.parser.run s c).cursor,
          (TokenPattern.startObject.parser.run s c).notes⟩
  | start {c : Cursor} {k : TokenKind} {o : Outcome ParseError α}
      (hk : (TokenPattern.startObject.parser.run s c).result = .ok k)
      (ho : ObjectLoops select s initial true (TokenPattern.startObject.parser.run s c).cursor o) :
      ObjectLoops select s initial false c
        (o.after (TokenPattern.startObject.parser.run s c).notes)
  | entries {c : Cursor} {o : Outcome ParseError (List (ParseResult (Updater α)))}
      {entries : List (ParseResult (Updater α))} (ho : Loops (propertyEntry select) s c o)
      (hentries : o.result = .ok entries) :
      ObjectLoops select s initial true c
        (((closeObject initial entries).run s o.cursor).after o.notes)

theorem startedObject_eq_bind (select : Selector α) (initial : α) :
    startedObject select initial = (propertyEntry select).many >>= closeObject initial := by
  simp only [startedObject, startedObjectUpdater, map_bind, map_pure]
  rfl

theorem object_eq_bind (select : Selector α) (initial : α) :
    object select initial =
      TokenPattern.startObject.parser >>= fun _ => startedObject select initial := by
  simp only [object, objectUpdater, startedObject, map_bind]

/-- Where every entry reads a token, the limit makes no difference. -/
theorem objectLoops_true_iff (hentry : (propertyEntry select).Advances) :
    ObjectLoops select s initial true c o ↔ o = (startedObject select initial).run s c := by
  rw [startedObject_eq_bind]
  constructor
  · intro h
    cases h with
    | entries ho hentries =>
      cases hentry.loops_iff.mp ho
      rw [run_bind_of_ok hentries]
  · rintro rfl
    obtain ⟨entries, hentries⟩ := exists_manyAtMost_eq_ok (propertyEntry select) s _ c
    rw [run_bind_of_ok (p := (propertyEntry select).many) hentries]
    exact .entries (hentry.loops_iff.mpr rfl) hentries

theorem objectLoops_iff (hentry : (propertyEntry select).Advances) :
    ObjectLoops select s initial started c o ↔
      o = (objectFrom started select initial).run s c := by
  cases started with
  | true => exact objectLoops_true_iff hentry
  | false =>
    rw [objectFrom, if_neg (by decide), object_eq_bind]
    constructor
    · intro h
      cases h with
      | noStart he => rw [run_bind_of_error he]
      | start hk ho => rw [run_bind_of_ok hk, (objectLoops_true_iff hentry).mp ho]
    · rintro rfl
      cases hr : (TokenPattern.startObject.parser.run s c).result with
      | error e =>
        rw [run_bind_of_error hr]
        exact .noStart hr
      | ok k =>
        rw [run_bind_of_ok hr]
        exact .start hr ((objectLoops_true_iff hentry).mpr rfl)

end Parser

/-! ## Counting the runs -/

/-- Each run of a selected parser leaves one note, with the name of the property and the position
behind it. Otherwise the parsers are the same. -/
def Selector.logged {α : Type} (select : Selector α) : Selector α := fun name =>
  ⟨fun s c => ⟨((select name).run s c).result, ((select name).run s c).cursor,
    [⟨name, c.position⟩]⟩⟩

theorem NameAt.le_length {ts : List LocatedToken} {n : Nat} {name : String} (h : NameAt ts n name) :
    n ≤ ts.length := by
  obtain ⟨t, hnth, -⟩ := h
  cases n with
  | zero => exact Nat.zero_le _
  | succ n => exact (List.getElem?_eq_some_iff.mp hnth).1

namespace Parser

variable {c d : Cursor} {notes : List Note}

/-- Positions that increase between two bounds are no more than fit between them. By induction on
the notes. -/
theorem length_le_of_increasing {low high : Nat}
    (h : notes.Pairwise fun n m => n.position < m.position)
    (hbounds : ∀ n ∈ notes, low < n.position ∧ n.position ≤ high) :
    notes.length ≤ high - low := by
  induction notes generalizing low with
  | nil => exact Nat.zero_le _
  | cons n notes ih =>
    obtain ⟨hfirst, hrest⟩ := List.pairwise_cons.mp h
    obtain ⟨hlow, hhigh⟩ := hbounds n List.mem_cons_self
    have hmore := ih hrest fun m hm => ⟨hfirst m hm, (hbounds m (List.mem_cons_of_mem n hm)).2⟩
    rw [List.length_cons]
    omega

/-- Each note names a property that is ahead, and its position. -/
structure PerName (c : Cursor) (notes : List Note) : Prop where
  increasing : notes.Pairwise fun n m => n.position < m.position
  names : ∀ n ∈ notes, c.position < n.position ∧ NameAt c.tokens n.position n.text

namespace PerName

theorem nil : PerName c [] := ⟨.nil, nofun⟩

theorem of_leadsTo (h : PerName d notes) (hd : c.LeadsTo d) : PerName c notes := by
  refine ⟨h.increasing, ?_⟩
  intro n hn
  obtain ⟨hlt, hname⟩ := h.names n hn
  rw [hd.tokens_eq] at hname
  exact ⟨Nat.lt_of_le_of_lt hd.position_le hlt, hname⟩

/-- A name that is read comes before those that are read behind it. -/
theorem cons {passed ahead : List LocatedToken} {t : LocatedToken} {name : String}
    (ht : t.token = .propertyName name) (hd : Cursor.LeadsTo ⟨t :: passed, ahead⟩ d)
    (h : PerName d notes) :
    PerName ⟨passed, t :: ahead⟩ (⟨name, passed.length + 1⟩ :: notes) := by
  have hnext : Cursor.LeadsTo ⟨passed, t :: ahead⟩ ⟨t :: passed, ahead⟩ :=
    Cursor.leadsTo_of_advance? rfl
  have hrest := h.of_leadsTo hd
  refine ⟨List.pairwise_cons.mpr ⟨fun n hn => (hrest.names n hn).1, h.increasing⟩, ?_⟩
  intro n hn
  rcases List.mem_cons.mp hn with rfl | hn
  · have hname := nameAt_of_token passed ahead ht
    rw [hnext.tokens_eq] at hname
    exact ⟨Nat.lt_succ_self _, hname⟩
  · exact (hrest.of_leadsTo hnext).names n hn

/-- There are no more notes than tokens ahead. -/
theorem length_le (h : PerName c notes) : notes.length ≤ c.ahead.length := by
  have hbounds : ∀ n ∈ notes, c.position < n.position ∧ n.position ≤ c.tokens.length :=
    fun n hn => ⟨(h.names n hn).1, (h.names n hn).2.le_length⟩
  have hlength := length_le_of_increasing h.increasing hbounds
  rw [c.length_tokens] at hlength
  omega

end PerName

/-! ### Notes of the engine -/

theorem notes_run_token (x : TokenPattern) (s : Settings) (c : Cursor) :
    (x.parser.run s c).notes = [] := by
  have hcheck : ∀ c, (x.check c).notes = [] := by
    intro c
    rw [TokenPattern.check]
    split
    · split <;> rfl
    · rfl
  rw [TokenPattern.parser]
  dsimp only
  split
  · split
    · exact hcheck _
    · rfl
  · exact hcheck c

theorem notes_run_scalar {α : Type} (x : Scalar α) (s : Settings) (c : Cursor) :
    (x.parser.run s c).notes = [] := by
  have htoken := notes_run_token x.token s c
  rw [Scalar.parser]
  dsimp only
  split
  · exact htoken
  · split <;> exact htoken

section Engine

variable {α : Type} {select : Selector α} {s : Settings}

/-- Where no entry is read, no selected parser was run. -/
theorem notes_run_propertyEntry_of_error {e : ParseError}
    (h : ((propertyEntry select).run s c).result = .error e) :
    ((propertyEntry select).run s c).notes = [] := by
  have hnotes := notes_run_scalar Scalar.propertyName s c
  cases hr : (Scalar.propertyName.parser.run s c).result with
  | error e' =>
    rw [propertyEntry, run_bind_of_error hr]
    exact hnotes
  | ok name =>
    rw [propertyEntry, run_bind_of_ok hr, Outcome.result_after, bind_pure_comp, run_map] at h
    cases hc : ((select name).run s (Scalar.propertyName.parser.run s c).cursor).result <;>
      simp [capture, hc, Except.map] at h

theorem notes_run_closeObject (initial : α) (entries : List (ParseResult (Updater α))) :
    ((closeObject initial entries).run s c).notes = [] := by
  have hend := notes_run_token TokenPattern.endObject s c
  cases hcollect : collect entries with
  | error e => simp [closeObject, hcollect, run_bind, ofResult]
  | ok updaters =>
    cases hr : (TokenPattern.endObject.parser.run s c).result <;>
      simp [closeObject, hcollect, run_bind, ofResult, run_map, hr, hend]

end Engine

end Parser

namespace ForwardSelector

open JsonReader.Parser

variable {α : Type} (x : ForwardSelector α) (s : Settings)

/-- The selector that leaves a note at every run of one of its parsers. -/
def logged : ForwardSelector α := ⟨x.select.logged, x.forward⟩

theorem advances_propertyEntry : (propertyEntry x.select).Advances := by
  refine Advances.bind (.scalar rfl) ?_
  intro name
  refine Forward.bind (Forward.capture (x.forward name)) ?_
  intro result _
  exact Forward.pure _

/-- The loop takes the same tokens and makes the same changes with the notes and without them. By
induction on the tokens ahead. -/
theorem entryLoop_logged (a : α) (c : Cursor) : x.logged.entryLoop s a c = x.entryLoop s a c := by
  induction hn : c.ahead.length using Nat.strongRecOn generalizing a c with
  | ind n ih =>
    subst hn
    obtain ⟨passed, ahead⟩ := c
    cases ahead with
    | nil => rw [entryLoop, entryLoop]
    | cons t ahead =>
      by_cases hname : ∃ name, t.token = .propertyName name
      · obtain ⟨name, ht⟩ := hname
        rw [entryLoop_name x.logged s a passed ahead ht, entryLoop_name x s a passed ahead ht]
        have hrest := x.length_ahead_lt s name passed t ahead
        cases hr : ((x.select name).run s ⟨t :: passed, ahead⟩).result with
        | ok u => simpa [logged, Selector.logged, hr] using ih _ hrest (u.apply a) _ rfl
        | error e => simp [logged, Selector.logged, hr]
      · have hkind := mt Token.kind_eq_propertyName_iff.mp hname
        rw [entryLoop_other x.logged s a passed ahead hkind,
          entryLoop_other x s a passed ahead hkind]

theorem located_objectFrom_logged (initial : α) (started : Bool) (c : Cursor) :
    ((objectFrom started x.logged.select initial).run s c).located =
      ((objectFrom started x.select initial).run s c).located := by
  cases started with
  | true =>
    simp only [objectFrom, if_true, startedObject, located_map]
    rw [located_startedObject x.logged s initial c, located_startedObject x s initial c]
    exact x.entryLoop_logged s initial c
  | false =>
    simp only [objectFrom, Bool.false_eq_true, if_false]
    rw [(located_object x.logged s initial c).1, (located_object x s initial c).1]
    simp only [singlePass, entryLoop_logged]

/-- An entry leaves one note behind its name. -/
theorem run_propertyEntry_logged {passed ahead : List LocatedToken} {t : LocatedToken}
    {name : String} (ht : t.token = .propertyName name) :
    ∃ r d, (propertyEntry x.logged.select).run s ⟨passed, t :: ahead⟩ =
        ⟨.ok r, d, [⟨name, passed.length + 1⟩]⟩ ∧ Cursor.LeadsTo ⟨t :: passed, ahead⟩ d := by
  rw [run_propertyEntry_name x.logged.select s passed ahead ht]
  cases hr : ((x.select name).run s ⟨t :: passed, ahead⟩).result with
  | ok u =>
    refine ⟨.ok u, _, ?_, x.forward name s ⟨t :: passed, ahead⟩⟩
    simp [logged, Selector.logged, hr, Cursor.position]
  | error e =>
    refine ⟨.error (.property name e), _, ?_, .refl ⟨t :: passed, ahead⟩⟩
    simp [logged, Selector.logged, hr, Cursor.position]

/-- Repetition leaves one note for each name, by induction on the attempts. -/
theorem perName_manyAtMost (count : Nat) (c : Cursor) :
    PerName c ((propertyEntry x.logged.select).manyAtMost s count c).notes := by
  induction count generalizing c with
  | zero => exact .nil
  | succ count ih =>
    by_cases hname : ∃ name, NameAt c.tokens (c.position + 1) name
    · obtain ⟨name, t, hnth, ht⟩ := hname
      rw [c.nth?_succ_position] at hnth
      obtain ⟨passed, rest⟩ := c
      obtain ⟨ahead, rfl⟩ := List.head?_eq_some_iff.mp hnth
      obtain ⟨r, d, hrun, hd⟩ := x.run_propertyEntry_logged s ht
      rw [manyAtMost_of_ok (congrArg Outcome.result hrun), hrun]
      exact (ih d).cons ht hd
    · obtain ⟨e, he⟩ := run_propertyEntry_of_not_nameAt x.logged.select s (not_exists.mp hname)
      simp [manyAtMost, he, notes_run_propertyEntry_of_error he, PerName.nil]

theorem perName_objectFrom (initial : α) (started : Bool) (c : Cursor) :
    PerName c ((objectFrom started x.logged.select initial).run s c).notes := by
  have hstarted : ∀ c, PerName c ((startedObject x.logged.select initial).run s c).notes := by
    intro c
    obtain ⟨entries, hentries⟩ :=
      exists_manyAtMost_eq_ok (propertyEntry x.logged.select) s (c.ahead.length + 1) c
    rw [startedObject_eq_bind, run_bind_of_ok (p := (propertyEntry x.logged.select).many) hentries,
      Outcome.notes_after, notes_run_closeObject, List.append_nil]
    exact x.perName_manyAtMost s _ c
  cases started with
  | true => exact hstarted c
  | false =>
    have hnotes := notes_run_token TokenPattern.startObject s c
    rw [objectFrom, if_neg (by decide), object_eq_bind]
    cases hr : (TokenPattern.startObject.parser.run s c).result with
    | error e =>
      rw [run_bind_of_error hr, hnotes]
      exact .nil
    | ok k =>
      rw [run_bind_of_ok hr, Outcome.notes_after, hnotes, List.nil_append]
      exact (hstarted _).of_leadsTo (TokenPattern.startObject.leadsTo_run s c)

/-- The engine returns on all tokens, from every cursor on and from behind the start of the object
as well, whatever the selected parsers read, as long as they do not move the cursor back. Repeating
without a limit it leaves what it leaves with the limit, and nothing else. It runs a selected parser
at most once behind each token ahead, and only behind names: with a note at every run it comes to
the same, and the notes are for names further and further on. But repetition as such does not return
where the parser succeeds in place. -/
theorem object_returns (initial : α) (started : Bool) (c : Cursor) :
    (∀ o, ObjectLoops x.select s initial started c o ↔
      o = (objectFrom started x.select initial).run s c) ∧
    (∃ o, ObjectLoops x.logged.select s initial started c o ∧
      o.located = ((objectFrom started x.select initial).run s c).located ∧
      PerName c o.notes ∧ o.notes.length ≤ c.ahead.length) ∧
    ∀ {β : Type} (p : Parser β) (d : Cursor) (b : β), (p.run s d).result = .ok b →
      (p.run s d).cursor = d → ¬ ∃ o, Loops p s d o := by
  have hnotes := x.perName_objectFrom s initial started c
  refine ⟨fun o => objectLoops_iff x.advances_propertyEntry, ?logged, ?still⟩
  case logged =>
    exact ⟨_, (objectLoops_iff x.logged.advances_propertyEntry).mpr rfl,
      x.located_objectFrom_logged s initial started c, hnotes, hnotes.length_le⟩
  case still =>
    rintro β p d b hb hstill ⟨o, ho⟩
    exact not_loops_of_still hb hstill ho

/-- A selector whose parsers read nothing. -/
def emptyValues : ForwardSelector Nat := ⟨fun _ => pure .identity, fun _ => .pure _⟩

/-- An object that has names and no values. -/
def namesAlone : List LocatedToken :=
  [⟨.objectStart, {}⟩, ⟨.propertyName "a", {}⟩, ⟨.propertyName "b", {}⟩, ⟨.objectEnd, {}⟩]

/-- Repetition of the entries ends, repetition of the parser for a value does not. -/
theorem object_returns_emptyValues :
    (∃ o, ObjectLoops emptyValues.select {} 7 false (Cursor.ofTokens namesAlone) o ∧
      o.result = .ok 7) ∧
    (∃ o, ObjectLoops emptyValues.logged.select {} 7 false (Cursor.ofTokens namesAlone) o ∧
      o.notes = [⟨"a", 2⟩, ⟨"b", 3⟩]) ∧
    ¬ ∃ o, Loops (emptyValues.select "a") {} (Cursor.ofTokens namesAlone) o := by
  obtain ⟨hiff, -, hstill⟩ :=
    emptyValues.object_returns {} 7 false (Cursor.ofTokens namesAlone)
  obtain ⟨hlogged, -, -⟩ :=
    emptyValues.logged.object_returns {} 7 false (Cursor.ofTokens namesAlone)
  exact ⟨⟨_, (hiff _).mpr rfl, by rfl⟩, ⟨_, (hlogged _).mpr rfl, by rfl⟩,
    hstill (emptyValues.select "a") _ .identity rfl rfl⟩

end ForwardSelector

end JsonReader
