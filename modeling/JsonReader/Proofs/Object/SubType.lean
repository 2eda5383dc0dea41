import JsonReader.Proofs.Object.Entries

/-!
# Objects of a type of their own

An object that is read as a change of another type casts the aggregate, makes its own changes there
and takes the result back, once for every property. Where casting undoes taking back, nothing is
lost between two such properties. So their entries may as well stand in one of them, and how they are
divided makes no difference, be it that one part is empty.

## Main definitions

* `Parser.TakesValue` holds of an entry that the parser of its name takes in some place.

## Main statements

* `Updater.andThen_lift`: two changes of the other type, one behind the other, are one of them.
* `object_of_subType_append`: the entries of two neighbours in one property.
-/

namespace JsonReader

namespace Updater

variable {α β : Type} {cast : β → α} {back : α → β}

/-- The cast of the second change undoes the return of the first one. -/
theorem andThen_lift (hcast : Function.LeftInverse cast back) (u v : Updater α) :
    (u.lift cast back).andThen (v.lift cast back) = (u.andThen v).lift cast back := by
  ext b
  simp only [apply_andThen, apply_lift]
  rw [hcast]

theorem sequence_pair_lift (hcast : Function.LeftInverse cast back) (us us' : List (Updater α)) :
    sequence [(sequence us).lift cast back, (sequence us').lift cast back] =
      (sequence (us ++ us')).lift cast back := by
  calc sequence [(sequence us).lift cast back, (sequence us').lift cast back]
      = ((sequence us).lift cast back).andThen ((sequence us').lift cast back) := rfl
    _ = ((sequence us).andThen (sequence us')).lift cast back := andThen_lift hcast _ _
    _ = (sequence (us ++ us')).lift cast back := by
      congr 1
      ext a
      rw [apply_andThen, apply_sequence_append]

end Updater

namespace Parser

variable {α β : Type} {s : Settings} {select : Selector α} {es : List (String × List Token)}
  {us : List (Updater α)}

/-- In some place the parser of the name takes exactly the tokens of the value, and comes to a
change. -/
def TakesValue (select : Selector α) (s : Settings) (e : String × List Token) (u : Updater α) :
    Prop :=
  ∃ tokens passed rest, tokens.map (·.token) = e.2 ∧
    ((select e.1).run s ⟨passed, tokens ++ rest⟩).located =
      .ok (u, ⟨tokens.reverse ++ passed, rest⟩)

/-- What local parsers take in some place each they read in every place. -/
theorem readsEntries_of_takesValue (hselect : ∀ name, (select name).Local)
    (h : List.Forall₂ (TakesValue select s) es us) : ReadsEntries select s es us := by
  refine h.imp ?_
  rintro e u ⟨tokens, passed, rest, htokens, hrun⟩
  exact htokens ▸ (hselect e.1).reads hrun

theorem Reads.subType (h : ReadsEntries select s es us) (cast : β → α) (back : α → β) :
    (Parser.subType select cast back).Reads s (objectTokens es)
      ((Updater.sequence us).lift cast back) :=
  (Reads.objectUpdater h).map _

theorem Reads.emptySubType (change : α → α) :
    (Parser.emptySubType change).Reads s (objectTokens []) ⟨change⟩ :=
  ((Reads.of_takesOne (takesOne_token rfl) rfl : TokenPattern.startObject.parser.Reads s _ _).bind
    (Reads.of_takesOne (takesOne_token rfl) rfl)).map _

/-- The entries of two neighbouring properties that are read as a type of their own may stand in one
such property, behind and before any other entries. The aggregate is cast once, all changes are made
there in order, and the result is taken back. An object without entries is cast and taken back, as
the parser for it says. -/
theorem object_of_subType_append (hselect : ∀ name, (select name).Local) {cast : β → α}
    {back : α → β} (hcast : Function.LeftInverse cast back) {parent : Selector β}
    {first second both : String} (hfirst : parent first = subType select cast back)
    (hsecond : parent second = subType select cast back)
    (hboth : parent both = subType select cast back) {es es' : List (String × List Token)}
    {us us' : List (Updater α)} (hes : List.Forall₂ (TakesValue select s) es us)
    (hes' : List.Forall₂ (TakesValue select s) es' us') {front behind : List (String × List Token)}
    {fs bs : List (Updater β)} (hfront : ReadsEntries parent s front fs)
    (hbehind : ReadsEntries parent s behind bs) (initial : β) :
    let child := (Updater.sequence (us ++ us')).apply (cast ((Updater.sequence fs).apply initial))
    (object parent initial).Reads s
        (objectTokens (front ++ [(first, objectTokens es), (second, objectTokens es')] ++ behind))
        ((Updater.sequence bs).apply (back child)) ∧
      (object parent initial).Reads s
        (objectTokens (front ++ [(both, objectTokens (es ++ es'))] ++ behind))
        ((Updater.sequence bs).apply (back child)) ∧
      (subType select cast back).Reads s (objectTokens []) ⟨fun b => back (cast b)⟩ ∧
      (emptySubType fun b => back (cast b)).Reads s (objectTokens []) ⟨fun b => back (cast b)⟩ := by
  intro child
  have hreads := readsEntries_of_takesValue hselect hes
  have hreads' := readsEntries_of_takesValue hselect hes'
  have hparent : ∀ {name : String} {ts : List (String × List Token)} {vs : List (Updater α)},
      parent name = subType select cast back → ReadsEntries select s ts vs →
        (parent name).Reads s (objectTokens ts) ((Updater.sequence vs).lift cast back) := by
    intro name ts vs hname h
    rw [hname]
    exact Reads.subType h cast back
  have htwo : ReadsEntries parent s [(first, objectTokens es), (second, objectTokens es')]
      [(Updater.sequence us).lift cast back, (Updater.sequence us').lift cast back] :=
    .cons (hparent hfirst hreads) (.cons (hparent hsecond hreads') .nil)
  have hone : ReadsEntries parent s [(both, objectTokens (es ++ es'))]
      [(Updater.sequence (us ++ us')).lift cast back] :=
    .cons (hparent hboth (List.rel_append hreads hreads')) .nil
  -- whatever stands before the sub-type and behind it comes to the same changes in both objects
  have haround : ∀ {middle : List (String × List Token)} {vs : List (Updater β)},
      ReadsEntries parent s middle vs →
        Updater.sequence vs = (Updater.sequence (us ++ us')).lift cast back →
          (object parent initial).Reads s (objectTokens (front ++ middle ++ behind))
            ((Updater.sequence bs).apply (back child)) := by
    intro middle vs hmiddle hvs
    have hread := Reads.object
      (List.rel_append (List.rel_append hfront hmiddle) hbehind) initial
    rwa [Updater.apply_sequence_append, Updater.apply_sequence_append, hvs,
      Updater.apply_lift] at hread
  exact ⟨haround htwo (Updater.sequence_pair_lift hcast us us'), haround hone rfl,
    Reads.subType .nil cast back, .emptySubType _⟩

/-- Every property is a string, and all of them are kept. -/
def everyString : Selector (List String) := fun _ =>
  Scalar.string.parser.updater fun text texts => texts ++ [text]

/-- Every property is an object of strings. What comes of one of them is marked. -/
def markedStrings : Selector (List String × Bool) := fun _ =>
  subType everyString Prod.fst fun texts => (texts, true)

theorem takesValue_everyString (name text : String) :
    TakesValue everyString s (name, [.string text]) ⟨fun texts => texts ++ [text]⟩ :=
  ⟨[⟨.string text, {}⟩], [], [], rfl,
    (Reads.of_takesOne (takesOne_scalar .string) rfl).map _ [⟨.string text, {}⟩] rfl [] []⟩

/-- Two strings in one property or in two of them. The aggregate is marked in either case. -/
theorem object_markedStrings :
    let two : List LocatedToken := (objectTokens [("p", objectTokens [("a", [.string "x"])]),
      ("q", objectTokens [("b", [.string "y"])])]).map fun t => ⟨t, {}⟩
    let one : List LocatedToken := (objectTokens [("r", objectTokens [("a", [.string "x"]),
      ("b", [.string "y"])])]).map fun t => ⟨t, {}⟩
    ((object markedStrings (["w"], false)).run {} ⟨[], two⟩).located =
        .ok ((["w", "x", "y"], true), ⟨two.reverse, []⟩) ∧
      ((object markedStrings (["w"], false)).run {} ⟨[], one⟩).located =
        .ok ((["w", "x", "y"], true), ⟨one.reverse, []⟩) := by
  intro two one
  have hselect : ∀ name, (everyString name).Local := fun _ => (Local.scalar .string).map _
  have hcast : Function.LeftInverse (Prod.fst : List String × Bool → List String)
      fun texts => (texts, true) := fun _ => rfl
  have hparent : ∀ name, markedStrings name = subType everyString Prod.fst fun texts =>
      (texts, true) := fun _ => rfl
  obtain ⟨htwo, hone, -, -⟩ := object_of_subType_append (s := {}) hselect hcast
    (hparent "p") (hparent "q") (hparent "r") (.cons (takesValue_everyString "a" "x") .nil)
    (.cons (takesValue_everyString "b" "y") .nil) .nil .nil (["w"], false)
  have hrun := htwo two (by simp [two, Function.comp_def]) [] []
  have hrun' := hone one (by simp [one, Function.comp_def]) [] []
  rw [List.append_nil, List.append_nil] at hrun hrun'
  exact ⟨hrun, hrun'⟩

end Parser

end JsonReader
