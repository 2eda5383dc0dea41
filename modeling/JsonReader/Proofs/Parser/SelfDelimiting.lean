import JsonReader.Proofs.Object.Entries
import JsonReader.Proofs.Parser.Location

/-!
# Self-delimiting parsers

The primitives that move onto a token before they look at it know where their value ends, and so do
the parsers that are made of such ones without choice and repetition. Objects belong to them
although the engine repeats: it ends at the end of the object and not at whatever fails.

## Main definitions

* `Parser.SelfDelimiting` holds of the parsers that are made in this way.

## Main statements

* `SelfDelimiting.isLocal`: what such a parser reads it reads again in any other surroundings.
-/

namespace JsonReader.Parser

/-- Made from primitives that move onto a token first, and from any local parsers, without a trial
whose failure counts. What follows a value only matters for the values that can come. -/
inductive SelfDelimiting : {α : Type} → Parser α → Prop
  | ofLocal {α : Type} {p : Parser α} (hp : p.Local) : SelfDelimiting p
  | token {x : TokenPattern} (hx : x.advance = true) : SelfDelimiting x.parser
  | scalar {α : Type} {x : Scalar α} (hx : x.Standard) : SelfDelimiting x.parser
  | expectText {x : Scalar String} (hx : x.Standard) (expected : List String)
      (fits : Settings → String → Bool) : SelfDelimiting (expectText x expected fits)
  | skipValue : SelfDelimiting skipValue
  | ignoreObject : SelfDelimiting ignoreObject
  | typed {α : Type} (target : String) (d : Decoder α) (read : NumberReader) :
      SelfDelimiting (typed target d read)
  | pure {α : Type} (a : α) : SelfDelimiting (Pure.pure a)
  | bind {α β : Type} {p : Parser α} {next : α → Parser β} (hp : SelfDelimiting p)
      (hnext : ∀ a, (∃ s c, (p.run s c).result = .ok a) → SelfDelimiting (next a)) :
      SelfDelimiting (p >>= next)
  | filter {α : Type} [Shown α] {p : Parser α} (test : α → Bool) (hp : SelfDelimiting p) :
      SelfDelimiting (p.filter test)
  | withContext {α : Type} {p : Parser α} (message : String) (hp : SelfDelimiting p) :
      SelfDelimiting (p.withContext message)
  | startedObjectUpdater {α : Type} {select : Selector α}
      (hselect : ∀ name, SelfDelimiting (select name)) :
      SelfDelimiting (startedObjectUpdater select)

namespace SelfDelimiting

variable {α β γ : Type} {p : Parser α}

/-! ## Further combinators -/

theorem map (f : α → β) (hp : SelfDelimiting p) : SelfDelimiting (f <$> p) :=
  .bind hp fun a _ => .pure (f a)

theorem pairWith {next : α → Parser β} (hp : SelfDelimiting p)
    (hnext : ∀ a, SelfDelimiting (next a)) (join : α → β → γ) :
    SelfDelimiting (p.pairWith next join) :=
  .bind hp fun a _ => .bind (hnext a) fun _ _ => .pure _

theorem replace (hp : SelfDelimiting p) (b : β) : SelfDelimiting (p.replace b) :=
  .bind hp fun _ _ => .pure b

theorem between {left : Parser β} {right : Parser γ} (hleft : SelfDelimiting left)
    (hp : SelfDelimiting p) (hright : SelfDelimiting right) :
    SelfDelimiting (left.between p right) :=
  .bind hleft fun _ _ => .bind hp fun _ _ => .bind hright fun _ _ => .pure _

theorem expectString (expected : List String) : SelfDelimiting (Parser.expectString expected) :=
  .expectText .string expected _

theorem expectPropertyName (name : String) : SelfDelimiting (Parser.expectPropertyName name) :=
  .expectText .propertyName [name] _

/-! ## Objects -/

section Objects

variable {select : Selector α}

theorem objectUpdater (hselect : ∀ name, SelfDelimiting (select name)) :
    SelfDelimiting (Parser.objectUpdater select) :=
  .bind (.token rfl) fun _ _ => .startedObjectUpdater hselect

theorem object (hselect : ∀ name, SelfDelimiting (select name)) (initial : α) :
    SelfDelimiting (Parser.object select initial) :=
  .map _ (objectUpdater hselect)

theorem startedObject (hselect : ∀ name, SelfDelimiting (select name)) (initial : α) :
    SelfDelimiting (Parser.startedObject select initial) :=
  .map _ (.startedObjectUpdater hselect)

theorem subType (hselect : ∀ name, SelfDelimiting (select name)) (cast : β → α) (back : α → β) :
    SelfDelimiting (Parser.subType select cast back) :=
  .map _ (objectUpdater hselect)

theorem selectedObject {selector : Parser (Selector α)} (hselector : SelfDelimiting selector)
    (hselect : ∀ select, (∃ s c, (selector.run s c).result = .ok select) →
      ∀ name, SelfDelimiting (select name)) : SelfDelimiting (Parser.selectedObject selector) :=
  .bind hselector fun select h => objectUpdater (hselect select h)

end Objects

/-! ## Surroundings -/

/-- Where the parser succeeds, it takes some tokens, and wherever tokens of the same kinds and texts
stand and whatever follows them, it takes all of them and no more and comes to the same value. By
induction on how the parser is made. -/
theorem isLocal (hp : SelfDelimiting p) : p.Local := by
  induction hp with
  | ofLocal hp => exact hp
  | token hx => exact .token hx
  | scalar hx => exact .scalar hx
  | expectText hx expected fits => exact .expectText hx expected fits
  | skipValue => exact .skipValue
  | ignoreObject => exact .ignoreObject
  | typed target d read => exact .typed target d read
  | pure a => exact .pure a
  | bind _ _ ihp ihnext => exact .bind ihp ihnext
  | filter test _ ih => exact ih.of_narrows (narrows_filter test _)
  | withContext message _ ih => exact ih.of_narrows (narrows_withContext message _)
  | startedObjectUpdater _ ih => exact .startedObjectUpdater ih

end SelfDelimiting

theorem selfDelimiting_lastString : SelfDelimiting lastString :=
  .object (fun _ => .map _ (.scalar .string)) none

/-- An object with one string. -/
def stringEntry : List LocatedToken :=
  [⟨.objectStart, {}⟩, ⟨.propertyName "a", {}⟩, ⟨.string "x", {}⟩, ⟨.objectEnd, {}⟩]

/-- The object alone, and again behind another token and before the name of a property. -/
theorem run_lastString_inside :
    let before : List LocatedToken := [⟨.arrayStart, {}⟩]
    let behind : List LocatedToken := [⟨.propertyName "b", {}⟩]
    (lastString.run {} (Cursor.ofTokens stringEntry)).located =
        .ok (some "x", ⟨stringEntry.reverse, []⟩) ∧
      (lastString.run {} ⟨before, stringEntry ++ behind⟩).located =
        .ok (some "x", ⟨stringEntry.reverse ++ before, behind⟩) := by
  intro before behind
  have halone : (lastString.run {} ⟨[], stringEntry ++ []⟩).located =
      .ok (some "x", ⟨stringEntry.reverse ++ [], []⟩) := by rfl
  exact ⟨halone, selfDelimiting_lastString.isLocal.reads halone stringEntry rfl before behind⟩

end JsonReader.Parser
