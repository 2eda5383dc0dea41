import JsonReader.Object.Updater
import JsonReader.Parser.Value

/-!
# Objects

An object is read into one aggregate. A selector names, for each property, the parser of its value,
which yields a change; the changes are made in textual order. A property whose parser fails fails the
whole object.

## Main definitions

* `Selector`, and `Parser.updater`, `Parser.replaceWith`, `Parser.skipUpdate` for its answers.
* `Parser.objectUpdater` reads an object into one change, `Parser.object` into an aggregate.
* `Parser.subType`, `Parser.emptySubType` read an object as a change of another type.
* `Parser.selectedObject` reads the selector first.
-/

namespace JsonReader

/-- Which parser reads the value of a property. -/
abbrev Selector (α : Type) := String → Parser (Updater α)

namespace Parser

variable {α β : Type}

/-- Joins the value with the aggregate. -/
def updater (join : β → α → α) (p : Parser β) : Parser (Updater α) :=
  (fun b => ⟨join b⟩) <$> p

/-- Makes a change that does not depend on the value. -/
def replaceWith (change : α → α) (p : Parser β) : Parser (Updater α) :=
  p.updater fun _ a => change a

/-- Makes no change. -/
def skipUpdate (p : Parser β) : Parser (Updater α) :=
  (fun _ => Updater.identity) <$> p

/-- The answer for a property that has no parser. -/
def unknownProperty (name : String) : Parser (Updater α) := throw (.unknownProperty name)

/-- The answer for a property that is read and dropped. -/
def ignoreProperty : Parser (Updater α) := skipValue.skipUpdate

/-- One property. Where its parser fails, the failure is kept as the value, so that repetition ends
in good order. -/
def propertyEntry (select : Selector α) : Parser (ParseResult (Updater α)) := do
  let name ← Scalar.propertyName.parser
  let result ← (select name).capture
  return result.mapError (.property name)

/-- All values, or the first failure. -/
def collect : List (ParseResult α) → ParseResult (List α)
  | [] => .ok []
  | .ok a :: rest => (collect rest).map (a :: ·)
  | .error e :: _ => .error e

/-- The properties of an object whose start has been read, and its end, as one change. -/
def startedObjectUpdater (select : Selector α) : Parser (Updater α) := do
  let entries ← (propertyEntry select).many
  let updaters ← ofResult (collect entries)
  let _ ← TokenPattern.endObject.parser
  return Updater.sequence updaters

/-- An object as one change. -/
def objectUpdater (select : Selector α) : Parser (Updater α) := do
  let _ ← TokenPattern.startObject.parser
  startedObjectUpdater select

/-- An object, as the aggregate that comes of an initial one. -/
def object (select : Selector α) (initial : α) : Parser α :=
  (fun u => u.apply initial) <$> objectUpdater select

/-- An object whose start has been read, as the aggregate that comes of an initial one. -/
def startedObject (select : Selector α) (initial : α) : Parser α :=
  (fun u => u.apply initial) <$> startedObjectUpdater select

/-- An object of a type of its own, as a change of an aggregate that is cast to that type. -/
def subType (select : Selector α) (cast : β → α) (back : α → β) : Parser (Updater β) :=
  (Updater.lift cast back) <$> objectUpdater select

/-- An object without properties, as a given change. -/
def emptySubType (change : α → α) : Parser (Updater α) := emptyObject.replaceWith change

/-- An object whose selector is read first. -/
def selectedObject (selector : Parser (Selector α)) : Parser (Updater α) := do
  let select ← selector
  objectUpdater select

/-- A parser between the start and the end of an object. -/
def objectOf (p : Parser α) : Parser α :=
  between TokenPattern.startObject.parser p TokenPattern.endObject.parser

end Parser

end JsonReader
