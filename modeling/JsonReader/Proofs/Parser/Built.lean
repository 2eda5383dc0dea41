import JsonReader.Parser.Recursive
import JsonReader.Proofs.Parser.Forward

/-!
# Parsers of the library

The parsers that are made from the primitives for tokens, scalars, texts and whole values by the
combinators and the engine for objects. What is proved of all of them is proved by induction on how
a parser is made.

## Main definitions

* `Parser.Built` holds of these parsers.

## Main statements

* `Built.forward`: none of them moves the cursor back.
-/

namespace JsonReader.Parser

/-- Made from the primitives by the combinators, where failures that a caller asks for are of a
given kind. No scalar begins with the start of a container. What follows a value only matters for
the values that can come. -/
inductive Built (asked : ParseError → Prop) : {α : Type} → Parser α → Prop
  | token (x : TokenPattern) : Built asked x.parser
  | scalar {α : Type} (x : Scalar α) (hx : ∀ k ∈ x.token.kinds, k.isStart = false) :
      Built asked x.parser
  | expectText (x : Scalar String) (hx : ∀ k ∈ x.token.kinds, k.isStart = false)
      (expected : List String) (fits : Settings → String → Bool) :
      Built asked (expectText x expected fits)
  | skipValue : Built asked skipValue
  | ignoreObject : Built asked ignoreObject
  | typed {α : Type} (target : String) (d : Decoder α) (read : NumberReader) :
      Built asked (typed target d read)
  | pure {α : Type} (a : α) : Built asked (Pure.pure a)
  | throw {α : Type} (e : ParseError) (he : asked e) : Built asked (throw e : Parser α)
  | bind {α β : Type} {p : Parser α} {next : α → Parser β} (hp : Built asked p)
      (hnext : ∀ a, (∃ s c, (p.run s c).result = .ok a) → Built asked (next a)) :
      Built asked (p >>= next)
  | or {α : Type} {p q : Parser α} (hp : Built asked p) (hq : Built asked q) : Built asked (p.or q)
  | optional {α : Type} {p : Parser α} (hp : Built asked p) : Built asked p.optional
  | capture {α : Type} {p : Parser α} (hp : Built asked p) : Built asked p.capture
  | many {α : Type} {p : Parser α} (hp : Built asked p) : Built asked p.many
  | filter {α : Type} [Shown α] {p : Parser α} (test : α → Bool) (hp : Built asked p) :
      Built asked (p.filter test)
  | withContext {α : Type} {p : Parser α} (message : String) (hp : Built asked p) :
      Built asked (p.withContext message)
  | ofRun {α : Type} {f : Settings → Cursor → Parser α} (hf : ∀ s c, Built asked (f s c)) :
      Built asked ⟨fun s c => (f s c).run s c⟩
  | startedObjectUpdater {α : Type} {select : Selector α}
      (hselect : ∀ name, Built asked (select name)) : Built asked (startedObjectUpdater select)

namespace Built

variable {asked : ParseError → Prop} {α β γ : Type} {p : Parser α}

/-! ## Further combinators -/

theorem map (f : α → β) (hp : Built asked p) : Built asked (f <$> p) :=
  .bind hp fun a _ => .pure (f a)

theorem fail {text : String} (h : asked (.failed text)) :
    Built asked (Parser.fail text : Parser α) :=
  .throw _ h

theorem many1 (hp : Built asked p) : Built asked p.many1 :=
  .bind hp fun _ _ => .bind (.many hp) fun _ _ => .pure _

theorem pairWith {next : α → Parser β} (hp : Built asked p) (hnext : ∀ a, Built asked (next a))
    (join : α → β → γ) : Built asked (p.pairWith next join) :=
  .bind hp fun a _ => .bind (hnext a) fun _ _ => .pure _

theorem replace (hp : Built asked p) (b : β) : Built asked (p.replace b) :=
  .bind hp fun _ _ => .pure b

theorem between {left : Parser β} {right : Parser γ} (hleft : Built asked left) (hp : Built asked p)
    (hright : Built asked right) : Built asked (left.between p right) :=
  .bind hleft fun _ _ => .bind hp fun _ _ => .bind hright fun _ _ => .pure _

theorem stringProperty (name : String) : Built asked (Parser.stringProperty name) :=
  .bind (.expectText _ (by decide) _ _) fun _ _ =>
    .bind (.scalar _ (by decide)) fun _ _ => .pure _

theorem typedProperty (name target : String) (d : Decoder α) (read : NumberReader) :
    Built asked (Parser.typedProperty name target d read) :=
  .bind (.expectText _ (by decide) _ _) fun _ _ => .typed target d read

/-- A grammar whose names are built from references that are built is built. -/
theorem grammar {ι : Type} {δ : ι → Type}
    {family : ((i : ι) → Parser (δ i)) → (i : ι) → Parser (δ i)}
    (hfamily : ∀ references, (∀ i, Built asked (references i)) →
      ∀ i, Built asked (family references i))
    (hfailed : ∀ text, asked (.failed text)) (width : Nat) (i : ι) :
    Built asked (Parser.grammar width family i) := by
  have hunfolded : ∀ depth i, Built asked (unfolded family depth i) := by
    intro depth
    induction depth with
    | zero => exact fun _ => .fail (hfailed _)
    | succ depth ih => exact fun i => hfamily _ (fun j => .ofRun fun _ _ => ih j) i
  exact .ofRun fun s c => hunfolded (width * (c.ahead.length + 1)) i

/-! ## Objects -/

theorem objectUpdater {select : Selector α} (hselect : ∀ name, Built asked (select name)) :
    Built asked (Parser.objectUpdater select) :=
  .bind (.token _) fun _ _ => .startedObjectUpdater hselect

theorem object {select : Selector α} (hselect : ∀ name, Built asked (select name)) (initial : α) :
    Built asked (Parser.object select initial) :=
  .map _ (.objectUpdater hselect)

theorem startedObject {select : Selector α} (hselect : ∀ name, Built asked (select name))
    (initial : α) : Built asked (Parser.startedObject select initial) :=
  .map _ (.startedObjectUpdater hselect)

theorem subType {select : Selector α} (hselect : ∀ name, Built asked (select name)) (cast : β → α)
    (back : α → β) : Built asked (Parser.subType select cast back) :=
  .map _ (.objectUpdater hselect)

theorem emptySubType (change : α → α) : Built asked (Parser.emptySubType change) :=
  .map _ (.bind (.token _) fun _ _ => .token _)

theorem selectedObject {selector : Parser (Selector α)} (hselector : Built asked selector)
    (hselect : ∀ select, (∃ s c, (selector.run s c).result = .ok select) →
      ∀ name, Built asked (select name)) : Built asked (Parser.selectedObject selector) :=
  .bind hselector fun select h => .objectUpdater (hselect select h)

theorem objectOf (hp : Built asked p) : Built asked (Parser.objectOf p) :=
  .between (.token _) hp (.token _)

/-! ## Moving forward -/

/-- By induction on how the parser is made. -/
theorem forward (hp : Built asked p) : p.Forward := by
  induction hp with
  | token x => exact .token x
  | scalar x _ => exact .scalar x
  | expectText x _ expected fits => exact .expectText x expected fits
  | skipValue => exact .skipValue
  | ignoreObject => exact .ignoreObject
  | typed target d read => exact .typed target d read
  | pure a => exact .pure a
  | throw e _ => exact .throw e
  | bind _ _ ihp ihnext => exact .bind ihp ihnext
  | or _ _ ihp ihq => exact .or ihp ihq
  | optional _ ih => exact .optional ih
  | capture _ ih => exact .capture ih
  | many _ ih => exact .many ih
  | filter test _ ih => exact .filter test ih
  | withContext message _ ih => exact .withContext message ih
  | ofRun _ ih => exact .ofRun ih
  | startedObjectUpdater _ ih => exact .startedObjectUpdater ih

end Built

end JsonReader.Parser
