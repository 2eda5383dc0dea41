import JsonReader.Parser.Basic

/-!
# Recursive grammars

A grammar is a family of parsers that may refer to one another. A reference is followed when it is
run, and only so often as a run can need.

## Main definitions

* `Parser.unfolded` is a family with references followed to a given depth.
* `Parser.grammar` follows references as deep as a run can go.
-/

namespace JsonReader.Parser

variable {ι : Type} {β : ι → Type}

/-- The family with references followed to a depth. Below it every reference fails. -/
def unfolded (family : ((i : ι) → Parser (β i)) → (i : ι) → Parser (β i)) :
    Nat → (i : ι) → Parser (β i)
  | 0, _ => fail "the grammar refers to itself without reading a token"
  | depth + 1, i => family (fun j => ⟨fun s c => (unfolded family depth j).run s c⟩) i

/-- A recursive grammar with `width` names. While references are followed without reading a token no
name can come twice, unless the grammar has no end; so `width` references for every token, and as
many at the end, are all that a run needs. -/
def grammar (width : Nat) (family : ((i : ι) → Parser (β i)) → (i : ι) → Parser (β i)) (i : ι) :
    Parser (β i) where
  run s c := (unfolded family (width * (c.ahead.length + 1)) i).run s c

end JsonReader.Parser
