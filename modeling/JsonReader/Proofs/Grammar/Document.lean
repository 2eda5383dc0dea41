import JsonReader.Proofs.Grammar.Lexical
import JsonReader.Token.Structure

/-!
# The grammar of documents

A document is one value with trivia around it. The grammar is a relation between a text, what a part
of the text denotes and the text behind that part. It has no state and no stack, and tells nothing
about how deep containers may nest; `Document` adds the limit.

## Main definitions

* `Tree` is a document as a tree. Objects keep their entries in textual order, duplicates included.
* `Tree.flatten` lists the tokens of a tree.
* `Phrase` are the nonterminals, `Derives` the productions, `Document` the whole.
-/

namespace JsonReader

/-- A document as a tree. A number is kept as its source text. -/
inductive Tree
  | null
  | bool (value : Bool)
  | number (source : String)
  | string (text : String)
  | array (items : List Tree)
  | object (entries : List (String × Tree))

namespace Tree

mutual

/-- The tokens of a tree. -/
def flatten : Tree → List Token
  | null => [.null]
  | bool b => [.bool b]
  | number source => [.number source]
  | string text => [.string text]
  | array items => .arrayStart :: (flattenItems items ++ [.arrayEnd])
  | object entries => .objectStart :: (flattenEntries entries ++ [.objectEnd])

/-- The tokens of the items of an array. -/
def flattenItems : List Tree → List Token
  | [] => []
  | v :: items => v.flatten ++ flattenItems items

/-- The tokens of the entries of an object. -/
def flattenEntries : List (String × Tree) → List Token
  | [] => []
  | (name, v) :: entries => .propertyName name :: (v.flatten ++ flattenEntries entries)

end

mutual

/-- How many containers nest in a tree. -/
def depth : Tree → Nat
  | null | bool _ | number _ | string _ => 0
  | array items => depthItems items + 1
  | object entries => depthEntries entries + 1

/-- How many containers nest in the items of an array. -/
def depthItems : List Tree → Nat
  | [] => 0
  | v :: items => max v.depth (depthItems items)

/-- How many containers nest in the entries of an object. -/
def depthEntries : List (String × Tree) → Nat
  | [] => 0
  | (_, v) :: entries => max v.depth (depthEntries entries)

end

end Tree

namespace Grammar

/-- The nonterminals, with what they denote: a value, what stands behind the opening bracket of an
array and behind one of its items, an entry of an object, and what stands behind the opening brace
of an object and behind one of its entries. -/
inductive Phrase
  | value (v : Tree)
  | items (vs : List Tree)
  | moreItems (vs : List Tree)
  | entry (name : String) (v : Tree)
  | entries (es : List (String × Tree))
  | moreEntries (es : List (String × Tree))

/-- The productions. The first text reads as the phrase, and the second is left behind it. -/
inductive Derives (settings : TokenizerSettings) : Phrase → List Char → List Char → Prop
  | nullWord {rest : List Char} :
      Derives settings (.value .null) ('n' :: 'u' :: 'l' :: 'l' :: rest) rest
  | trueWord {rest : List Char} :
      Derives settings (.value (.bool true)) ('t' :: 'r' :: 'u' :: 'e' :: rest) rest
  | falseWord {rest : List Char} :
      Derives settings (.value (.bool false)) ('f' :: 'a' :: 'l' :: 's' :: 'e' :: rest) rest
  | number {source rest : List Char} (h : NumberText source) :
      Derives settings (.value (.number (String.ofList source))) (source ++ rest) rest
  | string {body text rest : List Char} (h : StringBody body text) :
      Derives settings (.value (.string (String.ofList text))) ('"' :: (body ++ '"' :: rest)) rest
  | array {vs : List Tree} {s rest : List Char} (h : Derives settings (.items vs) s rest) :
      Derives settings (.value (.array vs)) ('[' :: s) rest
  | object {es : List (String × Tree)} {s rest : List Char}
      (h : Derives settings (.entries es) s rest) :
      Derives settings (.value (.object es)) ('\x7b' :: s) rest
  | noItems {s rest : List Char} (hs : Trivia settings.allowComments s (']' :: rest)) :
      Derives settings (.items []) s rest
  | firstItem {v : Tree} {vs : List Tree} {s t u rest : List Char}
      (hs : Trivia settings.allowComments s t) (hv : Derives settings (.value v) t u)
      (hvs : Derives settings (.moreItems vs) u rest) : Derives settings (.items (v :: vs)) s rest
  | lastItem {s rest : List Char} (hs : Trivia settings.allowComments s (']' :: rest)) :
      Derives settings (.moreItems []) s rest
  | commaBehindItems {s t rest : List Char} (hallowed : settings.allowTrailingCommas = true)
      (hs : Trivia settings.allowComments s (',' :: t))
      (ht : Trivia settings.allowComments t (']' :: rest)) : Derives settings (.moreItems []) s rest
  | nextItem {v : Tree} {vs : List Tree} {s t u w rest : List Char}
      (hs : Trivia settings.allowComments s (',' :: t)) (ht : Trivia settings.allowComments t u)
      (hv : Derives settings (.value v) u w) (hvs : Derives settings (.moreItems vs) w rest) :
      Derives settings (.moreItems (v :: vs)) s rest
  | entry {body name s t u rest : List Char} {v : Tree} (hname : StringBody body name)
      (hs : Trivia settings.allowComments s (':' :: t)) (ht : Trivia settings.allowComments t u)
      (hv : Derives settings (.value v) u rest) :
      Derives settings (.entry (String.ofList name) v) ('"' :: (body ++ '"' :: s)) rest
  | noEntries {s rest : List Char} (hs : Trivia settings.allowComments s ('\x7d' :: rest)) :
      Derives settings (.entries []) s rest
  | firstEntry {name : String} {v : Tree} {es : List (String × Tree)} {s t u rest : List Char}
      (hs : Trivia settings.allowComments s t) (he : Derives settings (.entry name v) t u)
      (hes : Derives settings (.moreEntries es) u rest) :
      Derives settings (.entries ((name, v) :: es)) s rest
  | lastEntry {s rest : List Char} (hs : Trivia settings.allowComments s ('\x7d' :: rest)) :
      Derives settings (.moreEntries []) s rest
  | commaBehindEntries {s t rest : List Char} (hallowed : settings.allowTrailingCommas = true)
      (hs : Trivia settings.allowComments s (',' :: t))
      (ht : Trivia settings.allowComments t ('\x7d' :: rest)) :
      Derives settings (.moreEntries []) s rest
  | nextEntry {name : String} {v : Tree} {es : List (String × Tree)} {s t u w rest : List Char}
      (hs : Trivia settings.allowComments s (',' :: t)) (ht : Trivia settings.allowComments t u)
      (he : Derives settings (.entry name v) u w)
      (hes : Derives settings (.moreEntries es) w rest) :
      Derives settings (.moreEntries ((name, v) :: es)) s rest

/-- The text is a document that denotes the tree: trivia, a value and trivia, the containers nesting
no deeper than the limit. -/
def Document (settings : TokenizerSettings) (v : Tree) (text : List Char) : Prop :=
  ∃ s rest, Trivia settings.allowComments text s ∧ Derives settings (.value v) s rest ∧
    Trivia settings.allowComments rest [] ∧ v.depth ≤ settings.maxDepth

end Grammar

end JsonReader
