import JsonReader.Proofs.Number.Integer
import JsonReader.Proofs.Parser.Scalar

/-!
# Parsers for integers

What the parsers for integers of all widths make of the token of a number. Its text may be any text:
a cursor may stand on tokens that no tokenizer made.

## Main statements

* `Scalar.exact_integer`: when an integer is read, which one, and how it fails.
-/

namespace JsonReader.Scalar

open Grammar (IntegerText)
open Number (IntType)

variable {c : Cursor} {text : String} {span : Span} {rest : List LocatedToken}

theorem run_integer (t : IntType) (s : Settings) (hc : c.ahead = ⟨.number text, span⟩ :: rest) :
    (integer t).parser.run s c =
      ⟨(t.read? text.toList).elim (.error (.conversion t.name text (c.position + 1))) .ok,
        ⟨⟨.number text, span⟩ :: c.passed, rest⟩, []⟩ := by
  obtain ⟨passed, ahead⟩ := c
  subst hc
  have hkind : (⟨.number text, span⟩ : LocatedToken).token.kind ∈ (integer t).token.kinds :=
    List.mem_singleton_self _
  exact run_cons rfl hkind

theorem result_integer_eq_ok_iff (t : IntType) (s : Settings)
    (hc : c.ahead = ⟨.number text, span⟩ :: rest) {n : Int} :
    ((integer t).parser.run s c).result = .ok n ↔
      IntegerText t.signed text.toList n ∧ t.min ≤ n ∧ n ≤ t.max := by
  rw [run_integer t s hc, ← IntType.holds_iff, ← IntType.read?_eq_some_iff]
  cases t.read? text.toList <;> simp

/-- A number is read as an integer of any width, with a sign or without one, exactly if its text is
that of an integer in range, and then as the very number that the text denotes. Otherwise the
failure quotes the type and the text, and the position of the token; the token is taken either way.
So any two types agree on a text that both of them take, and a wider type of the same signedness
takes every text that a narrower one takes. -/
theorem exact_integer (s : Settings) (hc : c.ahead = ⟨.number text, span⟩ :: rest) :
    (∀ t : IntType,
      (∀ n, ((integer t).parser.run s c).result = .ok n ↔
        IntegerText t.signed text.toList n ∧ t.min ≤ n ∧ n ≤ t.max) ∧
      (∀ e, ((integer t).parser.run s c).result = .error e ↔
        e = .conversion t.name text (c.position + 1) ∧
          ¬ ∃ n, IntegerText t.signed text.toList n ∧ t.min ≤ n ∧ n ≤ t.max) ∧
      ((integer t).parser.run s c).cursor = ⟨⟨.number text, span⟩ :: c.passed, rest⟩) ∧
    (∀ (t t' : IntType) (n n' : Int), ((integer t).parser.run s c).result = .ok n →
      ((integer t').parser.run s c).result = .ok n' → n = n') ∧
    ∀ (t t' : IntType) (n : Int), t.signed = t'.signed → t.width ≤ t'.width →
      ((integer t).parser.run s c).result = .ok n →
        ((integer t').parser.run s c).result = .ok n := by
  have hok := fun t {n} => result_integer_eq_ok_iff (n := n) t s hc
  refine ⟨fun t => ⟨fun n => hok t, fun e => ?_, ?_⟩, fun t t' n n' h h' => ?_,
    fun t t' n hsigned hwidth h => ?_⟩
  · have hnone : t.read? text.toList = none ↔
        ¬ ∃ n, IntegerText t.signed text.toList n ∧ t.min ≤ n ∧ n ≤ t.max := by
      rw [Option.eq_none_iff_forall_ne_some, not_exists]
      simp only [← IntType.holds_iff, ← IntType.read?_eq_some_iff, ne_eq]
    rw [← hnone, run_integer t s hc]
    cases t.read? text.toList <;> simp [eq_comm]
  · rw [run_integer t s hc]
  · exact ((hok t).mp h).1.unique ((hok t').mp h').1
  · obtain ⟨htext, hrange⟩ := (hok t).mp h
    rw [hok, ← IntType.holds_iff]
    exact ⟨hsigned ▸ htext,
      IntType.holds_of_width_le hsigned hwidth (IntType.holds_iff.mpr hrange)⟩

/-- Three hundred, with zeros in front. -/
def threeHundred : Cursor := ⟨[], [⟨.number "+0000300", {}⟩]⟩

/-- It fits into sixteen bits and more. It does not fit into eight, where it would leave 44. -/
theorem exact_integer_threeHundred :
    ((integer .i16).parser.run {} threeHundred).result = .ok 300 ∧
      ((integer .i64).parser.run {} threeHundred).result = .ok 300 ∧
      ((integer .u8).parser.run {} threeHundred).result =
        .error (.conversion "u8" "+0000300" 1) ∧
      ((integer .u8).parser.run {} threeHundred).cursor.ahead = [] := by
  obtain ⟨hexact, -, hwider⟩ := exact_integer (c := threeHundred) {} rfl
  have htext : IntegerText true "+0000300".toList 300 :=
    @IntegerText.plus _ "0000300".toList ⟨by decide, by simp⟩
  have hread := ((hexact .i16).1 300).mpr ⟨htext, by decide, by decide⟩
  obtain ⟨-, hfails, hcursor⟩ := hexact .u8
  refine ⟨hread, hwider .i16 .i64 300 rfl (by decide) hread, (hfails _).mpr ⟨rfl, ?_⟩, ?_⟩
  · rintro ⟨n, hn, -, hmax⟩
    rw [hn.unique htext] at hmax
    exact absurd hmax (by decide)
  · rw [hcursor]

end JsonReader.Scalar
