import JsonReader.Cursor
import JsonReader.Proofs.Grammar.Document

/-!
# Values are skipped by counting

Skipping counts the starts and the ends of containers and looks at nothing else. It stops right
behind the token that closes the last open container. The tokens of a tree close whatever they open,
so a tree is skipped whole.

## Main definitions

* `Cursor.Closes` holds of tokens the last of which closes the last of so many containers.
* `Cursor.Skipped` holds of the tokens that are skipped as one value.

## Main statements

* `Skipped.skipValue`, `exists_skipped_of_skipValue`: where skipping stops.
* `skipped_flatten`: the tokens of a tree are skipped as one value.
-/

namespace JsonReader

theorem TokenKind.isStart_eq_false_of_isScalar {k : TokenKind} (h : k.isScalar = true) :
    k.isStart = false := by
  revert h
  cases k <;> decide

namespace Cursor

variable {depth : Nat} {ts : List Token} {t : Token}

/-- The tokens close that many open containers and those that they open themselves. The last one is
closed by the last token. -/
inductive Closes : Nat → List Token → Prop
  | nil : Closes 0 []
  | cons {depth : Nat} {t : Token} {ts : List Token}
      (h : Closes (depthAfter (depth + 1) t.kind) ts) : Closes (depth + 1) (t :: ts)

/-- A scalar, or the start of a container with what closes it. -/
inductive Skipped : List Token → Prop
  | scalar {t : Token} (h : t.kind.isScalar = true) : Skipped [t]
  | container {t : Token} {ts : List Token} (h : t.kind.isStart = true) (hs : Closes 1 ts) :
      Skipped (t :: ts)

/-! ## Skipping -/

theorem Closes.skipOpen (h : Closes depth ts) {tokens : List LocatedToken}
    (htokens : tokens.map (·.token) = ts) (passed rest : List LocatedToken) :
    skipOpen depth passed (tokens ++ rest) = (true, ⟨tokens.reverse ++ passed, rest⟩) := by
  induction h generalizing tokens passed with
  | nil =>
    cases List.map_eq_nil_iff.mp htokens
    cases rest <;> rfl
  | cons _ ih =>
    obtain ⟨u, tokens, rfl, rfl, hrest⟩ := List.map_eq_cons_iff.mp htokens
    rw [List.cons_append, Cursor.skipOpen, ih hrest]
    simp

/-- By induction on the tokens ahead. -/
theorem exists_closes_of_skipOpen {passed ahead : List LocatedToken} {d : Cursor}
    (h : skipOpen depth passed ahead = (true, d)) :
    ∃ taken rest, ahead = taken ++ rest ∧ d = ⟨taken.reverse ++ passed, rest⟩ ∧
      Closes depth (taken.map (·.token)) := by
  induction ahead generalizing depth passed with
  | nil =>
    cases depth with
    | zero => exact ⟨[], [], rfl, (Prod.mk.inj h).2.symm, .nil⟩
    | succ depth => cases h
  | cons t ahead ih =>
    cases depth with
    | zero => exact ⟨[], t :: ahead, rfl, (Prod.mk.inj h).2.symm, .nil⟩
    | succ depth =>
      obtain ⟨taken, rest, rfl, rfl, hcloses⟩ := ih h
      exact ⟨t :: taken, rest, rfl, by simp, .cons hcloses⟩

/-- What is left open is skipped to the end of the tokens, by induction on them. -/
theorem eq_of_skipOpen_eq_false {passed ahead : List LocatedToken} {d : Cursor}
    (h : skipOpen depth passed ahead = (false, d)) : d = ⟨ahead.reverse ++ passed, []⟩ := by
  induction ahead generalizing depth passed with
  | nil =>
    cases depth with
    | zero => cases h
    | succ depth => exact (Prod.mk.inj h).2.symm
  | cons t ahead ih =>
    cases depth with
    | zero => cases h
    | succ depth =>
      rw [ih h]
      simp

theorem skipValue_of_isStart {t : LocatedToken} (h : t.token.kind.isStart = true)
    (passed ahead : List LocatedToken) :
    skipValue ⟨t :: passed, ahead⟩ = skipOpen 1 (t :: passed) ahead := by
  simp [skipValue, kind?, token?, current?, h]

theorem skipValue_of_not_isStart {t : LocatedToken} (h : t.token.kind.isStart = false)
    (passed ahead : List LocatedToken) :
    skipValue ⟨t :: passed, ahead⟩ = (t.token.kind.isScalar, ⟨t :: passed, ahead⟩) := by
  simp [skipValue, kind?, token?, current?, h]

theorem Skipped.skipValue (h : Skipped ts) {t : LocatedToken} {tokens : List LocatedToken}
    (htokens : (t :: tokens).map (·.token) = ts) (passed rest : List LocatedToken) :
    skipValue ⟨t :: passed, tokens ++ rest⟩ = (true, ⟨tokens.reverse ++ t :: passed, rest⟩) := by
  cases h with
  | @scalar u h =>
    obtain ⟨rfl, hnil⟩ := List.cons.inj htokens
    cases List.map_eq_nil_iff.mp hnil
    simp [skipValue_of_not_isStart (TokenKind.isStart_eq_false_of_isScalar h), h]
  | container h hs =>
    obtain ⟨rfl, hrest⟩ := List.cons.inj htokens
    rw [skipValue_of_isStart h, hs.skipOpen hrest]

theorem exists_skipped_of_skipValue {t : LocatedToken} {passed ahead : List LocatedToken}
    {d : Cursor} (h : Cursor.skipValue ⟨t :: passed, ahead⟩ = (true, d)) :
    ∃ taken rest, ahead = taken ++ rest ∧ d = ⟨taken.reverse ++ t :: passed, rest⟩ ∧
      Skipped (t.token :: taken.map (·.token)) := by
  cases hstart : t.token.kind.isStart with
  | true =>
    rw [skipValue_of_isStart hstart] at h
    obtain ⟨taken, rest, rfl, rfl, hcloses⟩ := exists_closes_of_skipOpen h
    exact ⟨taken, rest, rfl, rfl, .container hstart hcloses⟩
  | false =>
    rw [skipValue_of_not_isStart hstart] at h
    obtain ⟨hscalar, rfl⟩ := Prod.mk.inj h
    exact ⟨[], ahead, rfl, rfl, .scalar hscalar⟩

/-! ## Trees -/

/-- A token that neither opens nor closes a container leaves their number as it is. -/
theorem Closes.cons_other (hstart : t.kind.isStart = false) (hend : t.kind.isEnd = false)
    (h : Closes (depth + 1) ts) : Closes (depth + 1) (t :: ts) := by
  refine .cons ?_
  simpa [depthAfter, hstart, hend] using h

theorem Closes.cons_start (hstart : t.kind.isStart = true) (h : Closes (depth + 2) ts) :
    Closes (depth + 1) (t :: ts) := by
  refine .cons ?_
  simpa [depthAfter, hstart] using h

theorem Closes.cons_end (hstart : t.kind.isStart = false) (hend : t.kind.isEnd = true)
    (h : Closes depth ts) : Closes (depth + 1) (t :: ts) := by
  refine .cons ?_
  simpa [depthAfter, hstart, hend] using h

mutual

/-- The tokens of a tree close what they open. -/
theorem Closes.flatten (v : Tree) {depth : Nat} {ts : List Token} (h : Closes (depth + 1) ts) :
    Closes (depth + 1) (v.flatten ++ ts) := by
  cases v with
  | null => exact .cons_other rfl rfl h
  | bool b => exact .cons_other (by cases b <;> rfl) (by cases b <;> rfl) h
  | number source => exact .cons_other rfl rfl h
  | string text => exact .cons_other rfl rfl h
  | array items =>
    rw [Tree.flatten, List.cons_append, List.append_assoc]
    exact .cons_start rfl (.flattenItems items (.cons_end rfl rfl h))
  | object entries =>
    rw [Tree.flatten, List.cons_append, List.append_assoc]
    exact .cons_start rfl (.flattenEntries entries (.cons_end rfl rfl h))

theorem Closes.flattenItems (vs : List Tree) {depth : Nat} {ts : List Token}
    (h : Closes (depth + 1) ts) : Closes (depth + 1) (Tree.flattenItems vs ++ ts) := by
  cases vs with
  | nil => exact h
  | cons v vs =>
    rw [Tree.flattenItems, List.append_assoc]
    exact .flatten v (.flattenItems vs h)

theorem Closes.flattenEntries (es : List (String × Tree)) {depth : Nat} {ts : List Token}
    (h : Closes (depth + 1) ts) : Closes (depth + 1) (Tree.flattenEntries es ++ ts) := by
  match es with
  | [] => exact h
  | (name, v) :: es =>
    rw [Tree.flattenEntries, List.cons_append, List.append_assoc]
    exact .cons_other rfl rfl (.flatten v (.flattenEntries es h))

end

/-- The tokens of a tree are skipped as one value. -/
theorem skipped_flatten (v : Tree) : Skipped v.flatten := by
  cases v with
  | null => exact .scalar rfl
  | bool b => exact .scalar (by cases b <;> rfl)
  | number source => exact .scalar rfl
  | string text => exact .scalar rfl
  | array items => exact .container rfl (.flattenItems items (.cons_end rfl rfl .nil))
  | object entries => exact .container rfl (.flattenEntries entries (.cons_end rfl rfl .nil))

end Cursor

end JsonReader
