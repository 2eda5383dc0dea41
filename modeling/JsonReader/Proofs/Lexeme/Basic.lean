import JsonReader.Lexeme.Basic

/-!
# Longest runs and kinds of lexemes

Most lexers take the longest run of one class of characters. Such a run is fixed by two facts: its
characters are of the class, and the text behind it does not begin with one.

A lexeme without its payload is its kind. The first character of a lexeme tells the kind, so a text
that grows at its far end can change the payload of its first lexeme and nothing else.

## Main definitions

* `Lexeme.kind` drops the payload, `Lexeme.kindOfHead` tells the kind from the first character.
-/

namespace JsonReader

/-- No character of the class stands at the front of the text. -/
def Stops (p : Char → Bool) (s : List Char) : Prop := ∀ c, s.head? = some c → p c = false

theorem stops_nil (p : Char → Bool) : Stops p [] := by
  intro c hc
  simp at hc

theorem stops_cons {p : Char → Bool} {c : Char} {s : List Char} (h : p c = false) :
    Stops p (c :: s) := by
  intro d hd
  obtain rfl : c = d := by simpa using hd
  exact h

/-- The longest run of a class, and the text behind it. -/
theorem longestRun_eq_iff {p : Char → Bool} {s run rest : List Char} :
    s.takeWhile p = run ∧ s.dropWhile p = rest ↔
      (∀ c ∈ run, p c = true) ∧ Stops p rest ∧ s = run ++ rest := by
  constructor
  · rintro ⟨rfl, rfl⟩
    refine ⟨?_, ?_, List.takeWhile_append_dropWhile.symm⟩
    · exact List.all_eq_true.mp (List.all_takeWhile (p := p) (l := s))
    · intro c hc
      have h := List.head?_dropWhile_not p s
      rw [hc] at h
      exact h
  · rintro ⟨hrun, hrest, rfl⟩
    have hnone : rest.takeWhile p = [] ∧ rest.dropWhile p = rest := by
      cases rest with
      | nil => exact ⟨rfl, rfl⟩
      | cons c rest => simp [hrest c rfl]
    rw [List.takeWhile_append_of_pos hrun, List.dropWhile_append_of_pos hrun, hnone.1, hnone.2]
    exact ⟨List.append_nil run, rfl⟩

namespace Lexeme

/-- A lexeme without what a string, a number or a comment says. -/
def kind : Lexeme → Lexeme
  | literal (.string _) => literal (.string "")
  | literal (.number _) => literal (.number "")
  | comment _ => comment ""
  | lexeme => lexeme

/-- The kind of the lexemes that begin with a character. -/
def kindOfHead (c : Char) : Lexeme :=
  match c with
  | ' ' | '\t' => blank
  | '\r' | '\n' => newline
  | '/' => comment ""
  | '"' => literal (.string "")
  | 't' => literal (.bool true)
  | 'f' => literal (.bool false)
  | 'n' => literal .null
  | c =>
    match Delimiter.ofChar? c with
    | some d => delimiter d
    | none => literal (.number "")

theorem kindOfHead_char (d : Delimiter) : kindOfHead d.char = delimiter d := by
  cases d <;> rfl

theorem kindOfHead_of_isDigit {c : Char} (h : c.isDigit = true) :
    kindOfHead c = literal (.number "") := by
  have hd : Delimiter.ofChar? c = none := by
    cases hd : Delimiter.ofChar? c with
    | none => rfl
    | some d =>
      have hc := List.find?_some hd
      obtain rfl : d.char = c := by simpa using hc
      cases d <;> simp [Delimiter.char] at h
  simp only [kindOfHead]
  split
  all_goals try (simp at h)
  rw [hd]

end Lexeme

end JsonReader
