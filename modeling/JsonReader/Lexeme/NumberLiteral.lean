import JsonReader.Lexeme.Basic

/-!
# Number literals

A number literal is an optional minus, a whole part without needless leading zeros, an optional
fraction and an optional exponent. Its source text is kept.

## Main definitions

* `takeWhole?`, `takeFraction`, `takeExponent` split off the parts. An optional part that is not
  complete is left unread in full.
* `takeNumber?` splits off the whole literal.
-/

namespace JsonReader

/-- The longest run of decimal digits, and the rest. -/
def takeDigits (s : List Char) : List Char × List Char :=
  (s.takeWhile Char.isDigit, s.dropWhile Char.isDigit)

/-- A zero by itself, or a run of digits that begins with another digit. -/
def takeWhole? : List Char → Option (List Char × List Char)
  | '0' :: rest => some (['0'], rest)
  | s =>
    match takeDigits s with
    | ([], _) => none
    | (digits, rest) => some (digits, rest)

/-- A point and at least one digit, or nothing. -/
def takeFraction : List Char → List Char × List Char
  | '.' :: rest =>
    match takeDigits rest with
    | ([], _) => ([], '.' :: rest)
    | (digits, rest') => ('.' :: digits, rest')
  | s => ([], s)

/-- A sign of either kind, or nothing. -/
def takeSign : List Char → List Char × List Char
  | '+' :: rest => (['+'], rest)
  | '-' :: rest => (['-'], rest)
  | s => ([], s)

/-- An exponent mark, an optional sign and at least one digit, or nothing. -/
def takeExponent : List Char → List Char × List Char
  | c :: rest =>
    if c = 'e' ∨ c = 'E' then
      let (sign, afterSign) := takeSign rest
      match takeDigits afterSign with
      | ([], _) => ([], c :: rest)
      | (digits, rest') => (c :: sign ++ digits, rest')
    else ([], c :: rest)
  | [] => ([], [])

/-- A minus, or nothing. -/
def takeMinus : List Char → List Char × List Char
  | '-' :: rest => (['-'], rest)
  | s => ([], s)

/-- The source text of a number literal, and the rest. -/
def takeNumber? (s : List Char) : Option (List Char × List Char) :=
  let (minus, s) := takeMinus s
  match takeWhole? s with
  | none => none
  | some (whole, s) =>
    let (fraction, s) := takeFraction s
    let (exponent, s) := takeExponent s
    some (minus ++ whole ++ fraction ++ exponent, s)

/-- The digits and the rest make up the text. -/
theorem takeDigits_append (s : List Char) : (takeDigits s).1 ++ (takeDigits s).2 = s := by
  simp [takeDigits]

theorem takeFraction_append (s : List Char) : (takeFraction s).1 ++ (takeFraction s).2 = s := by
  unfold takeFraction
  split
  · next rest =>
    have h := takeDigits_append rest
    split <;> simp_all
  · rfl

theorem takeSign_append (s : List Char) : (takeSign s).1 ++ (takeSign s).2 = s := by
  unfold takeSign
  split <;> rfl

theorem takeMinus_append (s : List Char) : (takeMinus s).1 ++ (takeMinus s).2 = s := by
  unfold takeMinus
  split <;> rfl

theorem takeExponent_append (s : List Char) : (takeExponent s).1 ++ (takeExponent s).2 = s := by
  unfold takeExponent
  split
  · next c rest =>
    split
    · have hs := takeSign_append rest
      have hd := takeDigits_append (takeSign rest).2
      dsimp only
      split
      · rfl
      · next digits rest' heq =>
        rw [heq] at hd
        rw [← hd] at hs
        simp [hs]
    · rfl
  · rfl

/-- A whole part has a digit, and it and the rest make up the text. -/
theorem append_of_takeWhole? {s whole rest : List Char} (h : takeWhole? s = some (whole, rest)) :
    whole ≠ [] ∧ whole ++ rest = s := by
  unfold takeWhole? at h
  split at h
  · simp only [Option.some.injEq, Prod.mk.injEq] at h
    obtain ⟨rfl, rfl⟩ := h
    simp
  · have hd := takeDigits_append s
    split at h
    · simp at h
    · next digits rest' hne heq =>
      simp only [Option.some.injEq, Prod.mk.injEq] at h
      obtain ⟨rfl, rfl⟩ := h
      rw [heq] at hd
      exact ⟨hne, hd⟩

/-- A number literal is not empty, and it and the rest make up the text. -/
theorem append_of_takeNumber? {s source rest : List Char}
    (h : takeNumber? s = some (source, rest)) : source ≠ [] ∧ source ++ rest = s := by
  unfold takeNumber? at h
  have hm := takeMinus_append s
  dsimp only at h
  split at h
  · simp at h
  · next whole r hw =>
    simp only [Option.some.injEq, Prod.mk.injEq] at h
    obtain ⟨rfl, rfl⟩ := h
    obtain ⟨hne, happ⟩ := append_of_takeWhole? hw
    refine ⟨by simp [hne], ?_⟩
    rw [List.append_assoc, takeExponent_append, List.append_assoc, takeFraction_append,
      List.append_assoc, happ, hm]

end JsonReader
