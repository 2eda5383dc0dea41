import JsonReader.Lexeme.NumberLiteral
import JsonReader.Proofs.Lexeme.Basic
import JsonReader.Proofs.Grammar.Lexical

/-!
# Number literals read the lexical grammar

What `takeNumber?` splits off is a number of the grammar. In the other direction a number is split
off in full only if the text behind it cannot prolong it, and `NumberEnds` is that condition. A text
that grows at its far end keeps its number as long as some other lexeme stands behind the number.

## Main statements

* `numberText_of_takeNumber?`, `takeNumber?_append`: the two directions.
* `takeNumber?_append_of_cons`: the number of a prolonged text.
-/

namespace JsonReader

open Grammar

/-- No number can be prolonged by the text. -/
def NumberEnds (s : List Char) : Prop :=
  ∀ c, s.head? = some c → c.isDigit = false ∧ c ≠ '.' ∧ c ≠ 'e' ∧ c ≠ 'E'

theorem NumberEnds.stops {s : List Char} (h : NumberEnds s) : Stops Char.isDigit s :=
  fun c hc => (h c hc).1

/-! ## Digits -/

theorem takeDigits_eq_iff {s ds rest : List Char} :
    takeDigits s = (ds, rest) ↔
      (∀ d ∈ ds, d.isDigit = true) ∧ Stops Char.isDigit rest ∧ s = ds ++ rest := by
  rw [← longestRun_eq_iff, takeDigits, Prod.mk.injEq]

theorem digits_of_takeDigits {s ds rest : List Char} (h : takeDigits s = (ds, rest))
    (hne : ds ≠ []) : Digits ds ∧ Stops Char.isDigit rest :=
  ⟨⟨hne, (takeDigits_eq_iff.mp h).1⟩, (takeDigits_eq_iff.mp h).2.1⟩

theorem takeDigits_of_digits {ds rest : List Char} (h : Digits ds)
    (hrest : Stops Char.isDigit rest) : takeDigits (ds ++ rest) = (ds, rest) :=
  takeDigits_eq_iff.mpr ⟨h.2, hrest, rfl⟩

/-! ## The parts of a number -/

theorem takeMinus_of_minus {minus s : List Char} (hminus : minus = [] ∨ minus = ['-'])
    (hs : s.head? ≠ some '-') : takeMinus (minus ++ s) = (minus, s) := by
  rcases hminus with rfl | rfl
  · cases s with
    | nil => rfl
    | cons c s =>
      have hc : c ≠ '-' := by simpa using hs
      simp [takeMinus, hc]
  · rfl

theorem minus_of_takeMinus (s : List Char) : (takeMinus s).1 = [] ∨ (takeMinus s).1 = ['-'] := by
  simp only [takeMinus]
  split
  · exact .inr rfl
  · exact .inl rfl

theorem exists_cons_of_wholePart {whole : List Char} (h : WholePart whole) :
    ∃ d ds, whole = d :: ds ∧ d.isDigit = true := by
  rcases h with rfl | ⟨⟨hne, hds⟩, -⟩
  · exact ⟨'0', [], rfl, rfl⟩
  · obtain ⟨d, ds, rfl⟩ := List.exists_cons_of_ne_nil hne
    exact ⟨d, ds, rfl, hds d (by simp)⟩

theorem head?_ne_minus_of_wholePart {whole : List Char} (h : WholePart whole) (rest : List Char) :
    (whole ++ rest).head? ≠ some '-' := by
  obtain ⟨d, ds, rfl, hd⟩ := exists_cons_of_wholePart h
  intro heq
  obtain rfl : d = '-' := by simpa using heq
  simp at hd

theorem takeWhole?_of_wholePart {whole rest : List Char} (h : WholePart whole)
    (hrest : Stops Char.isDigit rest) : takeWhole? (whole ++ rest) = some (whole, rest) := by
  rcases h with rfl | ⟨⟨hne, hd⟩, hzero⟩
  · rfl
  · obtain ⟨d, ds, rfl⟩ := List.exists_cons_of_ne_nil hne
    have hdz : d ≠ '0' := by simpa using hzero
    have ht := takeDigits_of_digits ⟨hne, hd⟩ hrest
    rw [List.cons_append] at ht ⊢
    simp [takeWhole?, hdz, ht]

/-- A whole part that a digit stands behind is a zero. -/
theorem wholePart_of_takeWhole? {s whole rest : List Char}
    (h : takeWhole? s = some (whole, rest)) :
    WholePart whole ∧ (whole = ['0'] ∨ Stops Char.isDigit rest) := by
  simp only [takeWhole?] at h
  split at h
  · simp only [Option.some.injEq, Prod.mk.injEq] at h
    exact ⟨.inl h.1.symm, .inl h.1.symm⟩
  · next hzero =>
    have happ := takeDigits_append s
    split at h
    · simp at h
    · next digits rest' hne heq =>
      simp only [Option.some.injEq, Prod.mk.injEq] at h
      obtain ⟨rfl, rfl⟩ := h
      rw [heq] at happ
      obtain ⟨hds, hstops⟩ := digits_of_takeDigits heq hne
      refine ⟨.inr ⟨hds, ?_⟩, .inr hstops⟩
      intro hhead
      obtain ⟨t, rfl⟩ := List.head?_eq_some_iff.mp hhead
      exact hzero (t ++ rest') happ.symm

theorem takeFraction_of_fractionPart {fraction rest : List Char} (h : FractionPart fraction)
    (hdigit : Stops Char.isDigit rest) (hpoint : rest.head? ≠ some '.') :
    takeFraction (fraction ++ rest) = (fraction, rest) := by
  rcases h with rfl | ⟨ds, hds, rfl⟩
  · cases rest with
    | nil => rfl
    | cons c rest =>
      have hc : c ≠ '.' := by simpa using hpoint
      simp [takeFraction, hc]
  · obtain ⟨d, ds, rfl⟩ := List.exists_cons_of_ne_nil hds.1
    have ht := takeDigits_of_digits hds hdigit
    rw [List.cons_append] at ht
    simp [takeFraction, ht]

/-- A fraction that a digit stands behind is empty, and nothing was read then. -/
theorem fractionPart_of_takeFraction (s : List Char) :
    FractionPart (takeFraction s).1 ∧
      (takeFraction s = ([], s) ∨ Stops Char.isDigit (takeFraction s).2) := by
  simp only [takeFraction]
  split
  · next rest =>
    split
    · exact ⟨.inl rfl, .inl rfl⟩
    · next digits rest' hne heq =>
      obtain ⟨hds, hstops⟩ := digits_of_takeDigits heq hne
      exact ⟨.inr ⟨digits, hds, rfl⟩, .inr hstops⟩
  · exact ⟨.inl rfl, .inl rfl⟩

theorem takeSign_of_signPart {sign rest : List Char} (h : SignPart sign)
    (hrest : rest.head? ≠ some '+' ∧ rest.head? ≠ some '-') :
    takeSign (sign ++ rest) = (sign, rest) := by
  rcases h with rfl | rfl | rfl
  · cases rest with
    | nil => rfl
    | cons c rest =>
      have hplus : c ≠ '+' := by simpa using hrest.1
      have hminus : c ≠ '-' := by simpa using hrest.2
      simp [takeSign, hplus, hminus]
  · rfl
  · rfl

theorem takeSign_of_digits {sign ds : List Char} (h : SignPart sign) (hds : Digits ds)
    (rest : List Char) : takeSign (sign ++ (ds ++ rest)) = (sign, ds ++ rest) := by
  obtain ⟨d, ds, rfl⟩ := List.exists_cons_of_ne_nil hds.1
  have hd : d.isDigit = true := hds.2 d (by simp)
  refine takeSign_of_signPart h ⟨?_, ?_⟩
  all_goals
    intro heq
    obtain rfl := Option.some.inj heq
    simp at hd

theorem signPart_of_takeSign (s : List Char) : SignPart (takeSign s).1 := by
  simp only [takeSign]
  split
  · exact .inr (.inl rfl)
  · exact .inr (.inr rfl)
  · exact .inl rfl

theorem takeExponent_of_exponentPart {exponent rest : List Char} (h : ExponentPart exponent)
    (hrest : NumberEnds rest) : takeExponent (exponent ++ rest) = (exponent, rest) := by
  rcases h with rfl | ⟨mark, sign, ds, hmark, hsign, hds, rfl⟩
  · cases rest with
    | nil => rfl
    | cons c rest =>
      obtain ⟨-, -, he, hE⟩ := hrest c rfl
      simp [takeExponent, he, hE]
  · have hs := takeSign_of_digits hsign hds rest
    have ht := takeDigits_of_digits hds hrest.stops
    obtain ⟨d, ds, rfl⟩ := List.exists_cons_of_ne_nil hds.1
    rw [List.cons_append] at ht
    simp only [List.cons_append, List.append_assoc] at hs ⊢
    simp [takeExponent, hmark, hs, ht]

/-- An exponent that a digit stands behind is empty, and nothing was read then. -/
theorem exponentPart_of_takeExponent (s : List Char) :
    ExponentPart (takeExponent s).1 ∧
      (takeExponent s = ([], s) ∨ Stops Char.isDigit (takeExponent s).2) := by
  unfold takeExponent
  split
  · next c rest =>
    split
    · next hmark =>
      dsimp only
      split
      · exact ⟨.inl rfl, .inl rfl⟩
      · next digits rest' hne heq =>
        obtain ⟨hds, hstops⟩ := digits_of_takeDigits heq hne
        exact ⟨.inr ⟨c, (takeSign rest).1, digits, hmark, signPart_of_takeSign rest, hds, rfl⟩,
          .inr hstops⟩
    · exact ⟨.inl rfl, .inl rfl⟩
  · exact ⟨.inl rfl, .inl rfl⟩

/-- Neither a digit nor a point is an exponent mark. -/
theorem head?_exponentMark {mark : Char} (hmark : mark = 'e' ∨ mark = 'E') (s : List Char) :
    Stops Char.isDigit (mark :: s) ∧ (mark :: s).head? ≠ some '.' := by
  rcases hmark with rfl | rfl
  · exact ⟨stops_cons rfl, by simp⟩
  · exact ⟨stops_cons rfl, by simp⟩

theorem head?_exponent_append {exponent rest : List Char} (he : ExponentPart exponent)
    (hr : NumberEnds rest) :
    Stops Char.isDigit (exponent ++ rest) ∧ (exponent ++ rest).head? ≠ some '.' := by
  rcases he with rfl | ⟨mark, sign, ds, hmark, -, -, rfl⟩
  · exact ⟨hr.stops, fun heq => (hr '.' heq).2.1 rfl⟩
  · exact head?_exponentMark hmark (sign ++ ds ++ rest)

theorem stops_fraction_append {fraction rest : List Char} (hf : FractionPart fraction)
    (hrest : Stops Char.isDigit rest) : Stops Char.isDigit (fraction ++ rest) := by
  rcases hf with rfl | ⟨ds, -, rfl⟩
  · exact hrest
  · exact stops_cons rfl

/-! ## Numbers -/

/-- The parts of a number are read one after the other. -/
theorem takeNumber?_of_parts {minus whole fraction exponent s s' s'' rest : List Char}
    (hminus : minus = [] ∨ minus = ['-']) (hwhole : takeWhole? s = some (whole, s'))
    (hfraction : takeFraction s' = (fraction, s''))
    (hexponent : takeExponent s'' = (exponent, rest)) :
    takeNumber? (minus ++ s) = some (minus ++ whole ++ fraction ++ exponent, rest) := by
  have hs : s.head? ≠ some '-' := by
    obtain ⟨-, rfl⟩ := append_of_takeWhole? hwhole
    exact head?_ne_minus_of_wholePart (wholePart_of_takeWhole? hwhole).1 s'
  simp [takeNumber?, takeMinus_of_minus hminus hs, hwhole, hfraction, hexponent]

/-- Every number of the grammar is split off where the text behind cannot prolong it. -/
theorem takeNumber?_append {source rest : List Char} (h : NumberText source)
    (hr : NumberEnds rest) : takeNumber? (source ++ rest) = some (source, rest) := by
  obtain ⟨hminus, hwhole, hfraction, hexponent⟩ := h
  rename_i minus whole fraction exponent
  obtain ⟨hdigit, hpoint⟩ := head?_exponent_append hexponent hr
  have hw := takeWhole?_of_wholePart hwhole (stops_fraction_append hfraction hdigit)
  have hf := takeFraction_of_fractionPart hfraction hdigit hpoint
  have he := takeExponent_of_exponentPart hexponent hr
  have hnumber := takeNumber?_of_parts hminus hw hf he
  simpa only [List.append_assoc] using hnumber

/-- What is split off is a number of the grammar, and only a zero has a digit behind it. -/
theorem numberText_of_takeNumber? {s source rest : List Char}
    (h : takeNumber? s = some (source, rest)) :
    NumberText source ∧ (source = ['0'] ∨ source = ['-', '0'] ∨ Stops Char.isDigit rest) := by
  rw [takeNumber?] at h
  have hminus := minus_of_takeMinus s
  dsimp only at h
  split at h
  · simp at h
  · next whole r hw =>
    simp only [Option.some.injEq, Prod.mk.injEq] at h
    obtain ⟨rfl, rfl⟩ := h
    obtain ⟨hwhole, hzero⟩ := wholePart_of_takeWhole? hw
    obtain ⟨hfraction, hf⟩ := fractionPart_of_takeFraction r
    obtain ⟨hexponent, he⟩ := exponentPart_of_takeExponent (takeFraction r).2
    refine ⟨.mk hminus hwhole hfraction hexponent, ?_⟩
    rcases he with he | he
    · rcases hf with hf | hf
      · rw [hf] at he
        rcases hzero with rfl | hzero
        · rcases hminus with hminus | hminus
          · exact .inl (by simp [hminus, hf, he])
          · exact .inr (.inl (by simp [hminus, hf, he]))
        · exact .inr (.inr (by simpa [hf, he] using hzero))
      · exact .inr (.inr (by rwa [he]))
    · exact .inr (.inr he)

/-- A number begins with a minus or a digit. -/
theorem head_of_takeNumber? {c : Char} {s source rest : List Char}
    (h : takeNumber? (c :: s) = some (source, rest)) : c = '-' ∨ c.isDigit = true := by
  obtain ⟨-, happ⟩ := append_of_takeNumber? h
  obtain ⟨⟨hminus, hwhole, -, -⟩, -⟩ := numberText_of_takeNumber? h
  obtain ⟨d, ds, rfl, hd⟩ := exists_cons_of_wholePart hwhole
  rcases hminus with rfl | rfl
  · obtain rfl : d = c := (List.cons.inj happ).1
    exact .inr hd
  · exact .inl (List.cons.inj happ).1.symm

/-- The number of a text stays the same however the text grows at its far end, as long as something
that cannot prolong a number stands behind it. -/
theorem takeNumber?_append_of_cons {s source rest : List Char} {c : Char}
    (h : takeNumber? s = some (source, c :: rest)) (hc : c ≠ '.' ∧ c ≠ 'e' ∧ c ≠ 'E')
    (w : List Char) : takeNumber? (s ++ w) = some (source, c :: rest ++ w) := by
  obtain ⟨hnumber, hends⟩ := numberText_of_takeNumber? h
  obtain ⟨-, rfl⟩ := append_of_takeNumber? h
  rw [List.append_assoc]
  by_cases hd : c.isDigit = true
  · have hf : takeFraction (c :: (rest ++ w)) = ([], c :: (rest ++ w)) := by
      simp [takeFraction, hc.1]
    have he : takeExponent (c :: (rest ++ w)) = ([], c :: (rest ++ w)) := by
      simp [takeExponent, hc.2]
    rcases hends with rfl | rfl | hstops
    · exact takeNumber?_of_parts (.inl rfl) (s := '0' :: c :: (rest ++ w)) rfl hf he
    · exact takeNumber?_of_parts (.inr rfl) (s := '0' :: c :: (rest ++ w)) rfl hf he
    · rw [hstops c rfl] at hd
      simp at hd
  · refine takeNumber?_append hnumber ?_
    intro d hdc
    obtain rfl : c = d := by simpa using hdc
    exact ⟨by simpa using hd, hc⟩

end JsonReader
