import JsonReader.Proofs.Lexeme.Scan

/-!
# Numbers by longest match

The parts of a number are read one after the other, each as far as it goes, and an optional part
that is not complete is left unread. Nothing that was read is ever given back, and still the number
that is read is the longest one at the front of the text. For digits prolong a whole part or a
fraction, a point begins a fraction, and an exponent begins with neither: if a part is read further
than some number at the front of the text has it, then that number has no later part.

## Main definitions

* `LongestMatch` splits off the longest front of a text that has some property.

## Main statements

* `takeNumber?_eq_some_iff`: the number that is split off is the longest one.
* `takeNumber?_of_incompleteFraction`, `takeNumber?_of_incompleteExponent`: what is not a complete
  part is left unread.
* `lexLiteral_number_iff_longest`: the literals that are numbers.
-/

namespace JsonReader

open Grammar

/-- A front of the text that has the property, the text behind it, and no longer front has it. -/
structure LongestMatch (p : List Char → Prop) (s front rest : List Char) : Prop where
  holds : p front
  append : front ++ rest = s
  length_le : ∀ other, p other → other <+: s → other.length ≤ front.length

theorem LongestMatch.unique {p : List Char → Prop} {s front front' rest rest' : List Char}
    (h : LongestMatch p s front rest) (h' : LongestMatch p s front' rest') :
    front = front' ∧ rest = rest' := by
  have hfront : front <+: s := ⟨rest, h.append⟩
  have hfront' : front' <+: s := ⟨rest', h'.append⟩
  have hle := h'.length_le front h.holds hfront
  have hge := h.length_le front' h'.holds hfront'
  exact List.append_inj (h.append.trans h'.append.symm) (Nat.le_antisymm hle hge)

/-! ## Each part is read at least as far as it goes -/

theorem takeDigits_append_of_digits {ds : List Char} (h : Digits ds) (behind : List Char) :
    takeDigits (ds ++ behind) = (ds ++ (takeDigits behind).1, (takeDigits behind).2) := by
  rw [takeDigits, List.takeWhile_append_of_pos h.2, List.dropWhile_append_of_pos h.2, takeDigits]

theorem exists_takeWhole?_append {whole : List Char} (h : WholePart whole) (behind : List Char) :
    ∃ more rest, takeWhole? (whole ++ behind) = some (whole ++ more, rest) := by
  rcases h with rfl | ⟨hds, hzero⟩
  · exact ⟨[], behind, rfl⟩
  · have ht := takeDigits_append_of_digits hds behind
    obtain ⟨d, ds, rfl⟩ := List.exists_cons_of_ne_nil hds.1
    have hd : d ≠ '0' := by simpa using hzero
    rw [List.cons_append] at ht
    exact ⟨(takeDigits behind).1, (takeDigits behind).2, by simp [takeWhole?, hd, ht]⟩

theorem exists_takeFraction_append {ds : List Char} (h : Digits ds) (behind : List Char) :
    ∃ more rest, takeFraction ('.' :: (ds ++ behind)) = ('.' :: (ds ++ more), rest) := by
  have ht := takeDigits_append_of_digits h behind
  obtain ⟨d, ds, rfl⟩ := List.exists_cons_of_ne_nil h.1
  rw [List.cons_append] at ht
  exact ⟨(takeDigits behind).1, (takeDigits behind).2, by simp [takeFraction, ht]⟩

theorem exists_takeExponent_append {mark : Char} {sign ds : List Char}
    (hmark : mark = 'e' ∨ mark = 'E') (hsign : SignPart sign) (h : Digits ds)
    (behind : List Char) :
    ∃ more rest, takeExponent (mark :: (sign ++ (ds ++ behind))) =
      (mark :: (sign ++ (ds ++ more)), rest) := by
  have hs := takeSign_of_digits hsign h behind
  have ht := takeDigits_append_of_digits h behind
  obtain ⟨d, ds, rfl⟩ := List.exists_cons_of_ne_nil h.1
  rw [List.cons_append] at ht hs
  exact ⟨(takeDigits behind).1, (takeDigits behind).2, by simp [takeExponent, hmark, hs, ht]⟩

/-! ## The number is the longest one -/

/-- A text with a number at its front has a number split off, and not a shorter one. The cases are
those of the last part of the number at hand: the parts before it are read as they are, and it is
itself perhaps read further. -/
theorem exists_takeNumber?_append {number : List Char} (h : NumberText number)
    (behind : List Char) :
    ∃ more rest, takeNumber? (number ++ behind) = some (number ++ more, rest) := by
  obtain ⟨hminus, hwhole, hfraction, hexponent⟩ := h
  rename_i minus whole fraction exponent
  rcases hexponent with rfl | ⟨mark, sign, ds, hmark, hsign, hds, rfl⟩
  · rcases hfraction with rfl | ⟨ds, hds, rfl⟩
    · obtain ⟨more, rest, hw⟩ := exists_takeWhole?_append hwhole behind
      have hnumber := takeNumber?_of_parts hminus hw rfl rfl
      simp only [List.append_nil, List.append_assoc] at hnumber ⊢
      exact ⟨_, _, hnumber⟩
    · obtain ⟨more, rest, hf⟩ := exists_takeFraction_append hds behind
      have hw := takeWhole?_of_wholePart hwhole (stops_cons (s := ds ++ behind) (c := '.') rfl)
      have hnumber := takeNumber?_of_parts hminus hw hf rfl
      simp only [List.append_nil, List.append_assoc, List.cons_append] at hnumber ⊢
      exact ⟨_, _, hnumber⟩
  · obtain ⟨more, rest, he⟩ := exists_takeExponent_append hmark hsign hds behind
    obtain ⟨hdigit, hpoint⟩ := head?_exponentMark hmark (sign ++ (ds ++ behind))
    have hf := takeFraction_of_fractionPart hfraction hdigit hpoint
    have hw := takeWhole?_of_wholePart hwhole (stops_fraction_append hfraction hdigit)
    have hnumber := takeNumber?_of_parts hminus hw hf he
    simp only [List.append_assoc, List.cons_append] at hnumber ⊢
    exact ⟨_, _, hnumber⟩

/-- The number that is split off is the longest front of the text that is a number. -/
theorem takeNumber?_eq_some_iff {s source rest : List Char} :
    takeNumber? s = some (source, rest) ↔ LongestMatch NumberText s source rest := by
  have hlongest : ∀ {source rest}, takeNumber? s = some (source, rest) →
      LongestMatch NumberText s source rest := by
    intro source rest h
    refine ⟨(numberText_of_takeNumber? h).1, (append_of_takeNumber? h).2, ?_⟩
    rintro number hnumber ⟨behind, rfl⟩
    obtain ⟨more, rest', hread⟩ := exists_takeNumber?_append hnumber behind
    rw [h] at hread
    obtain ⟨rfl, -⟩ := Prod.mk.inj (Option.some.inj hread)
    simp
  refine ⟨hlongest, fun h => ?_⟩
  obtain ⟨more, rest', hread⟩ := exists_takeNumber?_append h.holds rest
  rw [h.append] at hread
  obtain ⟨hsource, rfl⟩ := h.unique (hlongest hread)
  rw [hread, ← hsource]

/-! ## What is left unread -/

variable {minus whole fraction : List Char}

/-- A point with no digit behind it is no part of the number before it. -/
theorem takeNumber?_of_incompleteFraction (hminus : minus = [] ∨ minus = ['-'])
    (hwhole : WholePart whole) {behind : List Char} (hbehind : Stops Char.isDigit behind) :
    takeNumber? (minus ++ whole ++ '.' :: behind) = some (minus ++ whole, '.' :: behind) := by
  have hw := takeWhole?_of_wholePart hwhole (stops_cons (s := behind) (c := '.') rfl)
  have hd : takeDigits behind = ([], behind) := takeDigits_eq_iff.mpr ⟨by simp, hbehind, rfl⟩
  have hf : takeFraction ('.' :: behind) = ([], '.' :: behind) := by simp [takeFraction, hd]
  have he : takeExponent ('.' :: behind) = ([], '.' :: behind) := by simp [takeExponent]
  simpa using takeNumber?_of_parts hminus hw hf he

/-- An exponent mark that no digit follows, be it behind a sign, is no part of the number before
it, and neither is the sign. -/
theorem takeNumber?_of_incompleteExponent (hminus : minus = [] ∨ minus = ['-'])
    (hwhole : WholePart whole) (hfraction : FractionPart fraction) {mark : Char}
    {behind : List Char} (hmark : mark = 'e' ∨ mark = 'E')
    (hbehind : ∀ sign ds, SignPart sign → Digits ds → ¬ sign ++ ds <+: behind) :
    takeNumber? (minus ++ whole ++ fraction ++ mark :: behind) =
      some (minus ++ whole ++ fraction, mark :: behind) := by
  obtain ⟨hdigit, hpoint⟩ := head?_exponentMark hmark behind
  have hw := takeWhole?_of_wholePart hwhole (stops_fraction_append hfraction hdigit)
  have hf := takeFraction_of_fractionPart hfraction hdigit hpoint
  have he : takeExponent (mark :: behind) = ([], mark :: behind) := by
    rcases hread : takeDigits (takeSign behind).2 with ⟨_ | ⟨d, ds⟩, rest⟩
    · simp [takeExponent, hmark, hread]
    · have hds := (digits_of_takeDigits hread (List.cons_ne_nil d ds)).1
      have hsign := takeSign_append behind
      have happ := takeDigits_append (takeSign behind).2
      rw [hread] at happ
      refine absurd ⟨rest, ?_⟩ (hbehind _ _ (signPart_of_takeSign behind) hds)
      rw [List.append_assoc, happ, hsign]
  simpa using takeNumber?_of_parts hminus hw hf he

/-- Only a fraction and an exponent are read behind a zero that a number begins with. -/
theorem exists_takeNumber?_of_leadingZero (hminus : minus = [] ∨ minus = ['-'])
    (behind : List Char) :
    ∃ fraction exponent rest, FractionPart fraction ∧ ExponentPart exponent ∧
      behind = fraction ++ exponent ++ rest ∧
      takeNumber? (minus ++ '0' :: behind) =
        some (minus ++ '0' :: (fraction ++ exponent), rest) := by
  have hfraction := (fractionPart_of_takeFraction behind).1
  have hbehind := takeFraction_append behind
  rcases hf : takeFraction behind with ⟨fraction, behind'⟩
  rw [hf] at hfraction hbehind
  have hexponent := (exponentPart_of_takeExponent behind').1
  have hbehind' := takeExponent_append behind'
  rcases he : takeExponent behind' with ⟨exponent, rest⟩
  rw [he] at hexponent hbehind'
  refine ⟨fraction, exponent, rest, hfraction, hexponent, ?_, ?_⟩
  · rw [List.append_assoc, hbehind', hbehind]
  · have hnumber := takeNumber?_of_parts hminus (s := '0' :: behind) rfl hf he
    simpa using hnumber

/-! ## Literals -/

/-- A literal is a number exactly if one is split off: no number begins with a quote. -/
theorem lexLiteral_eq_number_iff {s rest : List Char} {t : String} :
    lexLiteral s = .ok (.literal (.number t), rest) ↔ takeNumber? s = some (t.toList, rest) := by
  constructor
  · intro h
    cases lexes_of_lexLiteral h with
    | number hsource => rwa [String.toList_ofList]
  · intro h
    obtain ⟨hne, happ⟩ := append_of_takeNumber? h
    obtain ⟨c, s, rfl⟩ : ∃ c s', s = c :: s' := List.exists_cons_of_ne_nil (by simp [← happ, hne])
    have hquote : c ≠ '"' := by
      rintro rfl
      rcases head_of_takeNumber? h with hc | hc <;> simp at hc
    simp [lexLiteral, lexString, hquote, h]

/-- A literal is a number exactly if a number stands at the front of the text, and then it is the
longest one there. This holds of every text, since one that opens a string has no number at its
front. In particular an incomplete fraction and an incomplete exponent are left unread in full, and
behind a leading zero only a fraction and an exponent are read. -/
theorem lexLiteral_number_iff_longest :
    (∀ (s rest : List Char) (t : String), lexLiteral s = .ok (.literal (.number t), rest) ↔
      LongestMatch NumberText s t.toList rest) ∧
      (∀ s front : List Char, NumberText front → front <+: s →
        ∃ t rest, lexLiteral s = .ok (.literal (.number t), rest)) ∧
      (∀ {minus whole behind : List Char}, minus = [] ∨ minus = ['-'] → WholePart whole →
        Stops Char.isDigit behind →
        lexLiteral (minus ++ whole ++ '.' :: behind) =
          .ok (.literal (.number (String.ofList (minus ++ whole))), '.' :: behind)) ∧
      (∀ {minus whole fraction behind : List Char} {mark : Char}, minus = [] ∨ minus = ['-'] →
        WholePart whole → FractionPart fraction → mark = 'e' ∨ mark = 'E' →
        (∀ sign ds, SignPart sign → Digits ds → ¬ sign ++ ds <+: behind) →
        lexLiteral (minus ++ whole ++ fraction ++ mark :: behind) =
          .ok (.literal (.number (String.ofList (minus ++ whole ++ fraction))), mark :: behind)) ∧
      ∀ {minus behind : List Char}, minus = [] ∨ minus = ['-'] →
        ∃ fraction exponent rest, FractionPart fraction ∧ ExponentPart exponent ∧
          behind = fraction ++ exponent ++ rest ∧
          lexLiteral (minus ++ '0' :: behind) =
            .ok (.literal (.number (String.ofList (minus ++ '0' :: (fraction ++ exponent)))),
              rest) := by
  refine ⟨?_, ?_, ?_, ?_, ?_⟩
  · intro s rest t
    rw [lexLiteral_eq_number_iff, takeNumber?_eq_some_iff]
  · rintro s front hfront ⟨behind, rfl⟩
    obtain ⟨more, rest, hread⟩ := exists_takeNumber?_append hfront behind
    refine ⟨String.ofList (front ++ more), rest, ?_⟩
    rw [lexLiteral_eq_number_iff, String.toList_ofList, hread]
  · intro minus whole behind hminus hwhole hbehind
    rw [lexLiteral_eq_number_iff, String.toList_ofList]
    exact takeNumber?_of_incompleteFraction hminus hwhole hbehind
  · intro minus whole fraction behind mark hminus hwhole hfraction hmark hbehind
    rw [lexLiteral_eq_number_iff, String.toList_ofList]
    exact takeNumber?_of_incompleteExponent hminus hwhole hfraction hmark hbehind
  · intro minus behind hminus
    obtain ⟨fraction, exponent, rest, hf, he, happ, hread⟩ :=
      exists_takeNumber?_of_leadingZero hminus behind
    refine ⟨fraction, exponent, rest, hf, he, happ, ?_⟩
    rw [lexLiteral_eq_number_iff, String.toList_ofList, hread]

/-- A point that an exponent follows, an exponent mark with nothing but a sign, and a digit behind a
leading zero each end a number. -/
theorem lexLiteral_number_incomplete :
    lexLiteral "7.e5".toList = .ok (.literal (.number "7"), ".e5".toList) ∧
      lexLiteral "-0.50e+x".toList = .ok (.literal (.number "-0.50"), "e+x".toList) ∧
      LongestMatch NumberText "-012".toList "-0".toList "12".toList ∧
      ∃ t rest, lexLiteral "-0e".toList = .ok (.literal (.number t), rest) := by
  obtain ⟨hread, hexists, hfraction, hexponent, -⟩ := lexLiteral_number_iff_longest
  have hzero : WholePart ['0'] := .inl rfl
  have hseven : WholePart ['7'] := .inr ⟨⟨by simp, by simp⟩, by simp⟩
  have hfifty : FractionPart ['.', '5', '0'] := .inr ⟨['5', '0'], ⟨by simp, by simp⟩, rfl⟩
  have hplus : ∀ sign ds, SignPart sign → Digits ds → ¬ sign ++ ds <+: ['+', 'x'] := by
    rintro sign ds hsign ⟨hne, hds⟩ hfront
    obtain ⟨d, ds, rfl⟩ := List.exists_cons_of_ne_nil hne
    have hd := hds d (by simp)
    rcases hsign with rfl | rfl | rfl
    · obtain rfl : d = '+' := by simp_all
      simp at hd
    · obtain rfl : d = 'x' := by simp_all
      simp at hd
    · simp at hfront
  refine ⟨?_, ?_, ?_, ?_⟩
  · exact hfraction (.inl rfl) hseven (stops_cons rfl)
  · exact hexponent (.inr rfl) hzero hfifty (.inl rfl) hplus
  · exact (hread _ _ _).mp rfl
  · exact hexists _ ['-', '0'] (.mk (.inr rfl) hzero (.inl rfl) (.inl rfl)) ⟨['e'], rfl⟩

end JsonReader
