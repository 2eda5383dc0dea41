import JsonReader.Proofs.Parser.Built
import JsonReader.Proofs.Parser.Marks

/-!
# Where failures are located

`Parser.parse` reports the line and the column of the token where the cursor was left. That need not
be the token that the failure names.

## Main statements

* `Built.marks`: every failure of a parser of the library marks its cursor.
* `place?_of_parse_eq_error`: when a failure is located at the token that it names.
* `not_forall_place?_of_parse_eq_error`: it is not always.
-/

namespace JsonReader.Parser

variable {α : Type}

theorem marking_ofRun {f : Settings → Cursor → Parser α} (hf : ∀ s c, (f s c).Marking) :
    Marking ⟨fun s c => (f s c).run s c⟩ :=
  fun s c e h => hf s c s c e h

/-- By induction on how the parser is made, where the failures that a caller asks for name no
position of their own. -/
theorem Built.marks {asked : ParseError → Prop} (hasked : ∀ e, asked e → e.position? = none)
    {p : Parser α} (hp : Built asked p) : p.Marking := by
  induction hp with
  | token x => exact x.marking
  | scalar x hx => exact x.marking hx
  | expectText x hx expected fits => exact marking_expectText x hx expected fits
  | skipValue => exact marking_skipValue
  | ignoreObject => exact marking_ignoreObject
  | typed target d read => exact marking_typed target d read
  | pure a =>
    intro s c e h
    simp at h
  | throw e he =>
    intro s c e' h
    cases h
    exact .of_position?_eq_none (hasked e he)
  | bind hp _ ihp ihnext => exact marking_bind hp.forward ihp ihnext
  | or _ _ _ ihq => exact marking_or ihq
  | optional _ _ => exact marking_optional _
  | capture _ _ => exact marking_capture _
  | many _ _ => exact marking_many _
  | filter test hp ih => exact marking_filter test hp.forward ih
  | withContext message _ ih => exact marking_withContext message ih
  | ofRun _ ih => exact marking_ofRun ih
  | startedObjectUpdater hselect ih =>
    exact marking_startedObjectUpdater (fun name => (hselect name).forward) ih

theorem parse_eq_error_iff {p : Parser α} {s : Settings} {c : Cursor} {e : ParseError}
    {line column : Nat} :
    (p.parse s c).result = .error (.parse e line column) ↔
      (p.run s c).result = .error e ∧ (p.run s c).cursor.location = (line, column) := by
  cases h : (p.run s c).result with
  | ok a => simp [parse, h, mapError_ok]
  | error e' => simp [parse, h, mapError_error, Prod.ext_iff]

/-- A failure is located at the token behind which the cursor was left, or at the first one where
nothing was read. So the location is that of the token of its position exactly if the two numbers
are the same.

Where the failures that a caller asks for name no position of their own, more can be said. Outside
of objects the location is right unless a container was read in full and not decoded. In an object
the cursor stands behind the name of the property that failed, if no other name comes at once; then
the location is right only if the name itself is the token of the position. -/
theorem place?_of_parse_eq_error {asked : ParseError → Prop} {p : Parser α} (hp : Built asked p)
    {s : Settings} {c : Cursor} (hplaces : DistinctPlaces c.tokens) {e : ParseError}
    {line column n : Nat} (h : (p.parse s c).result = .error (.parse e line column))
    (hn : e.position? = some n) (hpos : 1 ≤ n) :
    (place? c.tokens n = some (line, column) ↔
        n = max 1 (p.parse s c).cursor.position ∧ n ≤ c.tokens.length) ∧
      ((∀ e', asked e' → e'.position? = none) →
        (e.property? = none →
          (place? c.tokens n = some (line, column) ↔
            ¬ (e.isConversion = true ∧ StartAt c.tokens n))) ∧
        ∀ name, e.property? = some name →
          ∃ k, k ≤ n ∧ k ≤ (p.parse s c).cursor.position ∧ NameAt c.tokens k name ∧
            ((∀ other, ¬ NameAt c.tokens (k + 1) other) →
              (place? c.tokens n = some (line, column) ↔ n = k))) := by
  obtain ⟨hrun, hlocation⟩ := parse_eq_error_iff.mp h
  have hcursor : (p.parse s c).cursor = (p.run s c).cursor := rfl
  have htokens := (hp.forward s c).tokens_eq
  have hright := (p.run s c).cursor.place?_eq_location_iff (htokens ▸ hplaces) hpos
  rw [htokens, hlocation] at hright
  rw [hcursor]
  refine ⟨hright, fun hasked => ?_⟩
  obtain ⟨-, hmarks⟩ := hp.marks hasked s c e hrun n hn
  have hlength := (p.run s c).cursor.length_tokens
  rw [htokens] at hmarks hlength
  constructor
  · intro hproperty
    rw [hproperty] at hmarks
    obtain ⟨hle, hiff⟩ := hmarks
    rw [hright, ← hiff]
    omega
  · intro name hproperty
    rw [hproperty] at hmarks
    obtain ⟨k, hk, hkn, hkm, hname, hend⟩ := hmarks
    refine ⟨k, hkn, hkm, hname, ?_⟩
    intro hno
    rw [hright, hend hno]
    have := hend hno
    omega

/-- The tokens of an object with one entry, whose value is a number in column 7. -/
def numberEntry : List LocatedToken :=
  [⟨.objectStart, ⟨0, 1, 1, 1⟩⟩, ⟨.propertyName "a", ⟨1, 4, 1, 2⟩⟩, ⟨.number "1", ⟨6, 7, 1, 7⟩⟩,
    ⟨.objectEnd, ⟨7, 8, 1, 8⟩⟩]

/-- An object whose values are strings, the last of which is kept. -/
def lastString : Parser (Option String) :=
  object (fun _ => Scalar.string.parser.updater fun text _ => some text) none

theorem built_lastString (asked : ParseError → Prop) : Built asked lastString :=
  .object (fun _ => .map _ (.scalar _ (by decide))) none

theorem parse_lastString :
    (lastString.parse {} (Cursor.ofTokens numberEntry)).result =
      .error (.parse (.property "a" (.tokenMismatch "String" .number 3)) 1 2) := by
  rfl

/-- The number is the third token and stands in column 7; the failure is located at the name, which
is the second one. -/
theorem place?_of_parse_lastString :
    DistinctPlaces numberEntry ∧
      (place? numberEntry 3 = some (1, 2) ↔ 3 = max 1 2 ∧ 3 ≤ numberEntry.length) ∧
      ∃ k, k ≤ 3 ∧ k ≤ 2 ∧ NameAt numberEntry k "a" ∧
        ((∀ other, ¬ NameAt numberEntry (k + 1) other) →
          (place? numberEntry 3 = some (1, 2) ↔ 3 = k)) := by
  have hplaces : DistinctPlaces numberEntry := by
    rw [DistinctPlaces]
    decide
  obtain ⟨hright, hmore⟩ :=
    place?_of_parse_eq_error (c := Cursor.ofTokens numberEntry)
      (built_lastString (·.position? = none)) hplaces parse_lastString rfl (by decide)
  exact ⟨hplaces, hright, (hmore fun _ he => he).2 "a" rfl⟩

/-- Not every failure is located at the token that it names. -/
theorem not_forall_place?_of_parse_eq_error :
    ¬ ∀ {α : Type} {asked : ParseError → Prop} {p : Parser α}, Built asked p →
      ∀ {s : Settings} {c : Cursor} {e : ParseError} {line column n : Nat},
        (p.parse s c).result = .error (.parse e line column) → e.position? = some n → 1 ≤ n →
        place? c.tokens n = some (line, column) := by
  intro h
  have hplace := h (built_lastString fun _ => False) parse_lastString rfl (by decide)
  revert hplace
  decide

end JsonReader.Parser
