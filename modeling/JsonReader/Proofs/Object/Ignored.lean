import JsonReader.Proofs.Object.Entries

/-!
# Ignored properties

A property that is read and dropped may stand anywhere between the entries of an object, with any
value. Skipping takes exactly the value, the parsers of the other entries take the same tokens as
before although these stand elsewhere, and no change is made for it.

## Main definitions

* `Parser.HasEntries` divides the tokens of an object into the entries that the engine reads.
* `Parser.Padded` relates entries to the same entries with ignored ones between them.

## Main statements

* `object_of_padded`: ignored entries make no difference to the object that is read.
-/

namespace JsonReader.Parser

variable {α : Type} {s : Settings} {select : Selector α} {ts : List Token}
  {es es' : List (String × List Token)} {us : List (Updater α)}

/-- The tokens are those of an object with these entries, and the parser of each name reads the
tokens of its value. -/
def HasEntries (select : Selector α) (s : Settings) (ts : List Token)
    (es : List (String × List Token)) : Prop :=
  ts = objectTokens es ∧ ∃ us, ReadsEntries select s es us

/-- The same entries in the same order, with entries between them whose names are ignored and whose
values are any. -/
inductive Padded (select : Selector α) :
    List (String × List Token) → List (String × List Token) → Prop
  | nil : Padded select [] []
  | keep (e : String × List Token) {es es' : List (String × List Token)}
      (h : Padded select es es') : Padded select (e :: es) (e :: es')
  | ignored {name : String} (hname : select name = ignoreProperty) (v : Tree)
      {es es' : List (String × List Token)} (h : Padded select es es') :
      Padded select es ((name, v.flatten) :: es')

theorem Reads.ignoreProperty (h : Cursor.Skipped ts) :
    (Parser.ignoreProperty : Parser (Updater α)).Reads s ts .identity :=
  (Reads.skipValue h).map _

theorem Local.ignoreProperty : (Parser.ignoreProperty : Parser (Updater α)).Local :=
  Local.skipValue.map _

/-- Ignored entries are read as well, and all entries come to the same change. -/
theorem ReadsEntries.padded (hes : ReadsEntries select s es us) (h : Padded select es es') :
    ∃ us', ReadsEntries select s es' us' ∧ Updater.sequence us' = Updater.sequence us := by
  induction h generalizing us with
  | nil => exact ⟨us, hes, rfl⟩
  | keep e _ ih =>
    obtain ⟨u, us, hu, hrest, rfl⟩ := List.forall₂_cons_left_iff.mp hes
    obtain ⟨us', hes', heq⟩ := ih hrest
    exact ⟨u :: us', .cons hu hes', Updater.ext fun a => by simp [heq]⟩
  | ignored hname v _ ih =>
    obtain ⟨us', hes', heq⟩ := ih hes
    have hv := Reads.ignoreProperty (α := α) (s := s) (Cursor.skipped_flatten v)
    rw [← hname] at hv
    exact ⟨.identity :: us', .cons hv hes', Updater.ext fun a => by simp [heq]⟩

/-- Ignored entries make no difference. Where an object is read, its tokens are divided into
entries, and with ignored entries put between these, anywhere and any number of them, the object
comes to the same value and is read up to its end, wherever it stands and whatever follows. -/
theorem object_of_padded (hselect : ∀ name, select name ≠ ignoreProperty → (select name).Local)
    {initial a : α} {passed ahead : List LocatedToken} {d : Cursor}
    (h : ((object select initial).run s ⟨passed, ahead⟩).located = .ok (a, d)) :
    ∃ taken rest, ahead = taken ++ rest ∧ d = ⟨taken.reverse ++ passed, rest⟩ ∧
      (∃ es, HasEntries select s (taken.map (·.token)) es) ∧
      ∀ es es', HasEntries select s (taken.map (·.token)) es → Padded select es es' →
        (object select initial).Reads s (objectTokens es') a := by
  have hlocal : ∀ name, (select name).Local := by
    intro name
    by_cases hname : select name = ignoreProperty
    · exact hname ▸ .ignoreProperty
    · exact hselect name hname
  obtain ⟨es, us, taken, rest, rfl, rfl, htaken, hes, rfl⟩ := exists_entries_of_object hlocal h
  refine ⟨taken, rest, rfl, rfl, ⟨es, htaken, us, hes⟩, ?_⟩
  rintro es₂ es' ⟨htaken₂, us₂, hes₂⟩ hpadded
  -- another division of the same tokens comes to the same value, because the run is the same
  have hsame := h.symm.trans (Reads.object hes₂ initial taken htaken₂ passed rest)
  obtain ⟨us', hes', heq⟩ := hes₂.padded hpadded
  have hread := Reads.object hes' initial
  rw [heq] at hread
  rwa [(Prod.mk.inj (Except.ok.inj hsame)).1]

/-- The string of one property. All others are ignored. -/
def onlyString (kept : String) : Selector (Option String) := fun name =>
  if name = kept then Scalar.string.parser.updater fun text _ => some text else ignoreProperty

/-- An entry that is kept. -/
def keptEntry : List (String × List Token) := [("a", [.string "x"])]

/-- The same entry behind one that is ignored, and before another one. -/
def paddedEntries : List (String × List Token) :=
  [("b", (Tree.object [("a", .array [.null])]).flatten), ("a", [.string "x"]),
    ("b", (Tree.string "y").flatten)]

theorem object_paddedEntries :
    let ts : List LocatedToken := (objectTokens keptEntry).map fun t => ⟨t, {}⟩
    let ts' : List LocatedToken := (objectTokens paddedEntries).map fun t => ⟨t, {}⟩
    ((object (onlyString "a") none).run {} ⟨[], ts⟩).located =
        .ok (some "x", ⟨ts.reverse, []⟩) ∧
      ((object (onlyString "a") none).run {} ⟨[⟨.arrayStart, {}⟩], ts' ++ [⟨.null, {}⟩]⟩).located =
        .ok (some "x", ⟨ts'.reverse ++ [⟨.arrayStart, {}⟩], [⟨.null, {}⟩]⟩) := by
  intro ts ts'
  have hselect : ∀ name, onlyString "a" name ≠ ignoreProperty → (onlyString "a" name).Local := by
    intro name hname
    by_cases h : name = "a"
    · rw [onlyString, if_pos h]
      exact (Local.scalar .string).map _
    · exact absurd (if_neg h) hname
  have hkept : ((object (onlyString "a") none).run {} ⟨[], ts⟩).located =
      .ok (some "x", ⟨ts.reverse, []⟩) := by rfl
  have hpadded : Padded (onlyString "a") keptEntry paddedEntries :=
    .ignored (if_neg (by decide)) _ (.keep _ (.ignored (if_neg (by decide)) _ .nil))
  obtain ⟨taken, rest, htaken, hcursor, -, hall⟩ := object_of_padded hselect hkept
  obtain rfl : rest = [] := (congrArg Cursor.ahead hcursor).symm
  obtain rfl : ts = taken := by rw [htaken, List.append_nil]
  have hstring : (onlyString "a" "a").Reads {} [.string "x"] _ :=
    (Reads.of_takesOne (takesOne_scalar .string) rfl).map _
  have hentries : HasEntries (onlyString "a") {} (ts.map (·.token)) keptEntry :=
    ⟨by simp [ts, Function.comp_def], _, .cons hstring .nil⟩
  have hread := hall _ _ hentries hpadded
  exact ⟨hkept, hread ts' (by simp [ts', Function.comp_def]) _ _⟩

end JsonReader.Parser
