import JsonReader.Proofs.Object.Ignored
import Mathlib.Logic.Function.Conjugate

/-!
# The order of properties

Where changes for different names may be made in either order, the order of the properties of an
object only matters among properties of one name. Each parser takes the same tokens wherever its
property stands, and a change is moved past those of other names one at a time.

## Main definitions

* `Parser.NamesCommute` says that changes for different names may be made in either order.
* `Parser.TakesEntries` divides the tokens of an object into the entries that the parsers take.
* `Parser.Rearranged` relates entries to the same entries in another order.

## Main statements

* `ReadsEntries.rearranged`: rearranged entries come to the same change.
* `object_of_rearranged`: rearranged entries come to the same object.
-/

namespace JsonReader.Parser

variable {α : Type} {s : Settings} {select : Selector α} {us : List (Updater α)}
  {es es' front back : List (String × List Token)}

/-- Whatever changes the parsers of two different names come to, these may be made in either
order. -/
def NamesCommute (select : Selector α) (s : Settings) : Prop :=
  ∀ ⦃name name' : String⦄ ⦃c c' : Cursor⦄ ⦃u v : Updater α⦄, name ≠ name' →
    ((select name).run s c).result = .ok u → ((select name').run s c').result = .ok v →
      Function.Commute u.apply v.apply

/-- Behind the tokens `passed`, the parsers of the names take the values of the entries one after
the other, each of them exactly the tokens of its value, and the object ends behind them. -/
inductive TakesEntries (select : Selector α) (s : Settings) :
    List LocatedToken → List LocatedToken → List (String × List Token) → Prop
  | done {passed rest : List LocatedToken} {t : LocatedToken} (ht : t.token = .objectEnd) :
      TakesEntries select s passed (t :: rest) []
  | entry {passed tokens rest : List LocatedToken} {t : LocatedToken} {name : String}
      {u : Updater α} {es : List (String × List Token)} (ht : t.token = .propertyName name)
      (hrun : ((select name).run s ⟨t :: passed, tokens ++ rest⟩).located =
        .ok (u, ⟨tokens.reverse ++ t :: passed, rest⟩))
      (h : TakesEntries select s (tokens.reverse ++ t :: passed) rest es) :
      TakesEntries select s passed (t :: (tokens ++ rest)) ((name, tokens.map (·.token)) :: es)

/-- The same entries in another order, those of any one name in the same order as before. -/
structure Rearranged (es es' : List (String × List Token)) : Prop where
  perm : es.Perm es'
  filter_eq : ∀ name, es.filter (·.1 = name) = es'.filter (·.1 = name)

/-- The entry that comes first stands somewhere in the other order, behind entries of other names,
and the others are rearranged around it. -/
theorem Rearranged.exists_of_cons {e : String × List Token} (h : Rearranged (e :: es) es') :
    ∃ front back, es' = front ++ e :: back ∧ (∀ x ∈ front, x.1 ≠ e.1) ∧
      Rearranged es (front ++ back) := by
  have hown : es'.filter (·.1 = e.1) = e :: es.filter (·.1 = e.1) := by
    rw [← h.filter_eq, List.filter_cons_of_pos (by simp)]
  obtain ⟨front, back, rfl, hfront, -, hback⟩ := List.filter_eq_cons_iff.mp hown
  refine ⟨front, back, rfl, by simpa using hfront,
    ⟨(h.perm.trans List.perm_middle).cons_inv, ?_⟩⟩
  intro name
  by_cases hname : e.1 = name
  · subst hname
    rw [List.filter_append, List.filter_eq_nil_iff.mpr hfront, hback, List.nil_append]
  · have hall := h.filter_eq name
    simpa [hname] using hall

/-- Tokens that are read are read in some run. -/
theorem Reads.exists_run {β : Type} {p : Parser β} {ts : List Token} {b : β} (h : p.Reads s ts b) :
    ∃ c, (p.run s c).result = .ok b := by
  have htokens : (ts.map fun t => (⟨t, {}⟩ : LocatedToken)).map (·.token) = ts := by
    simp [Function.comp_def]
  exact ⟨_, (Outcome.located_eq_ok_iff.mp (h _ htokens [] [])).1⟩

/-- An entry may be read behind entries of other names. By induction on these, past which its change
is moved. -/
theorem ReadsEntries.moved (hcommute : NamesCommute select s) {e : String × List Token}
    {u : Updater α} (hu : (select e.1).Reads s e.2 u)
    (hes : ReadsEntries select s (front ++ back) us) (hfront : ∀ x ∈ front, x.1 ≠ e.1) :
    ∃ us', ReadsEntries select s (front ++ e :: back) us' ∧
      Updater.sequence us' = Updater.sequence (u :: us) := by
  induction front generalizing us with
  | nil => exact ⟨u :: us, .cons hu hes, rfl⟩
  | cons x front ih =>
    obtain ⟨hx, hfront⟩ := List.forall_mem_cons.mp hfront
    obtain ⟨v, us, hv, hrest, rfl⟩ := List.forall₂_cons_left_iff.mp hes
    obtain ⟨us', hes', heq⟩ := ih hrest hfront
    refine ⟨v :: us', .cons hv hes', ?_⟩
    obtain ⟨c, hc⟩ := hv.exists_run
    obtain ⟨c', hc'⟩ := hu.exists_run
    ext a
    calc (Updater.sequence (v :: us')).apply a
        = (Updater.sequence (u :: us)).apply (v.apply a) := by rw [Updater.apply_sequence_cons, heq]
      _ = (Updater.sequence us).apply (v.apply (u.apply a)) := by
        rw [Updater.apply_sequence_cons, hcommute hx hc hc' a]
      _ = (Updater.sequence (u :: v :: us)).apply a := rfl

/-- Rearranged entries are read as well, and they come to the same change. By induction on the
entries: the first one is moved to where it stands among the others. -/
theorem ReadsEntries.rearranged (hcommute : NamesCommute select s)
    (hes : ReadsEntries select s es us) (h : Rearranged es es') :
    ∃ us', ReadsEntries select s es' us' ∧ Updater.sequence us' = Updater.sequence us := by
  induction hes generalizing es' with
  | nil =>
    cases h.perm.symm.eq_nil
    exact ⟨[], .nil, rfl⟩
  | cons hu _ ih =>
    obtain ⟨front, back, rfl, hfront, hrest⟩ := h.exists_of_cons
    obtain ⟨us, hes, heq⟩ := ih hrest
    obtain ⟨us', hes', heq'⟩ := hes.moved hcommute hu hfront
    refine ⟨us', hes', ?_⟩
    rw [heq']
    ext a
    rw [Updater.apply_sequence_cons, Updater.apply_sequence_cons, heq]

/-- What the parsers of the names take is what they read elsewhere. -/
theorem TakesEntries.exists_readsEntries (hselect : ∀ name, (select name).Local)
    {passed ahead : List LocatedToken} (h : TakesEntries select s passed ahead es) :
    ∃ us taken rest, ahead = taken ++ rest ∧
      taken.map (·.token) = entryTokens es ++ [.objectEnd] ∧ ReadsEntries select s es us := by
  induction h with
  | @done passed rest t ht => exact ⟨[], [t], rest, rfl, by simp [ht, entryTokens], .nil⟩
  | @entry passed tokens rest t name u es ht hrun _ ih =>
    obtain ⟨us, taken, rest, rfl, htaken, hes⟩ := ih
    refine ⟨u :: us, t :: (tokens ++ taken), rest, by simp, ?_,
      .cons ((hselect name).reads hrun) hes⟩
    simp [ht, htaken, entryTokens_cons]

/-- The order of properties of different names makes no difference. Where an object is read, the
parser of each name taking exactly the tokens of the value, the same entries in an order that
differs only between names come to the same value and are read up to the end of the object, wherever
it stands and whatever follows. -/
theorem object_of_rearranged (hselect : ∀ name, (select name).Local)
    (hcommute : NamesCommute select s) {initial a : α} {passed ahead : List LocatedToken}
    {start : LocatedToken} {d : Cursor} (hstart : start.token = .objectStart)
    (h : ((object select initial).run s ⟨passed, start :: ahead⟩).located = .ok (a, d))
    (hentries : TakesEntries select s (start :: passed) ahead es) (hes : Rearranged es es') :
    (object select initial).Reads s (objectTokens es') a := by
  obtain ⟨us, taken, rest, rfl, htaken, hreads⟩ := hentries.exists_readsEntries hselect
  have htokens : (start :: taken).map (·.token) = objectTokens es := by
    rw [List.map_cons, hstart, htaken, objectTokens]
  have hsame := h.symm.trans (Reads.object hreads initial (start :: taken) htokens passed rest)
  obtain ⟨us', hreads', heq⟩ := hreads.rearranged hcommute hes
  have hread := Reads.object hreads' initial
  rw [heq] at hread
  rwa [(Prod.mk.inj (Except.ok.inj hsame)).1]

/-- One more string of a name. -/
def addString (name text : String) : Updater (String → List String) :=
  ⟨fun strings => Function.update strings name (strings name ++ [text])⟩

/-- The strings of each name, in textual order. -/
def stringsByName : Selector (String → List String) := fun name =>
  addString name <$> Scalar.string.parser

theorem reads_stringsByName (name text : String) :
    (stringsByName name).Reads s [.string text] (addString name text) :=
  (Reads.of_takesOne (takesOne_scalar .string) rfl).map _

theorem namesCommute_stringsByName : NamesCommute stringsByName s := by
  have hchange : ∀ {name : String} {c : Cursor} {u : Updater (String → List String)},
      ((stringsByName name).run s c).result = .ok u → ∃ text, addString name text = u := by
    intro name c u hu
    rw [stringsByName, run_map] at hu
    cases hr : (Scalar.string.parser.run s c).result with
    | error e => simp [hr, Except.map] at hu
    | ok text =>
      simp only [hr, Except.map, Except.ok.injEq] at hu
      exact ⟨text, hu⟩
  intro name name' c c' u v hne hu hv strings
  obtain ⟨text, rfl⟩ := hchange hu
  obtain ⟨text', rfl⟩ := hchange hv
  simp only [addString, Function.update_of_ne hne, Function.update_of_ne hne.symm]
  exact Function.update_comm hne.symm _ _ strings

/-- Three strings, two of them of one name. -/
def stringEntries : List (String × List Token) :=
  [("a", [.string "x"]), ("b", [.string "y"]), ("a", [.string "z"])]

/-- The same strings, the one of the other name in front. -/
def rearrangedEntries : List (String × List Token) :=
  [("b", [.string "y"]), ("a", [.string "x"]), ("a", [.string "z"])]

theorem rearranged_stringEntries : Rearranged stringEntries rearrangedEntries where
  perm := .swap _ _ _
  filter_eq name := by
    rw [stringEntries, rearrangedEntries]
    by_cases ha : "a" = name
    · have hb : "b" ≠ name := by
        rintro rfl
        simp at ha
      simp [ha, hb]
    · by_cases hb : "b" = name
      · simp [ha, hb]
      · simp [ha, hb]

theorem object_rearrangedEntries :
    let start : LocatedToken := ⟨.objectStart, {}⟩
    let ts : List LocatedToken := (objectTokens stringEntries).tail.map fun t => ⟨t, {}⟩
    let ts' : List LocatedToken := (objectTokens rearrangedEntries).map fun t => ⟨t, {}⟩
    ∃ strings, strings "a" = ["x", "z"] ∧ strings "b" = ["y"] ∧
      ((object stringsByName fun _ => []).run {} ⟨[], start :: ts⟩).located =
        .ok (strings, ⟨ts.reverse ++ [start], []⟩) ∧
      ((object stringsByName fun _ => []).run {}
          ⟨[⟨.arrayStart, {}⟩], ts' ++ [⟨.null, {}⟩]⟩).located =
        .ok (strings, ⟨ts'.reverse ++ [⟨.arrayStart, {}⟩], [⟨.null, {}⟩]⟩) := by
  intro start ts ts'
  have hselect : ∀ name, (stringsByName name).Local := fun _ => (Local.scalar .string).map _
  have hreads : ReadsEntries stringsByName {} stringEntries
      [addString "a" "x", addString "b" "y", addString "a" "z"] :=
    .cons (reads_stringsByName _ _) (.cons (reads_stringsByName _ _)
      (.cons (reads_stringsByName _ _) .nil))
  have hread := Reads.object hreads (fun _ => []) (start :: ts)
    (by simp [start, ts, objectTokens, Function.comp_def]) [] []
  rw [List.append_nil, List.append_nil, List.reverse_cons] at hread
  have hentries : TakesEntries stringsByName {} [start] ts stringEntries :=
    .entry rfl (reads_stringsByName "a" "x" [⟨.string "x", {}⟩] rfl _ _)
      (.entry rfl (reads_stringsByName "b" "y" [⟨.string "y", {}⟩] rfl _ _)
        (.entry rfl (reads_stringsByName "a" "z" [⟨.string "z", {}⟩] rfl _ _) (.done rfl)))
  have hall := object_of_rearranged hselect namesCommute_stringsByName rfl hread hentries
    rearranged_stringEntries
  refine ⟨_, ?_, ?_, hread, hall ts' (by simp [ts', Function.comp_def]) _ _⟩
  · simp [addString, Function.update]
  · simp [addString, Function.update]

end JsonReader.Parser
