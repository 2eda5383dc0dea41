import JsonReader.Proofs.Parser.Local
import Mathlib.Data.List.Forall2

/-!
# Objects as lists of entries

An object that is read is a list of entries, each one a name and the tokens that the parser of the
name takes. The engine finds that list although it tries an entry too many, keeps failures as values
and looks for the end only afterwards: a try that fails takes nothing, and where a failure was kept
there is no object.

## Main definitions

* `Parser.entryTokens` and `Parser.objectTokens` lay out entries as tokens.
* `Parser.ReadsEntries` relates entries to the changes that the parsers of their names come to.

## Main statements

* `Reads.startedObjectUpdater`: entries that are read one by one are read as an object.
* `exists_entries_of_startedObjectUpdater`: what is read as an object is such a list.
* `Local.startedObjectUpdater`: objects of local parsers are local.
-/

namespace JsonReader.Parser

variable {α β : Type} {s : Settings} {c d : Cursor} {select : Selector α}

/-- The tokens of entries, each a name with the tokens of its value. -/
def entryTokens (entries : List (String × List Token)) : List Token :=
  entries.flatMap fun e => .propertyName e.1 :: e.2

/-- The tokens of an object with these entries. -/
def objectTokens (entries : List (String × List Token)) : List Token :=
  .objectStart :: (entryTokens entries ++ [.objectEnd])

/-- The tokens of each value come to a change, wherever they stand. -/
def ReadsEntries (select : Selector α) (s : Settings) :
    List (String × List Token) → List (Updater α) → Prop :=
  List.Forall₂ fun e u => (select e.1).Reads s e.2 u

theorem entryTokens_cons (name : String) (ts : List Token)
    (entries : List (String × List Token)) :
    entryTokens ((name, ts) :: entries) = .propertyName name :: ts ++ entryTokens entries :=
  List.flatMap_cons

/-! ## One entry -/

theorem Reads.propertyEntry {name : String} {ts : List Token} {u : Updater α}
    (h : (select name).Reads s ts u) :
    (Parser.propertyEntry select).Reads s (.propertyName name :: ts) (.ok u) := by
  intro tokens htokens passed rest
  obtain ⟨t, tokens, rfl, ht, hrest⟩ := List.map_eq_cons_iff.mp htokens
  obtain ⟨hresult, hcursor⟩ := Outcome.located_eq_ok_iff.mp (h tokens hrest (t :: passed) rest)
  rw [List.cons_append, run_propertyEntry_name select s passed _ ht, hresult, hcursor]
  simp [Outcome.located, Except.map]

/-- An entry without a failure is a name and what its parser takes. -/
theorem exists_name_of_propertyEntry {passed ahead : List LocatedToken} {u : Updater α}
    (h : ((propertyEntry select).run s ⟨passed, ahead⟩).located = .ok (.ok u, d)) :
    ∃ t rest name, ahead = t :: rest ∧ t.token = .propertyName name ∧
      ((select name).run s ⟨t :: passed, rest⟩).located = .ok (u, d) := by
  obtain ⟨hresult, hcursor⟩ := Outcome.located_eq_ok_iff.mp h
  cases ahead with
  | nil =>
    obtain ⟨e, he⟩ := run_propertyEntry_nil select s passed
    cases hresult.symm.trans he
  | cons t ahead =>
    by_cases hname : ∃ name, t.token = .propertyName name
    · obtain ⟨name, ht⟩ := hname
      refine ⟨t, ahead, name, rfl, ht, ?_⟩
      rw [run_propertyEntry_name select s passed ahead ht] at hresult hcursor
      cases hr : ((select name).run s ⟨t :: passed, ahead⟩).result with
      | ok u' =>
        rw [hr] at hresult hcursor
        cases hresult
        exact Outcome.located_eq_ok_iff.mpr ⟨hr, hcursor⟩
      | error e => simp [hr] at hresult
    · obtain ⟨e, he⟩ := run_propertyEntry_other select s passed ahead
        (mt Token.kind_eq_propertyName_iff.mp hname)
      cases hresult.symm.trans he

/-! ## Repetition -/

/-- Parts that are read one by one are read by repetition, up to where the next try fails. -/
theorem located_manyAtMost_of_reads {p : Parser β} {parts : List (List Token)} {bs : List β}
    (h : List.Forall₂ (p.Reads s) parts bs) {rest : List LocatedToken}
    (hstop : ∀ passed, ∃ e, (p.run s ⟨passed, rest⟩).result = .error e) {count : Nat}
    (hcount : parts.length < count) {tokens : List LocatedToken}
    (htokens : tokens.map (·.token) = parts.flatten) (passed : List LocatedToken) :
    (p.manyAtMost s count ⟨passed, tokens ++ rest⟩).located =
      .ok (bs, ⟨tokens.reverse ++ passed, rest⟩) := by
  induction h generalizing count tokens passed with
  | nil =>
    cases List.map_eq_nil_iff.mp htokens
    obtain ⟨count, rfl⟩ := Nat.exists_eq_succ_of_ne_zero (Nat.ne_of_gt hcount)
    obtain ⟨e, he⟩ := hstop passed
    exact Outcome.located_eq_ok_iff.mpr (manyAtMost_of_error he count)
  | cons hpart _ ih =>
    obtain ⟨count, rfl⟩ := Nat.exists_eq_succ_of_ne_zero (Nat.ne_zero_of_lt hcount)
    obtain ⟨first, tokens, rfl, hfirst, hrest⟩ := List.map_eq_append_iff.mp htokens
    obtain ⟨hresult, hcursor⟩ :=
      Outcome.located_eq_ok_iff.mp (hpart first hfirst passed (tokens ++ rest))
    obtain ⟨hresults, hcursors⟩ := Outcome.located_eq_ok_iff.mp
      (ih (Nat.lt_of_succ_lt_succ hcount) hrest (first.reverse ++ passed))
    rw [List.append_assoc, manyAtMost_of_ok hresult, hcursor, hresults, hcursors]
    simp [Outcome.located, Except.map]

theorem collect_map_ok (as : List β) : collect (as.map .ok) = .ok as := by
  induction as with
  | nil => rfl
  | cons a as ih => simp [collect, ih, Except.map]

theorem exists_of_collect_cons {r : ParseResult β} {rs : List (ParseResult β)} {bs : List β}
    (h : collect (r :: rs) = .ok bs) :
    ∃ b bs', r = .ok b ∧ bs = b :: bs' ∧ collect rs = .ok bs' := by
  cases r with
  | error e => cases h
  | ok b =>
    cases hrs : collect rs with
    | error e => simp [collect, hrs, Except.map] at h
    | ok bs' =>
      simp only [collect, hrs, Except.map, Except.ok.injEq] at h
      exact ⟨b, bs', rfl, h.symm, rfl⟩

/-- Where no failure was kept, repetition has taken entries that are read one by one. By induction
on the attempts. -/
theorem exists_entries_of_manyAtMost (hselect : ∀ name, (select name).Local) {count : Nat}
    {passed ahead : List LocatedToken} {results : List (ParseResult (Updater α))}
    {us : List (Updater α)}
    (h : ((propertyEntry select).manyAtMost s count ⟨passed, ahead⟩).located = .ok (results, d))
    (hresults : collect results = .ok us) :
    ∃ es taken rest, ahead = taken ++ rest ∧ d = ⟨taken.reverse ++ passed, rest⟩ ∧
      taken.map (·.token) = entryTokens es ∧ ReadsEntries select s es us := by
  induction count generalizing passed ahead results us with
  | zero =>
    cases h
    cases hresults
    exact ⟨[], [], ahead, rfl, rfl, rfl, .nil⟩
  | succ count ih =>
    cases hr : ((propertyEntry select).run s ⟨passed, ahead⟩).result with
    | error e =>
      rw [Outcome.located_eq_ok_iff.mpr (manyAtMost_of_error hr count)] at h
      cases h
      cases hresults
      exact ⟨[], [], ahead, rfl, rfl, rfl, .nil⟩
    | ok r =>
      obtain ⟨results', hrest⟩ := exists_manyAtMost_eq_ok (propertyEntry select) s count
        ((propertyEntry select).run s ⟨passed, ahead⟩).cursor
      rw [manyAtMost_of_ok hr, hrest] at h
      obtain ⟨hresult, hd⟩ := Outcome.located_eq_ok_iff.mp h
      cases hresult
      obtain ⟨u, us', rfl, rfl, hresults'⟩ := exists_of_collect_cons hresults
      obtain ⟨t, ahead, name, rfl, ht, hrun⟩ :=
        exists_name_of_propertyEntry (Outcome.located_eq_ok_iff.mpr ⟨hr, rfl⟩)
      obtain ⟨first, ahead, rfl, hcursor, hfirst⟩ := hselect name s _ _ u _ hrun
      rw [hcursor] at hrest hd
      obtain ⟨es, taken, rest, rfl, rfl, htaken, hes⟩ :=
        ih (Outcome.located_eq_ok_iff.mpr ⟨hrest, hd⟩) hresults'
      refine ⟨(name, first.map (·.token)) :: es, t :: first ++ taken, rest, by simp, by simp, ?_,
        .cons hfirst hes⟩
      simp [entryTokens_cons, ht, htaken]

/-! ## Objects -/

theorem length_le_length_entryTokens (es : List (String × List Token)) :
    es.length ≤ (entryTokens es).length := by
  induction es with
  | nil => exact Nat.le_refl _
  | cons e es ih =>
    simp only [entryTokens, List.flatMap_cons, List.length_append, List.length_cons] at ih ⊢
    omega

/-- Entries that are read one by one are read as an object, up to its end. -/
theorem Reads.startedObjectUpdater {es : List (String × List Token)} {us : List (Updater α)}
    (h : ReadsEntries select s es us) :
    (Parser.startedObjectUpdater select).Reads s (entryTokens es ++ [.objectEnd])
      (Updater.sequence us) := by
  intro tokens htokens passed rest
  obtain ⟨tokens, last, rfl, hentries, hlast⟩ := List.map_eq_append_iff.mp htokens
  obtain ⟨t, last, rfl, ht, hnil⟩ := List.map_eq_cons_iff.mp hlast
  cases List.map_eq_nil_iff.mp hnil
  have hparts : List.Forall₂ ((Parser.propertyEntry select).Reads s)
      (es.map fun e => .propertyName e.1 :: e.2) (us.map Except.ok) := by
    rw [List.forall₂_map_left_iff, List.forall₂_map_right_iff]
    exact h.imp fun _ _ => .propertyEntry
  have hend : t.token.kind ≠ .propertyName := by simp [ht, Token.kind]
  have hcount : es.length < (tokens ++ t :: rest).length + 1 := by
    have hle := length_le_length_entryTokens es
    rw [← hentries, List.length_map] at hle
    simp only [List.length_append]
    omega
  have hmany : ((Parser.propertyEntry select).many.run s ⟨passed, tokens ++ t :: rest⟩).located =
      .ok (us.map Except.ok, ⟨tokens.reverse ++ passed, t :: rest⟩) :=
    located_manyAtMost_of_reads hparts (run_propertyEntry_other select s · rest hend)
      (by rwa [List.length_map]) (by rw [hentries, entryTokens, List.flatMap_def]) passed
  have hclose : (ofResult (collect (us.map Except.ok)) >>= fun updaters =>
      TokenPattern.endObject.parser >>= fun _ => Pure.pure (Updater.sequence updaters)).Reads s
      [.objectEnd] (Updater.sequence us) := by
    rw [collect_map_ok]
    exact (Reads.pure us).bind ((Reads.of_takesOne (takesOne_token rfl) rfl).bind (.pure _))
  rw [List.append_assoc, List.singleton_append, Parser.startedObjectUpdater,
    located_bind_of_ok hmany]
  refine (hclose [t] (by rw [List.map_singleton, ht]) _ rest).trans ?_
  rw [List.reverse_append, List.append_assoc]

/-- What is read as an object of local parsers is a list of entries that are read one by one. -/
theorem exists_entries_of_startedObjectUpdater (hselect : ∀ name, (select name).Local)
    {passed ahead : List LocatedToken} {u : Updater α}
    (h : ((startedObjectUpdater select).run s ⟨passed, ahead⟩).located = .ok (u, d)) :
    ∃ es us taken rest, ahead = taken ++ rest ∧ d = ⟨taken.reverse ++ passed, rest⟩ ∧
      taken.map (·.token) = entryTokens es ++ [.objectEnd] ∧ ReadsEntries select s es us ∧
      u = Updater.sequence us := by
  obtain ⟨results, c, hmany, hrest⟩ := exists_of_located_bind h
  obtain ⟨us, c', hcollect, hrest⟩ := exists_of_located_bind hrest
  obtain ⟨k, c'', hend, hpure⟩ := exists_of_located_bind hrest
  obtain ⟨hresults, hc⟩ : collect results = .ok us ∧ c = c' := Outcome.located_eq_ok_iff.mp hcollect
  obtain ⟨hu, hd⟩ : Except.ok (Updater.sequence us) = .ok u ∧ c'' = d :=
    Outcome.located_eq_ok_iff.mp hpure
  obtain ⟨es, taken, ahead, rfl, rfl, htaken, hes⟩ :=
    exists_entries_of_manyAtMost hselect hmany hresults
  subst hc hd
  obtain ⟨t, rest, hahead, hcursor, hkind⟩ := (takesOne_token rfl s _ c'' k).mp hend
  cases hahead
  have ht : t.token = .objectEnd := Token.kind_eq_objectEnd_iff.mp
    (List.mem_singleton.mp (TokenPattern.kindOf?_eq_some_iff.mp hkind).1)
  refine ⟨es, us, taken ++ [t], rest, by simp, by simp [hcursor], ?_, hes, (Except.ok.inj hu).symm⟩
  rw [List.map_append, htaken, List.map_singleton, ht]

theorem Local.startedObjectUpdater (hselect : ∀ name, (select name).Local) :
    (Parser.startedObjectUpdater select).Local := by
  intro s passed ahead u d h
  obtain ⟨es, us, taken, rest, rfl, rfl, htaken, hes, rfl⟩ :=
    exists_entries_of_startedObjectUpdater hselect h
  refine ⟨taken, rest, rfl, rfl, ?_⟩
  rw [htaken]
  exact .startedObjectUpdater hes

/-! ## The start of an object -/

theorem Reads.objectUpdater {es : List (String × List Token)} {us : List (Updater α)}
    (h : ReadsEntries select s es us) :
    (Parser.objectUpdater select).Reads s (objectTokens es) (Updater.sequence us) :=
  (Reads.of_takesOne (takesOne_token rfl) rfl : TokenPattern.startObject.parser.Reads s _ _).bind
    (.startedObjectUpdater h)

theorem Reads.object {es : List (String × List Token)} {us : List (Updater α)}
    (h : ReadsEntries select s es us) (initial : α) :
    (Parser.object select initial).Reads s (objectTokens es)
      ((Updater.sequence us).apply initial) :=
  (Reads.objectUpdater h).map _

/-- An object of local parsers that is read is made of entries that are read one by one. -/
theorem exists_entries_of_object (hselect : ∀ name, (select name).Local) {initial a : α}
    {passed ahead : List LocatedToken}
    (h : ((object select initial).run s ⟨passed, ahead⟩).located = .ok (a, d)) :
    ∃ es us taken rest, ahead = taken ++ rest ∧ d = ⟨taken.reverse ++ passed, rest⟩ ∧
      taken.map (·.token) = objectTokens es ∧ ReadsEntries select s es us ∧
      a = (Updater.sequence us).apply initial := by
  obtain ⟨u, c, hupdater, happly⟩ := exists_of_located_bind h
  obtain ⟨ha, hd⟩ : Except.ok (u.apply initial) = .ok a ∧ c = d :=
    Outcome.located_eq_ok_iff.mp happly
  obtain ⟨k, c', hstart, hstarted⟩ := exists_of_located_bind hupdater
  obtain ⟨t, ahead', rfl, rfl, hkind⟩ := (takesOne_token rfl s _ c' k).mp hstart
  obtain ⟨es, us, taken, rest, rfl, rfl, htaken, hes, rfl⟩ :=
    exists_entries_of_startedObjectUpdater hselect hstarted
  have ht : t.token = .objectStart := Token.kind_eq_objectStart_iff.mp
    (List.mem_singleton.mp (TokenPattern.kindOf?_eq_some_iff.mp hkind).1)
  refine ⟨es, us, t :: taken, rest, by simp, by simp [← hd], ?_, hes, (Except.ok.inj ha).symm⟩
  rw [List.map_cons, ht, htaken, objectTokens]

end JsonReader.Parser
