import JsonReader.Proofs.Parser.Location
import JsonReader.Proofs.Value.Skip

/-!
# Failures are detected where the run has been

A failure quotes the position of a cursor. Whatever the combinators do with the cursor afterwards,
that one was reached from where the run began: it stands on the same tokens and not further back.
What was caught on the way and is reported later, as the engine for objects does, is no exception.

## Main definitions

* `ParseError.Detected` are the failures that a run from a cursor can come to.
* `Parser.Detects` holds of a parser that has no others.

## Main statements

* `Detects.bind`, `Detects.or`, `Detects.startedObjectUpdater` and the others, one for each way to
  make a parser.
* `Built.run_inRange`: no run leaves the tokens from its start to their end.
-/

namespace JsonReader

/-! ## Cursors -/

namespace Cursor

variable {c d : Cursor}

theorem LeadsTo.position_le_length (h : c.LeadsTo d) : d.position ≤ c.tokens.length := by
  rw [← h.tokens_eq, length_tokens]
  omega

theorem ahead_eq_nil_of_advance? (h : c.advance? = none) : c.ahead = [] := by
  obtain ⟨passed, ahead⟩ := c
  cases ahead with
  | nil => rfl
  | cons t ahead => simp [advance?] at h

theorem passed_eq_nil_of_kind? (h : c.kind? = none) : c.passed = [] := by
  obtain ⟨passed, ahead⟩ := c
  cases passed with
  | nil => rfl
  | cons t passed => simp [kind?, token?, current?] at h

end Cursor

/-! ## Failures -/

/-- The failures that a run from a cursor can come to. Each was detected at a cursor that the run
reached and quotes its position, unless it was asked for. The end of the tokens is only reported
where none is left, or where the current one is wanted and there is none. -/
inductive ParseError.Detected (asked : ParseError → Prop) (c : Cursor) : ParseError → Prop
  | endOfStream {d : Cursor} (h : c.LeadsTo d) (hend : d.passed = [] ∨ d.ahead = []) :
      Detected asked c (.endOfStream d.position)
  | tokenMismatch {d : Cursor} (h : c.LeadsTo d) (expected : String) (found : TokenKind) :
      Detected asked c (.tokenMismatch expected found d.position)
  | conversion {d : Cursor} (h : c.LeadsTo d) (target found : String) :
      Detected asked c (.conversion target found d.position)
  | unexpected {d : Cursor} (h : c.LeadsTo d) (expected found : String) :
      Detected asked c (.unexpected expected found d.position)
  | rejected {d : Cursor} (h : c.LeadsTo d) (found : String) :
      Detected asked c (.rejected found d.position)
  | tooDeep {d : Cursor} (h : c.LeadsTo d) (limit : Nat) :
      Detected asked c (.failed s!"maximum depth {limit} exceeded at position {d.position}")
  | asked {e : ParseError} (he : asked e) : Detected asked c e
  | property {e : ParseError} (name : String) (h : Detected asked c e) :
      Detected asked c (.property name e)
  | context {e : ParseError} (message : String) (h : Detected asked c e) :
      Detected asked c (.context message e)

namespace ParseError.Detected

variable {asked : ParseError → Prop} {c d : Cursor} {e : ParseError}

/-- What is detected further on is detected from further back. -/
theorem of_leadsTo (hd : e.Detected asked d) (h : c.LeadsTo d) : e.Detected asked c := by
  induction hd with
  | endOfStream hd hend => exact .endOfStream (h.trans hd) hend
  | tokenMismatch hd expected found => exact .tokenMismatch (h.trans hd) expected found
  | conversion hd target found => exact .conversion (h.trans hd) target found
  | unexpected hd expected found => exact .unexpected (h.trans hd) expected found
  | rejected hd found => exact .rejected (h.trans hd) found
  | tooDeep hd limit => exact .tooDeep (h.trans hd) limit
  | asked he => exact .asked he
  | property name _ ih => exact .property name ih
  | context message _ ih => exact .context message ih

/-- Where the failures that are asked for have no position, every position is one that the run has
come to. -/
theorem exists_leadsTo (h : e.Detected asked c) (hasked : ∀ e, asked e → e.position? = none)
    {n : Nat} (hn : e.position? = some n) : ∃ d, c.LeadsTo d ∧ d.position = n := by
  induction h with
  | endOfStream hd _ | tokenMismatch hd _ _ | conversion hd _ _ | unexpected hd _ _
    | rejected hd _ => exact ⟨_, hd, Option.some.inj hn⟩
  | tooDeep => cases hn
  | asked he => simp [hasked _ he] at hn
  | property _ _ ih | context _ _ ih => exact ih hn

end ParseError.Detected

/-- Every failure of the parser is detected where its run has been. -/
def Parser.Detects {α : Type} (asked : ParseError → Prop) (p : Parser α) : Prop :=
  ∀ (s : Settings) (c : Cursor) (e : ParseError),
    (p.run s c).result = .error e → e.Detected asked c

/-! ## Tokens and values -/

theorem TokenPattern.detected_check {asked : ParseError → Prop} (x : TokenPattern) {c d : Cursor}
    (hd : c.LeadsTo d) {e : ParseError} (h : (x.check d).result = .error e) :
    e.Detected asked c := by
  rw [check] at h
  split at h
  · split at h
    · cases h
    · cases h
      exact .tokenMismatch hd _ _
  · next hkind =>
    cases h
    exact .endOfStream hd (.inl (Cursor.passed_eq_nil_of_kind? hkind))

/-- Assembling fails at the token under the cursor, by induction on the tokens ahead. -/
theorem Assembly.detected_run {asked : ParseError → Prop} {read : NumberReader} {limit : Nat}
    {a : Assembly} {passed ahead : List LocatedToken} {e : ParseError}
    (h : (a.run read limit passed ahead).1 = .error e) : e.Detected asked ⟨passed, ahead⟩ := by
  induction ahead generalizing a passed with
  | nil =>
    cases h
    exact .endOfStream (.refl ⟨passed, []⟩) (.inr rfl)
  | cons t ahead ih =>
    have hnext := Cursor.leadsTo_of_advance? (Cursor.advance?_cons passed t ahead)
    rw [run] at h
    split at h
    · next fault _ =>
      cases h
      cases fault with
      | mismatch expected found => exact .tokenMismatch hnext expected found
      | badNumber source => exact .conversion hnext "number" source
      | tooDeep limit => exact .tooDeep hnext limit
    · cases h
    · exact (ih h).of_leadsTo hnext

namespace Parser

variable {α β : Type} {asked : ParseError → Prop} {p q : Parser α}

/-- The failures of what follows are those behind the value of the first parser. -/
theorem detected_bind {next : α → Parser β} {s : Settings} {start c : Cursor}
    (hp : ∀ e, (p.run s c).result = .error e → e.Detected asked start)
    (hnext : ∀ a, (p.run s c).result = .ok a → ∀ e,
      ((next a).run s (p.run s c).cursor).result = .error e → e.Detected asked start)
    {e : ParseError} (h : ((p >>= next).run s c).result = .error e) : e.Detected asked start := by
  cases hr : (p.run s c).result with
  | ok a =>
    rw [run_bind_of_ok hr] at h
    exact hnext a hr e h
  | error e' =>
    rw [run_bind_of_error hr] at h
    cases h
    exact hp e hr

namespace Detects

theorem token (x : TokenPattern) : x.parser.Detects asked := by
  intro s c e h
  rw [TokenPattern.parser] at h
  dsimp only at h
  split at h
  · split at h
    · next d hd => exact x.detected_check (Cursor.leadsTo_of_advance? hd) h
    · next hd =>
      cases h
      exact .endOfStream (.refl c) (.inr (Cursor.ahead_eq_nil_of_advance? hd))
  · exact x.detected_check (.refl c) h

theorem scalar (x : Scalar α) : x.parser.Detects asked := by
  intro s c e h
  rw [Scalar.parser] at h
  dsimp only at h
  split at h
  · next e' he =>
    cases h
    exact token x.token s c e he
  · split at h
    · cases h
    · cases h
      exact .conversion (x.token.leadsTo_run s c) _ _

theorem expectText (x : Scalar String) (expected : List String)
    (fits : Settings → String → Bool) : (Parser.expectText x expected fits).Detects asked := by
  intro s c e h
  rw [Parser.expectText] at h
  dsimp only at h
  split at h
  · exact scalar x s c e h
  · next text htext =>
    split at h
    · exact scalar x s c e h
    · cases h
      exact .unexpected (Forward.scalar x s c) _ _

theorem skipValue : Parser.skipValue.Detects asked := by
  intro s c e h
  rw [Parser.skipValue] at h
  dsimp only at h
  split at h
  · next hd =>
    cases h
    exact .endOfStream (.refl c) (.inr (Cursor.ahead_eq_nil_of_advance? hd))
  · next d hd =>
    have hskip := (Cursor.leadsTo_of_advance? hd).trans (Cursor.leadsTo_skipValue d)
    split at h
    · cases h
    · next heq _ =>
      cases h
      rw [heq] at hskip
      exact .tokenMismatch hskip _ _
    · next heq hkind =>
      cases h
      rw [heq] at hskip hkind
      exact .endOfStream hskip (.inl (Cursor.passed_eq_nil_of_kind? hkind))

/-- What is skipped begins with the start of the object, so only the end of the tokens stops it. -/
theorem ignoreObject : Parser.ignoreObject.Detects asked := by
  intro s c e h
  refine detected_bind (token _ s c) ?_ h
  intro k hk e he
  obtain ⟨hkind, hmem⟩ := TokenPattern.startObject.kind?_of_run_eq_ok hk
  cases List.mem_singleton.mp hmem
  have hstart := TokenPattern.startObject.leadsTo_run s c
  generalize (TokenPattern.startObject.parser.run s c).cursor = d at he hkind hstart
  have hskip := hstart.trans (Cursor.leadsTo_skipValue d)
  dsimp only at he
  split at he
  · cases he
  · next d' heq =>
    cases he
    rw [heq] at hskip
    rw [Cursor.skipValue, hkind] at heq
    cases Cursor.eq_of_skipOpen_eq_false heq
    exact .endOfStream hskip (.inr rfl)

theorem typed (target : String) (d : Decoder α) (read : NumberReader) :
    (Parser.typed target d read).Detects asked := by
  intro s c e h
  rw [Parser.typed] at h
  dsimp only at h
  split at h
  · next e' he =>
    cases h
    exact Assembly.detected_run he
  · split at h
    · cases h
    · next start _ hstart =>
      cases h
      exact .conversion (Cursor.leadsTo_of_advance? hstart) _ _
    · next hnone =>
      cases h
      exact .endOfStream (.refl c) (.inr (Cursor.ahead_eq_nil_of_advance? hnone))

/-! ## Combinators -/

theorem pure (a : α) : (Pure.pure a : Parser α).Detects asked := nofun

theorem throw {e : ParseError} (he : asked e) : (Parser.throw e : Parser α).Detects asked := by
  rintro s c _ ⟨⟩
  exact .asked he

theorem bind {next : α → Parser β} (hforward : p.Forward) (hp : p.Detects asked)
    (hnext : ∀ a, (∃ s c, (p.run s c).result = .ok a) → (next a).Detects asked) :
    (p >>= next).Detects asked :=
  fun s c _ h => detected_bind (hp s c)
    (fun a ha e he => (hnext a ⟨s, c, ha⟩ s _ e he).of_leadsTo (hforward s c)) h

theorem or (hq : q.Detects asked) : (p.or q).Detects asked := by
  intro s c e h
  cases hr : (p.run s c).result with
  | ok a => simp [Parser.or, hr] at h
  | error e' =>
    simp only [Parser.or, hr] at h
    exact hq s c e h

theorem optional (p : Parser α) : p.optional.Detects asked := by
  intro s c e h
  cases hr : (p.run s c).result <;> simp [Parser.optional, hr] at h

theorem capture (p : Parser α) : p.capture.Detects asked := by
  intro s c e h
  cases hr : (p.run s c).result <;> simp [Parser.capture, hr] at h

theorem many (p : Parser α) : p.many.Detects asked := by
  intro s c e h
  obtain ⟨as, has⟩ := exists_manyAtMost_eq_ok p s (c.ahead.length + 1) c
  cases h.symm.trans has

theorem filter [Shown α] (test : α → Bool) (hforward : p.Forward) (hp : p.Detects asked) :
    (p.filter test).Detects asked := by
  intro s c e h
  rw [Parser.filter] at h
  dsimp only at h
  split at h
  · next a ha =>
    split at h
    · cases h.symm.trans ha
    · cases h
      exact .rejected (hforward s c) _
  · exact hp s c e h

theorem withContext (message : String) (hp : p.Detects asked) :
    (p.withContext message).Detects asked := by
  intro s c e h
  cases hr : (p.run s c).result with
  | ok a => simp [Parser.withContext, hr, mapError_ok] at h
  | error e' =>
    simp only [Parser.withContext, hr, mapError_error] at h
    cases h
    exact .context message (hp s c e' hr)

theorem ofRun {f : Settings → Cursor → Parser α} (hf : ∀ s c, (f s c).Detects asked) :
    Detects asked ⟨fun s c => (f s c).run s c⟩ :=
  fun s c e h => hf s c s c e h

end Detects

/-! ## Objects -/

/-- Each value of a repetition comes of a run further on, by induction on the attempts. -/
theorem exists_run_of_mem_manyAtMost (hp : p.Forward) {s : Settings} {count : Nat} {c : Cursor}
    {as : List α} (has : (p.manyAtMost s count c).result = .ok as) {a : α} (ha : a ∈ as) :
    ∃ d, c.LeadsTo d ∧ (p.run s d).result = .ok a := by
  induction count generalizing c as with
  | zero =>
    cases has
    cases ha
  | succ count ih =>
    cases hr : (p.run s c).result with
    | error e =>
      rw [(manyAtMost_of_error hr count).1] at has
      cases has
      cases ha
    | ok first =>
      obtain ⟨rest, hrest⟩ := exists_manyAtMost_eq_ok p s count (p.run s c).cursor
      rw [manyAtMost_of_ok hr, hrest] at has
      cases has
      rcases List.mem_cons.mp ha with rfl | ha
      · exact ⟨c, .refl c, hr⟩
      · obtain ⟨d, hd, hrun⟩ := ih hrest ha
        exact ⟨d, (hp s c).trans hd, hrun⟩

/-- What is reported of entries is one of the failures that were kept. -/
theorem mem_of_collect_eq_error {rs : List (ParseResult α)} {e : ParseError}
    (h : collect rs = .error e) : .error e ∈ rs := by
  induction rs with
  | nil => cases h
  | cons r rs ih =>
    cases r with
    | error e' =>
      cases h
      exact List.mem_cons_self
    | ok a =>
      refine List.mem_cons_of_mem _ (ih ?_)
      cases hrs : collect rs with
      | ok as => simp [collect, hrs, Except.map] at h
      | error e' =>
        simp only [collect, hrs, Except.map] at h
        cases h
        rfl

/-- A failure that is kept as an entry was detected behind its name. -/
theorem detected_of_run_propertyEntry {select : Selector α}
    (hselect : ∀ name, (select name).Detects asked) {s : Settings} {c : Cursor} {e : ParseError}
    (h : ((propertyEntry select).run s c).result = .ok (.error e)) : e.Detected asked c := by
  obtain ⟨passed, ahead⟩ := c
  cases ahead with
  | nil =>
    obtain ⟨e', he'⟩ := run_propertyEntry_nil select s passed
    cases h.symm.trans he'
  | cons t ahead =>
    by_cases hname : ∃ name, t.token = .propertyName name
    · obtain ⟨name, ht⟩ := hname
      rw [run_propertyEntry_name select s passed ahead ht] at h
      cases hr : ((select name).run s ⟨t :: passed, ahead⟩).result with
      | ok u => simp [hr] at h
      | error inner =>
        simp only [hr] at h
        cases h
        exact .property name ((hselect name s _ inner hr).of_leadsTo
          (Cursor.leadsTo_of_advance? (Cursor.advance?_cons passed t ahead)))
    · obtain ⟨e', he'⟩ := run_propertyEntry_other select s passed ahead
        (mt Token.kind_eq_propertyName_iff.mp hname)
      cases h.symm.trans he'

theorem Detects.startedObjectUpdater {select : Selector α}
    (hforward : ∀ name, (select name).Forward) (hselect : ∀ name, (select name).Detects asked) :
    (Parser.startedObjectUpdater select).Detects asked := by
  intro s c e h
  have hentry := Forward.propertyEntry hforward
  refine detected_bind (many _ s c) ?_ h
  intro entries hentries e he
  refine detected_bind ?_ ?_ he
  · intro e' hcollect
    obtain ⟨d, hd, hrun⟩ :=
      exists_run_of_mem_manyAtMost hentry hentries (mem_of_collect_eq_error hcollect)
    exact (detected_of_run_propertyEntry hselect hrun).of_leadsTo hd
  · intro updaters _ e' he'
    have hend : (do
        let _ ← TokenPattern.endObject.parser
        return Updater.sequence updaters : Parser (Updater α)).Detects asked :=
      bind (.token _) (token _) fun _ _ => pure _
    exact (hend s _ e' he').of_leadsTo (Forward.many hentry s c)

/-! ## Parsers -/

/-- By induction on how the parser is made. -/
theorem Built.detects {p : Parser α} (hp : Built asked p) : p.Detects asked := by
  induction hp with
  | token x => exact .token x
  | scalar x _ => exact .scalar x
  | expectText x _ expected fits => exact .expectText x expected fits
  | skipValue => exact .skipValue
  | ignoreObject => exact .ignoreObject
  | typed target d read => exact .typed target d read
  | pure a => exact .pure a
  | throw e he => exact .throw he
  | bind hp _ ihp ihnext => exact .bind hp.forward ihp ihnext
  | or _ _ _ ihq => exact .or ihq
  | optional _ _ => exact .optional _
  | capture _ _ => exact .capture _
  | many _ _ => exact .many _
  | filter test hp ih => exact .filter test hp.forward ih
  | withContext message _ ih => exact .withContext message ih
  | ofRun _ ih => exact .ofRun ih
  | startedObjectUpdater hselect ih =>
    exact .startedObjectUpdater (fun name => (hselect name).forward) ih

/-- No run leaves the tokens from its start to their end. However it ends, the cursor stands on the
same tokens, no further back than at the start; and a failure that quotes a position quotes one that
is no further back either, where the failures that a caller asks for quote none. -/
theorem Built.run_inRange {p : Parser α} (hp : Built (·.position? = none) p) (s : Settings)
    (c : Cursor) :
    let o := p.run s c
    o.cursor.tokens = c.tokens ∧
      c.position ≤ o.cursor.position ∧ o.cursor.position ≤ c.tokens.length ∧
      ∀ e n, o.result = .error e → e.position? = some n → c.position ≤ n ∧ n ≤ c.tokens.length := by
  intro o
  have hforward : c.LeadsTo o.cursor := hp.forward s c
  refine ⟨hforward.tokens_eq, hforward.position_le, hforward.position_le_length, ?_⟩
  intro e n he hn
  obtain ⟨d, hd, rfl⟩ := (hp.detects s c e he).exists_leadsTo (fun _ h => h) hn
  exact ⟨hd.position_le, hd.position_le_length⟩

/-- Behind the start of an array the number is the fourth of five tokens. The engine goes back to
the name before it, which is still behind the start. -/
theorem run_lastString_inRange :
    let c : Cursor := ⟨[⟨.arrayStart, {}⟩], numberEntry⟩
    let o := lastString.run {} c
    o.result = .error (.property "a" (.tokenMismatch "String" .number 4)) ∧
      o.cursor.position = 3 ∧ o.cursor.tokens = c.tokens ∧
      (c.position ≤ 3 ∧ 3 ≤ c.tokens.length) ∧ c.position ≤ 4 ∧ 4 ≤ c.tokens.length := by
  intro c o
  have hresult : o.result = .error (.property "a" (.tokenMismatch "String" .number 4)) := by rfl
  have hposition : o.cursor.position = 3 := by rfl
  obtain ⟨htokens, hstart, hstop, hfailure⟩ :=
    (built_lastString (·.position? = none)).run_inRange {} c
  exact ⟨hresult, hposition, htokens, hposition ▸ ⟨hstart, hstop⟩, hfailure _ 4 hresult rfl⟩

end Parser

end JsonReader
