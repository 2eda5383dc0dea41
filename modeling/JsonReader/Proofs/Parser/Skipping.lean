import JsonReader.Proofs.Object.Fallback
import JsonReader.Proofs.Value.Balance

/-!
# Skipping stops at the end of the value

On any tokens whatever, skipping from the start of a container stops right behind the first token
with which the ends make up for the starts. It counts and does not recurse, and takes an end of
either kind for an end; so it accepts tokens that are no value. But where there is a value, it stops
where the value ends. For the assembly keeps the same number: every token that is taken changes the
number of open containers in the same way, and the value is complete when none is open.

## Main statements

* `Assembly.Takes.closes`, `Assembly.Takes.skipped`: what is put together is skipped as one value.
* `Parser.located_skipValue_of_isStart`: where skipping a container stops.
* `Parser.located_skipValue`: what skipping does, and how it agrees with the other parsers for
  values.
-/

namespace JsonReader

/-! ## Values that are put together -/

namespace Assembly

variable {read : NumberReader} {limit : Nat} {a a' : Assembly} {t : Token} {ts : List Token}
  {hole : Hole} {v w : Value}

theorem depth_of_fill_eq_inl (h : fill v hole = .inl w) : hole.depth = 0 := by
  cases hole with
  | whole => rfl
  | item | entry => cases h

theorem openContainers_pos_of_fill (h : fill v hole = .inr a) : 0 < a.openContainers := by
  cases hole with
  | whole => cases h
  | item | entry =>
    cases h
    exact Nat.succ_pos _

/-- What the first token of a value completes is a whole value of one token. -/
theorem isScalar_of_begin (h : begin read limit hole t = .ok (.inl w)) :
    t.kind.isScalar = true ∧ hole.depth = 0 := by
  cases t with
  | null | string =>
    exact ⟨rfl, depth_of_fill_eq_inl (Except.ok.inj h)⟩
  | bool b => exact ⟨by cases b <;> rfl, depth_of_fill_eq_inl (Except.ok.inj h)⟩
  | number source =>
    simp only [begin] at h
    split at h
    · exact ⟨rfl, depth_of_fill_eq_inl (Except.ok.inj h)⟩
    · cases h
  | arrayStart | objectStart =>
    simp only [begin] at h
    split at h <;> cases h
  | objectEnd | arrayEnd | propertyName => cases h

theorem openContainers_pos_of_begin (h : begin read limit hole t = .ok (.inr a)) :
    0 < a.openContainers := by
  rcases begin_eq_ok h with ⟨v, hfill, -⟩ | ⟨a', ha, -, -, hopen⟩
  · exact openContainers_pos_of_fill hfill.symm
  · cases ha
    rw [hopen]
    exact Nat.succ_pos _

/-- The value is only complete when no container is open. -/
theorem depthAfter_of_step (h : a.step read limit t = .ok (.inl w)) :
    Cursor.depthAfter a.openContainers t.kind = 0 := by
  have hscalar : ∀ hole, begin read limit hole t = .ok (.inl w) →
      Cursor.depthAfter hole.depth t.kind = 0 := by
    intro hole h
    obtain ⟨hkind, hdepth⟩ := isScalar_of_begin h
    have hstart := TokenKind.isStart_eq_false_of_isScalar hkind
    simp [Cursor.depthAfter, hstart, hdepth]
  cases a with
  | value hole => exact hscalar hole h
  | items done outer =>
    by_cases hend : t = .arrayEnd
    · subst hend
      have hdepth := depth_of_fill_eq_inl (Except.ok.inj h)
      simp [openContainers, hdepth, Cursor.depthAfter, Token.kind, TokenKind.isStart,
        TokenKind.isEnd]
    · exact hscalar (.item done outer) ((step_items_of_ne hend).symm.trans h)
  | names entries outer =>
    cases t with
    | objectEnd =>
      have hdepth := depth_of_fill_eq_inl (Except.ok.inj h)
      simp [openContainers, hdepth, Cursor.depthAfter, Token.kind, TokenKind.isStart,
        TokenKind.isEnd]
    | _ => cases h

/-- Until then some container is open. -/
theorem openContainers_pos_of_step (h : a.step read limit t = .ok (.inr a')) :
    0 < a'.openContainers := by
  cases a with
  | value hole => exact openContainers_pos_of_begin h
  | items done outer =>
    by_cases hend : t = .arrayEnd
    · subst hend
      exact openContainers_pos_of_fill (Except.ok.inj h)
    · exact openContainers_pos_of_begin ((step_items_of_ne hend).symm.trans h)
  | names entries outer =>
    cases t with
    | objectEnd => exact openContainers_pos_of_fill (Except.ok.inj h)
    | propertyName name =>
      cases h
      exact Nat.succ_pos _
    | _ => cases h

/-- The tokens that complete a value close the containers around it, by induction on them. -/
theorem Takes.closes (h : Takes read limit a ts (.inl v)) (hopen : 0 < a.openContainers) :
    Cursor.Closes a.openContainers ts := by
  induction ts generalizing a with
  | nil => cases h
  | cons t ts ih =>
    obtain ⟨depth, hdepth⟩ := Nat.exists_eq_succ_of_ne_zero (Nat.ne_of_gt hopen)
    rw [hdepth]
    refine .cons ?_
    cases h with
    | last hstep =>
      have hcomplete := depthAfter_of_step hstep
      rw [hdepth] at hcomplete
      rw [hcomplete]
      exact .nil
    | cons hstep hs =>
      have hmore := ih hs (openContainers_pos_of_step hstep)
      rwa [openContainers_of_step hstep, hdepth] at hmore

/-- The tokens of a value that is put together are skipped as one value. -/
theorem Takes.skipped (h : Takes read limit (.value .whole) ts (.inl v)) : Cursor.Skipped ts := by
  obtain ⟨t, ts, next, rfl, hstep, hnext⟩ := takes_inl_iff.mp h
  cases next with
  | inl w =>
    obtain ⟨rfl, rfl⟩ := hnext
    exact .scalar (isScalar_of_begin hstep).1
  | inr a =>
    rcases begin_eq_ok hstep with ⟨v, hfill, -⟩ | ⟨a', ha, hstart, -, hopen⟩
    · cases hfill
    · cases ha
      have hcloses := Takes.closes hnext (hopen ▸ Nat.succ_pos _)
      rw [hopen] at hcloses
      exact .container hstart hcloses

end Assembly

/-! ## Parsers -/

namespace Parser

open Cursor

variable {read : NumberReader} {s : Settings} {passed ahead : List LocatedToken}
  {t : LocatedToken} {d : Cursor}

/-- Skipping a container stops right behind the first token with which the ends make up for the
starts. -/
theorem located_skipValue_of_isStart (h : t.token.kind.isStart = true) :
    (skipValue.run s ⟨passed, t :: ahead⟩).located = .ok ((), d) ↔
      ∃ taken rest, ahead = taken ++ rest ∧ d = ⟨taken.reverse ++ t :: passed, rest⟩ ∧
        Balanced (t.token :: taken.map (·.token)) := by
  rw [located_skipValue_eq_ok_iff, skipValue_of_isStart h]
  simp only [balanced_cons_iff h]
  constructor
  · exact exists_closes_of_skipOpen
  · rintro ⟨taken, rest, rfl, rfl, hcloses⟩
    exact hcloses.skipOpen rfl (t :: passed) rest

/-- A container is skipped if the counts are ever the same. -/
theorem exists_located_skipValue_iff (h : t.token.kind.isStart = true) :
    (∃ d, (skipValue.run s ⟨passed, t :: ahead⟩).located = .ok ((), d)) ↔
      ∃ more rest, ahead = more ++ rest ∧
        starts (t.token :: more.map (·.token)) = ends (t.token :: more.map (·.token)) := by
  simp only [located_skipValue_of_isStart h, starts_eq_ends_iff_of_isStart h, balanced_cons_iff h]
  constructor
  · rintro ⟨d, taken, rest, hahead, -, hcloses⟩
    exact ⟨taken, rest, hahead, (closes_iff.mp hcloses).1⟩
  · rintro ⟨more, rest, rfl, hcounts⟩
    obtain ⟨front, back, hmore, hcloses⟩ := exists_closes hcounts
    obtain ⟨taken, behind, rfl, rfl, -⟩ := List.map_eq_append_iff.mp hmore
    exact ⟨_, taken, behind ++ rest, by simp, rfl, hcloses⟩

/-- A token that begins no container is skipped by itself, if it is a scalar. -/
theorem located_skipValue_of_not_isStart (h : t.token.kind.isStart = false) :
    (skipValue.run s ⟨passed, t :: ahead⟩).located = .ok ((), d) ↔
      t.token.kind.isScalar = true ∧ d = ⟨t :: passed, ahead⟩ := by
  rw [located_skipValue_eq_ok_iff, skipValue_of_not_isStart h, Prod.mk.injEq, eq_comm (b := d)]

/-- Where a value is put together, skipping stops at its end. -/
theorem located_skipValue_of_value {w : Value}
    (h : ((value read).run s ⟨passed, ahead⟩).located = .ok (w, d)) :
    (skipValue.run s ⟨passed, ahead⟩).located = .ok ((), d) := by
  obtain ⟨taken, rest, rfl, rfl, htakes⟩ :=
    Assembly.exists_takes_of_run (located_value_eq_ok_iff.mp h)
  exact Reads.skipValue htakes.skipped taken rfl passed rest

theorem located_ignoreObject_of_value {entries : List (String × Value)}
    (h : ((value read).run s ⟨passed, ahead⟩).located = .ok (.object entries, d)) :
    (ignoreObject.run s ⟨passed, ahead⟩).located = .ok ((), d) := by
  obtain ⟨taken, rest, rfl, rfl, htakes⟩ :=
    Assembly.exists_takes_of_run (located_value_eq_ok_iff.mp h)
  obtain ⟨ts, htaken, -⟩ := Assembly.exists_names_of_takes htakes
  exact Reads.ignoreObject (htaken ▸ htakes.skipped) taken htaken passed rest

/-- Skipping stops exactly at the end of the value, on any tokens. From the start of a container on
it succeeds if some later token makes the ends as many as the starts, and stops right behind the
first such token. A scalar is skipped by itself, and nothing else is skipped. So the tokens of a
tree are skipped, whatever follows them; and where a value is put together from the tokens, however
these go on, skipping stops at the same place, and so does the parser that ignores an object if the
value is one. -/
theorem located_skipValue (s : Settings) (passed ahead : List LocatedToken) :
    let skip := (skipValue.run s ⟨passed, ahead⟩).located
    (∀ t rest, ahead = t :: rest → t.token.kind.isStart = true →
      ((∃ d, skip = .ok ((), d)) ↔ ∃ more behind, rest = more ++ behind ∧
        starts (t.token :: more.map (·.token)) = ends (t.token :: more.map (·.token))) ∧
      ∀ d, skip = .ok ((), d) ↔ ∃ taken behind, rest = taken ++ behind ∧
        d = ⟨taken.reverse ++ t :: passed, behind⟩ ∧ Balanced (t.token :: taken.map (·.token))) ∧
    (∀ t rest, ahead = t :: rest → t.token.kind.isScalar = true →
      skip = .ok ((), ⟨t :: passed, rest⟩)) ∧
    ((∀ t rest, ahead = t :: rest → t.token.kind.isStart = false ∧ t.token.kind.isScalar = false) →
      ∃ e, skip = .error e) ∧
    (∀ (v : Tree) tokens behind, ahead = tokens ++ behind → tokens.map (·.token) = v.flatten →
      skip = .ok ((), ⟨tokens.reverse ++ passed, behind⟩)) ∧
    ∀ read target w d,
      ((typed target Decoder.value read).run s ⟨passed, ahead⟩).located = .ok (w, d) →
      skip = .ok ((), d) ∧ ∀ entries, w = .object entries →
        (ignoreObject.run s ⟨passed, ahead⟩).located = .ok ((), d) := by
  intro skip
  refine ⟨?container, ?scalar, ?other, ?tree, ?value⟩
  case container =>
    rintro t rest rfl hstart
    exact ⟨exists_located_skipValue_iff hstart, fun d => located_skipValue_of_isStart hstart⟩
  case scalar =>
    rintro t rest rfl hscalar
    have hstart := TokenKind.isStart_eq_false_of_isScalar hscalar
    exact (located_skipValue_of_not_isStart hstart).mpr ⟨hscalar, rfl⟩
  case other =>
    intro hother
    cases ahead with
    | nil => exact ⟨_, rfl⟩
    | cons t rest =>
      obtain ⟨hstart, hscalar⟩ := hother t rest rfl
      cases hskip : skip with
      | error e => exact ⟨e, rfl⟩
      | ok r =>
        have h := ((located_skipValue_of_not_isStart hstart).mp hskip).1
        cases hscalar.symm.trans h
  case tree =>
    rintro v tokens behind rfl htokens
    exact Reads.skipValue (skipped_flatten v) tokens htokens passed behind
  case value =>
    intro read target w d h
    rw [typed_value] at h
    refine ⟨located_skipValue_of_value h, ?_⟩
    rintro entries rfl
    exact located_ignoreObject_of_value h

/-- The start of an array that the end of an object closes, and one more end. -/
def mixedBrackets : List LocatedToken :=
  [⟨.arrayStart, {}⟩, ⟨.objectEnd, {}⟩, ⟨.arrayEnd, {}⟩]

/-- An object and a number behind it. -/
def objectAndNumber : List LocatedToken :=
  [⟨.objectStart, {}⟩, ⟨.propertyName "a", {}⟩, ⟨.null, {}⟩, ⟨.objectEnd, {}⟩, ⟨.number "1", {}⟩]

theorem located_skipValue_mixedBrackets :
    (skipValue.run {} ⟨[], mixedBrackets⟩).located =
        .ok ((), ⟨[⟨.objectEnd, {}⟩, ⟨.arrayStart, {}⟩], [⟨.arrayEnd, {}⟩]⟩) ∧
      (skipValue.run {} ⟨[], objectAndNumber⟩).located =
        .ok ((), ⟨(objectAndNumber.take 4).reverse, [⟨.number "1", {}⟩]⟩) ∧
      (ignoreObject.run {} ⟨[], objectAndNumber⟩).located =
        .ok ((), ⟨(objectAndNumber.take 4).reverse, [⟨.number "1", {}⟩]⟩) := by
  obtain ⟨hcontainer, -, -, -, -⟩ := located_skipValue {} [] mixedBrackets
  obtain ⟨-, -, -, -, hvalue⟩ := located_skipValue {} [] objectAndNumber
  have hbalanced : Balanced [.arrayStart, .objectEnd] := (balanced_cons_iff rfl).mpr (.cons .nil)
  obtain ⟨hskip, hignore⟩ := hvalue NumberValue.read? "a value" (.object [("a", .null)]) _ rfl
  exact ⟨((hcontainer _ _ rfl rfl).2 _).mpr ⟨[_], [_], rfl, rfl, hbalanced⟩, hskip, hignore _ rfl⟩

end Parser

end JsonReader
