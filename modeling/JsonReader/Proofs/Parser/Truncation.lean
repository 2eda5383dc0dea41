import JsonReader.Proofs.Parser.Skipping

/-!
# Values that break off

The tokens may run out before a value is complete. Then it cannot be put together, and it cannot be
ignored as an object; both say that the tokens have ended. Skipping fails as well, but what it
reports is the last token. For it tells only whether it came to the end of the value, and where it
did not, the token under the cursor is named, although the cursor has moved to the end of the tokens
in the meantime. The end is only reported where there was no token at all.

## Main definitions

* `Cursor.Unclosed` holds of tokens that begin with a container that is never closed.
* `Assembly.Fits` holds of tokens that neither nest too deep nor have a text that is no number.

## Main statements

* `Parser.skipValue_eq_error_iff`: how skipping fails.
* `Parser.failure_of_incomplete`: the failures of all three parsers, and on values that break off.
* `Parser.not_forall_endOfStream_of_incomplete`: skipping does not report the end of the tokens.
-/

namespace JsonReader

namespace Cursor

variable {ts front back : List Token} {t : Token}

/-- The tokens begin with the start of a container, and the ends never make up for the starts. -/
def Unclosed (ts : List Token) : Prop :=
  (∃ t rest, ts = t :: rest ∧ t.kind.isStart = true) ∧
    ∀ front back, ts = front ++ back → front ≠ [] → starts front ≠ ends front

theorem unclosed_cons_iff (h : t.kind.isStart = true) :
    Unclosed (t :: ts) ↔ ∀ front back, ts = front ++ back → 1 + starts front ≠ ends front := by
  simp only [Ne, ← starts_eq_ends_iff_of_isStart h]
  constructor
  · rintro ⟨-, hopen⟩ front back rfl
    exact hopen (t :: front) back rfl (by simp)
  · intro hopen
    refine ⟨⟨t, ts, rfl, h⟩, ?_⟩
    intro front back hts hfront
    obtain ⟨u, front, rfl⟩ := List.exists_cons_of_ne_nil hfront
    obtain ⟨rfl, hrest⟩ := List.cons.inj hts
    exact hopen front back hrest

theorem isStart_of_unclosed (h : Unclosed (t :: ts)) : t.kind.isStart = true := by
  obtain ⟨⟨t, ts, heq, hstart⟩, -⟩ := h
  cases heq
  exact hstart

/-- What a value begins with is a container that is not closed, if more of the value is to come. -/
theorem Skipped.unclosed (h : Skipped (front ++ back)) (hfront : front ≠ []) (hback : back ≠ []) :
    Unclosed front := by
  obtain ⟨t, front, rfl⟩ := List.exists_cons_of_ne_nil hfront
  generalize hts : t :: front ++ back = ts at h
  cases h with
  | scalar h =>
    have hnil := List.append_eq_nil_iff.mp (List.cons.inj hts).2
    exact absurd hnil.2 hback
  | container hstart hcloses =>
    obtain ⟨rfl, rfl⟩ := List.cons.inj hts
    rw [unclosed_cons_iff hstart]
    rintro before behind rfl
    have := (closes_iff.mp hcloses).2 before (behind ++ back) (by simp) (by simp [hback])
    omega

/-- A container is skipped to the end of the tokens if it is not closed. -/
theorem skipValue_eq_false_iff {t : LocatedToken} (h : t.token.kind.isStart = true)
    (passed ahead : List LocatedToken) :
    skipValue ⟨t :: passed, ahead⟩ = (false, ⟨ahead.reverse ++ t :: passed, []⟩) ↔
      Unclosed (t.token :: ahead.map (·.token)) := by
  rw [skipValue_of_isStart h, skipOpen_eq_false_iff, unclosed_cons_iff h]

/-- Behind all tokens the last one is the current one. -/
theorem kind?_of_getLast? {passed ahead : List LocatedToken} {last : LocatedToken}
    (h : ahead.getLast? = some last) :
    kind? ⟨ahead.reverse ++ passed, []⟩ = some last.token.kind := by
  simp [kind?, token?, current?, List.head?_append, List.head?_reverse, h]

end Cursor

/-! ## Values that cannot be put together -/

namespace Assembly

variable {limit : Nat} {a : Assembly} {t : Token} {ts front back : List Token}
  {next : Value ⊕ Assembly} {read : NumberReader}

/-- No container nests too deep and every number text denotes a number, as far as the tokens go. -/
structure Fits (read : NumberReader) (limit : Nat) (ts : List Token) : Prop where
  numbers : Tree.NumbersRead read ts
  depth_le : ∀ front back, ts = front ++ back → openBehind 0 front ≤ limit

theorem Fits.not_refuses (h : Fits read limit ts) (hts : ts = front ++ t :: back)
    {error : Nat → ParseError} : ¬ Refuses read limit (openBehind 0 front) t error := by
  rintro (⟨hstart, hlimit⟩ | hnone)
  · have hdepth := h.depth_le (front ++ [t]) back (by simp [hts])
    rw [openBehind, List.foldl_append, List.foldl_cons, List.foldl_nil, ← openBehind,
      Cursor.depthAfter, if_pos hstart] at hdepth
    omega
  · have hread := h.numbers _ (hts ▸ List.mem_append_right front List.mem_cons_self)
    rw [hnone] at hread
    cases hread

theorem openBehind_le (depth : Nat) (ts : List Token) :
    openBehind depth ts ≤ depth + ts.length := by
  induction ts generalizing depth with
  | nil => exact Nat.le_refl depth
  | cons t ts ih =>
    have hmore := ih (Cursor.depthAfter depth t.kind)
    have hstep : Cursor.depthAfter depth t.kind ≤ depth + 1 := by grind [Cursor.depthAfter]
    rw [openBehind] at hmore ⊢
    rw [List.foldl_cons, List.length_cons]
    omega

/-- Tokens that are no more than the limit do not nest deeper than it. -/
theorem Fits.of_length (hnumbers : Tree.NumbersRead read ts) (hlength : ts.length ≤ limit) :
    Fits read limit ts := by
  refine ⟨hnumbers, ?_⟩
  rintro front back rfl
  have hopen := openBehind_le 0 front
  rw [List.length_append] at hlength
  omega

/-- Tokens that are taken are taken up to any of them. -/
theorem Takes.exists_front (h : Takes read limit a ts next) (hts : ts = front ++ t :: back) :
    ∃ a', Takes read limit a front (.inr a') := by
  induction h generalizing front with
  | nil => simp at hts
  | last =>
    cases front with
    | nil => exact ⟨_, .nil⟩
    | cons u front => simp at hts
  | cons hstep _ ih =>
    cases front with
    | nil => exact ⟨_, .nil⟩
    | cons u front =>
      obtain ⟨rfl, hrest⟩ := List.cons.inj hts
      obtain ⟨a', htakes⟩ := ih hrest
      exact ⟨a', .cons hstep htakes⟩

/-- What a tree begins with is taken where it fits. A token that is refused comes later, or it is
one of those that fit. -/
theorem exists_takes_of_fits (v : Tree) (hv : v.flatten = front ++ t :: back)
    (hfits : Fits read limit front) : ∃ a, Takes read limit (.value .whole) front (.inr a) := by
  have hruns := @runs_value limit read v (.value .whole) .whole (fun _ _ => rfl) rfl (Nat.zero_le _)
  rcases hruns with ⟨-, next, -, htakes⟩ | ⟨-, taken, u, rest, a, e, hsplit, htakes, -, hrefuses⟩
  · exact htakes.exists_front hv
  · rcases List.append_eq_append_iff.mp (hv.symm.trans hsplit) with
      ⟨more, rfl, hmore⟩ | ⟨more, hfront, hmore⟩
    · cases more with
      | nil => exact ⟨a, by rwa [List.append_nil] at htakes⟩
      | cons u' more => exact htakes.exists_front rfl
    · cases more with
      | nil => exact ⟨a, by rwa [hfront, List.append_nil]⟩
      | cons u' more =>
        obtain ⟨rfl, -⟩ := List.cons.inj hmore
        rw [htakes.openContainers] at hrefuses
        exact absurd hrefuses (hfits.not_refuses hfront)

end Assembly

/-! ## Parsers -/

namespace Parser

open Cursor

variable {s : Settings} {passed ahead : List LocatedToken} {t : LocatedToken} {d : Cursor}
  {e : ParseError}

/-! ### Skipping -/

theorem result_skipValue_of_eq_true (h : Cursor.skipValue ⟨t :: passed, ahead⟩ = (true, d)) :
    (skipValue.run s ⟨passed, t :: ahead⟩).result = .ok () := by
  simp [skipValue, Cursor.advance?_cons, h]

/-- Where skipping does not come to the end of the value, the token under the cursor is named. -/
theorem result_skipValue_of_eq_false {k : TokenKind}
    (h : Cursor.skipValue ⟨t :: passed, ahead⟩ = (false, d)) (hk : d.kind? = some k) :
    (skipValue.run s ⟨passed, t :: ahead⟩).result =
      .error (.tokenMismatch "a value" k d.position) := by
  simp [skipValue, Cursor.advance?_cons, h, hk]

/-- The failure of a token that begins no value. -/
theorem result_skipValue_of_other (hstart : t.token.kind.isStart = false)
    (hscalar : t.token.kind.isScalar = false) :
    (skipValue.run s ⟨passed, t :: ahead⟩).result =
      .error (.tokenMismatch "a value" t.token.kind (passed.length + 1)) := by
  have hskip := skipValue_of_not_isStart hstart passed ahead
  rw [hscalar] at hskip
  exact result_skipValue_of_eq_false hskip rfl

/-- The failure of a container that is not closed. -/
theorem result_skipValue_of_unclosed (h : Unclosed (ahead.map (·.token))) {last : LocatedToken}
    (hlast : ahead.getLast? = some last) :
    (skipValue.run s ⟨passed, ahead⟩).result =
      .error (.tokenMismatch "a value" last.token.kind (passed.length + ahead.length)) := by
  cases ahead with
  | nil => cases hlast
  | cons t rest =>
    have hcurrent : kind? ⟨(t :: rest).reverse ++ passed, []⟩ = some last.token.kind :=
      kind?_of_getLast? hlast
    rw [List.reverse_cons, List.append_assoc, List.singleton_append] at hcurrent
    have hskip := (skipValue_eq_false_iff (isStart_of_unclosed h) passed rest).mpr h
    rw [result_skipValue_of_eq_false hskip hcurrent]
    simp [position, Nat.add_left_comm]

/-- Skipping a container only fails if it is not closed. -/
theorem unclosed_of_result_skipValue (hstart : t.token.kind.isStart = true)
    (h : (skipValue.run s ⟨passed, t :: ahead⟩).result = .error e) :
    Unclosed ((t :: ahead).map (·.token)) := by
  obtain ⟨complete, d, hskip⟩ :
    ∃ complete d, Cursor.skipValue ⟨t :: passed, ahead⟩ = (complete, d) := ⟨_, _, rfl⟩
  cases complete with
  | false =>
    refine (skipValue_eq_false_iff hstart passed ahead).mp ?_
    rw [hskip, eq_of_skipOpen_eq_false ((skipValue_of_isStart hstart _ _).symm.trans hskip)]
  | true => cases (result_skipValue_of_eq_true hskip).symm.trans h

/-- Skipping reports the end of the tokens if there is none, the first token if it begins no value,
and the last token if a container is not closed. -/
theorem skipValue_eq_error_iff :
    (skipValue.run s ⟨passed, ahead⟩).result = .error e ↔
      (ahead = [] ∧ e = .endOfStream (passed.length + ahead.length)) ∨
      (∃ t rest, ahead = t :: rest ∧ t.token.kind.isStart = false ∧
        t.token.kind.isScalar = false ∧
        e = .tokenMismatch "a value" t.token.kind (passed.length + 1)) ∨
      ∃ last, Unclosed (ahead.map (·.token)) ∧ ahead.getLast? = some last ∧
        e = .tokenMismatch "a value" last.token.kind (passed.length + ahead.length) := by
  constructor
  · intro h
    cases ahead with
    | nil =>
      cases h
      exact .inl ⟨rfl, rfl⟩
    | cons t rest =>
      refine .inr ?_
      cases hstart : t.token.kind.isStart with
      | true =>
        obtain ⟨last, hlast⟩ : ∃ last, (t :: rest).getLast? = some last :=
          ⟨_, List.getLast?_eq_some_getLast (by simp)⟩
        have hopen : Unclosed ((t :: rest).map (·.token)) := unclosed_of_result_skipValue hstart h
        rw [result_skipValue_of_unclosed hopen hlast] at h
        exact .inr ⟨last, hopen, hlast, (Except.error.inj h).symm⟩
      | false =>
        have hskip := skipValue_of_not_isStart hstart passed rest
        cases hscalar : t.token.kind.isScalar with
        | true =>
          rw [hscalar] at hskip
          cases (result_skipValue_of_eq_true hskip).symm.trans h
        | false =>
          rw [result_skipValue_of_other hstart hscalar] at h
          exact .inl ⟨t, rest, rfl, hstart, hscalar, (Except.error.inj h).symm⟩
  · rintro (⟨rfl, rfl⟩ | ⟨t, rest, rfl, hstart, hscalar, rfl⟩ | ⟨last, hopen, hlast, rfl⟩)
    · rfl
    · exact result_skipValue_of_other hstart hscalar
    · exact result_skipValue_of_unclosed hopen hlast

/-! ### Values that break off -/

section Truncated

variable {read : NumberReader} {v : Tree} {front back : List Token}

/-- What breaks off inside a value is not put together. -/
theorem result_typed_of_truncated {α : Type} (target : String) (decode : Decoder α)
    (hv : v.flatten = front ++ back) (hback : back ≠ []) (hahead : ahead.map (·.token) = front)
    (hfits : Assembly.Fits read s.maxDepth front) :
    ((typed target decode read).run s ⟨passed, ahead⟩).result =
      .error (.endOfStream (passed.length + ahead.length)) := by
  obtain ⟨t, back, rfl⟩ := List.exists_cons_of_ne_nil hback
  obtain ⟨a, htakes⟩ := Assembly.exists_takes_of_fits v hv hfits
  have hrun := htakes.run hahead passed []
  rw [List.append_nil] at hrun
  have hvalue : ((value read).run s ⟨passed, ahead⟩).result =
      .error (.endOfStream (passed.length + ahead.length)) := by
    simp [value, hrun, Assembly.resume, Assembly.run, Nat.add_comm]
  simp [typed, hvalue]

/-- What breaks off inside an object is not ignored. -/
theorem result_ignoreObject_of_truncated {entries : List (String × Tree)}
    (hv : (Tree.object entries).flatten = front ++ back) (hback : back ≠ [])
    (hahead : ahead.map (·.token) = front) :
    (ignoreObject.run s ⟨passed, ahead⟩).result =
      .error (.endOfStream (passed.length + ahead.length)) := by
  cases ahead with
  | nil => rfl
  | cons t rest =>
    have hskipped : Skipped (front ++ back) := hv ▸ skipped_flatten (.object entries)
    have hopen : Unclosed ((t :: rest).map (·.token)) :=
      hahead ▸ hskipped.unclosed (by simp [← hahead]) hback
    have hskip := (skipValue_eq_false_iff (isStart_of_unclosed hopen) passed rest).mpr hopen
    have hstart : t.token.kind = .objectStart := by
      rw [← hahead] at hv
      exact Token.kind_eq_objectStart_iff.mpr (List.cons.inj hv).1.symm
    simp [ignoreObject, TokenPattern.startObject, run_bind, run_token_cons, hstart, hskip, position,
      Nat.add_left_comm]

end Truncated

/-- The failures of the parsers for values. Skipping fails where there is no token, with the end of
the tokens; where the first token begins no value, with this token; and where a container is never
closed. But then it reports no end, it names the last token as the one that is no value. On the
tokens of a tree that break off, the other parsers report the end of the tokens: the one that puts a
value together, whatever it is decoded to, if the tokens fit so far, and the one that ignores an
object. Skipping names the last token, if there is one. -/
theorem failure_of_incomplete (s : Settings) (c : Cursor) (read : NumberReader) :
    let skip := (skipValue.run s c).result
    let ended : ParseError := .endOfStream c.tokens.length
    (∀ e, skip = .error e ↔
      (c.ahead = [] ∧ e = ended) ∨
      (∃ t rest, c.ahead = t :: rest ∧ t.token.kind.isStart = false ∧
        t.token.kind.isScalar = false ∧
        e = .tokenMismatch "a value" t.token.kind (c.position + 1)) ∨
      ∃ last, Unclosed (c.ahead.map (·.token)) ∧ c.ahead.getLast? = some last ∧
        e = .tokenMismatch "a value" last.token.kind c.tokens.length) ∧
    ∀ (v : Tree) (back : List Token), v.flatten = c.ahead.map (·.token) ++ back → back ≠ [] →
      (Assembly.Fits read s.maxDepth (c.ahead.map (·.token)) →
        ∀ (α : Type) (target : String) (decode : Decoder α),
          ((typed target decode read).run s c).result = .error ended) ∧
      (∀ entries, v = .object entries → (ignoreObject.run s c).result = .error ended) ∧
      ∀ last, c.ahead.getLast? = some last →
        skip = .error (.tokenMismatch "a value" last.token.kind c.tokens.length) := by
  obtain ⟨passed, ahead⟩ := c
  have hlength : (tokens ⟨passed, ahead⟩).length = passed.length + ahead.length := by
    simp [tokens]
  simp only [hlength]
  refine ⟨fun e => ?fails, fun v back hv hback => ⟨?typed, ?ignored, ?skipped⟩⟩
  case fails => exact skipValue_eq_error_iff
  case typed =>
    intro hfits α target decode
    exact result_typed_of_truncated target decode hv hback rfl hfits
  case ignored =>
    rintro entries rfl
    exact result_ignoreObject_of_truncated hv hback rfl
  case skipped =>
    intro last hlast
    have hskipped : Skipped (ahead.map (·.token) ++ back) := hv ▸ skipped_flatten v
    refine result_skipValue_of_unclosed (hskipped.unclosed ?_ hback) hlast
    rintro hnil
    cases List.map_eq_nil_iff.mp hnil
    cases hlast

/-- An object that breaks off behind the name of its first property. -/
def brokenObject : Cursor := .ofTokens [⟨.objectStart, {}⟩, ⟨.propertyName "a", {}⟩]

theorem failure_of_brokenObject :
    (∀ (α : Type) (target : String) (decode : Decoder α),
      ((typed target decode NumberValue.read?).run {} brokenObject).result =
        .error (.endOfStream 2)) ∧
    (ignoreObject.run {} brokenObject).result = .error (.endOfStream 2) ∧
    (skipValue.run {} brokenObject).result =
      .error (.tokenMismatch "a value" .propertyName 2) := by
  obtain ⟨htyped, hignored, hskipped⟩ := (failure_of_incomplete {} brokenObject NumberValue.read?).2
    (.object [("a", .null)]) [.null, .objectEnd] rfl nofun
  have hfits : Assembly.Fits NumberValue.read? (Settings.maxDepth {})
      [.objectStart, .propertyName "a"] :=
    .of_length (by simp [Tree.NumbersRead]) (by decide)
  exact ⟨htyped hfits, hignored _ rfl, hskipped _ rfl⟩

/-- Skipping does not report the end of the tokens wherever a container is not closed. -/
theorem not_forall_endOfStream_of_incomplete :
    ¬ ∀ (s : Settings) (c : Cursor),
      (∃ n, (skipValue.run s c).result = .error (.endOfStream n)) ↔
        c.ahead = [] ∨ Unclosed (c.ahead.map (·.token)) := by
  intro h
  have hopen : Unclosed [.arrayStart] := by
    refine (unclosed_cons_iff rfl).mpr ?_
    intro front back hts
    obtain ⟨rfl, -⟩ := List.nil_eq_append_iff.mp hts
    decide
  obtain ⟨n, hn⟩ := (h {} (.ofTokens [⟨.arrayStart, {}⟩])).mpr (.inr hopen)
  cases hn

end Parser

end JsonReader
