import JsonReader.Proofs.Object.SinglePass
import JsonReader.Proofs.Token.Places

/-!
# Failures mark their cursors

A failure names the position at which it was detected. Where the parser has stopped is another
matter: two parsers move the cursor in between. A value that is read in full and then not decoded is
named by its first token, which is not the last one if it is a container. And the engine for objects
goes back to the name of a property that failed, and reads on from there if a name comes next.

## Main definitions

* `nth?` numbers tokens from one, `place?` is the line and the column of a token.
* `Marks` says what a failure tells about the cursor that it leaves, `Parser.Marking` that every
  failure of a parser does.

## Main statements

* `distinctPlaces_of_tokenizeFrom`: the tokens of a text begin at places that differ.
* `Scalar.marking`, `Parser.marking_typed` and the others, one for each way to make a parser.
* `Parser.marks_collect`, `Parser.marking_startedObjectUpdater`: the failures of objects.
-/

namespace JsonReader

/-! ## Tokens by their numbers -/

/-- The token with a number, the first one being number one. -/
def nth? (ts : List LocatedToken) : Nat → Option LocatedToken
  | 0 => none
  | n + 1 => ts[n]?

/-- The line and the column where a token begins. -/
def place? (ts : List LocatedToken) (n : Nat) : Option (Nat × Nat) :=
  (nth? ts n).map (·.place)

/-- A container begins with the token. -/
def StartAt (ts : List LocatedToken) (n : Nat) : Prop :=
  ∃ t, nth? ts n = some t ∧ t.token.kind.isStart = true

/-- The token is the name of a property. -/
def NameAt (ts : List LocatedToken) (n : Nat) (name : String) : Prop :=
  ∃ t, nth? ts n = some t ∧ t.token = .propertyName name

/-- The tokens begin at places that differ. -/
def DistinctPlaces (ts : List LocatedToken) : Prop :=
  (ts.map (·.place)).Nodup

/-- A place tells one token of a text from all others. -/
theorem distinctPlaces_of_tokenizeFrom {settings : TokenizerSettings} {start : Location}
    {text : List Char} {ts : List LocatedToken}
    (h : (tokenizeFrom settings start text).1 = .ok ts) : DistinctPlaces ts :=
  (pairwise_precedes_of_tokenizeFrom h).imp Precedes.ne

theorem place?_injective {ts : List LocatedToken} (h : DistinctPlaces ts) {m n : Nat}
    {place : Nat × Nat} (hm : place? ts m = some place) (hn : place? ts n = some place) :
    n = m := by
  cases m with
  | zero => simp [place?, nth?] at hm
  | succ m =>
    cases n with
    | zero => simp [place?, nth?] at hn
    | succ n =>
      simp only [place?, nth?, ← List.getElem?_map] at hm hn
      have hlt := (List.getElem?_eq_some_iff.mp hn).1
      rw [(List.getElem?_inj hlt h).mp (hn.trans hm.symm)]

namespace Cursor

theorem nth?_position (c : Cursor) : nth? c.tokens c.position = c.current? := by
  obtain ⟨passed, ahead⟩ := c
  cases passed with
  | nil => rfl
  | cons t passed =>
    simp only [tokens, position, List.length_cons, nth?, current?, List.head?_cons,
      List.reverse_cons, List.append_assoc]
    rw [List.getElem?_append_right (by simp)]
    simp

theorem nth?_succ_position (c : Cursor) : nth? c.tokens (c.position + 1) = c.ahead.head? := by
  obtain ⟨passed, ahead⟩ := c
  simp only [tokens, position, nth?]
  rw [List.getElem?_append_right (by simp)]
  simp [List.head?_eq_getElem?]

/-- The location is that of the current token, or of the first one where none is current. -/
theorem place?_location (c : Cursor) (h : c.tokens ≠ []) :
    place? c.tokens (max 1 c.position) = some c.location := by
  obtain ⟨passed, ahead⟩ := c
  cases passed with
  | nil =>
    obtain ⟨t, ahead, rfl⟩ := List.exists_cons_of_ne_nil h
    rfl
  | cons t passed =>
    have hposition : max 1 (position ⟨t :: passed, ahead⟩) = position ⟨t :: passed, ahead⟩ := by
      simp only [position, List.length_cons]
      omega
    rw [place?, hposition, nth?_position]
    rfl

/-- The location is that of a token exactly if the cursor stands behind it, or before the first one.
-/
theorem place?_eq_location_iff (c : Cursor) (hplaces : DistinctPlaces c.tokens) {n : Nat}
    (hpos : 1 ≤ n) :
    place? c.tokens n = some c.location ↔ n = max 1 c.position ∧ n ≤ c.tokens.length := by
  by_cases hempty : c.tokens = []
  · rw [hempty]
    cases n with
    | zero => omega
    | succ n => simp [place?, nth?]
  · have hplace := c.place?_location hempty
    constructor
    · intro hn
      refine ⟨place?_injective hplaces hplace hn, ?_⟩
      cases n with
      | zero => omega
      | succ n =>
        simp only [place?, nth?, Option.map_eq_some_iff] at hn
        obtain ⟨t, ht, -⟩ := hn
        exact (List.getElem?_eq_some_iff.mp ht).1
    · rintro ⟨rfl, -⟩
      exact hplace

theorem startAt_position_iff {c : Cursor} :
    StartAt c.tokens c.position ↔ ∃ k, c.kind? = some k ∧ k.isStart = true := by
  rw [StartAt, nth?_position, kind?, token?]
  cases c.current? <;> simp

end Cursor

/-! ## Failures and cursors -/

/-- The text of a token, or the shape of a value, is the cause, remarks aside. -/
def ParseError.isConversion : ParseError → Bool
  | conversion _ _ _ => true
  | context _ inner => inner.isConversion
  | _ => false

/-- What a failure with a position tells about the cursor that it leaves. Outside of objects the
cursor stands behind the token of that position, unless a container was read in full and not
decoded. In an object it stands behind the name of the property that failed, or further on if
another name comes at once. -/
def Marks (e : ParseError) (start : Nat) (d : Cursor) : Prop :=
  ∀ n, e.position? = some n → start ≤ n ∧
    match e.property? with
    | none => n ≤ d.position ∧ (n = d.position ↔ ¬ (e.isConversion = true ∧ StartAt d.tokens n))
    | some name =>
      ∃ k, start < k ∧ k ≤ n ∧ k ≤ d.position ∧ NameAt d.tokens k name ∧
        ((∀ other, ¬ NameAt d.tokens (k + 1) other) → d.position = k)

namespace Marks

theorem mono {e : ParseError} {start start' : Nat} {d : Cursor} (h : Marks e start d)
    (hle : start' ≤ start) : Marks e start' d := by
  intro n hn
  obtain ⟨hstart, hmarks⟩ := h n hn
  refine ⟨by omega, ?_⟩
  cases hp : e.property? with
  | none => simpa [hp] using hmarks
  | some name =>
    rw [hp] at hmarks
    obtain ⟨k, hk, hrest⟩ := hmarks
    exact ⟨k, by omega, hrest⟩

theorem of_position?_eq_none {e : ParseError} {start : Nat} {d : Cursor} (he : e.position? = none) :
    Marks e start d := by
  intro n hn
  simp [he] at hn

/-- A failure of the token under the cursor. -/
theorem of_position {e : ParseError} {start : Nat} {d : Cursor} (hstart : start ≤ d.position)
    (he : e.position? = some d.position) (hproperty : e.property? = none)
    (hconversion : ¬ (e.isConversion = true ∧ StartAt d.tokens d.position)) : Marks e start d := by
  intro n hn
  obtain rfl : d.position = n := Option.some.inj (he.symm.trans hn)
  rw [hproperty]
  exact ⟨hstart, Nat.le_refl _, fun _ => hconversion, fun _ => rfl⟩

theorem context {e : ParseError} {start : Nat} {d : Cursor} (h : Marks e start d)
    (message : String) : Marks (.context message e) start d := h

end Marks

/-- Every failure of the parser marks its cursor. -/
def Parser.Marking {α : Type} (p : Parser α) : Prop :=
  ∀ (s : Settings) (c : Cursor) (e : ParseError),
    (p.run s c).result = .error e → Marks e c.position (p.run s c).cursor

namespace TokenPattern

theorem marks_check (x : TokenPattern) {c d : Cursor} (hle : c.position ≤ d.position)
    {e : ParseError} (h : (x.check d).result = .error e) :
    (x.check d).cursor = d ∧ Marks e c.position d := by
  rw [check] at h ⊢
  split
  · next k hk =>
    rw [hk] at h
    split
    · next hmem => simp [hmem] at h
    · next hmem =>
      simp only [hmem, if_false] at h
      cases h
      exact ⟨rfl, .of_position hle rfl rfl (by simp [ParseError.isConversion])⟩
  · next hk =>
    rw [hk] at h
    cases h
    exact ⟨rfl, .of_position hle rfl rfl (by simp [ParseError.isConversion])⟩

theorem marking (x : TokenPattern) : x.parser.Marking := by
  intro s c e h
  have hle := (x.leadsTo_run s c).position_le
  rw [parser] at h ⊢
  dsimp only at h ⊢
  split
  · next hadvance =>
    rw [if_pos hadvance] at h
    split
    · next d hd =>
      rw [hd] at h
      have hle := (Cursor.leadsTo_of_advance? hd).position_le
      obtain ⟨hcursor, hmarks⟩ := x.marks_check hle h
      rwa [hcursor]
    · next hd =>
      rw [hd] at h
      cases h
      exact .of_position (Nat.le_refl _) rfl rfl (by simp [ParseError.isConversion])
  · next hadvance =>
    rw [if_neg hadvance] at h
    obtain ⟨hcursor, hmarks⟩ := x.marks_check (Nat.le_refl c.position) h
    rwa [hcursor]

/-- Where the pattern succeeds, the current token is of one of its kinds. -/
theorem kind?_of_run_eq_ok (x : TokenPattern) {s : Settings} {c : Cursor} {k : TokenKind}
    (h : (x.parser.run s c).result = .ok k) :
    (x.parser.run s c).cursor.kind? = some k ∧ k ∈ x.kinds := by
  have hcheck : ∀ d, (x.check d).result = .ok k →
      (x.check d).cursor.kind? = some k ∧ k ∈ x.kinds := by
    intro d hd
    rw [check] at hd ⊢
    split
    · next k' hk =>
      rw [hk] at hd
      split
      · next hmem =>
        simp only [hmem, if_true] at hd
        cases hd
        exact ⟨hk, hmem⟩
      · next hmem => simp [hmem] at hd
    · next hk => simp [hk] at hd
  rw [parser] at h ⊢
  dsimp only at h ⊢
  split
  · next hadvance =>
    rw [if_pos hadvance] at h
    split
    · next d hd =>
      rw [hd] at h
      exact hcheck d h
    · next hd => simp [hd] at h
  · next hadvance =>
    rw [if_neg hadvance] at h
    exact hcheck c h

end TokenPattern

/-! ## Primitives -/

theorem Scalar.marking {α : Type} (x : Scalar α) (hx : ∀ k ∈ x.token.kinds, k.isStart = false) :
    x.parser.Marking := by
  intro s c e h
  have hle := (x.token.leadsTo_run s c).position_le
  rw [x.cursor_run]
  rw [parser] at h
  dsimp only at h
  split at h
  · next e' he =>
    cases h
    exact x.token.marking s c e he
  · next k hk =>
    obtain ⟨hkind, hmem⟩ := x.token.kind?_of_run_eq_ok hk
    split at h
    · simp at h
    · cases h
      refine .of_position hle rfl rfl ?_
      rintro ⟨-, hstart⟩
      obtain ⟨k', hk', hstart⟩ := Cursor.startAt_position_iff.mp hstart
      rw [hkind] at hk'
      cases hk'
      rw [hx k hmem] at hstart
      simp at hstart

namespace Parser

variable {α β : Type}

theorem marking_expectText (x : Scalar String) (hx : ∀ k ∈ x.token.kinds, k.isStart = false)
    (expected : List String) (fits : Settings → String → Bool) :
    (expectText x expected fits).Marking := by
  intro s c e h
  cases hr : (x.parser.run s c).result with
  | error e' =>
    have hrun : (expectText x expected fits).run s c = x.parser.run s c := by
      simp [expectText, hr]
    rw [hrun] at h ⊢
    exact x.marking hx s c e h
  | ok text =>
    by_cases hfits : fits s text = true
    · simp [expectText, hr, hfits] at h
    · simp only [expectText, hr, if_neg hfits] at h ⊢
      cases h
      exact .of_position (Forward.scalar x s c).position_le rfl rfl
        (by simp [ParseError.isConversion])

theorem marking_skipValue : skipValue.Marking := by
  intro s c e h
  have hle := (Forward.skipValue s c).position_le
  cases hd : c.advance? with
  | none =>
    simp only [skipValue, hd] at h ⊢
    cases h
    exact .of_position (Nat.le_refl _) rfl rfl (by simp [ParseError.isConversion])
  | some d =>
    obtain ⟨complete, d', hskip⟩ : ∃ complete d', d.skipValue = (complete, d') := ⟨_, _, rfl⟩
    cases complete with
    | true => simp [skipValue, hd, hskip] at h
    | false =>
      cases hk : d'.kind? with
      | some k =>
        simp only [skipValue, hd, hskip, hk] at h hle ⊢
        cases h
        exact .of_position hle rfl rfl (by simp [ParseError.isConversion])
      | none =>
        simp only [skipValue, hd, hskip, hk] at h hle ⊢
        cases h
        exact .of_position hle rfl rfl (by simp [ParseError.isConversion])

theorem marking_bind {p : Parser α} {next : α → Parser β} (hforward : p.Forward) (hp : p.Marking)
    (hnext : ∀ a, (∃ s c, (p.run s c).result = .ok a) → (next a).Marking) :
    (p >>= next).Marking := by
  intro s c e h
  cases hr : (p.run s c).result with
  | ok a =>
    rw [run_bind_of_ok hr] at h ⊢
    exact (hnext a ⟨s, c, hr⟩ s (p.run s c).cursor e h).mono (hforward s c).position_le
  | error e' =>
    rw [run_bind_of_error hr] at h ⊢
    cases h
    exact hp s c e hr

theorem marking_ignoreObject : ignoreObject.Marking := by
  refine marking_bind (.token _) (TokenPattern.marking _) ?_
  intro _ _ s c e h
  have hle := (Cursor.leadsTo_skipValue c).position_le
  obtain ⟨complete, d, hskip⟩ : ∃ complete d, c.skipValue = (complete, d) := ⟨_, _, rfl⟩
  rw [hskip] at hle
  cases complete with
  | true => simp [hskip] at h
  | false =>
    simp only [hskip] at h ⊢
    cases h
    exact .of_position hle rfl rfl (by simp [ParseError.isConversion])

end Parser

namespace Assembly

variable {read : NumberReader} {limit : Nat}

/-- A token that does not fit is a number where its text is the cause. -/
theorem number_of_badNumber {a : Assembly} {t : Token} {source : String}
    (h : a.step read limit t = .error (.badNumber source)) : t = .number source := by
  have hbegin : ∀ hole, begin read limit hole t = .error (.badNumber source) →
      t = .number source := by
    intro hole hb
    cases t with
    | number source' =>
      unfold begin at hb
      dsimp only at hb
      split at hb
      · simp at hb
      · cases hb
        rfl
    | arrayStart =>
      unfold begin at hb
      dsimp only at hb
      split at hb <;> simp at hb
    | objectStart =>
      unfold begin at hb
      dsimp only at hb
      split at hb <;> simp at hb
    | _ => simp [begin] at hb
  simp only [step] at h
  split at h
  · exact hbegin _ h
  · split at h
    · simp at h
    · exact hbegin _ h
  · split at h
    · simp at h
    · simp at h
    · simp at h

/-- Assembling fails at the token under the cursor, by induction on the tokens ahead. -/
theorem marks_run {a : Assembly} {passed ahead : List LocatedToken} {e : ParseError}
    (h : (a.run read limit passed ahead).1 = .error e) :
    Marks e passed.length (a.run read limit passed ahead).2 := by
  induction ahead generalizing a passed with
  | nil =>
    cases h
    exact .of_position (Nat.le_refl _) rfl rfl (by simp [ParseError.isConversion])
  | cons t ahead ih =>
    rw [run] at h ⊢
    split
    · next fault hfault =>
      rw [hfault] at h
      cases h
      have hle : passed.length ≤ (⟨t :: passed, ahead⟩ : Cursor).position := by
        simp [Cursor.position]
      cases fault with
      | mismatch expected found =>
        exact .of_position hle rfl rfl (by simp [AssemblyError.at, ParseError.isConversion])
      | badNumber source =>
        refine .of_position hle rfl rfl ?_
        rintro ⟨-, hstart⟩
        obtain ⟨k, hk, hstart⟩ := Cursor.startAt_position_iff.mp hstart
        have ht := number_of_badNumber hfault
        simp only [Cursor.kind?, Cursor.token?, Cursor.current?, List.head?_cons, Option.map_some,
          ht, Token.kind, Option.some.injEq] at hk
        subst hk
        simp [TokenKind.isStart] at hstart
      | tooDeep limit => exact .of_position?_eq_none rfl
    · next v hv =>
      rw [hv] at h
      simp at h
    · next more hmore =>
      rw [hmore] at h
      refine (ih h).mono ?_
      simp

theorem length_lt_of_run_eq_ok {a : Assembly} {passed ahead : List LocatedToken} {v : Value}
    (h : (a.run read limit passed ahead).1 = .ok v) :
    passed.length < (a.run read limit passed ahead).2.position := by
  cases ahead with
  | nil => simp [run] at h
  | cons t ahead =>
    rw [run] at h ⊢
    split
    · next hfault => simp [hfault] at h
    · simp [Cursor.position]
    · next more _ =>
      have hle := (leadsTo_run read limit more (t :: passed) ahead).position_le
      simp only [Cursor.position, List.length_cons] at hle ⊢
      omega

/-- A value is one token exactly if that token does not start a container. -/
theorem position_of_run_eq_ok {passed ahead : List LocatedToken} {t : LocatedToken} {v : Value}
    (h : ((Assembly.value .whole).run read limit passed (t :: ahead)).1 = .ok v) :
    ((Assembly.value .whole).run read limit passed (t :: ahead)).2.position = passed.length + 1 ↔
      t.token.kind.isStart = false := by
  have hscalar : ∀ w, begin read limit .whole t.token = .ok (.inl w) →
      t.token.kind.isStart = false := by
    intro w hw
    cases ht : t.token with
    | arrayStart | objectStart =>
      simp only [ht, begin] at hw
      split at hw <;> simp at hw
    | bool b => cases b <;> rfl
    | _ => rfl
  have hcontainer : ∀ more, begin read limit .whole t.token = .ok (.inr more) →
      t.token.kind.isStart = true := by
    intro more hmore
    cases ht : t.token with
    | arrayStart => rfl
    | objectStart => rfl
    | number source =>
      simp only [ht, begin] at hmore
      split at hmore <;> simp [fill] at hmore
    | _ => simp [ht, begin, fill] at hmore
  rw [run] at h ⊢
  simp only [step] at h ⊢
  split
  · next hfault => simp [hfault] at h
  · next w hw => simp [Cursor.position, hscalar w hw]
  · next more hmore =>
    rw [hmore] at h
    have hlt := length_lt_of_run_eq_ok h
    simp only [List.length_cons] at hlt
    rw [hcontainer more hmore]
    constructor
    · intro heq
      omega
    · intro hfalse
      simp at hfalse

end Assembly

namespace Parser

variable {α β : Type}

/-- A value that is not decoded is named by its first token, and left behind its last one. -/
theorem marking_typed (target : String) (d : Decoder α) (read : NumberReader) :
    (typed target d read).Marking := by
  intro s c e h
  obtain ⟨passed, ahead⟩ := c
  cases hr : ((value read).run s ⟨passed, ahead⟩).result with
  | error e' =>
    simp only [typed, hr] at h ⊢
    cases h
    exact Assembly.marks_run hr
  | ok v =>
    cases hv : d v with
    | some a => simp [typed, hr, hv] at h
    | none =>
      cases ahead with
      | nil => exact absurd hr (by simp [value, Assembly.run])
      | cons t ahead =>
        simp only [typed, hr, hv, Cursor.advance?_cons] at h ⊢
        cases h
        have hleads := Forward.value read s ⟨passed, t :: ahead⟩
        have hassembled :
            ((Assembly.value .whole).run read s.maxDepth passed (t :: ahead)).1 = .ok v := hr
        have hlt := Assembly.length_lt_of_run_eq_ok hassembled
        have hiff := Assembly.position_of_run_eq_ok hassembled
        intro n hn
        obtain rfl : (⟨t :: passed, ahead⟩ : Cursor).position = n := Option.some.inj hn
        have hstart : StartAt ((value read).run s ⟨passed, t :: ahead⟩).cursor.tokens
            (⟨t :: passed, ahead⟩ : Cursor).position ↔ t.token.kind.isStart = true := by
          rw [hleads.tokens_eq, StartAt]
          have hnth := Cursor.nth?_succ_position ⟨passed, t :: ahead⟩
          simp only [Cursor.position, List.length_cons, List.head?_cons] at hnth ⊢
          simp [hnth]
        simp only [ParseError.property?, ParseError.isConversion, hstart, true_and]
        simp only [Cursor.position, List.length_cons] at hlt hiff ⊢
        refine ⟨by omega, hlt, ?_⟩
        rw [eq_comm, Bool.not_eq_true]
        exact hiff

theorem marking_or {p q : Parser α} (hq : q.Marking) : (p.or q).Marking := by
  intro s c e h
  cases hr : (p.run s c).result with
  | ok a => simp [Parser.or, hr] at h
  | error e' =>
    simp only [Parser.or, hr] at h ⊢
    exact hq s c e h

theorem marking_optional (p : Parser α) : p.optional.Marking := by
  intro s c e h
  cases hr : (p.run s c).result <;> simp [optional, hr] at h

theorem marking_capture (p : Parser α) : p.capture.Marking := by
  intro s c e h
  cases hr : (p.run s c).result <;> simp [capture, hr] at h

theorem marking_many (p : Parser α) : p.many.Marking := by
  intro s c e h
  obtain ⟨as, has⟩ := exists_manyAtMost_eq_ok p s (c.ahead.length + 1) c
  exact absurd (h.symm.trans has) (by simp)

theorem marking_filter [Shown α] {p : Parser α} (test : α → Bool) (hforward : p.Forward)
    (hp : p.Marking) : (p.filter test).Marking := by
  intro s c e h
  cases hr : (p.run s c).result with
  | error e' =>
    have hrun : (p.filter test).run s c = p.run s c := by simp [Parser.filter, hr]
    rw [hrun] at h ⊢
    exact hp s c e h
  | ok a =>
    by_cases htest : test a = true
    · simp [Parser.filter, hr, htest] at h
    · simp only [Parser.filter, hr, if_neg htest] at h ⊢
      cases h
      exact .of_position (hforward s c).position_le rfl rfl (by simp [ParseError.isConversion])

theorem marking_withContext {p : Parser α} (message : String) (hp : p.Marking) :
    (p.withContext message).Marking := by
  intro s c e h
  cases hr : (p.run s c).result with
  | ok a => simp [withContext, hr, mapError_ok] at h
  | error e' =>
    simp only [withContext, hr, mapError_error] at h ⊢
    cases h
    exact (hp s c e' hr).context message

/-! ## Objects -/

theorem nameAt_of_token (passed ahead : List LocatedToken) {t : LocatedToken} {name : String}
    (ht : t.token = .propertyName name) :
    NameAt (Cursor.tokens ⟨t :: passed, ahead⟩) (passed.length + 1) name := by
  have hnth := Cursor.nth?_position ⟨t :: passed, ahead⟩
  exact ⟨t, hnth, ht⟩

/-- No entry is read where the next token is not a name. -/
theorem run_propertyEntry_of_not_nameAt (select : Selector α) (s : Settings) {c : Cursor}
    (h : ∀ name, ¬ NameAt c.tokens (c.position + 1) name) :
    ∃ e, ((propertyEntry select).run s c).result = .error e := by
  have hnth := c.nth?_succ_position
  obtain ⟨passed, ahead⟩ := c
  cases ahead with
  | nil => exact run_propertyEntry_nil select s passed
  | cons t ahead =>
    refine run_propertyEntry_other select s passed ahead ?_
    intro hk
    obtain ⟨name, ht⟩ := Token.kind_eq_propertyName_iff.mp hk
    exact h name ⟨t, hnth, ht⟩

theorem cursor_manyAtMost_of_not_nameAt (select : Selector α) (s : Settings) (count : Nat)
    {c : Cursor} (h : ∀ name, ¬ NameAt c.tokens (c.position + 1) name) :
    ((propertyEntry select).manyAtMost s count c).cursor = c := by
  obtain ⟨e, he⟩ := run_propertyEntry_of_not_nameAt select s h
  cases count with
  | zero => rfl
  | succ count => exact (manyAtMost_of_error he count).2

/-- A property that failed marks the cursor behind whatever is read from its name on. -/
theorem marks_property {select : Selector α} (hforward : ∀ name, (select name).Forward)
    (hmarking : ∀ name, (select name).Marking) (s : Settings) (count : Nat)
    (passed ahead : List LocatedToken) {t : LocatedToken} {name : String}
    (ht : t.token = .propertyName name) {inner : ParseError}
    (h : ((select name).run s ⟨t :: passed, ahead⟩).result = .error inner) :
    Marks (.property name inner) passed.length
      ((propertyEntry select).manyAtMost s count ⟨t :: passed, ahead⟩).cursor := by
  have hmany := Forward.manyAtMost (Forward.propertyEntry hforward) s count ⟨t :: passed, ahead⟩
  have hposition : (⟨t :: passed, ahead⟩ : Cursor).position = passed.length + 1 := rfl
  intro n hn
  obtain ⟨hle, -⟩ := hmarking name s ⟨t :: passed, ahead⟩ inner h n hn
  rw [hposition] at hle
  simp only [ParseError.property?]
  rw [hmany.tokens_eq]
  refine ⟨by omega, passed.length + 1, by omega, hle, hmany.position_le,
    nameAt_of_token passed ahead ht, ?_⟩
  intro hno
  rw [cursor_manyAtMost_of_not_nameAt select s count hno, hposition]

/-- The first failure among the entries marks the cursor behind all of them, by induction on the
attempts. -/
theorem marks_collect {select : Selector α} (hforward : ∀ name, (select name).Forward)
    (hmarking : ∀ name, (select name).Marking) (s : Settings) (count : Nat) (c : Cursor)
    {entries : List (ParseResult (Updater α))} {e : ParseError}
    (hentries : ((propertyEntry select).manyAtMost s count c).result = .ok entries)
    (he : collect entries = .error e) :
    Marks e c.position ((propertyEntry select).manyAtMost s count c).cursor := by
  induction count generalizing c entries with
  | zero =>
    cases hentries
    simp [collect] at he
  | succ count ih =>
    by_cases hname : ∃ name, NameAt c.tokens (c.position + 1) name
    · obtain ⟨name, t, hnth, ht⟩ := hname
      rw [c.nth?_succ_position] at hnth
      obtain ⟨passed, rest⟩ := c
      obtain ⟨ahead, rfl⟩ := List.head?_eq_some_iff.mp hnth
      have hentry := run_propertyEntry_name select s passed ahead ht
      cases h : ((select name).run s ⟨t :: passed, ahead⟩).result with
      | ok u =>
        rw [h] at hentry
        have hresult := congrArg Outcome.result hentry
        have hcursor := congrArg Outcome.cursor hentry
        dsimp only at hcursor
        rw [manyAtMost_of_ok hresult, hcursor] at hentries ⊢
        obtain ⟨rest, hrest⟩ := exists_manyAtMost_eq_ok (propertyEntry select) s count
          ((select name).run s ⟨t :: passed, ahead⟩).cursor
        rw [hrest] at hentries
        cases hentries
        have hstep := Cursor.leadsTo_of_advance? (Cursor.advance?_cons passed t ahead)
        have hleads := hstep.trans (hforward name s ⟨t :: passed, ahead⟩)
        cases hc : collect rest with
        | ok updaters => simp [collect, hc, Except.map] at he
        | error e' =>
          simp only [collect, hc, Except.map] at he
          cases he
          exact (ih _ hrest hc).mono hleads.position_le
      | error inner =>
        rw [h] at hentry
        have hresult := congrArg Outcome.result hentry
        have hcursor := congrArg Outcome.cursor hentry
        dsimp only at hcursor
        rw [manyAtMost_of_ok hresult, hcursor] at hentries ⊢
        obtain ⟨rest, hrest⟩ := exists_manyAtMost_eq_ok (propertyEntry select) s count
          ⟨t :: passed, ahead⟩
        rw [hrest] at hentries
        cases hentries
        cases he
        exact marks_property hforward hmarking s count passed ahead ht h
    · -- Nothing is collected where no name comes next.
      obtain ⟨e', he'⟩ := run_propertyEntry_of_not_nameAt select s (not_exists.mp hname)
      rw [(manyAtMost_of_error he' count).1] at hentries
      cases hentries
      simp [collect] at he

theorem marking_startedObjectUpdater {select : Selector α}
    (hforward : ∀ name, (select name).Forward) (hmarking : ∀ name, (select name).Marking) :
    (startedObjectUpdater select).Marking := by
  intro s c e h
  obtain ⟨entries, hmany⟩ : ∃ entries, ((propertyEntry select).many.run s c).result = .ok entries :=
    exists_manyAtMost_eq_ok (propertyEntry select) s (c.ahead.length + 1) c
  have hleads := Forward.many (Forward.propertyEntry hforward) s c
  rw [startedObjectUpdater, run_bind_of_ok hmany] at h ⊢
  cases hcollect : collect entries with
  | error e' =>
    have hrun : ((ofResult (.error e') : Parser (List (Updater α))).run s
        ((propertyEntry select).many.run s c).cursor).result = .error e' := rfl
    rw [hcollect] at h
    rw [run_bind_of_error hrun] at h ⊢
    cases h
    exact marks_collect hforward hmarking s _ c hmany hcollect
  | ok updaters =>
    have hend : (do
        let _ ← TokenPattern.endObject.parser
        return Updater.sequence updaters : Parser (Updater α)).Marking :=
      marking_bind (.token _) (TokenPattern.marking _) fun _ _ s c e h => by simp at h
    rw [hcollect] at h
    rw [run_bind_of_ok rfl] at h ⊢
    exact (hend s ((propertyEntry select).many.run s c).cursor e h).mono hleads.position_le

end Parser

end JsonReader
