import JsonReader.Proofs.Lexeme.Scan

/-!
# Lexemes and the choice of line breaks

A text without CR breaks its lines by LF. With other line breaks in their place it has the same
lexemes, apart from the breaks in block comments: a line break is one lexeme in all forms, and
strings, numbers and words hold none. Line comments make a difference. They end before CR LF as they
end before LF, but they do not end before a CR by itself.

Where no lexeme begins, none begins in the form with CR LF.

## Main definitions

* `withBreaks` turns every LF of a text into another line break, `withCarriageReturns` into CR LF.
* `Lexeme.withBreaks`, `Lexeme.withCarriageReturns` do so with the content of a comment.
* `EndsAtLineFeed` says that a text begins with a line comment that a LF ends.

## Main statements

* `withBreaks_eq_append_iff`: a part of one line stands in all forms of a text.
* `takeNumber?_withBreaks`, `untilCommentEnd?_withBreaks`: the readers that look ahead.
* `lexes_withBreaks`: the first lexeme of the other form.
* `lexes_withCarriageReturns_iff`: the first lexeme of a text and of its form with CR LF.
* `EndsAtLineFeed.lexAny_withBreaks`: a line comment before a CR by itself is no lexeme.
-/

namespace JsonReader

open Grammar

/-- A line break that begins with CR. -/
inductive LineBreak
  /-- CR LF. -/
  | pair
  /-- A CR by itself. -/
  | lone

/-- What stands behind the CR. -/
def LineBreak.behind : LineBreak → List Char
  | pair => ['\n']
  | lone => []

/-- Every LF becomes another line break. -/
def withBreaks (b : LineBreak) (s : List Char) : List Char :=
  s.flatMap fun c => if c = '\n' then '\r' :: b.behind else [c]

section
variable {b : LineBreak}

@[simp] theorem withBreaks_nil : withBreaks b [] = [] := rfl

@[simp] theorem withBreaks_lineFeed (s : List Char) :
    withBreaks b ('\n' :: s) = '\r' :: (b.behind ++ withBreaks b s) := rfl

@[simp] theorem withBreaks_cons {c : Char} (hc : c ≠ '\n') (s : List Char) :
    withBreaks b (c :: s) = c :: withBreaks b s := by
  simp [withBreaks, hc]

@[simp] theorem withBreaks_append (s t : List Char) :
    withBreaks b (s ++ t) = withBreaks b s ++ withBreaks b t :=
  List.flatMap_append

theorem withBreaks_ne_nil {s : List Char} (hs : s ≠ []) : withBreaks b s ≠ [] := by
  obtain ⟨c, s, rfl⟩ := List.exists_cons_of_ne_nil hs
  by_cases hc : c = '\n'
  · simp [hc]
  · simp [hc]

theorem withBreaks_eq_self {s : List Char} (h : ∀ c ∈ s, c ≠ '\r' ∧ c ≠ '\n') :
    withBreaks b s = s := by
  induction s with
  | nil => rfl
  | cons c s ih =>
    obtain ⟨⟨-, hc⟩, hs⟩ := List.forall_mem_cons.mp h
    rw [withBreaks_cons hc, ih hs]

/-- A part of one line stands at the front of both forms of a text or of none. -/
theorem withBreaks_eq_append_iff {s line rest' : List Char}
    (hline : ∀ c ∈ line, c ≠ '\r' ∧ c ≠ '\n') :
    withBreaks b s = line ++ rest' ↔
      ∃ rest, s = line ++ rest ∧ rest' = withBreaks b rest := by
  induction line generalizing s with
  | nil => simp [eq_comm]
  | cons d line ih =>
    obtain ⟨⟨hcr, hlf⟩, hline⟩ := List.forall_mem_cons.mp hline
    cases s with
    | nil => simp
    | cons c s =>
      by_cases hc : c = '\n'
      · subst hc
        simp [hcr.symm, hlf.symm]
      · simp [hc, ih hline, and_assoc]

/-- A class without line ends has the same characters at the front of both forms. -/
theorem stops_withBreaks_iff {p : Char → Bool} (hcr : p '\r' = false) (hlf : p '\n' = false)
    {s : List Char} : Stops p (withBreaks b s) ↔ Stops p s := by
  cases s with
  | nil => rfl
  | cons c s =>
    by_cases hc : c = '\n'
    · subst hc
      exact iff_of_true (stops_cons hcr) (stops_cons hlf)
    · simp [Stops, hc]

/-- A run of a class without line ends is on one line. -/
theorem ne_lineEnds_of_run {p : Char → Bool} (hcr : p '\r' = false) (hlf : p '\n' = false)
    {run : List Char} (hrun : ∀ c ∈ run, p c = true) : ∀ c ∈ run, c ≠ '\r' ∧ c ≠ '\n' := by
  intro c hc
  constructor
  · rintro rfl
    simp [hrun _ hc] at hcr
  · rintro rfl
    simp [hrun _ hc] at hlf

/-- Behind the longest run of a class without line ends, the rest of the other form is left. -/
theorem longestRun_withBreaks {p : Char → Bool} (hcr : p '\r' = false) (hlf : p '\n' = false)
    (s : List Char) :
    (withBreaks b s).takeWhile p = s.takeWhile p ∧
      (withBreaks b s).dropWhile p = withBreaks b (s.dropWhile p) := by
  obtain ⟨hrun, hstops, happ⟩ := longestRun_eq_iff.mp
    (⟨rfl, rfl⟩ : s.takeWhile p = _ ∧ s.dropWhile p = _)
  refine longestRun_eq_iff.mpr ⟨hrun, (stops_withBreaks_iff hcr hlf).mpr hstops, ?_⟩
  exact (withBreaks_eq_append_iff (ne_lineEnds_of_run hcr hlf hrun)).mpr ⟨_, happ, rfl⟩

/-- No LF is left. -/
theorem head?_withBreaks_lone_ne (s : List Char) : (withBreaks .lone s).head? ≠ some '\n' := by
  cases s with
  | nil => simp
  | cons c s =>
    by_cases hc : c = '\n'
    · simp [hc]
    · simp [hc]

/-! ## Numbers -/

theorem takeDigits_withBreaks (s : List Char) :
    takeDigits (withBreaks b s) = (takeDigits s).map id (withBreaks b) := by
  obtain ⟨ht, hd⟩ := longestRun_withBreaks (b := b) (p := Char.isDigit) rfl rfl s
  rw [takeDigits, ht, hd]
  rfl

theorem takeMinus_withBreaks (s : List Char) :
    takeMinus (withBreaks b s) = (takeMinus s).map id (withBreaks b) := by
  cases s with
  | nil => rfl
  | cons c s =>
    by_cases hc : c = '\n'
    · subst hc
      rfl
    · by_cases hminus : c = '-'
      · subst hminus
        rfl
      · simp [takeMinus, hc, hminus]

theorem takeWhole?_withBreaks (s : List Char) :
    takeWhole? (withBreaks b s) =
      (takeWhole? s).map (Prod.map id (withBreaks b)) := by
  have hdigits := takeDigits_withBreaks (b := b) s
  cases s with
  | nil => rfl
  | cons c s =>
    by_cases hc : c = '\n'
    · subst hc
      rfl
    · by_cases hzero : c = '0'
      · subst hzero
        rfl
      · rw [withBreaks_cons hc] at hdigits ⊢
        rcases hds : takeDigits (c :: s) with ⟨digits, rest⟩
        rw [hds] at hdigits
        cases digits <;> simp [takeWhole?, hzero, hds, hdigits]

theorem takeFraction_withBreaks (s : List Char) :
    takeFraction (withBreaks b s) = (takeFraction s).map id (withBreaks b) := by
  cases s with
  | nil => rfl
  | cons c s =>
    by_cases hc : c = '\n'
    · subst hc
      rfl
    · rw [withBreaks_cons hc]
      by_cases hpoint : c = '.'
      · subst hpoint
        have hdigits := takeDigits_withBreaks (b := b) s
        rcases hds : takeDigits s with ⟨digits, rest⟩
        rw [hds] at hdigits
        simp only [takeFraction, hds, hdigits]
        cases digits <;> rfl
      · simp [takeFraction, hc, hpoint]

theorem takeSign_withBreaks (s : List Char) :
    takeSign (withBreaks b s) = (takeSign s).map id (withBreaks b) := by
  cases s with
  | nil => rfl
  | cons c s =>
    by_cases hc : c = '\n'
    · subst hc
      rfl
    · rw [withBreaks_cons hc]
      unfold takeSign
      split <;> simp_all

theorem takeExponent_withBreaks (s : List Char) :
    takeExponent (withBreaks b s) = (takeExponent s).map id (withBreaks b) := by
  cases s with
  | nil => rfl
  | cons c s =>
    by_cases hc : c = '\n'
    · subst hc
      rfl
    · rw [withBreaks_cons hc]
      by_cases hmark : c = 'e' ∨ c = 'E'
      · have hdigits := takeDigits_withBreaks (b := b) (takeSign s).2
        rcases hds : takeDigits (takeSign s).2 with ⟨digits, rest⟩
        rw [hds] at hdigits
        simp only [takeExponent, hmark, takeSign_withBreaks, Prod.map_fst, Prod.map_snd,
          hds, hdigits]
        cases digits <;> simp [hc]
      · simp [takeExponent, hc, hmark]

/-- A number of the one form is a number of the other, and the same text is left behind it. -/
theorem takeNumber?_withBreaks (s : List Char) :
    takeNumber? (withBreaks b s) =
      (takeNumber? s).map (Prod.map id (withBreaks b)) := by
  simp only [takeNumber?, takeMinus_withBreaks, Prod.map_fst, Prod.map_snd,
    takeWhole?_withBreaks]
  cases takeWhole? (takeMinus s).2 with
  | none => rfl
  | some found =>
    simp [takeFraction_withBreaks, takeExponent_withBreaks]

/-! ## Strings -/

theorem Grammar.HexDigit.le_toNat {c : Char} {n : Nat} (h : HexDigit c n) : 0x20 ≤ c.toNat := by
  have decimal : ∀ m < 10, 0x20 ≤ (Char.ofNat ('0'.toNat + m)).toNat := by decide
  have lower : ∀ m < 6, 0x20 ≤ (Char.ofNat ('a'.toNat + m)).toNat := by decide
  have upper : ∀ m < 6, 0x20 ≤ (Char.ofNat ('A'.toNat + m)).toNat := by decide
  cases h with
  | decimal h => exact decimal _ h
  | lower h => exact lower _ h
  | upper h => exact upper _ h

theorem Grammar.CodeUnit.le_toNat {ds : List Char} {n : Nat} (h : CodeUnit ds n) :
    ∀ c ∈ ds, 0x20 ≤ c.toNat := by
  cases h with
  | mk ha hb hc hd => simp [ha.le_toNat, hb.le_toNat, hc.le_toNat, hd.le_toNat]

theorem Grammar.StringChar.le_toNat {source : List Char} {d : Char} (h : StringChar source d) :
    ∀ c ∈ source, 0x20 ≤ c.toNat := by
  cases h with
  | raw _ _ hspace => simpa using hspace
  | short h =>
    have hescapes : ∀ p ∈ shortEscapes, 0x20 ≤ p.1.toNat := by decide
    simpa using hescapes _ h
  | unit hu _ => simpa using hu.le_toNat
  | pair hh _ hl _ =>
    simp only [List.forall_mem_cons, List.forall_mem_append]
    exact ⟨by decide, by decide, hh.le_toNat, by decide, by decide, hl.le_toNat⟩

/-- No control character stands in a string. -/
theorem Grammar.StringBody.le_toNat {body text : List Char} (h : StringBody body text) :
    ∀ c ∈ body, 0x20 ≤ c.toNat := by
  induction h with
  | nil => simp
  | cons hc _ ih => exact List.forall_mem_append.mpr ⟨hc.le_toNat, ih⟩

theorem Grammar.StringBody.ne_lineEnds {body text : List Char} (h : StringBody body text) :
    ∀ c ∈ body, c ≠ '\r' ∧ c ≠ '\n' := by
  intro c hc
  have hspace := h.le_toNat c hc
  constructor
  all_goals
    rintro rfl
    revert hspace
    decide

/-! ## Comments -/

/-- A block comment ends at the same mark in both forms. -/
theorem untilCommentEnd?_withBreaks (s : List Char) :
    untilCommentEnd? (withBreaks b s) =
      (untilCommentEnd? s).map (Prod.map (withBreaks b) (withBreaks b)) := by
  fun_induction untilCommentEnd? s with
  | case1 => rfl
  | case2 rest => rfl
  | case3 c s hmark ih =>
    by_cases hc : c = '\n'
    · subst hc
      have hbehind : untilCommentEnd? (b.behind ++ withBreaks b s) =
          (untilCommentEnd? (withBreaks b s)).map (Prod.map (b.behind ++ ·) id) := by
        cases b with
        | lone =>
          show untilCommentEnd? (withBreaks .lone s) = _
          cases untilCommentEnd? (withBreaks .lone s) <;> rfl
        | pair =>
          rw [LineBreak.behind, List.singleton_append, untilCommentEnd?]
          · rfl
          · simp
      rw [withBreaks_lineFeed, untilCommentEnd?, hbehind, ih]
      · cases untilCommentEnd? s <;> rfl
      · simp
    · have hmark' : ∀ t, c = '*' → withBreaks b s = '/' :: t → False := by
        intro t hstar heq
        obtain ⟨rest, rfl, -⟩ := (@withBreaks_eq_append_iff b s ['/'] t (by simp)).mp heq
        exact hmark rest hstar rfl
      rw [withBreaks_cons hc, untilCommentEnd?, ih]
      · cases untilCommentEnd? s <;> simp [hc]
      · exact hmark'

theorem mem_of_mem_trimBlanks {c : Char} {s : List Char} (h : c ∈ Text.trimBlanks s) : c ∈ s := by
  rw [Text.trimBlanks, Text.trimEndBlanks, List.mem_reverse] at h
  have hreversed := (List.dropWhile_suffix _).subset h
  rw [List.mem_reverse] at hreversed
  exact (List.dropWhile_suffix _).subset hreversed

/-- The text begins with a line comment, and `rest` is left behind it and begins with LF. -/
def EndsAtLineFeed (s rest : List Char) : Prop :=
  ∃ content t, (∀ c ∈ content, c ≠ '\r' ∧ c ≠ '\n') ∧ rest = '\n' :: t ∧
    s = '/' :: '/' :: (content ++ rest)

/-- A line comment also ends before CR LF, but not before a CR by itself. -/
theorem atLineEnd_withBreaks {s : List Char} (hs : '\r' ∉ s) (h : AtLineEnd s)
    (hlone : b = .lone → s.head? ≠ some '\n') : AtLineEnd (withBreaks b s) := by
  rcases h with rfl | h | ⟨t, rfl⟩
  · exact .inl rfl
  · cases b with
    | lone => exact absurd h (hlone rfl)
    | pair =>
      obtain ⟨t, rfl⟩ := List.head?_eq_some_iff.mp h
      exact .inr (.inr ⟨_, rfl⟩)
  · simp at hs

/-! ## Lexemes -/

/-- The content of a comment has other line breaks. -/
def Lexeme.withBreaks (b : LineBreak) : Lexeme → Lexeme
  | comment content => comment (String.ofList (JsonReader.withBreaks b content.toList))
  | lexeme => lexeme

/-- The first lexeme of a text is read in the other form too, unless it is a line comment that a CR
by itself would have to end. -/
theorem lexes_withBreaks {s rest : List Char} {l : Lexeme} (hs : '\r' ∉ s) (h : Lexes s l rest)
    (hlone : b = .lone → ¬ EndsAtLineFeed s rest) :
    Lexes (withBreaks b s) (l.withBreaks b) (withBreaks b rest) := by
  cases h with
  | @blank run _ hne hrun hrest =>
    rw [withBreaks_append, withBreaks_eq_self (ne_lineEnds_of_run rfl rfl hrun)]
    exact .blank hne hrun ((stops_withBreaks_iff rfl rfl).mpr hrest)
  | lineFeed =>
    cases b with
    | pair => exact .carriageReturnLineFeed
    | lone => exact .carriageReturn (head?_withBreaks_lone_ne rest)
  | carriageReturnLineFeed => simp at hs
  | carriageReturn => simp at hs
  | @blockComment content _ hcontent =>
    have hmark := @untilCommentEnd?_withBreaks b (content ++ '*' :: '/' :: rest)
    rw [untilCommentEnd?_append hcontent, Option.map_some] at hmark
    obtain ⟨hcontent', happ⟩ := untilCommentEnd?_eq_some_iff.mp hmark
    have hlex := @Lexes.blockComment _ (withBreaks b rest) hcontent'
    rw [← happ] at hlex
    simpa [Lexeme.withBreaks] using hlex
  | @lineComment content _ hcontent hend =>
    have hrest : '\r' ∉ rest := fun hmem => hs (by simp [hmem])
    have htrimmed : withBreaks b (Text.trimBlanks content) = Text.trimBlanks content :=
      withBreaks_eq_self fun c hc => hcontent c (mem_of_mem_trimBlanks hc)
    have hhead : b = .lone → rest.head? ≠ some '\n' := by
      intro hb hlf
      obtain ⟨t, rfl⟩ := List.head?_eq_some_iff.mp hlf
      exact hlone hb ⟨content, t, hcontent, rfl, rfl⟩
    have hlex := Lexes.lineComment hcontent (atLineEnd_withBreaks hrest hend hhead)
    simpa [Lexeme.withBreaks, htrimmed, withBreaks_eq_self hcontent] using hlex
  | @string body text _ hbody =>
    have hlex := @Lexes.string _ _ (withBreaks b rest) hbody
    simpa [Lexeme.withBreaks, withBreaks_eq_self hbody.ne_lineEnds] using hlex
  | number hsource =>
    refine .number ?_
    rw [takeNumber?_withBreaks, hsource]
    rfl
  | trueWord => exact .trueWord
  | falseWord => exact .falseWord
  | nullWord => exact .nullWord
  | delimiter d => cases d <;> exact .delimiter _

/-- No lexeme begins where the line comment would have to end before a CR by itself. -/
theorem EndsAtLineFeed.lexAny_withBreaks {s rest : List Char} (h : EndsAtLineFeed s rest) :
    ∃ failure, lexAny (JsonReader.withBreaks .lone s) = .error failure := by
  obtain ⟨content, t, hcontent, rfl, rfl⟩ := h
  have hu := untilLineEnd?_append_carriageReturn hcontent (head?_withBreaks_lone_ne t)
  have hslash : Delimiter.ofChar? '/' = none := by decide
  simp [withBreaks_eq_self hcontent, LineBreak.behind, lexAny, Lexer.orElse, lexBlank_cons,
    isSpaceOrTab, lexNewline, lexComment, lexBlockComment, lexLineComment, hu, lexLiteral,
    lexString, takeNumber?, takeMinus, takeWhole?, takeDigits, lexKeyword, lexDelimiter, hslash]

end

/-! ## CR LF -/

/-- Every LF gets a CR before it. -/
def withCarriageReturns (s : List Char) : List Char :=
  s.flatMap fun c => if c = '\n' then ['\r', '\n'] else [c]

theorem withCarriageReturns_eq_withBreaks (s : List Char) :
    withCarriageReturns s = withBreaks .pair s := rfl

/-- The content of a comment breaks its lines by CR LF. -/
def Lexeme.withCarriageReturns : Lexeme → Lexeme
  | comment content => comment (String.ofList (JsonReader.withCarriageReturns content.toList))
  | lexeme => lexeme

theorem Lexeme.withCarriageReturns_eq_withBreaks (l : Lexeme) :
    l.withCarriageReturns = l.withBreaks .pair := by
  cases l <;> rfl

/-- The first lexeme of a text is read in the form with CR LF too. -/
theorem lexes_withCarriageReturns {s rest : List Char} {l : Lexeme} (hs : '\r' ∉ s)
    (h : Lexes s l rest) :
    Lexes (withCarriageReturns s) l.withCarriageReturns (withCarriageReturns rest) := by
  rw [Lexeme.withCarriageReturns_eq_withBreaks]
  exact lexes_withBreaks hs h (b := .pair) nofun

theorem atLineEnd_withCarriageReturns_iff {s : List Char} (hs : '\r' ∉ s) :
    AtLineEnd (withBreaks .pair s) ↔ AtLineEnd s := by
  cases s with
  | nil => rfl
  | cons c s =>
    by_cases hc : c = '\n'
    · subst hc
      exact iff_of_true (.inr (.inr ⟨_, rfl⟩)) (.inr (.inl rfl))
    · have hcr : '\r' ≠ c := fun heq => hs (heq ▸ List.mem_cons_self)
      simp [AtLineEnd, hc, hcr]

/-- Where a lexeme begins in the other form, one begins in the text. -/
theorem exists_lexes_of_withCarriageReturns {s rest' : List Char} {l' : Lexeme} (hs : '\r' ∉ s)
    (h : Lexes (withBreaks .pair s) l' rest') : ∃ l rest, Lexes s l rest := by
  by_cases hlf : s.head? = some '\n'
  · obtain ⟨t, rfl⟩ := List.head?_eq_some_iff.mp hlf
    exact ⟨_, _, .lineFeed⟩
  have hhead : ∀ c, (withBreaks .pair s).head? = some c → c ≠ '\r' ∧ c ≠ '\n' := by
    cases s with
    | nil => simp
    | cons c s =>
      have hc : c ≠ '\n' := by simpa using hlf
      have hcr : c ≠ '\r' := fun heq => hs (heq ▸ List.mem_cons_self)
      simpa [hc] using hcr
  -- The text begins with a part of one line, which stands in both forms.
  generalize ht : withBreaks .pair s = t at h hhead
  have hcut : ∀ {line rest'}, t = line ++ rest' → (∀ c ∈ line, c ≠ '\r' ∧ c ≠ '\n') →
      ∃ rest, s = line ++ rest ∧ rest' = withBreaks .pair rest :=
    fun happ hline => (withBreaks_eq_append_iff hline).mp (ht.trans happ)
  cases h with
  | blank hne hrun hrest =>
    obtain ⟨rest, rfl, rfl⟩ := hcut rfl (ne_lineEnds_of_run rfl rfl hrun)
    exact ⟨_, _, .blank hne hrun ((stops_withBreaks_iff rfl rfl).mp hrest)⟩
  | lineFeed => exact absurd rfl (hhead _ rfl).2
  | carriageReturnLineFeed | carriageReturn => exact absurd rfl (hhead _ rfl).1
  | @blockComment content rest' hcontent =>
    obtain ⟨rest, rfl, happ⟩ := @hcut ['/', '*'] (content ++ '*' :: '/' :: rest') rfl (by simp)
    have hmark := untilCommentEnd?_append hcontent rest'
    rw [happ, untilCommentEnd?_withBreaks, Option.map_eq_some_iff] at hmark
    obtain ⟨⟨content, rest⟩, hmark, -⟩ := hmark
    obtain ⟨hcontent, rfl⟩ := untilCommentEnd?_eq_some_iff.mp hmark
    exact ⟨_, _, .blockComment hcontent⟩
  | @lineComment content rest' hcontent hend =>
    obtain ⟨rest, rfl, rfl⟩ := @hcut ('/' :: '/' :: content) rest' rfl (by simpa using hcontent)
    have hrest : '\r' ∉ rest := fun hmem => hs (by simp [hmem])
    exact ⟨_, _, .lineComment hcontent ((atLineEnd_withCarriageReturns_iff hrest).mp hend)⟩
  | @string body _ rest' hbody =>
    have hline : ∀ c ∈ '"' :: (body ++ ['"']), c ≠ '\r' ∧ c ≠ '\n' := by
      simpa [or_imp, forall_and] using hbody.ne_lineEnds
    obtain ⟨rest, rfl, -⟩ := @hcut _ rest' (by simp) hline
    have hlex := @Lexes.string _ _ rest hbody
    exact ⟨_, rest, by simpa using hlex⟩
  | number hsource =>
    rw [← ht, takeNumber?_withBreaks, Option.map_eq_some_iff] at hsource
    obtain ⟨⟨source, rest⟩, hsource, -⟩ := hsource
    exact ⟨_, _, .number hsource⟩
  | trueWord =>
    obtain ⟨rest, rfl, -⟩ := @hcut ['t', 'r', 'u', 'e'] _ rfl (by simp)
    exact ⟨_, _, .trueWord⟩
  | falseWord =>
    obtain ⟨rest, rfl, -⟩ := @hcut ['f', 'a', 'l', 's', 'e'] _ rfl (by simp)
    exact ⟨_, _, .falseWord⟩
  | nullWord =>
    obtain ⟨rest, rfl, -⟩ := @hcut ['n', 'u', 'l', 'l'] _ rfl (by simp)
    exact ⟨_, _, .nullWord⟩
  | delimiter d =>
    obtain ⟨rest, rfl, -⟩ := @hcut [d.char] _ rfl (by cases d <;> simp [Delimiter.char])
    exact ⟨_, _, .delimiter d⟩

/-- Both forms of a text begin with the same lexeme, and with both forms of the same rest behind
it. -/
theorem lexes_withCarriageReturns_iff {s rest' : List Char} {l' : Lexeme} (hs : '\r' ∉ s) :
    Lexes (withCarriageReturns s) l' rest' ↔
      ∃ l rest, Lexes s l rest ∧ l' = l.withCarriageReturns ∧ rest' = withCarriageReturns rest := by
  constructor
  · intro h
    obtain ⟨l, rest, hlex⟩ := exists_lexes_of_withCarriageReturns hs h
    obtain ⟨rfl, rfl⟩ := h.unique (lexes_withCarriageReturns hs hlex)
    exact ⟨l, rest, hlex, rfl, rfl⟩
  · rintro ⟨l, rest, hlex, rfl, rfl⟩
    exact lexes_withCarriageReturns hs hlex

end JsonReader
