import JsonReader.Proofs.Token.Completeness

/-!
# Accepted texts are documents of the grammar

An accepted text is read back as a derivation. What it begins with, trivia aside, is one lexeme, and
the state tells which lexemes that may be; `Begins` is this step. A phrase is `Reached` when it
derives from the front of the text and the rest is accepted in the state behind it. Values are found
by induction on the length of the text, and within it the items of an array and the entries of an
object are, each from the values in shorter texts.

## Main statements

* `reached_value`: an accepted text begins with a value where one is expected.
* `tokenize_eq_ok_iff_document`: exactly the documents of the grammar are tokenized.
-/

namespace JsonReader

open Grammar

variable {settings : TokenizerSettings}

/-! ## The first lexeme behind trivia -/

/-- What an accepted text begins with behind its trivia, and what is accepted behind that. -/
inductive Begins (settings : TokenizerSettings) (st : Structure) (s : List Char) :
    List Token → Prop
  | nothing (hs : Trivia settings.allowComments s []) (hdone : st.expected = .done) :
      Begins settings st s []
  | literal {t rest : List Char} {l : Literal} {out : Option Token} {st' : Structure}
      {ts : List Token} (hs : Trivia settings.allowComments s t)
      (hlex : Lexes t (.literal l) rest) (haccept : st.acceptLiteral l = .ok (out, st'))
      (hrest : Accepts settings st' rest ts) : Begins settings st s (out.toList ++ ts)
  | delimiter {rest : List Char} {d : Delimiter} {out : Option Token} {st' : Structure}
      {ts : List Token} (hs : Trivia settings.allowComments s (d.char :: rest))
      (haccept : st.acceptDelimiter settings d = .ok (out, st'))
      (hrest : Accepts settings st' rest ts) : Begins settings st s (out.toList ++ ts)

theorem trivia_of_blanks {comments : Bool} {run s t : List Char}
    (hrun : ∀ c ∈ run, isSpaceOrTab c = true) (h : Trivia comments s t) :
    Trivia comments (run ++ s) t := by
  induction run with
  | nil => exact h
  | cons c run ih =>
    have hs := ih fun d hd => hrun d (List.mem_cons_of_mem c hd)
    have hc := hrun c (by simp)
    simp only [isSpaceOrTab, Bool.or_eq_true, beq_iff_eq] at hc
    rcases hc with rfl | rfl
    · exact .space hs
    · exact .tab hs

theorem Begins.of_trivia {st : Structure} {s rest : List Char} {ts : List Token}
    (hs : ∀ t, Trivia settings.allowComments rest t → Trivia settings.allowComments s t)
    (h : Begins settings st rest ts) : Begins settings st s ts := by
  cases h with
  | nothing hrest hdone => exact .nothing (hs _ hrest) hdone
  | literal hrest hlex haccept hbehind => exact .literal (hs _ hrest) hlex haccept hbehind
  | delimiter hrest haccept hbehind => exact .delimiter (hs _ hrest) haccept hbehind

/-- By induction on the run: trivia are skipped until another lexeme comes. -/
theorem begins_of_accepts {st : Structure} {s : List Char} {ts : List Token}
    (h : Accepts settings st s ts) : Begins settings st s ts := by
  obtain ⟨last, hreads, hdone⟩ := h
  generalize hleft : [] = left at hreads
  induction hreads with
  | here =>
    subst hleft
    exact .nothing .none hdone
  | @step st st' last s rest left l out ts hlex hadmitted haccept hrest ih =>
    subst hleft
    have hrest' : Accepts settings st' rest ts := ⟨last, hrest, hdone⟩
    cases l with
    | literal l => exact .literal .none hlex haccept hrest'
    | delimiter d =>
      cases hlex with
      | delimiter => exact .delimiter .none haccept hrest'
    | comment content =>
      cases haccept
      refine .of_trivia ?_ (ih hdone rfl)
      intro t ht
      cases hlex with
      | blockComment hcontent => exact .blockComment hadmitted hcontent ht
      | lineComment hcontent hend => exact .lineComment hadmitted hcontent hend ht
    | blank =>
      cases haccept
      refine .of_trivia ?_ (ih hdone rfl)
      intro t ht
      cases hlex with
      | blank _ hrun _ => exact trivia_of_blanks hrun ht
    | newline =>
      cases haccept
      refine .of_trivia ?_ (ih hdone rfl)
      intro t ht
      cases hlex with
      | lineFeed => exact .lineFeed ht
      | carriageReturnLineFeed => exact .carriageReturnLineFeed ht
      | carriageReturn => exact .carriageReturn ht

/-! ## What may come in a state -/

section
variable {stack : List Container} {e : Expected} {l : Literal} {d : Delimiter}
  {out : Option Token} {st' : Structure}

theorem acceptLiteral_of_value (he : e = .value ∨ e = .valueOrEnd)
    (h : Structure.acceptLiteral ⟨stack, e⟩ l = .ok (out, st')) :
    out = some (.ofLiteral l) ∧ st' = .afterValue stack := by
  rcases he with rfl | rfl <;> cases l <;> cases h <;> exact ⟨rfl, rfl⟩

theorem acceptLiteral_of_key (he : e = .key ∨ e = .keyOrEnd)
    (h : Structure.acceptLiteral ⟨stack, e⟩ l = .ok (out, st')) :
    ∃ name, l = .string name ∧ out = some (.propertyName name) ∧ st' = ⟨stack, .colon⟩ := by
  rcases he with rfl | rfl <;> cases l <;> cases h <;> exact ⟨_, rfl, rfl, rfl⟩

theorem acceptLiteral_of_punctuation (he : e = .colon ∨ e = .commaOrEnd ∨ e = .done)
    (h : Structure.acceptLiteral ⟨stack, e⟩ l = .ok (out, st')) : False := by
  rcases he with rfl | rfl | rfl <;> cases l <;> cases h

theorem enter_eq_ok {st : Structure} {c : Container} {next : Expected} {token : Token}
    (h : st.enter settings c next token = .ok (out, st')) :
    st.stack.length < settings.maxDepth ∧ out = some token ∧ st' = ⟨c :: st.stack, next⟩ := by
  rw [Structure.enter] at h
  split at h
  · simp at h
  · cases h
    exact ⟨by omega, rfl, rfl⟩

theorem acceptDelimiter_of_value (he : e = .value ∨ e = .valueOrEnd)
    (h : Structure.acceptDelimiter settings ⟨stack, e⟩ d = .ok (out, st')) :
    (d = .openBrace ∧ stack.length < settings.maxDepth ∧ out = some .objectStart ∧
        st' = ⟨.object :: stack, .keyOrEnd⟩) ∨
      (d = .openBracket ∧ stack.length < settings.maxDepth ∧ out = some .arrayStart ∧
        st' = ⟨.array :: stack, .valueOrEnd⟩) ∨
      (d = .closeBracket ∧ e = .valueOrEnd ∧ out = some .arrayEnd ∧
        st' = .afterValue stack.tail) := by
  rcases he with rfl | rfl
  · cases d with
    | openBrace => exact .inl ⟨rfl, enter_eq_ok h⟩
    | openBracket => exact .inr (.inl ⟨rfl, enter_eq_ok h⟩)
    | _ => cases h
  · cases d with
    | openBrace => exact .inl ⟨rfl, enter_eq_ok h⟩
    | openBracket => exact .inr (.inl ⟨rfl, enter_eq_ok h⟩)
    | closeBracket =>
      cases h
      exact .inr (.inr ⟨rfl, rfl, rfl, rfl⟩)
    | _ => cases h

theorem acceptDelimiter_of_key (he : e = .key ∨ e = .keyOrEnd)
    (h : Structure.acceptDelimiter settings ⟨stack, e⟩ d = .ok (out, st')) :
    d = .closeBrace ∧ e = .keyOrEnd ∧ out = some .objectEnd ∧ st' = .afterValue stack.tail := by
  rcases he with rfl | rfl <;> cases d <;> cases h
  exact ⟨rfl, rfl, rfl, rfl⟩

theorem acceptDelimiter_of_colon
    (h : Structure.acceptDelimiter settings ⟨stack, .colon⟩ d = .ok (out, st')) :
    d = .colon ∧ out = none ∧ st' = ⟨stack, .value⟩ := by
  cases d <;> cases h
  exact ⟨rfl, rfl, rfl⟩

theorem acceptDelimiter_of_commaOrEnd {c : Container}
    (h : Structure.acceptDelimiter settings ⟨c :: stack, .commaOrEnd⟩ d = .ok (out, st')) :
    (d = .comma ∧ out = none ∧
        st' = ⟨c :: stack, Structure.afterComma settings (c :: stack)⟩) ∨
      (d = .closeBrace ∧ c = .object ∧ out = some .objectEnd ∧ st' = .afterValue stack) ∨
      (d = .closeBracket ∧ c = .array ∧ out = some .arrayEnd ∧ st' = .afterValue stack) := by
  cases d with
  | comma =>
    cases h
    exact .inl ⟨rfl, rfl, rfl⟩
  | closeBrace =>
    cases c <;> cases h
    exact .inr (.inl ⟨rfl, rfl, rfl, rfl⟩)
  | closeBracket =>
    cases c <;> cases h
    exact .inr (.inr ⟨rfl, rfl, rfl, rfl⟩)
  | _ => cases h

theorem acceptDelimiter_of_done
    (h : Structure.acceptDelimiter settings ⟨stack, .done⟩ d = .ok (out, st')) : False := by
  cases d <;> cases h

end

/-! ## Phrases -/

/-- The phrase derives from the front of the text, and the rest is accepted behind it. -/
def Reached (settings : TokenizerSettings) (p : Phrase) (stack : List Container) (s : List Char)
    (ts : List Token) : Prop :=
  ∃ rest ts', Derives settings p s rest ∧ ts = p.tokens ++ ts' ∧
    Accepts settings (p.after stack) rest ts' ∧ rest.length < s.length ∧
    p.depth + stack.length ≤ settings.maxDepth

/-- What is accepted where a value is expected begins with one, or with the end of the array if the
array may end there. -/
def ValueFound (settings : TokenizerSettings) (s : List Char) : Prop :=
  ∀ {stack : List Container} {e : Expected} {ts : List Token},
    stack.length ≤ settings.maxDepth → e = .value ∨ e = .valueOrEnd →
    Accepts settings ⟨stack, e⟩ s ts →
    (∃ t v, Trivia settings.allowComments s t ∧ Reached settings (.value v) stack t ts) ∨
      (e = .valueOrEnd ∧ ∃ t ts', Trivia settings.allowComments s (']' :: t) ∧
        ts = .arrayEnd :: ts' ∧ Accepts settings (.afterValue stack.tail) t ts')

theorem length_lt_of_trivia_cons {comments : Bool} {s rest : List Char} {c : Char}
    (h : Trivia comments s (c :: rest)) : rest.length < s.length := by
  have := h.length_le
  simp only [List.length_cons] at this
  omega

theorem eq_or_of_afterComma_array (settings : TokenizerSettings) (stack : List Container) :
    Structure.afterComma settings (.array :: stack) = .value ∨
      Structure.afterComma settings (.array :: stack) = .valueOrEnd := by
  rw [afterComma_array]
  split
  · exact .inr rfl
  · exact .inl rfl

/-- By induction on the length of the text, an item and its comma at a time. -/
theorem reached_moreItems {s : List Char}
    (hvalues : ∀ t : List Char, t.length < s.length → ValueFound settings t)
    {stack : List Container} {ts : List Token} (hroom : stack.length < settings.maxDepth)
    (h : Accepts settings ⟨.array :: stack, .commaOrEnd⟩ s ts) :
    ∃ vs, Reached settings (.moreItems vs) stack s ts := by
  have hinside : (Container.array :: stack).length ≤ settings.maxDepth := hroom
  induction hn : s.length using Nat.strongRecOn generalizing s ts with
  | ind n ih =>
    subst hn
    cases begins_of_accepts h with
    | nothing hs hdone => simp at hdone
    | literal hs hlex haccept hrest =>
      exact (acceptLiteral_of_punctuation (.inr (.inl rfl)) haccept).elim
    | delimiter hs haccept hrest =>
      have hlt := length_lt_of_trivia_cons hs
      rcases acceptDelimiter_of_commaOrEnd haccept with
        ⟨rfl, rfl, rfl⟩ | ⟨-, hc, -⟩ | ⟨rfl, -, rfl, rfl⟩
      · rcases hvalues _ hlt hinside (eq_or_of_afterComma_array settings stack) hrest with
          ⟨t, v, ht, u, ts', hv, rfl, hu, hlt', hdepth⟩ | ⟨he, t, ts', ht, rfl, hend⟩
        · have hle := ht.length_le
          obtain ⟨vs, w, ts'', hvs, rfl, hw, hlt'', hdepth'⟩ :=
            ih u.length (by omega) (fun x hx => hvalues x (by omega)) hu rfl
          refine ⟨v :: vs, w, ts'', .nextItem hs ht hv hvs, ?_, hw, by omega, ?_⟩
          · simp [Phrase.tokens, Tree.flattenItems]
          · simp only [Phrase.depth, Tree.depthItems, List.length_cons] at hdepth hdepth' ⊢
            omega
        · have hallowed : settings.allowTrailingCommas = true := by
            rw [afterComma_array] at he
            split at he
            · assumption
            · simp at he
          have hlt' := length_lt_of_trivia_cons ht
          refine ⟨[], t, ts', .commaBehindItems hallowed hs ht, rfl, hend, by omega, ?_⟩
          simp only [Phrase.depth, Tree.depthItems]
          omega
      · simp at hc
      · refine ⟨[], _, _, .lastItem hs, rfl, hrest, hlt, ?_⟩
        simp only [Phrase.depth, Tree.depthItems]
        omega

theorem reached_items {s : List Char}
    (hvalues : ∀ t : List Char, t.length ≤ s.length → ValueFound settings t)
    {stack : List Container} {ts : List Token} (hroom : stack.length < settings.maxDepth)
    (h : Accepts settings ⟨.array :: stack, .valueOrEnd⟩ s ts) :
    ∃ vs, Reached settings (.items vs) stack s ts := by
  have hinside : (Container.array :: stack).length ≤ settings.maxDepth := hroom
  rcases hvalues s (Nat.le_refl _) hinside (.inr rfl) h with
    ⟨t, v, ht, u, ts', hv, rfl, hu, hlt, hdepth⟩ | ⟨-, t, ts', ht, rfl, hend⟩
  · have hle := ht.length_le
    obtain ⟨vs, w, ts'', hvs, rfl, hw, hlt', hdepth'⟩ :=
      reached_moreItems (fun x hx => hvalues x (by omega)) hroom hu
    refine ⟨v :: vs, w, ts'', .firstItem ht hv hvs, ?_, hw, by omega, ?_⟩
    · simp [Phrase.tokens, Tree.flattenItems]
    · simp only [Phrase.depth, Tree.depthItems, List.length_cons] at hdepth hdepth' ⊢
      omega
  · refine ⟨[], t, ts', .noItems ht, rfl, hend, length_lt_of_trivia_cons ht, ?_⟩
    simp only [Phrase.depth, Tree.depthItems]
    omega

/-- Behind the name of a property come a colon and a value. -/
theorem reached_entry {s rest : List Char} {name : String}
    (hvalues : ∀ t : List Char, t.length < s.length → ValueFound settings t)
    (hlex : Lexes s (.literal (.string name)) rest) {stack : List Container} {ts : List Token}
    (hroom : stack.length < settings.maxDepth)
    (h : Accepts settings ⟨.object :: stack, .colon⟩ rest ts) :
    ∃ v, Reached settings (.entry name v) stack s (.propertyName name :: ts) := by
  have hinside : (Container.object :: stack).length ≤ settings.maxDepth := hroom
  have hrest := hlex.length_lt
  cases begins_of_accepts h with
  | nothing hs hdone => simp at hdone
  | literal hs hlex' haccept hbehind =>
    exact (acceptLiteral_of_punctuation (.inl rfl) haccept).elim
  | delimiter hs haccept hbehind =>
    have hlt := length_lt_of_trivia_cons hs
    obtain ⟨rfl, rfl, rfl⟩ := acceptDelimiter_of_colon haccept
    rcases hvalues _ (by omega) hinside (.inl rfl) hbehind with
      ⟨t, v, ht, u, ts', hv, rfl, hu, hlt', hdepth⟩ | ⟨he, -⟩
    · have hle := ht.length_le
      generalize hl : Lexeme.literal (.string name) = l at hlex
      cases hlex with
      | @string body text _ hbody =>
        obtain rfl : name = String.ofList text := by simpa using hl
        refine ⟨v, u, ts', .entry hbody hs ht hv, rfl, hu, by omega, ?_⟩
        simp only [Phrase.depth, List.length_cons] at hdepth ⊢
        omega
      | _ => simp at hl
    · simp at he

theorem eq_or_of_afterComma_object (settings : TokenizerSettings) (stack : List Container) :
    Structure.afterComma settings (.object :: stack) = .key ∨
      Structure.afterComma settings (.object :: stack) = .keyOrEnd := by
  rw [afterComma_object]
  split
  · exact .inr rfl
  · exact .inl rfl

/-- By induction on the length of the text, an entry and its comma at a time. -/
theorem reached_moreEntries {s : List Char}
    (hvalues : ∀ t : List Char, t.length < s.length → ValueFound settings t)
    {stack : List Container} {ts : List Token} (hroom : stack.length < settings.maxDepth)
    (h : Accepts settings ⟨.object :: stack, .commaOrEnd⟩ s ts) :
    ∃ es, Reached settings (.moreEntries es) stack s ts := by
  induction hn : s.length using Nat.strongRecOn generalizing s ts with
  | ind n ih =>
    subst hn
    cases begins_of_accepts h with
    | nothing hs hdone => simp at hdone
    | literal hs hlex haccept hrest =>
      exact (acceptLiteral_of_punctuation (.inr (.inl rfl)) haccept).elim
    | delimiter hs haccept hrest =>
      have hlt := length_lt_of_trivia_cons hs
      rcases acceptDelimiter_of_commaOrEnd haccept with
        ⟨rfl, rfl, rfl⟩ | ⟨rfl, -, rfl, rfl⟩ | ⟨-, hc, -⟩
      · have hexpected := eq_or_of_afterComma_object settings stack
        cases begins_of_accepts hrest with
        | nothing ht hdone => rcases hexpected with he | he <;> simp [he] at hdone
        | literal ht hlex haccept' hbehind =>
          obtain ⟨name, rfl, rfl, rfl⟩ := acceptLiteral_of_key hexpected haccept'
          have hle := ht.length_le
          obtain ⟨v, u, ts', hv, hts, hu, hlt', hdepth⟩ :=
            reached_entry (fun x hx => hvalues x (by omega)) hlex hroom hbehind
          obtain ⟨es, w, ts'', hes, rfl, hw, hlt'', hdepth'⟩ :=
            ih u.length (by omega) (fun x hx => hvalues x (by omega)) hu rfl
          refine ⟨(name, v) :: es, w, ts'', .nextEntry hs ht hv hes, ?_, hw, by omega, ?_⟩
          · simp only [Phrase.tokens] at hts
            simp [hts, Phrase.tokens, Tree.flattenEntries]
          · simp only [Phrase.depth, Tree.depthEntries] at hdepth hdepth' ⊢
            omega
        | delimiter ht haccept' hbehind =>
          obtain ⟨rfl, he, rfl, rfl⟩ := acceptDelimiter_of_key hexpected haccept'
          have hallowed : settings.allowTrailingCommas = true := by
            rw [afterComma_object] at he
            split at he
            · assumption
            · simp at he
          have hlt' := length_lt_of_trivia_cons ht
          refine ⟨[], _, _, .commaBehindEntries hallowed hs ht, rfl, hbehind, by omega, ?_⟩
          simp only [Phrase.depth, Tree.depthEntries]
          omega
      · refine ⟨[], _, _, .lastEntry hs, rfl, hrest, hlt, ?_⟩
        simp only [Phrase.depth, Tree.depthEntries]
        omega
      · simp at hc

theorem reached_entries {s : List Char}
    (hvalues : ∀ t : List Char, t.length < s.length → ValueFound settings t)
    {stack : List Container} {ts : List Token} (hroom : stack.length < settings.maxDepth)
    (h : Accepts settings ⟨.object :: stack, .keyOrEnd⟩ s ts) :
    ∃ es, Reached settings (.entries es) stack s ts := by
  cases begins_of_accepts h with
  | nothing hs hdone => simp at hdone
  | literal hs hlex haccept hbehind =>
    obtain ⟨name, rfl, rfl, rfl⟩ := acceptLiteral_of_key (.inr rfl) haccept
    have hle := hs.length_le
    obtain ⟨v, u, ts', hv, hts, hu, hlt, hdepth⟩ :=
      reached_entry (fun x hx => hvalues x (by omega)) hlex hroom hbehind
    obtain ⟨es, w, ts'', hes, rfl, hw, hlt', hdepth'⟩ :=
      reached_moreEntries (fun x hx => hvalues x (by omega)) hroom hu
    refine ⟨(name, v) :: es, w, ts'', .firstEntry hs hv hes, ?_, hw, by omega, ?_⟩
    · simp only [Phrase.tokens] at hts
      simp [hts, Phrase.tokens, Tree.flattenEntries]
    · simp only [Phrase.depth, Tree.depthEntries] at hdepth hdepth' ⊢
      omega
  | delimiter hs haccept hbehind =>
    obtain ⟨rfl, -, rfl, rfl⟩ := acceptDelimiter_of_key (.inr rfl) haccept
    refine ⟨[], _, _, .noEntries hs, rfl, hbehind, length_lt_of_trivia_cons hs, ?_⟩
    simp only [Phrase.depth, Tree.depthEntries]
    omega

/-- A literal is a value of one token. -/
theorem derives_of_literal (settings : TokenizerSettings) {s rest : List Char} {l : Literal}
    (h : Lexes s (.literal l) rest) :
    ∃ v, Derives settings (.value v) s rest ∧ v.flatten = [.ofLiteral l] ∧ v.depth = 0 := by
  generalize hl : Lexeme.literal l = lexeme at h
  cases h with
  | string hbody =>
    obtain rfl := Lexeme.literal.inj hl
    exact ⟨_, .string hbody, by simp [Tree.flatten, Token.ofLiteral], by simp [Tree.depth]⟩
  | number hsource =>
    obtain rfl := Lexeme.literal.inj hl
    obtain ⟨-, rfl⟩ := append_of_takeNumber? hsource
    exact ⟨_, .number (numberText_of_takeNumber? hsource).1,
      by simp [Tree.flatten, Token.ofLiteral], by simp [Tree.depth]⟩
  | trueWord =>
    obtain rfl := Lexeme.literal.inj hl
    exact ⟨_, .trueWord, by simp [Tree.flatten, Token.ofLiteral], by simp [Tree.depth]⟩
  | falseWord =>
    obtain rfl := Lexeme.literal.inj hl
    exact ⟨_, .falseWord, by simp [Tree.flatten, Token.ofLiteral], by simp [Tree.depth]⟩
  | nullWord =>
    obtain rfl := Lexeme.literal.inj hl
    exact ⟨_, .nullWord, by simp [Tree.flatten, Token.ofLiteral], by simp [Tree.depth]⟩
  | _ => simp at hl

/-- By induction on the length of the text: the values in a container stand in a shorter text. -/
theorem reached_value (settings : TokenizerSettings) (s : List Char) : ValueFound settings s := by
  induction hn : s.length using Nat.strongRecOn generalizing s with
  | ind n ih =>
    subst hn
    intro stack e ts hroom he h
    have hvalues : ∀ t : List Char, t.length < s.length → ValueFound settings t :=
      fun t ht => ih t.length ht t rfl
    cases begins_of_accepts h with
    | nothing hs hdone => rcases he with rfl | rfl <;> simp at hdone
    | @literal t rest l out st' ts' hs hlex haccept hbehind =>
      obtain ⟨rfl, rfl⟩ := acceptLiteral_of_value he haccept
      obtain ⟨v, hv, hflatten, hdepth⟩ := derives_of_literal settings hlex
      refine .inl ⟨t, v, hs, rest, ts', hv, ?_, hbehind, hlex.length_lt, ?_⟩
      · simp [Phrase.tokens, hflatten]
      · simpa [Phrase.depth, hdepth] using hroom
    | @delimiter rest d out st' ts' hs haccept hbehind =>
      have hlt := length_lt_of_trivia_cons hs
      rcases acceptDelimiter_of_value he haccept with
        ⟨rfl, hdeep, rfl, rfl⟩ | ⟨rfl, hdeep, rfl, rfl⟩ | ⟨rfl, he', rfl, rfl⟩
      · obtain ⟨es, u, ts'', hes, rfl, hu, hlt', hdepth⟩ :=
          reached_entries (fun x hx => hvalues x (by omega)) hdeep hbehind
        refine .inl ⟨_, .object es, hs, u, ts'', .object hes, ?_, hu, by simp; omega, ?_⟩
        · simp [Phrase.tokens, Tree.flatten]
        · simpa [Phrase.depth, Tree.depth] using hdepth
      · obtain ⟨vs, u, ts'', hvs, rfl, hu, hlt', hdepth⟩ :=
          reached_items (fun x hx => hvalues x (by omega)) hdeep hbehind
        refine .inl ⟨_, .array vs, hs, u, ts'', .array hvs, ?_, hu, by simp; omega, ?_⟩
        · simp [Phrase.tokens, Tree.flatten]
        · simpa [Phrase.depth, Tree.depth] using hdepth
      · exact .inr ⟨he', rest, ts', hs, rfl, hbehind⟩

/-- Behind a complete document only trivia are accepted. -/
theorem trivia_of_accepts_done {s : List Char} {ts : List Token}
    (h : Accepts settings (.afterValue []) s ts) :
    Trivia settings.allowComments s [] ∧ ts = [] := by
  cases begins_of_accepts h with
  | nothing hs _ => exact ⟨hs, rfl⟩
  | literal hs hlex haccept hrest =>
    exact (acceptLiteral_of_punctuation (.inr (.inr rfl)) haccept).elim
  | delimiter hs haccept hrest => exact (acceptDelimiter_of_done haccept).elim

theorem document_of_accepts {text : List Char} {ts : List Token}
    (h : Accepts settings {} text ts) : ∃ v, Document settings v text ∧ v.flatten = ts := by
  rcases reached_value settings text (Nat.zero_le _) (.inl rfl) h with
    ⟨s, v, hs, rest, ts', hv, rfl, hrest, -, hdepth⟩ | ⟨he, -⟩
  · obtain ⟨hend, rfl⟩ := trivia_of_accepts_done hrest
    exact ⟨v, ⟨s, rest, hs, hv, hend, hdepth⟩, by simp [Phrase.tokens]⟩
  · simp at he

/-- Exactly the documents of the grammar are tokenized, and the tokens are those of the tree. -/
theorem tokenize_eq_ok_iff_document {settings : TokenizerSettings} {text : String}
    {ts : List Token} :
    (∃ located, tokenize settings text = .ok located ∧ located.map (·.token) = ts) ↔
      ∃ v, Document settings v text.toList ∧ v.flatten = ts := by
  rw [exists_tokenize_eq_ok_iff]
  constructor
  · exact document_of_accepts
  · rintro ⟨v, hv, rfl⟩
    exact accepts_of_document hv

end JsonReader
