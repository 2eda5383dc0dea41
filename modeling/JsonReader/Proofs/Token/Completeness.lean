import JsonReader.Proofs.Grammar.Document
import JsonReader.Proofs.Token.Run

/-!
# Documents of the grammar are accepted

A phrase of the grammar takes the structure from the states before it to the state behind it and
yields the tokens of what it denotes. Trivia are told apart only together with what stands behind
them, and so is a number: both can run on. Therefore the steps are stated for a phrase with an
accepted text behind it, and the runs are built from the far end of the text.

## Main definitions

* `Phrase.Before`, `Phrase.after` are the states around a phrase, `Phrase.tokens` its tokens and
  `Phrase.depth` the room it needs above the containers that are open.

## Main statements

* `accepts_of_trivia`, `accepts_of_derives`, `accepts_of_document`.
-/

namespace JsonReader

open Grammar

variable {settings : TokenizerSettings}

/-! ## Trivia -/

theorem Accepts.of_blank {st : Structure} {c : Char} {s : List Char} {ts : List Token}
    (hc : isSpaceOrTab c = true) (h : Accepts settings st s ts) :
    Accepts settings st (c :: s) ts := by
  have hrun : ∀ d ∈ c :: s.takeWhile isSpaceOrTab, isSpaceOrTab d = true := by
    have hall := List.all_eq_true.mp (List.all_takeWhile (p := isSpaceOrTab) (l := s))
    simpa using ⟨hc, by simpa using hall⟩
  obtain ⟨htake, hstops, happ⟩ := longestRun_eq_iff.mp
    (⟨rfl, rfl⟩ : s.takeWhile isSpaceOrTab = _ ∧ s.dropWhile isSpaceOrTab = _)
  have hlex := Lexes.blank (List.cons_ne_nil c (s.takeWhile isSpaceOrTab)) hrun hstops
  rw [List.cons_append, ← happ] at hlex
  refine Accepts.step hlex trivial rfl ?_
  -- Blanks that stand behind the new one belong to the same run.
  cases hs : s.takeWhile isSpaceOrTab with
  | nil =>
    rw [hs, List.nil_append] at happ
    rwa [← happ]
  | cons d run =>
    have hlex' := Lexes.blank (by simp [hs]) htake hstops
    rw [← happ] at hlex'
    obtain ⟨-, out, st', ts', haccept, rfl, hrest⟩ := h.of_lexes hlex'
    cases haccept
    exact hrest

theorem Accepts.of_carriageReturn {st : Structure} {s : List Char} {ts : List Token}
    (h : Accepts settings st s ts) : Accepts settings st ('\r' :: s) ts := by
  by_cases hlf : s.head? = some '\n'
  · -- The two characters are one line break.
    obtain ⟨t, rfl⟩ := List.head?_eq_some_iff.mp hlf
    obtain ⟨-, out, st', ts', haccept, rfl, hrest⟩ := h.of_lexes .lineFeed
    cases haccept
    exact .skip .carriageReturnLineFeed trivial rfl hrest
  · exact .step (.carriageReturn hlf) trivial rfl h

/-- Trivia in front of an accepted text change nothing. -/
theorem accepts_of_trivia {st : Structure} {s t : List Char} {ts : List Token}
    (h : Trivia settings.allowComments s t) (ht : Accepts settings st t ts) :
    Accepts settings st s ts := by
  induction h with
  | none => exact ht
  | space _ ih => exact .of_blank rfl (ih ht)
  | tab _ ih => exact .of_blank rfl (ih ht)
  | lineFeed _ ih => exact .step .lineFeed trivial rfl (ih ht)
  | carriageReturnLineFeed _ ih => exact .step .carriageReturnLineFeed trivial rfl (ih ht)
  | carriageReturn _ ih => exact .of_carriageReturn (ih ht)
  | blockComment hallowed hcontent _ ih =>
    exact .step (.blockComment hcontent) hallowed rfl (ih ht)
  | lineComment hallowed hcontent hend _ ih =>
    exact .step (.lineComment hcontent hend) hallowed rfl (ih ht)

/-! ## States around phrases -/

namespace Grammar.Phrase

/-- The states in which a phrase may begin. Those of a value and of an entry depend on whether the
container may end there instead. -/
def Before (p : Phrase) (stack : List Container) (st : Structure) : Prop :=
  match p with
  | value _ => st = ⟨stack, .value⟩ ∨ st = ⟨stack, .valueOrEnd⟩
  | items _ => st = ⟨.array :: stack, .valueOrEnd⟩
  | moreItems _ => st = ⟨.array :: stack, .commaOrEnd⟩
  | entry _ _ => st = ⟨.object :: stack, .key⟩ ∨ st = ⟨.object :: stack, .keyOrEnd⟩
  | entries _ => st = ⟨.object :: stack, .keyOrEnd⟩
  | moreEntries _ => st = ⟨.object :: stack, .commaOrEnd⟩

/-- The state behind a phrase. -/
def after (p : Phrase) (stack : List Container) : Structure :=
  match p with
  | entry _ _ => ⟨.object :: stack, .commaOrEnd⟩
  | _ => Structure.afterValue stack

/-- The tokens of a phrase, the bracket at its end among them. -/
def tokens : Phrase → List Token
  | value v => v.flatten
  | items vs | moreItems vs => Tree.flattenItems vs ++ [.arrayEnd]
  | entry name v => .propertyName name :: v.flatten
  | entries es | moreEntries es => Tree.flattenEntries es ++ [.objectEnd]

/-- How deep containers nest in a phrase, the one that it stands in included. -/
def depth : Phrase → Nat
  | value v => v.depth
  | items vs | moreItems vs => Tree.depthItems vs + 1
  | entry _ v => v.depth + 1
  | entries es | moreEntries es => Tree.depthEntries es + 1

end Grammar.Phrase

/-! ## Accepting phrases -/

/-- Behind a value no number can go on. -/
theorem numberEnds_of_accepts {stack : List Container} {s : List Char} {ts : List Token}
    (h : Accepts settings (.afterValue stack) s ts) : NumberEnds s := by
  obtain ⟨last, hreads, hdone⟩ := h
  intro c hc
  obtain ⟨s, rfl⟩ := List.head?_eq_some_iff.mp hc
  cases hreads with
  | @step _ _ _ _ _ _ l _ _ hlex hadmitted haccept hrest =>
    refine ⟨?_, hlex.head_ne⟩
    by_cases hd : c.isDigit = true
    · have hkind := hlex.kind_eq.trans (Lexeme.kindOfHead_of_isDigit hd)
      obtain ⟨source, rfl⟩ : ∃ source, l = .literal (.number source) := by
        cases l with
        | literal l =>
          cases l with
          | number source => exact ⟨source, rfl⟩
          | _ => simp [Lexeme.kind] at hkind
        | _ => simp [Lexeme.kind] at hkind
      cases stack <;> simp [Structure.accept, Structure.acceptLiteral, Structure.afterValue,
        Structure.reject] at haccept
    · simpa using hd

theorem accepts_of_literal {stack : List Container} {st : Structure} {s rest : List Char}
    {l : Literal} {ts : List Token} (hst : st = ⟨stack, .value⟩ ∨ st = ⟨stack, .valueOrEnd⟩)
    (hlex : Lexes s (.literal l) rest) (hrest : Accepts settings (.afterValue stack) rest ts) :
    Accepts settings st s (.ofLiteral l :: ts) := by
  refine Accepts.emit hlex trivial ?_ hrest
  rcases hst with rfl | rfl <;> cases l <;> rfl

theorem accepts_of_openBracket {stack : List Container} {st : Structure} {s : List Char}
    {ts : List Token} (hst : st = ⟨stack, .value⟩ ∨ st = ⟨stack, .valueOrEnd⟩)
    (hroom : stack.length < settings.maxDepth)
    (h : Accepts settings ⟨.array :: stack, .valueOrEnd⟩ s ts) :
    Accepts settings st ('[' :: s) (.arrayStart :: ts) := by
  refine Accepts.emit (.delimiter .openBracket) trivial ?_ h
  rcases hst with rfl | rfl <;>
    exact if_neg (Nat.not_le.mpr hroom)

theorem accepts_of_openBrace {stack : List Container} {st : Structure} {s : List Char}
    {ts : List Token} (hst : st = ⟨stack, .value⟩ ∨ st = ⟨stack, .valueOrEnd⟩)
    (hroom : stack.length < settings.maxDepth)
    (h : Accepts settings ⟨.object :: stack, .keyOrEnd⟩ s ts) :
    Accepts settings st ('\x7b' :: s) (.objectStart :: ts) := by
  refine Accepts.emit (.delimiter .openBrace) trivial ?_ h
  rcases hst with rfl | rfl <;>
    exact if_neg (Nat.not_le.mpr hroom)

theorem accepts_of_closeBracket {stack : List Container} {e : Expected} {s : List Char}
    {ts : List Token} (he : e = .valueOrEnd ∨ e = .commaOrEnd)
    (h : Accepts settings (.afterValue stack) s ts) :
    Accepts settings ⟨.array :: stack, e⟩ (']' :: s) (.arrayEnd :: ts) := by
  refine Accepts.emit (.delimiter .closeBracket) trivial ?_ h
  rcases he with rfl | rfl <;> rfl

theorem accepts_of_closeBrace {stack : List Container} {e : Expected} {s : List Char}
    {ts : List Token} (he : e = .keyOrEnd ∨ e = .commaOrEnd)
    (h : Accepts settings (.afterValue stack) s ts) :
    Accepts settings ⟨.object :: stack, e⟩ ('\x7d' :: s) (.objectEnd :: ts) := by
  refine Accepts.emit (.delimiter .closeBrace) trivial ?_ h
  rcases he with rfl | rfl <;> rfl

theorem accepts_of_comma {stack : List Container} {s : List Char} {ts : List Token}
    (h : Accepts settings ⟨stack, Structure.afterComma settings stack⟩ s ts) :
    Accepts settings ⟨stack, .commaOrEnd⟩ (',' :: s) ts :=
  Accepts.skip (.delimiter .comma) trivial rfl h

theorem accepts_of_name {stack : List Container} {st : Structure} {body text s : List Char}
    {ts : List Token} (hst : st = ⟨stack, .key⟩ ∨ st = ⟨stack, .keyOrEnd⟩)
    (hbody : StringBody body text) (h : Accepts settings ⟨stack, .colon⟩ s ts) :
    Accepts settings st ('"' :: (body ++ '"' :: s)) (.propertyName (String.ofList text) :: ts) := by
  refine Accepts.emit (.string hbody) trivial ?_ h
  rcases hst with rfl | rfl <;> rfl

theorem accepts_of_colon {stack : List Container} {s : List Char} {ts : List Token}
    (h : Accepts settings ⟨stack, .value⟩ s ts) : Accepts settings ⟨stack, .colon⟩ (':' :: s) ts :=
  Accepts.skip (.delimiter .colon) trivial rfl h

theorem afterComma_array (settings : TokenizerSettings) (stack : List Container) :
    Structure.afterComma settings (.array :: stack) =
      if settings.allowTrailingCommas then .valueOrEnd else .value := by
  cases h : settings.allowTrailingCommas <;> simp [Structure.afterComma, h]

theorem afterComma_object (settings : TokenizerSettings) (stack : List Container) :
    Structure.afterComma settings (.object :: stack) =
      if settings.allowTrailingCommas then .keyOrEnd else .key := by
  cases h : settings.allowTrailingCommas <;> simp [Structure.afterComma, h]

/-- Behind a comma of an array a value may begin. -/
theorem before_value_afterComma (settings : TokenizerSettings) (v : Tree) (stack : List Container) :
    (Phrase.value v).Before (.array :: stack)
      ⟨.array :: stack, Structure.afterComma settings (.array :: stack)⟩ := by
  rw [afterComma_array]
  split
  · exact .inr rfl
  · exact .inl rfl

/-- Behind a comma of an object an entry may begin. -/
theorem before_entry_afterComma (settings : TokenizerSettings) (name : String) (v : Tree)
    (stack : List Container) :
    (Phrase.entry name v).Before stack
      ⟨.object :: stack, Structure.afterComma settings (.object :: stack)⟩ := by
  rw [afterComma_object]
  split
  · exact .inr rfl
  · exact .inl rfl

/-- A phrase with an accepted text behind it is accepted, by induction on its derivation. -/
theorem accepts_of_derives {p : Phrase} {s rest : List Char} (h : Derives settings p s rest)
    {stack : List Container} {st : Structure} {ts : List Token} (hst : p.Before stack st)
    (hroom : p.depth + stack.length ≤ settings.maxDepth)
    (hrest : Accepts settings (p.after stack) rest ts) :
    Accepts settings st s (p.tokens ++ ts) := by
  induction h generalizing stack st ts with
  | nullWord => exact accepts_of_literal hst .nullWord hrest
  | trueWord => exact accepts_of_literal hst .trueWord hrest
  | falseWord => exact accepts_of_literal hst .falseWord hrest
  | number hsource =>
    have hn := takeNumber?_append hsource (numberEnds_of_accepts hrest)
    exact accepts_of_literal hst (.number hn) hrest
  | string hbody => exact accepts_of_literal hst (.string hbody) hrest
  | array _ ih =>
    simp only [Phrase.depth, Tree.depth] at hroom ih
    have hitems := ih rfl hroom hrest
    simpa [Phrase.tokens, Tree.flatten] using accepts_of_openBracket hst (by omega) hitems
  | object _ ih =>
    simp only [Phrase.depth, Tree.depth] at hroom ih
    have hentries := ih rfl hroom hrest
    simpa [Phrase.tokens, Tree.flatten] using accepts_of_openBrace hst (by omega) hentries
  | noItems hs =>
    subst hst
    exact accepts_of_trivia hs (accepts_of_closeBracket (.inl rfl) hrest)
  | firstItem hs _ _ ihv ihvs =>
    subst hst
    simp only [Phrase.depth, Tree.depthItems] at hroom ihv ihvs
    have hmore := ihvs rfl (by omega) hrest
    have hv := @ihv (.array :: stack) _ _ (.inr rfl) (by simp only [List.length_cons]; omega) hmore
    simpa [Phrase.tokens, Tree.flattenItems] using accepts_of_trivia hs hv
  | lastItem hs =>
    subst hst
    exact accepts_of_trivia hs (accepts_of_closeBracket (.inr rfl) hrest)
  | commaBehindItems hallowed hs ht =>
    subst hst
    refine accepts_of_trivia hs (accepts_of_comma (accepts_of_trivia ht ?_))
    rw [afterComma_array, if_pos hallowed]
    exact accepts_of_closeBracket (.inl rfl) hrest
  | nextItem hs ht _ _ ihv ihvs =>
    subst hst
    simp only [Phrase.depth, Tree.depthItems] at hroom ihv ihvs
    have hmore := ihvs rfl (by omega) hrest
    have hv := ihv (before_value_afterComma settings _ stack)
      (by simp only [List.length_cons]; omega) hmore
    have hcomma := accepts_of_trivia hs (accepts_of_comma (accepts_of_trivia ht hv))
    simpa [Phrase.tokens, Tree.flattenItems] using hcomma
  | entry hname hs ht _ ihv =>
    simp only [Phrase.depth] at hroom ihv
    have hv := @ihv (.object :: stack) _ _ (.inl rfl) (by simp only [List.length_cons]; omega) hrest
    have hcolon := accepts_of_trivia hs (accepts_of_colon (accepts_of_trivia ht hv))
    exact accepts_of_name hst hname hcolon
  | noEntries hs =>
    subst hst
    exact accepts_of_trivia hs (accepts_of_closeBrace (.inl rfl) hrest)
  | firstEntry hs _ _ ihe ihes =>
    subst hst
    simp only [Phrase.depth, Tree.depthEntries] at hroom ihe ihes
    have hmore := ihes rfl (by omega) hrest
    have he := @ihe stack _ _ (.inr rfl) (by omega) hmore
    simpa [Phrase.tokens, Tree.flattenEntries] using accepts_of_trivia hs he
  | lastEntry hs =>
    subst hst
    exact accepts_of_trivia hs (accepts_of_closeBrace (.inr rfl) hrest)
  | commaBehindEntries hallowed hs ht =>
    subst hst
    refine accepts_of_trivia hs (accepts_of_comma (accepts_of_trivia ht ?_))
    rw [afterComma_object, if_pos hallowed]
    exact accepts_of_closeBrace (.inl rfl) hrest
  | nextEntry hs ht _ _ ihe ihes =>
    subst hst
    simp only [Phrase.depth, Tree.depthEntries] at hroom ihe ihes
    have hmore := ihes rfl (by omega) hrest
    have he := ihe (before_entry_afterComma settings _ _ stack) (by omega) hmore
    have hcomma := accepts_of_trivia hs (accepts_of_comma (accepts_of_trivia ht he))
    simpa [Phrase.tokens, Tree.flattenEntries] using hcomma

/-- Every document of the grammar is accepted, with the tokens of its tree. -/
theorem accepts_of_document {v : Tree} {text : List Char} (h : Document settings v text) :
    Accepts settings {} text v.flatten := by
  obtain ⟨s, rest, hs, hv, hrest, hroom⟩ := h
  have hend : Accepts settings (.afterValue []) rest [] :=
    accepts_of_trivia hrest ⟨_, .here, rfl⟩
  have haccepts := @accepts_of_derives _ _ _ _ hv [] _ _ (.inl rfl) hroom hend
  simpa [Phrase.tokens] using accepts_of_trivia hs haccepts

end JsonReader
