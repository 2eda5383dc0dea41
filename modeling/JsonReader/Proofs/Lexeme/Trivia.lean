import JsonReader.Lexeme.Trivia
import JsonReader.Proofs.Grammar.Lexical
import JsonReader.Proofs.Lexeme.Basic

/-!
# Comments read the lexical grammar

A comment is fixed by its content and by the text behind it. The content of a block comment does not
hold the end mark; that of a line comment holds no character of a line end, and a line end or the
end of the text must follow.

## Main statements

* `untilCommentEnd?_eq_some_iff`, `untilLineEnd?_eq_some_iff`: where comments end.
-/

namespace JsonReader

open Grammar

/-! ## Block comments -/

theorem infix_commentEnd_cons {c : Char} {content : List Char} :
    ['*', '/'] <:+: c :: content ↔
      (c = '*' ∧ content.head? = some '/') ∨ ['*', '/'] <:+: content := by
  rw [List.infix_cons_iff, List.cons_prefix_cons]
  cases content with
  | nil => simp
  | cons d content => simp [eq_comm]

theorem untilCommentEnd?_append {content : List Char} (h : ¬ ['*', '/'] <:+: content)
    (rest : List Char) :
    untilCommentEnd? (content ++ '*' :: '/' :: rest) = some (content, rest) := by
  induction content with
  | nil => rfl
  | cons c content ih =>
    rw [infix_commentEnd_cons, not_or] at h
    have hmark : ∀ t, c = '*' → content ++ '*' :: '/' :: rest = '/' :: t → False := by
      intro t hc heq
      cases content with
      | nil => simp at heq
      | cons d content => exact h.1 ⟨hc, congrArg some (List.cons.inj heq).1⟩
    rw [List.cons_append, untilCommentEnd?, ih h.2]
    · rfl
    · exact hmark

/-- What is read up to an end mark holds no end mark. -/
theorem content_of_untilCommentEnd? {s content rest : List Char}
    (h : untilCommentEnd? s = some (content, rest)) :
    ¬ ['*', '/'] <:+: content ∧ s = content ++ '*' :: '/' :: rest := by
  fun_induction untilCommentEnd? s generalizing content with
  | case1 => simp at h
  | case2 r =>
    simp only [Option.some.injEq, Prod.mk.injEq] at h
    obtain ⟨rfl, rfl⟩ := h
    exact ⟨by simp, rfl⟩
  | case3 c r hmark ih =>
    simp only [Option.map_eq_some_iff, Prod.mk.injEq, Prod.exists] at h
    obtain ⟨content', _, h, rfl, rfl⟩ := h
    obtain ⟨hcontent, rfl⟩ := ih h
    refine ⟨?_, rfl⟩
    rw [infix_commentEnd_cons, not_or]
    refine ⟨?_, hcontent⟩
    rintro ⟨hc, hhead⟩
    obtain ⟨t, rfl⟩ := List.head?_eq_some_iff.mp hhead
    exact hmark _ hc rfl

theorem untilCommentEnd?_eq_some_iff {s content rest : List Char} :
    untilCommentEnd? s = some (content, rest) ↔
      ¬ ['*', '/'] <:+: content ∧ s = content ++ '*' :: '/' :: rest := by
  constructor
  · exact content_of_untilCommentEnd?
  · rintro ⟨h, rfl⟩
    exact untilCommentEnd?_append h rest

/-! ## Line comments -/

theorem isLineEnd_eq_false_iff {c : Char} : (!isLineEnd c) = true ↔ c ≠ '\r' ∧ c ≠ '\n' := by
  simp [isLineEnd]

theorem stops_of_atLineEnd {s : List Char} (h : AtLineEnd s) : Stops (!isLineEnd ·) s := by
  rcases h with rfl | h | ⟨t, rfl⟩
  · exact stops_nil _
  · obtain ⟨t, rfl⟩ := List.head?_eq_some_iff.mp h
    exact stops_cons rfl
  · exact stops_cons rfl

/-- The line ends, or it goes on with a CR that is no line end. -/
theorem atLineEnd_or_of_stops {s : List Char} (h : Stops (!isLineEnd ·) s) :
    AtLineEnd s ∨ ∃ t, s = '\r' :: t ∧ t.head? ≠ some '\n' := by
  cases s with
  | nil => exact .inl (.inl rfl)
  | cons c t =>
    have hc : isLineEnd c = true := by simpa using h c rfl
    simp only [isLineEnd, Bool.or_eq_true, beq_iff_eq] at hc
    rcases hc with rfl | rfl
    · by_cases ht : t.head? = some '\n'
      · obtain ⟨u, rfl⟩ := List.head?_eq_some_iff.mp ht
        exact .inl (.inr (.inr ⟨u, rfl⟩))
      · exact .inr ⟨t, rfl, ht⟩
    · exact .inl (.inr (.inl rfl))

theorem untilLineEnd?_append {content rest : List Char}
    (h : ∀ c ∈ content, c ≠ '\r' ∧ c ≠ '\n') (hend : AtLineEnd rest) :
    untilLineEnd? (content ++ rest) = some (content, rest) := by
  have hrun : ∀ c ∈ content, (!isLineEnd c) = true :=
    fun c hc => isLineEnd_eq_false_iff.mpr (h c hc)
  obtain ⟨ht, hd⟩ := longestRun_eq_iff.mpr ⟨hrun, stops_of_atLineEnd hend, rfl⟩
  rw [untilLineEnd?]
  rw [ht, hd]
  rcases hend with rfl | hend | ⟨t, rfl⟩
  · rfl
  · obtain ⟨t, rfl⟩ := List.head?_eq_some_iff.mp hend
    rfl
  · rfl

/-- A CR by itself does not end the line. -/
theorem untilLineEnd?_append_carriageReturn {content t : List Char}
    (h : ∀ c ∈ content, c ≠ '\r' ∧ c ≠ '\n') (ht : t.head? ≠ some '\n') :
    untilLineEnd? (content ++ '\r' :: t) = none := by
  have hrun : ∀ c ∈ content, (!isLineEnd c) = true :=
    fun c hc => isLineEnd_eq_false_iff.mpr (h c hc)
  obtain ⟨-, hd⟩ := longestRun_eq_iff.mpr ⟨hrun, stops_cons (c := '\r') (s := t) rfl, rfl⟩
  rw [untilLineEnd?, hd]
  split
  · next heq =>
    obtain rfl : t = '\n' :: _ := by simpa using heq
    exact absurd rfl ht
  · rfl
  · next hne => exact absurd rfl (hne t)

theorem content_of_untilLineEnd? {s content rest : List Char}
    (h : untilLineEnd? s = some (content, rest)) :
    (∀ c ∈ content, c ≠ '\r' ∧ c ≠ '\n') ∧ AtLineEnd rest ∧ s = content ++ rest := by
  obtain ⟨hrun, hstops, happ⟩ := longestRun_eq_iff.mp
    (⟨rfl, rfl⟩ : s.takeWhile (!isLineEnd ·) = _ ∧ s.dropWhile (!isLineEnd ·) = _)
  have hcontent : ∀ c ∈ s.takeWhile (!isLineEnd ·), c ≠ '\r' ∧ c ≠ '\n' :=
    fun c hc => isLineEnd_eq_false_iff.mp (hrun c hc)
  rw [untilLineEnd?] at h
  rcases atLineEnd_or_of_stops hstops with hend | ⟨t, ht, hn⟩
  · have hsome : some (s.takeWhile (!isLineEnd ·), s.dropWhile (!isLineEnd ·)) =
        some (content, rest) := by
      rcases hend with hd | hd | ⟨t, hd⟩
      · rwa [hd] at h ⊢
      · obtain ⟨t, hd⟩ := List.head?_eq_some_iff.mp hd
        rwa [hd] at h ⊢
      · rw [← hd] at h ⊢
        exact h
    simp only [Option.some.injEq, Prod.mk.injEq] at hsome
    obtain ⟨rfl, rfl⟩ := hsome
    exact ⟨hcontent, hend, happ⟩
  · rw [ht] at h
    cases t with
    | nil => simp at h
    | cons c t =>
      have hc : c ≠ '\n' := by simpa using hn
      simp [hc] at h

theorem untilLineEnd?_eq_some_iff {s content rest : List Char} :
    untilLineEnd? s = some (content, rest) ↔
      (∀ c ∈ content, c ≠ '\r' ∧ c ≠ '\n') ∧ AtLineEnd rest ∧ s = content ++ rest := by
  constructor
  · exact content_of_untilLineEnd?
  · rintro ⟨h, hend, rfl⟩
    exact untilLineEnd?_append h hend

end JsonReader
