import JsonReader.Proofs.Token.Run

/-!
# Places of tokens

Tokens of a text begin at places that follow one another, so a place tells one token from all
others. Every lexeme takes characters, and every character moves the place on, to the next column or
to the next line.

## Main definitions

* `Precedes` orders places by line and then by column.

## Main statements

* `pairwise_precedes_of_tokenizeFrom`: the places of the tokens are in order.
-/

namespace JsonReader

/-- A line and a column come before others. -/
def Precedes (p q : Nat × Nat) : Prop := p.1 < q.1 ∨ p.1 = q.1 ∧ p.2 < q.2

theorem Precedes.trans {p q r : Nat × Nat} (h : Precedes p q) (h' : Precedes q r) :
    Precedes p r := by
  simp only [Precedes] at *
  omega

theorem Precedes.ne {p q : Nat × Nat} (h : Precedes p q) : p ≠ q := by
  rintro rfl
  rcases h with h | ⟨-, h⟩
  · exact absurd h (Nat.lt_irrefl _)
  · exact absurd h (Nat.lt_irrefl _)

/-- The line and the column. -/
def Location.place (p : Location) : Nat × Nat := (p.line, p.column)

/-- The line and the column where a token begins. -/
def LocatedToken.place (t : LocatedToken) : Nat × Nat := (t.span.line, t.span.column)

theorem Location.precedes_step (p : Location) (c : Char) : Precedes p.place (p.step c).place := by
  by_cases hc : c = '\n'
  · rw [step, if_pos hc]
    exact .inl (Nat.lt_succ_self p.line)
  · rw [step, if_neg hc]
    exact .inr ⟨rfl, Nat.lt_succ_self p.column⟩

theorem Location.precedes_after (p : Location) {s : List Char} (hs : s ≠ []) :
    Precedes p.place (p.after s).place := by
  induction s generalizing p with
  | nil => exact absurd rfl hs
  | cons c s ih =>
    have hstep := p.precedes_step c
    by_cases hrest : s = []
    · subst hrest
      exact hstep
    · exact hstep.trans (ih (p.step c) hrest)

/-- No piece of a scan is empty. -/
theorem source_ne_nil_of_mem_scan {s : List Char} {piece : Piece} (h : piece ∈ (scan s).pieces) :
    piece.source ≠ [] := by
  fun_induction scan s with
  | case1 => simp at h
  | case2 s hs lexeme rest hlex hlt ih =>
    rcases List.mem_cons.mp h with rfl | h
    · have hpos : 0 < s.length := List.length_pos_iff.mpr hs
      rw [Ne, List.take_eq_nil_iff]
      rintro (htaken | rfl)
      · omega
      · exact hs rfl
    · exact ih h
  | case3 => simp at h

/-- The tokens of pieces begin at places in order, none of them before the place where the run
begins. By induction on the pieces. -/
theorem pairwise_precedes_of_tokensOf {settings : TokenizerSettings}
    {unread : Option (List Char × LexFailure)} {st : Structure} {here : Location}
    {pieces : List Piece} (hpieces : ∀ piece ∈ pieces, piece.source ≠ [])
    {located : List LocatedToken}
    (h : (tokensOf settings unread st here pieces).1 = .ok located) :
    (located.map (·.place)).Pairwise Precedes ∧
      ∀ t ∈ located, here.place = t.place ∨ Precedes here.place t.place := by
  induction pieces generalizing st here located with
  | nil =>
    cases unread with
    | some failed => simp [tokensOf, endOfScan] at h
    | none =>
      rw [tokensOf, endOfScan] at h
      split at h
      · cases h
        simp
      · simp at h
  | cons piece pieces ih =>
    have hstep := here.precedes_after (hpieces piece (by simp))
    have hrest : ∀ piece ∈ pieces, piece.source ≠ [] := (List.forall_mem_cons.mp hpieces).2
    have hlater : ∀ t : LocatedToken,
        (here.after piece.source).place = t.place ∨
          Precedes (here.after piece.source).place t.place → Precedes here.place t.place := by
      rintro t (ht | ht)
      · rwa [← ht]
      · exact hstep.trans ht
    obtain ⟨-, out, st', later, -, hrun, rfl⟩ := tokensOf_cons_eq_ok h
    obtain ⟨hpairwise, hafter⟩ := ih hrest hrun
    have hall : ∀ t ∈ later, Precedes here.place t.place := fun t ht => hlater t (hafter t ht)
    cases out with
    | none => exact ⟨hpairwise, fun t ht => .inr (hall t ht)⟩
    | some token =>
      refine ⟨List.pairwise_cons.mpr ⟨?_, hpairwise⟩, ?_⟩
      · simp only [List.mem_map]
        rintro place ⟨t, ht, rfl⟩
        exact hall t ht
      · intro t ht
        rcases List.mem_cons.mp ht with rfl | ht
        · exact .inl rfl
        · exact .inr (hall t ht)

/-- The tokens of a text begin at places in order. -/
theorem pairwise_precedes_of_tokenizeFrom {settings : TokenizerSettings} {start : Location}
    {text : List Char} {located : List LocatedToken}
    (h : (tokenizeFrom settings start text).1 = .ok located) :
    (located.map (·.place)).Pairwise Precedes :=
  (pairwise_precedes_of_tokensOf (fun _ => source_ne_nil_of_mem_scan) h).1

end JsonReader
