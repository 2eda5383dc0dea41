import JsonReader.Proofs.Value.Skip

/-!
# Starts and ends balance

Skipping keeps one number, how many containers are open. Where it stops can be told from two counts
alone, of the starts and of the ends among the tokens that it takes: it stops as soon as they are
the same. Which kind of container a token opens or closes plays no part in it.

## Main definitions

* `Cursor.starts` and `Cursor.ends` count the tokens that open and that close a container.
* `Cursor.Balanced` holds of tokens among which they are the same, for the first time.

## Main statements

* `closes_iff`: what closes open containers, by the counts.
* `exists_closes`: where the counts come to be the same, there is a first such place.
* `skipOpen_eq_false_iff`: what is never closed is skipped to the end of the tokens.
-/

namespace JsonReader

theorem TokenKind.isEnd_eq_false_of_isStart {k : TokenKind} (h : k.isStart = true) :
    k.isEnd = false := by
  revert h
  cases k <;> decide

namespace Cursor

variable {depth : Nat} {ts : List Token} {t : Token}

/-- How many of the tokens open a container. -/
def starts (ts : List Token) : Nat := ts.countP (·.kind.isStart)

/-- How many of the tokens close a container. -/
def ends (ts : List Token) : Nat := ts.countP (·.kind.isEnd)

@[simp] theorem starts_nil : starts [] = 0 := rfl

@[simp] theorem ends_nil : ends [] = 0 := rfl

theorem starts_cons (t : Token) (ts : List Token) : starts (t :: ts) = starts [t] + starts ts := by
  simp only [starts, ← List.countP_append, List.singleton_append]

theorem ends_cons (t : Token) (ts : List Token) : ends (t :: ts) = ends [t] + ends ts := by
  simp only [ends, ← List.countP_append, List.singleton_append]

theorem starts_of_isStart (h : t.kind.isStart = true) : starts [t] = 1 := by
  simp [starts, h]

theorem ends_of_isStart (h : t.kind.isStart = true) : ends [t] = 0 := by
  simp [ends, TokenKind.isEnd_eq_false_of_isStart h]

/-- The tokens close as many containers as they open, and no part that they begin with does. -/
structure Balanced (ts : List Token) : Prop where
  starts_eq_ends : starts ts = ends ts
  first : ∀ front back, ts = front ++ back → front ≠ [] → back ≠ [] → starts front ≠ ends front

/-! ## One token -/

/-- A token changes the number of open containers as it changes the counts. -/
theorem depthAfter_add_ends (depth : Nat) (t : Token) :
    depthAfter (depth + 1) t.kind + ends [t] = depth + 1 + starts [t] := by
  cases hstart : t.kind.isStart with
  | true => simp [depthAfter, hstart, starts_of_isStart hstart, ends_of_isStart hstart]
  | false => cases hend : t.kind.isEnd <;> simp [depthAfter, starts, ends, hstart, hend]

theorem closes_cons_iff :
    Closes (depth + 1) (t :: ts) ↔ Closes (depthAfter (depth + 1) t.kind) ts := by
  constructor
  · rintro ⟨⟩
    assumption
  · exact .cons

/-! ## The first place -/

/-- Open containers are closed where the ends make up for them and for the starts, and not before.
By induction on the tokens. -/
theorem closes_iff :
    Closes depth ts ↔ depth + starts ts = ends ts ∧
      ∀ front back, ts = front ++ back → back ≠ [] → ends front < depth + starts front := by
  induction ts generalizing depth with
  | nil =>
    constructor
    · rintro ⟨⟩
      simp
    · rintro ⟨hcounts, -⟩
      obtain rfl : depth = 0 := by simpa using hcounts
      exact .nil
  | cons t ts ih =>
    cases depth with
    | zero =>
      constructor
      · rintro ⟨⟩
      · rintro ⟨-, hfirst⟩
        have := hfirst [] (t :: ts) rfl (by simp)
        simp at this
    | succ depth =>
      have hstep := depthAfter_add_ends depth t
      rw [closes_cons_iff, ih, starts_cons, ends_cons]
      constructor
      · rintro ⟨hcounts, hfirst⟩
        refine ⟨by omega, ?_⟩
        intro front back hts hback
        cases front with
        | nil => simp
        | cons u front =>
          obtain ⟨rfl, hrest⟩ := List.cons.inj hts
          have := hfirst front back hrest hback
          rw [starts_cons, ends_cons]
          omega
      · rintro ⟨hcounts, hfirst⟩
        refine ⟨by omega, ?_⟩
        rintro front back rfl hback
        have := hfirst (t :: front) back rfl hback
        rw [starts_cons, ends_cons] at this
        omega

/-- Where the ends make up for the open containers and the starts, there is a first place where they
do. By induction on the tokens. -/
theorem exists_closes (h : depth + starts ts = ends ts) :
    ∃ front back, ts = front ++ back ∧ Closes depth front := by
  induction ts generalizing depth with
  | nil =>
    obtain rfl : depth = 0 := by simpa using h
    exact ⟨[], [], rfl, .nil⟩
  | cons t ts ih =>
    cases depth with
    | zero => exact ⟨[], t :: ts, rfl, .nil⟩
    | succ depth =>
      have hstep := depthAfter_add_ends depth t
      rw [starts_cons, ends_cons] at h
      obtain ⟨front, back, rfl, hcloses⟩ := ih (by omega : depthAfter (depth + 1) t.kind + _ = _)
      exact ⟨t :: front, back, rfl, .cons hcloses⟩

theorem starts_eq_ends_iff_of_isStart (h : t.kind.isStart = true) :
    starts (t :: ts) = ends (t :: ts) ↔ 1 + starts ts = ends ts := by
  rw [starts_cons, ends_cons, starts_of_isStart h, ends_of_isStart h, Nat.zero_add]

/-- What closes a container balances its start. A part that closes too much would have closed it
before. -/
theorem balanced_cons_iff (h : t.kind.isStart = true) : Balanced (t :: ts) ↔ Closes 1 ts := by
  constructor
  · rintro ⟨hcounts, hfirst⟩
    obtain ⟨front, back, rfl, hcloses⟩ :=
      exists_closes ((starts_eq_ends_iff_of_isStart h).mp hcounts)
    cases back with
    | nil => rwa [List.append_nil]
    | cons u back =>
      refine absurd ?_ (hfirst (t :: front) (u :: back) rfl (by simp) (by simp))
      exact (starts_eq_ends_iff_of_isStart h).mpr (closes_iff.mp hcloses).1
  · intro hcloses
    obtain ⟨hcounts, hfirst⟩ := closes_iff.mp hcloses
    refine ⟨(starts_eq_ends_iff_of_isStart h).mpr hcounts, ?_⟩
    intro front back hts hfront hback
    obtain ⟨u, front, rfl⟩ := List.exists_cons_of_ne_nil hfront
    obtain ⟨rfl, rfl⟩ := List.cons.inj hts
    rw [Ne, starts_eq_ends_iff_of_isStart h]
    have := hfirst front back rfl hback
    omega

/-! ## Skipping -/

/-- Skipping comes to the end of the tokens where the counts are never the same. -/
theorem skipOpen_eq_false_iff {passed ahead : List LocatedToken} :
    skipOpen depth passed ahead = (false, ⟨ahead.reverse ++ passed, []⟩) ↔
      ∀ front back, ahead.map (·.token) = front ++ back → depth + starts front ≠ ends front := by
  constructor
  · intro h front back hahead hcounts
    obtain ⟨front, back', rfl, hcloses⟩ := exists_closes hcounts
    obtain ⟨taken, rest, rfl, htaken, -⟩ :=
      List.map_eq_append_iff.mp (hahead.trans (List.append_assoc front back' back))
    cases (hcloses.skipOpen htaken passed rest).symm.trans h
  · intro h
    obtain ⟨complete, d, hskip⟩ : ∃ complete d, skipOpen depth passed ahead = (complete, d) :=
      ⟨_, _, rfl⟩
    cases complete with
    | false => rw [hskip, eq_of_skipOpen_eq_false hskip]
    | true =>
      obtain ⟨taken, rest, rfl, -, hcloses⟩ := exists_closes_of_skipOpen hskip
      exact absurd (closes_iff.mp hcloses).1 (h _ (rest.map (·.token)) (by simp))

end Cursor

end JsonReader
