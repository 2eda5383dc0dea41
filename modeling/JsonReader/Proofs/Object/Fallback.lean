import JsonReader.Proofs.Object.Entries

/-!
# Objects as whole values

An object can be read in two ways: as a whole value, put together token by token, or by the engine
with a selector that reads the value of every name as a whole value and inserts it into a map. They
differ in how they nest. For the assembly the values of an object stand inside of it, one container
deeper, and what is taken for one of them ends where the hole is filled. For the engine each of them
is a whole of its own.

So the assembly of a value in a hole is compared with that of a whole value. The former takes no
token that the latter would not take in the same place, and it only goes on where the latter is
complete.

## Main definitions

* `Hole.inside` and `Assembly.inside` put what is being assembled inside another hole.

## Main statements

* `Assembly.Takes.split`: what is assembled inside a hole is a whole value, and then the rest.
* `Parser.object_of_typed_value`: where a whole value is an object, the engine reads the same one.
-/

namespace JsonReader

/-- The hole inside another one. -/
def Hole.inside (hole outer : Hole) : Hole :=
  match hole with
  | .whole => outer
  | .item done hole => .item done (hole.inside outer)
  | .entry entries name hole => .entry entries name (hole.inside outer)

theorem Hole.depth_le_depth_inside (hole outer : Hole) :
    hole.depth ≤ (hole.inside outer).depth := by
  induction hole with
  | whole => exact Nat.zero_le _
  | item done hole ih => exact Nat.succ_le_succ ih
  | entry entries name hole ih => exact Nat.succ_le_succ ih

namespace Assembly

/-- The assembly inside a hole. -/
def inside (a : Assembly) (outer : Hole) : Assembly :=
  match a with
  | .value hole => .value (hole.inside outer)
  | .items done hole => .items done (hole.inside outer)
  | .names entries hole => .names entries (hole.inside outer)

/-- What comes of a token inside a hole: a value that is complete fills the hole. -/
def nextInside (next : Value ⊕ Assembly) (outer : Hole) : Value ⊕ Assembly :=
  match next with
  | .inl v => fill v outer
  | .inr a => .inr (a.inside outer)

variable {read : NumberReader} {limit : Nat} {a : Assembly} {next : Value ⊕ Assembly}
  {outer : Hole} {t : Token}  {ts : List Token} {v : Value}

/-! ## One token -/

theorem fill_inside (v : Value) (hole outer : Hole) :
    fill v (hole.inside outer) = nextInside (fill v hole) outer := by
  cases hole <;> rfl

theorem begin_inside {hole : Hole} (h : begin read limit (hole.inside outer) t = .ok next) :
    ∃ next', begin read limit hole t = .ok next' ∧ next = nextInside next' outer := by
  cases t with
  | null | bool | string =>
    cases h
    exact ⟨_, rfl, fill_inside _ _ _⟩
  | number source =>
    cases hread : read source.toList with
    | none => simp [begin, hread] at h
    | some n =>
      simp only [begin, hread, Except.ok.injEq] at h
      exact ⟨fill (.number n) hole, by simp only [begin, hread], by rw [← h, fill_inside]⟩
  | arrayStart | objectStart =>
    -- the hole is nested less deep by itself
    have hdepth := hole.depth_le_depth_inside outer
    by_cases hlimit : limit ≤ (hole.inside outer).depth
    · simp [begin, hlimit] at h
    · have hlimit' : ¬ limit ≤ hole.depth := fun h => hlimit (Nat.le_trans h hdepth)
      simp only [begin, hlimit, if_false, Except.ok.injEq] at h
      simp only [begin, hlimit', if_false]
      exact ⟨_, rfl, h.symm⟩
  | objectEnd | arrayEnd | propertyName => cases h

theorem step_inside (h : (a.inside outer).step read limit t = .ok next) :
    ∃ next', a.step read limit t = .ok next' ∧ next = nextInside next' outer := by
  cases a with
  | value hole => exact begin_inside h
  | items done hole =>
    by_cases hend : t = .arrayEnd
    · subst hend
      cases h
      exact ⟨_, rfl, fill_inside _ _ _⟩
    · rw [step_items_of_ne hend]
      exact begin_inside ((step_items_of_ne hend).symm.trans h)
  | names entries hole =>
    cases t with
    | objectEnd =>
      cases h
      exact ⟨_, rfl, fill_inside _ _ _⟩
    | propertyName name =>
      cases h
      exact ⟨_, rfl, rfl⟩
    | _ => cases h

/-! ## A complete value -/

/-- The tokens complete the value from what a token came to. -/
def Completes (read : NumberReader) (limit : Nat) (next : Value ⊕ Assembly) (ts : List Token)
    (v : Value) : Prop :=
  match next with
  | .inl w => w = v ∧ ts = []
  | .inr a => Takes read limit a ts (.inl v)

theorem takes_inl_iff :
    Takes read limit a ts (.inl v) ↔
      ∃ t ts' next, ts = t :: ts' ∧ a.step read limit t = .ok next ∧
        Completes read limit next ts' v := by
  constructor
  · intro h
    cases h with
    | last hstep => exact ⟨_, [], _, rfl, hstep, rfl, rfl⟩
    | cons hstep hs => exact ⟨_, _, _, rfl, hstep, hs⟩
  · rintro ⟨t, ts', _ | a', rfl, hstep, hnext⟩
    · obtain ⟨rfl, rfl⟩ := hnext
      exact .last hstep
    · exact .cons hstep hnext

/-- What is assembled inside a hole is a whole value, and then the hole is filled and the rest goes
on from there. By induction on the tokens. -/
theorem Takes.split (h : Takes read limit (a.inside outer) ts (.inl v)) :
    ∃ front back w, ts = front ++ back ∧ Takes read limit a front (.inl w) ∧
      Completes read limit (fill w outer) back v := by
  induction ts generalizing a with
  | nil => cases h
  | cons t ts ih =>
    obtain ⟨_, _, next, ⟨⟩, hstep, hnext⟩ := takes_inl_iff.mp h
    obtain ⟨next', hstep', rfl⟩ := step_inside hstep
    cases next' with
    | inl w => exact ⟨[t], ts, w, rfl, .last hstep', hnext⟩
    | inr a' =>
      obtain ⟨front, back, w, rfl, hfront, hback⟩ := ih hnext
      exact ⟨t :: front, back, w, rfl, .cons hstep' hfront, hback⟩

/-- What is assembled from an array on is an array. Each item leaves fewer tokens. -/
theorem exists_array_of_takes {done : List Value}
    (h : Takes read limit (.items done .whole) ts (.inl v)) : ∃ items, v = .array items := by
  induction hn : ts.length using Nat.strongRecOn generalizing done ts with
  | ind n ih =>
    subst hn
    obtain ⟨t, ts', next, rfl, hstep, hnext⟩ := takes_inl_iff.mp h
    by_cases hend : t = .arrayEnd
    · subst hend
      cases hstep
      exact ⟨_, hnext.1.symm⟩
    · rw [step_items_of_ne hend] at hstep
      have hitem : Takes read limit ((value .whole).inside (.item done .whole)) (t :: ts')
          (.inl v) :=
        takes_inl_iff.mpr ⟨t, ts', next, rfl, hstep, hnext⟩
      obtain ⟨front, back, w, hsplit, hfront, hback⟩ := hitem.split
      obtain ⟨t', front, _, rfl, -⟩ := takes_inl_iff.mp hfront
      refine ih _ ?_ hback rfl
      rw [hsplit, List.length_append, List.length_cons]
      omega

/-- An object begins with its start. -/
theorem exists_names_of_takes {entries : List (String × Value)}
    (h : Takes read limit (.value .whole) ts (.inl (.object entries))) :
    ∃ ts', ts = .objectStart :: ts' ∧
      Takes read limit (.names [] .whole) ts' (.inl (.object entries)) := by
  obtain ⟨t, ts', next, rfl, hstep, hnext⟩ := takes_inl_iff.mp h
  cases t with
  | null | bool | string =>
    cases hstep
    cases hnext.1
  | number source =>
    simp only [step, begin] at hstep
    split at hstep
    · cases hstep
      cases hnext.1
    · cases hstep
  | arrayStart =>
    simp only [step, begin] at hstep
    split at hstep
    · cases hstep
    · cases hstep
      obtain ⟨items, hitems⟩ := exists_array_of_takes hnext
      cases hitems
  | objectStart =>
    simp only [step, begin] at hstep
    split at hstep
    · cases hstep
    · cases hstep
      exact ⟨ts', rfl, hnext⟩
  | objectEnd | arrayEnd | propertyName => cases hstep

end Assembly

namespace Parser

open Assembly

variable {read : NumberReader} {s : Settings} {c : Cursor} {ts : List Token}

/-! ## Entries -/

/-- The selector that reads every value as a whole and inserts it under its name. -/
def insertion (target : String) (read : NumberReader) : Selector (List (String × Value)) :=
  fun name =>
    (typed target Decoder.value read).updater (Value.insert name)

theorem Reads.insertion (target name : String) {w : Value}
    (h : Takes read s.maxDepth (.value .whole) ts (.inl w)) :
    (Parser.insertion target read name).Reads s ts ⟨Value.insert name w⟩ := by
  rw [Parser.insertion, typed_value]
  exact (Reads.value h).map _

/-- What is assembled from an object on is an object whose entries the engine reads one by one. Each
entry leaves fewer tokens. -/
theorem exists_entries_of_takes (target : String) {entries : List (String × Value)} {v : Value}
    (h : Takes read s.maxDepth (.names entries .whole) ts (.inl v)) :
    ∃ es us, ts = entryTokens es ++ [.objectEnd] ∧ ReadsEntries (insertion target read) s es us ∧
      v = .object ((Updater.sequence us).apply entries) := by
  induction hn : ts.length using Nat.strongRecOn generalizing entries ts with
  | ind n ih =>
    subst hn
    obtain ⟨t, ts', next, rfl, hstep, hnext⟩ := takes_inl_iff.mp h
    cases t with
    | objectEnd =>
      cases hstep
      obtain ⟨rfl, rfl⟩ := hnext
      exact ⟨[], [], rfl, .nil, rfl⟩
    | propertyName name =>
      cases hstep
      have hvalue : Takes read s.maxDepth
          ((Assembly.value .whole).inside (.entry entries name .whole)) ts' (.inl v) := hnext
      obtain ⟨front, back, w, rfl, hfront, hback⟩ := hvalue.split
      have hlt : back.length < (.propertyName name :: (front ++ back) : List Token).length := by
        rw [List.length_cons, List.length_append]
        omega
      obtain ⟨es, us, rfl, hes, hv⟩ := ih _ hlt hback rfl
      refine ⟨(name, front) :: es, _ :: us, ?_, .cons (.insertion target name hfront) hes, hv⟩
      rw [entryTokens_cons, List.cons_append, List.cons_append, List.append_assoc]
    | _ => cases hstep

/-- Where a whole value is an object, the engine reads the same object and leaves the cursor at the
same place, whatever reads the number texts. -/
theorem object_of_typed_value (s : Settings) (c : Cursor) (target : String) (read : NumberReader)
    (entries : List (String × Value))
    (h : ((typed target Decoder.value read).run s c).result = .ok (.object entries)) :
    ((object (insertion target read) []).run s c).result = .ok entries ∧
      ((object (insertion target read) []).run s c).cursor =
        ((typed target Decoder.value read).run s c).cursor := by
  obtain ⟨passed, ahead⟩ := c
  rw [typed_value] at h ⊢
  obtain ⟨taken, rest, rfl, hcursor, htakes⟩ := Assembly.exists_takes_of_run
    (located_value_eq_ok_iff.mp (Outcome.located_eq_ok_iff.mpr ⟨h, rfl⟩))
  obtain ⟨ts, htaken, hnames⟩ := exists_names_of_takes htakes
  obtain ⟨es, us, rfl, hes, hobject⟩ := exists_entries_of_takes target hnames
  cases hobject
  rw [hcursor]
  exact Outcome.located_eq_ok_iff.mp ((Reads.object hes []) taken htaken passed rest)

/-- An object with two entries of one name, the first of which is an object itself. -/
def nestedEntries : List LocatedToken :=
  (Tree.object [("b", .object [("a", .null)]), ("a", .bool true), ("b", .string "x")]).flatten.map
    fun t => ⟨t, {}⟩

/-- Both read the entries in the order of their names, and the last entry of a name. -/
theorem object_nestedEntries :
    let c : Cursor := ⟨[⟨.arrayStart, {}⟩], nestedEntries ++ [⟨.arrayEnd, {}⟩]⟩
    let whole := (typed "Value" Decoder.value NumberValue.read?).run {} c
    let o := (object (insertion "Value" NumberValue.read?) []).run {} c
    whole.result = .ok (.object [("a", .bool true), ("b", .string "x")]) ∧
      o.result = .ok [("a", .bool true), ("b", .string "x")] ∧ o.cursor = whole.cursor := by
  intro c whole o
  have hwhole : whole.result = .ok (.object [("a", .bool true), ("b", .string "x")]) := by rfl
  exact ⟨hwhole, object_of_typed_value {} c "Value" NumberValue.read? _ hwhole⟩

end Parser

end JsonReader
