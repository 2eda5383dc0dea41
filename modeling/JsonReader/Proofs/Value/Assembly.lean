import JsonReader.Parser.Value
import JsonReader.Proofs.Grammar.Document
import JsonReader.Proofs.Value.Entries

/-!
# Values are put together exactly

The tokens of a tree, wherever they stand, come to the value of the tree, and nothing of what stands
around them matters. Two things can be wrong with a tree: a container may nest too deep, or a number
text may denote no number. Then the first token of that kind is reported.

## Main definitions

* `Tree.Denotes` relates a tree to its value.
* `Assembly.Refuses` holds of a token that cannot stand where it does, with the failure.
* `Assembly.Takes` is a part of a run, `Assembly.Fails` one that ends at a refused token.

## Main statements

* `Tree.Denotes.unique`: a tree has one value.
* `Assembly.runs_value`: the tokens of a tree are taken, or one of them is refused.
* `Parser.typed_value_of_flatten`: the whole parser.
-/

namespace JsonReader

namespace Tree

variable {read : NumberReader}

mutual

/-- The value of a tree. Its number texts denote numbers, and its objects are maps. -/
inductive Denotes (read : NumberReader) : Tree → Value → Prop
  | null : Denotes read .null .null
  | bool (b : Bool) : Denotes read (.bool b) (.bool b)
  | number {source : String} {n : NumberValue} (h : read source.toList = some n) :
      Denotes read (.number source) (.number n)
  | string (s : String) : Denotes read (.string s) (.string s)
  | array {items : List Tree} {vs : List Value} (h : ItemsDenote read items vs) :
      Denotes read (.array items) (.array vs)
  | object {entries : List (String × Tree)} {ws map : List (String × Value)}
      (h : EntriesDenote read entries ws) (hmap : Value.IsMapOf map ws) :
      Denotes read (.object entries) (.object map)

/-- The values of items. -/
inductive ItemsDenote (read : NumberReader) : List Tree → List Value → Prop
  | nil : ItemsDenote read [] []
  | cons {v : Tree} {w : Value} {items : List Tree} {ws : List Value} (h : v.Denotes read w)
      (hs : ItemsDenote read items ws) : ItemsDenote read (v :: items) (w :: ws)

/-- The values of entries, each under its name. -/
inductive EntriesDenote (read : NumberReader) :
    List (String × Tree) → List (String × Value) → Prop
  | nil : EntriesDenote read [] []
  | cons {name : String} {v : Tree} {w : Value} {entries : List (String × Tree)}
      {ws : List (String × Value)} (h : v.Denotes read w) (hs : EntriesDenote read entries ws) :
      EntriesDenote read ((name, v) :: entries) ((name, w) :: ws)

end

mutual

/-- A tree has at most one value. -/
theorem Denotes.unique {v : Tree} {w w' : Value} (h : v.Denotes read w) (h' : v.Denotes read w') :
    w = w' := by
  cases h with
  | null | bool | string => cases h'; rfl
  | number h =>
    cases h' with
    | number h' => rw [Option.some.inj (h.symm.trans h')]
  | array h =>
    cases h' with
    | array h' => rw [h.unique h']
  | object h hmap =>
    cases h' with
    | object h' hmap' =>
      cases h.unique h'
      rw [hmap.unique hmap']

theorem ItemsDenote.unique {items : List Tree} {ws ws' : List Value} (h : ItemsDenote read items ws)
    (h' : ItemsDenote read items ws') : ws = ws' := by
  cases h with
  | nil => cases h'; rfl
  | cons h hs =>
    cases h' with
    | cons h' hs' => rw [h.unique h', hs.unique hs']

theorem EntriesDenote.unique {entries : List (String × Tree)} {ws ws' : List (String × Value)}
    (h : EntriesDenote read entries ws) (h' : EntriesDenote read entries ws') : ws = ws' := by
  cases h with
  | nil => cases h'; rfl
  | cons h hs =>
    cases h' with
    | cons h' hs' => rw [h.unique h', hs.unique hs']

end

/-- Every number text among the tokens denotes a number. -/
def NumbersRead (read : NumberReader) (ts : List Token) : Prop :=
  ∀ source, .number source ∈ ts → (read source.toList).isSome

@[simp] theorem numbersRead_nil : NumbersRead read [] := nofun

@[simp] theorem numbersRead_append (ts ts' : List Token) :
    NumbersRead read (ts ++ ts') ↔ NumbersRead read ts ∧ NumbersRead read ts' := by
  simp only [NumbersRead, List.mem_append, or_imp, forall_and]

theorem numbersRead_cons {t : Token} {ts : List Token} (h : ∀ source, t ≠ .number source) :
    NumbersRead read (t :: ts) ↔ NumbersRead read ts := by
  simp only [NumbersRead, List.mem_cons, (h _).symm, false_or]

end Tree

namespace Assembly

variable {limit : Nat} {a a' : Assembly} {t : Token} {ts ts' front back : List Token}
  {next : Value ⊕ Assembly} {hole : Hole} {read : NumberReader}

/-- Inside that many containers the token cannot stand: a container would nest too deep, or the
number text denotes no number. With the failure at a position. -/
inductive Refuses (read : NumberReader) (limit depth : Nat) : Token → (Nat → ParseError) → Prop
  | tooDeep {t : Token} (hstart : t.kind.isStart = true) (h : limit ≤ depth) :
      Refuses read limit depth t fun p => .failed s!"maximum depth {limit} exceeded at position {p}"
  | badNumber {source : String} (h : read source.toList = none) :
      Refuses read limit depth (.number source) fun p => .conversion "number" source p

/-- The number of containers that are open. -/
def openContainers : Assembly → Nat
  | value hole => hole.depth
  | items _ outer | names _ outer => outer.depth + 1

/-- The number of containers that are open behind tokens. -/
def openBehind (depth : Nat) (ts : List Token) : Nat :=
  ts.foldl (fun depth t => Cursor.depthAfter depth t.kind) depth

/-! ### One token -/

theorem fill_eq_inr {v : Value} (h : fill v hole = .inr a) : a.openContainers = hole.depth := by
  cases hole <;> simp only [fill, Sum.inr.injEq, reduceCtorEq] at h
  all_goals
    subst h
    rfl

/-- What the first token of a value can come to. -/
theorem begin_eq_ok (h : begin read limit hole t = .ok next) :
    (∃ v, next = fill v hole ∧ t.kind.isStart = false ∧ t.kind.isEnd = false ∧
      ∀ source, t = .number source → (read source.toList).isSome) ∨
    ∃ a, next = .inr a ∧ t.kind.isStart = true ∧ hole.depth < limit ∧
      a.openContainers = hole.depth + 1 := by
  unfold begin at h
  split at h
  case h_1 | h_3 =>
    cases h
    exact .inl ⟨_, rfl, rfl, rfl, nofun⟩
  case h_2 b =>
    cases h
    exact .inl ⟨_, rfl, by cases b <;> rfl, by cases b <;> rfl, nofun⟩
  case h_4 source =>
    split at h
    · next n hread =>
      cases h
      refine .inl ⟨_, rfl, rfl, rfl, ?_⟩
      rintro source' hsource
      cases hsource
      simp [hread]
    · simp at h
  case h_5 | h_6 =>
    split at h
    · simp at h
    · next hle =>
      cases h
      exact .inr ⟨_, rfl, rfl, Nat.not_le.mp hle, rfl⟩
  all_goals simp at h

theorem not_refuses_of_begin (h : begin read limit hole t = .ok next) {error : Nat → ParseError} :
    ¬ Refuses read limit hole.depth t error := by
  intro hrefuses
  rcases begin_eq_ok h with ⟨v, -, hstart, -, hread⟩ | ⟨a, -, hstart, hlt, -⟩
  · cases hrefuses with
    | tooDeep hstart' => simp [hstart'] at hstart
    | badNumber hnone => simpa [hnone] using hread _ rfl
  · cases hrefuses with
    | tooDeep _ hle => exact Nat.not_le.mpr hlt hle
    | badNumber => simp [Token.kind, TokenKind.isStart] at hstart

theorem openContainers_of_begin (h : begin read limit hole t = .ok (.inr a)) :
    a.openContainers = Cursor.depthAfter hole.depth t.kind := by
  rcases begin_eq_ok h with ⟨v, hfill, hstart, hend, -⟩ | ⟨a', ha, hstart, -, hopen⟩
  · simp [Cursor.depthAfter, hstart, hend, fill_eq_inr hfill.symm]
  · cases ha
    simp [Cursor.depthAfter, hstart, hopen]

theorem step_items_of_ne {done : List Value} {outer : Hole} (h : t ≠ .arrayEnd) :
    (items done outer).step read limit t = begin read limit (.item done outer) t := by
  cases t <;> first | rfl | exact absurd rfl h

/-- A token that is taken is not refused. -/
theorem not_refuses_of_step (h : a.step read limit t = .ok next) {error : Nat → ParseError} :
    ¬ Refuses read limit a.openContainers t error := by
  cases a with
  | value hole => exact not_refuses_of_begin h
  | items done outer =>
    by_cases hend : t = .arrayEnd
    · subst hend
      rintro ⟨⟨⟩⟩
    · exact not_refuses_of_begin ((step_items_of_ne hend).symm.trans h)
  | names entries outer =>
    cases t with
    | objectEnd | propertyName => rintro ⟨⟨⟩⟩
    | _ => simp [step] at h

/-- Each token that is taken opens a container, closes one or does neither. -/
theorem openContainers_of_step (h : a.step read limit t = .ok (.inr a')) :
    a'.openContainers = Cursor.depthAfter a.openContainers t.kind := by
  cases a with
  | value hole => exact openContainers_of_begin h
  | items done outer =>
    by_cases hend : t = .arrayEnd
    · subst hend
      exact fill_eq_inr (Except.ok.inj h)
    · exact openContainers_of_begin ((step_items_of_ne hend).symm.trans h)
  | names entries outer =>
    cases t with
    | objectEnd => exact fill_eq_inr (Except.ok.inj h)
    | propertyName name =>
      cases h
      rfl
    | _ => simp [step] at h

theorem limit_of_begin {l : Nat} (h : begin read limit hole t = .error (.tooDeep l)) :
    l = limit := by
  cases t with
  | number source =>
    simp only [begin] at h
    split at h <;> simp at h
  | arrayStart | objectStart =>
    simp only [begin] at h
    split at h
    · simpa using h.symm
    · simp at h
  | _ => simp [begin] at h

/-- A failure quotes the limit that was exceeded. -/
theorem limit_of_step {l : Nat} (h : a.step read limit t = .error (.tooDeep l)) : l = limit := by
  cases a with
  | value hole => exact limit_of_begin h
  | items done outer =>
    by_cases hend : t = .arrayEnd
    · simp [hend, step] at h
    · exact limit_of_begin ((step_items_of_ne hend).symm.trans h)
  | names entries outer => cases t <;> simp [step] at h

/-! ### Parts of a run -/

/-- The tokens are taken one after the other. The value may be complete behind the last one only. -/
inductive Takes (read : NumberReader) (limit : Nat) :
    Assembly → List Token → Value ⊕ Assembly → Prop
  | nil {a : Assembly} : Takes read limit a [] (.inr a)
  | last {a : Assembly} {t : Token} {v : Value} (h : a.step read limit t = .ok (.inl v)) :
      Takes read limit a [t] (.inl v)
  | cons {a a' : Assembly} {t : Token} {ts : List Token} {next : Value ⊕ Assembly}
      (h : a.step read limit t = .ok (.inr a')) (hs : Takes read limit a' ts next) :
      Takes read limit a (t :: ts) next

theorem Takes.single (h : a.step read limit t = .ok next) : Takes read limit a [t] next := by
  cases next with
  | inl v => exact .last h
  | inr a' => exact .cons h .nil

theorem Takes.append (h : Takes read limit a ts (.inr a')) (h' : Takes read limit a' ts' next) :
    Takes read limit a (ts ++ ts') next := by
  generalize hnext : (Sum.inr a' : Value ⊕ Assembly) = reached at h
  induction h with
  | nil =>
    cases hnext
    exact h'
  | last => cases hnext
  | cons hstep _ ih => exact .cons hstep (ih hnext)

theorem Takes.openContainers (h : Takes read limit a ts (.inr a')) :
    a'.openContainers = openBehind a.openContainers ts := by
  generalize hnext : (Sum.inr a' : Value ⊕ Assembly) = reached at h
  induction h with
  | nil =>
    cases hnext
    rfl
  | last => cases hnext
  | cons hstep _ ih => rw [ih hnext, openContainers_of_step hstep, openBehind, openBehind,
      List.foldl_cons]

/-- None of the tokens that are taken is refused. -/
theorem Takes.not_refuses (h : Takes read limit a ts next) (hts : ts = front ++ t :: back)
    {error : Nat → ParseError} :
    ¬ Refuses read limit (openBehind a.openContainers front) t error := by
  induction h generalizing front with
  | nil => simp at hts
  | last hstep =>
    obtain ⟨rfl, hlast⟩ | ⟨-, hlast⟩ := List.append_eq_singleton_iff.mp hts.symm
    · cases hlast
      exact not_refuses_of_step hstep
    · simp at hlast
  | cons hstep _ ih =>
    cases front with
    | nil =>
      obtain ⟨rfl, rfl⟩ := List.cons.inj hts
      exact not_refuses_of_step hstep
    | cons u front =>
      obtain ⟨rfl, rfl⟩ := List.cons.inj hts
      rw [openBehind, List.foldl_cons, ← openContainers_of_step hstep]
      exact ih rfl

/-- The tokens are taken up to one that is refused. -/
def Fails (read : NumberReader) (limit : Nat) (a : Assembly) (ts : List Token) : Prop :=
  ∃ front t back a' e, ts = front ++ t :: back ∧ Takes read limit a front (.inr a') ∧
    a'.step read limit t = .error e ∧ Refuses read limit a'.openContainers t fun p => e.at p

/-- Where the tokens fit they are taken and the goal is reached, else one of them is refused. -/
def Runs (read : NumberReader) (limit : Nat) (a : Assembly) (ts : List Token) (fits : Prop)
    (goal : Value ⊕ Assembly → Prop) : Prop :=
  (fits ∧ ∃ next, goal next ∧ Takes read limit a ts next) ∨ ¬ fits ∧ Fails read limit a ts

namespace Runs

variable {fits fits' : Prop} {goal goal' : Value ⊕ Assembly → Prop}

theorem of_step (h : a.step read limit t = .ok next) (hgoal : goal next) :
    Runs read limit a [t] True goal := .inl ⟨trivial, next, hgoal, .single h⟩

theorem of_refuses {e : AssemblyError} (h : a.step read limit t = .error e)
    (hrefuses : Refuses read limit a.openContainers t fun p => e.at p) (hfits : ¬ fits) :
    Runs read limit a (t :: ts) fits goal := .inr ⟨hfits, [], t, ts, a, e, rfl, .nil, h, hrefuses⟩

theorem imp (h : Runs read limit a ts fits goal) (hfits : fits ↔ fits')
    (hgoal : ∀ next, goal next → goal' next) : Runs read limit a ts fits' goal' := by
  rcases h with ⟨h, next, hnext, htakes⟩ | ⟨h, hfails⟩
  · exact .inl ⟨hfits.mp h, next, hgoal next hnext, htakes⟩
  · exact .inr ⟨fun h' => h (hfits.mpr h'), hfails⟩

/-- The tokens behind are read from every state that is reached. -/
theorem append (h : Runs read limit a ts fits goal)
    (h' : ∀ next, goal next → ∃ a', next = .inr a' ∧ Runs read limit a' ts' fits' goal') :
    Runs read limit a (ts ++ ts') (fits ∧ fits') goal' := by
  rcases h with ⟨hfits, next, hnext, htakes⟩ | ⟨hfits, front, t, back, a', e, rfl, hfails⟩
  · obtain ⟨a', rfl, h'⟩ := h' next hnext
    rcases h' with ⟨hfits', next, hnext', htakes'⟩ |
      ⟨hfits', front, t, back, a'', e, rfl, htakes', hfails⟩
    · exact .inl ⟨⟨hfits, hfits'⟩, next, hnext', htakes.append htakes'⟩
    · exact .inr ⟨fun h => hfits' h.2, ts ++ front, t, back, a'', e, by simp,
        htakes.append htakes', hfails⟩
  · exact .inr ⟨fun h => hfits h.1, front, t, back ++ ts', a', e, by simp, hfails⟩

end Runs

/-! ### Trees -/

/-- A container is read in three parts, its first token, what it holds and its last token. -/
theorem runs_container {inner : Assembly} {start stop : Token} {body : List Token} {held : Nat}
    {goal goal' : Value ⊕ Assembly → Prop} (hopen : a.openContainers = hole.depth)
    (hstart : start.kind.isStart = true) (hstop : stop.kind.isEnd = true)
    (hfirst : a.step read limit start =
      if limit ≤ hole.depth then .error (.tooDeep limit) else .ok (.inr inner))
    (hbody : hole.depth + 1 ≤ limit →
      Runs read limit inner body (hole.depth + 1 + held ≤ limit ∧ Tree.NumbersRead read body) goal)
    (hlast : ∀ next, goal next →
      ∃ a' next', next = .inr a' ∧ a'.step read limit stop = .ok next' ∧ goal' next') :
    Runs read limit a (start :: (body ++ [stop]))
      (hole.depth + (held + 1) ≤ limit ∧ Tree.NumbersRead read (start :: (body ++ [stop])))
      goal' := by
  by_cases hdeep : limit ≤ hole.depth
  · rw [if_pos hdeep] at hfirst
    refine .of_refuses hfirst (.tooDeep hstart (hopen ▸ hdeep)) ?_
    omega
  · rw [if_neg hdeep] at hfirst
    have hend : ∀ next, goal next →
        ∃ a', next = .inr a' ∧ Runs read limit a' [stop] True goal' := by
      intro next hnext
      obtain ⟨a', next', rfl, hstep, hgoal⟩ := hlast next hnext
      exact ⟨a', rfl, .of_step hstep hgoal⟩
    have hinner := (hbody (by omega)).append hend
    have hwhole := (Runs.of_step hfirst rfl).append fun next hnext => ⟨inner, hnext.symm, hinner⟩
    refine hwhole.imp ?_ fun _ h => h
    rw [Tree.numbersRead_cons (by rintro source rfl; cases hstart), Tree.numbersRead_append,
      Tree.numbersRead_cons (by rintro source rfl; cases hstop), Nat.add_assoc, Nat.add_comm 1]
    simp

/-- What nests in parts of a container fits where it fits for each part. -/
theorem fits_parts {depth first rest limit : Nat} {ts ts' : List Token} :
    (depth + first ≤ limit ∧ Tree.NumbersRead read ts) ∧
        (depth + rest ≤ limit ∧ Tree.NumbersRead read ts') ↔
      depth + max first rest ≤ limit ∧ Tree.NumbersRead read (ts ++ ts') := by
  have hmax : depth + max first rest ≤ limit ↔ depth + first ≤ limit ∧ depth + rest ≤ limit := by
    omega
  rw [Tree.numbersRead_append, hmax, and_and_and_comm]

mutual

/-- The tokens of a tree, where a value may come. -/
theorem runs_value (v : Tree) {a : Assembly} {hole : Hole}
    (ha : ∀ t, t ≠ .arrayEnd → a.step read limit t = begin read limit hole t)
    (hopen : a.openContainers = hole.depth) (hdepth : hole.depth ≤ limit) :
    Runs read limit a v.flatten (hole.depth + v.depth ≤ limit ∧ Tree.NumbersRead read v.flatten)
      fun next => ∃ w, v.Denotes read w ∧ next = fill w hole := by
  cases v with
  | null =>
    exact (Runs.of_step (ha .null nofun) ⟨_, .null, rfl⟩).imp
      (by simp [Tree.depth, hdepth, Tree.flatten, Tree.NumbersRead]) fun _ h => h
  | bool b =>
    exact (Runs.of_step (ha (.bool b) nofun) ⟨_, .bool b, rfl⟩).imp
      (by simp [Tree.depth, hdepth, Tree.flatten, Tree.NumbersRead]) fun _ h => h
  | string text =>
    exact (Runs.of_step (ha (.string text) nofun) ⟨_, .string text, rfl⟩).imp
      (by simp [Tree.depth, hdepth, Tree.flatten, Tree.NumbersRead]) fun _ h => h
  | number source =>
    have hstep := ha (.number source) nofun
    cases hread : read source.toList with
    | none =>
      rw [begin, hread] at hstep
      refine .of_refuses hstep (.badNumber hread) ?_
      simp [Tree.flatten, Tree.NumbersRead, hread]
    | some n =>
      rw [begin, hread] at hstep
      exact (Runs.of_step hstep ⟨_, .number hread, rfl⟩).imp
        (by simp [Tree.depth, hdepth, Tree.flatten, Tree.NumbersRead, hread]) fun _ h => h
  | array items =>
    rw [Tree.flatten, Tree.depth]
    refine runs_container hopen rfl rfl (ha .arrayStart nofun) (runs_items items) ?_
    rintro next ⟨ws, hws, rfl⟩
    exact ⟨_, _, rfl, rfl, .array ws, .array hws, by simp⟩
  | object entries =>
    rw [Tree.flatten, Tree.depth]
    refine runs_container hopen rfl rfl (ha .objectStart nofun)
      (runs_entries entries Value.isMapOf_nil) ?_
    rintro next ⟨ws, map, hws, hmap, rfl⟩
    exact ⟨_, _, rfl, rfl, .object map, .object hws hmap, rfl⟩

/-- The tokens of the items of an array, behind items that are done. -/
theorem runs_items (vs : List Tree) {done : List Value} {outer : Hole}
    (hdepth : outer.depth + 1 ≤ limit) :
    Runs read limit (.items done outer) (Tree.flattenItems vs)
      (outer.depth + 1 + Tree.depthItems vs ≤ limit ∧ Tree.NumbersRead read (Tree.flattenItems vs))
      fun next => ∃ ws, Tree.ItemsDenote read vs ws ∧
        next = .inr (.items (ws.reverse ++ done) outer) := by
  cases vs with
  | nil => exact .inl ⟨by simpa [Tree.depthItems, Tree.flattenItems], _, ⟨[], .nil, rfl⟩, .nil⟩
  | cons v vs =>
    rw [Tree.flattenItems, Tree.depthItems]
    have hstep : ∀ t, t ≠ .arrayEnd →
        (items done outer).step read limit t = begin read limit (.item done outer) t :=
      fun _ ht => step_items_of_ne ht
    have hv := runs_value v hstep rfl hdepth
    refine (hv.append ?_).imp fits_parts fun _ h => h
    rintro next ⟨w, hw, rfl⟩
    refine ⟨.items (w :: done) outer, rfl, (runs_items vs hdepth).imp .rfl ?_⟩
    rintro next ⟨ws, hws, rfl⟩
    exact ⟨w :: ws, .cons hw hws, by simp⟩

/-- The tokens of the entries of an object, behind entries that are done. -/
theorem runs_entries (es : List (String × Tree)) {map done : List (String × Value)} {outer : Hole}
    (hmap : Value.IsMapOf map done) (hdepth : outer.depth + 1 ≤ limit) :
    Runs read limit (.names map outer) (Tree.flattenEntries es)
      (outer.depth + 1 + Tree.depthEntries es ≤ limit ∧
        Tree.NumbersRead read (Tree.flattenEntries es))
      fun next => ∃ ws map', Tree.EntriesDenote read es ws ∧ Value.IsMapOf map' (done ++ ws) ∧
        next = .inr (.names map' outer) := by
  match es with
  | [] =>
    exact .inl ⟨by simpa [Tree.depthEntries, Tree.flattenEntries], _,
      ⟨[], map, .nil, by simpa, rfl⟩, .nil⟩
  | (name, v) :: es =>
    have hname : Runs read limit (.names map outer) [.propertyName name] True
        fun next => next = .inr (.value (.entry map name outer)) := .of_step rfl rfl
    have hv := hname.append fun next hnext =>
      ⟨_, hnext, runs_value v (fun t _ => rfl) rfl hdepth⟩
    rw [true_and, ← Tree.numbersRead_cons (t := .propertyName name) nofun] at hv
    rw [Tree.flattenEntries, Tree.depthEntries]
    refine (hv.append ?_).imp fits_parts fun _ h => h
    rintro next ⟨w, hw, rfl⟩
    refine ⟨.names (Value.insert name w map) outer, rfl,
      (runs_entries es (hmap.insert name w) hdepth).imp .rfl ?_⟩
    rintro next ⟨ws, map', hws, hmap', rfl⟩
    exact ⟨(name, w) :: ws, map', .cons hw hws, by simpa using hmap', rfl⟩

end

/-! ### Whole runs -/

/-- How a run goes on from what a token came to. -/
def resume (read : NumberReader) (limit : Nat) (next : Value ⊕ Assembly)
    (passed ahead : List LocatedToken) : ParseResult Value × Cursor :=
  match next with
  | .inl v => (.ok v, ⟨passed, ahead⟩)
  | .inr a => a.run read limit passed ahead

theorem Takes.run (h : Takes read limit a ts next) {tokens : List LocatedToken}
    (htokens : tokens.map (·.token) = ts) (passed behind : List LocatedToken) :
    a.run read limit passed (tokens ++ behind) =
      resume read limit next (tokens.reverse ++ passed) behind := by
  induction h generalizing tokens passed with
  | nil =>
    cases List.map_eq_nil_iff.mp htokens
    rfl
  | last hstep =>
    obtain ⟨u, tokens, rfl, rfl, hrest⟩ := List.map_eq_cons_iff.mp htokens
    cases List.map_eq_nil_iff.mp hrest
    simp [Assembly.run, hstep, resume]
  | cons hstep _ ih =>
    obtain ⟨u, tokens, rfl, rfl, hrest⟩ := List.map_eq_cons_iff.mp htokens
    simp [Assembly.run, hstep, ih hrest]

/-- A run stops with the failure of the token that is refused. -/
theorem Takes.run_of_error (h : Takes read limit a front (.inr a')) {e : AssemblyError}
    (hstep : a'.step read limit t = .error e) {tokens : List LocatedToken}
    (htokens : tokens.map (·.token) = front ++ t :: back) (passed behind : List LocatedToken) :
    (a.run read limit passed (tokens ++ behind)).1 =
      .error (e.at (passed.length + front.length + 1)) := by
  obtain ⟨taken, rest, rfl, htaken, hrest⟩ := List.map_eq_append_iff.mp htokens
  obtain ⟨u, rest, rfl, rfl, -⟩ := List.map_eq_cons_iff.mp hrest
  have hlength : taken.length = front.length := by rw [← htaken, List.length_map]
  rw [List.append_assoc, h.run htaken]
  simp [resume, Assembly.run, hstep, hlength, Nat.add_comm passed.length]

end Assembly

/-- Every value is decoded as itself. -/
theorem Parser.typed_value (target : String) (read : NumberReader) :
    typed target Decoder.value read = value read := by
  ext s c : 2
  rw [typed]
  rcases hrun : (value read).run s c with ⟨_ | v, d, notes⟩ <;> simp [hrun, Decoder.value]

/-- The parser for values is exact, whatever reads the number texts. Behind any tokens and before
any tokens, the tokens of a tree come to the value of the tree and the cursor is left right behind
them, where the tree is no deeper than the settings allow and its number texts denote numbers. Else
the first token that is refused is reported at its position, a container that nests too deep or a
number text. -/
theorem Parser.typed_value_of_flatten (s : Settings) (read : NumberReader) (target : String)
    (v : Tree) (before tokens behind : List LocatedToken)
    (htokens : tokens.map (·.token) = v.flatten) :
    let o := (typed target Decoder.value read).run s ⟨before.reverse, tokens ++ behind⟩
    (v.depth ≤ s.maxDepth ∧ Tree.NumbersRead read v.flatten →
      ∃ w, v.Denotes read w ∧ o.result = .ok w ∧ o.cursor = ⟨(before ++ tokens).reverse, behind⟩) ∧
    (¬ (v.depth ≤ s.maxDepth ∧ Tree.NumbersRead read v.flatten) →
      ∃ front t back error, v.flatten = front ++ t :: back ∧
        Assembly.Refuses read s.maxDepth (Assembly.openBehind 0 front) t error ∧
        (∀ front' t' back' error', front = front' ++ t' :: back' →
          ¬ Assembly.Refuses read s.maxDepth (Assembly.openBehind 0 front') t' error') ∧
        o.result = .error (error (before.length + front.length + 1))) := by
  have hruns : Assembly.Runs read s.maxDepth (.value .whole) v.flatten
      (Hole.whole.depth + v.depth ≤ s.maxDepth ∧ Tree.NumbersRead read v.flatten)
      fun next => ∃ w, v.Denotes read w ∧ next = Assembly.fill w .whole :=
    Assembly.runs_value v (fun _ _ => rfl) rfl (Nat.zero_le _)
  rw [Hole.depth, Nat.zero_add] at hruns
  intro o
  have ho : o = (value read).run s ⟨before.reverse, tokens ++ behind⟩ := by
    rw [← typed_value target]
  rcases hruns with ⟨hfits, next, ⟨w, hw, rfl⟩, htakes⟩ |
    ⟨hfits, front, t, back, a, e, hsplit, htakes, hstep, hrefuses⟩
  · refine ⟨fun _ => ⟨w, hw, ?_⟩, fun h => absurd hfits h⟩
    have hrun := htakes.run htokens before.reverse behind
    simp [ho, value, hrun, Assembly.fill, Assembly.resume]
  · rw [htakes.openContainers] at hrefuses
    refine ⟨fun h => absurd h hfits, fun _ => ⟨front, t, back, _, hsplit, hrefuses, ?_, ?_⟩⟩
    · intro front' t' back' error' hearlier
      exact htakes.not_refuses hearlier
    · have hrun := htakes.run_of_error hstep (htokens.trans hsplit) before.reverse behind
      simp [ho, value, hrun]

example :
    let tokens : List LocatedToken := (Tree.array [.null, .object []]).flatten.map fun t => ⟨t, {}⟩
    let values := Parser.typed "Value" Decoder.value NumberValue.read?
    (values.run { maxDepth := 1 } ⟨[], tokens⟩).result =
      .error (.failed "maximum depth 1 exceeded at position 3") := by rfl

/-- An object with two entries of one name. -/
def repeatedName : Tree := .object [("a", .null), ("a", .bool true)]

/-- The last entry of the name is the one that counts. -/
theorem Parser.typed_repeatedName :
    let tokens : List LocatedToken := repeatedName.flatten.map fun t => ⟨t, {}⟩
    let o := (typed "Value" Decoder.value NumberValue.read?).run {}
      ⟨[⟨.null, {}⟩], tokens ++ [⟨.arrayEnd, {}⟩]⟩
    o.result = .ok (.object [("a", .bool true)]) ∧ o.cursor.ahead = [⟨.arrayEnd, {}⟩] := by
  intro tokens o
  have htokens : tokens.map (·.token) = repeatedName.flatten := by simp [tokens, Function.comp_def]
  have hnumbers : Tree.NumbersRead NumberValue.read? repeatedName.flatten := by
    simp [Tree.NumbersRead, repeatedName, Tree.flatten, Tree.flattenEntries]
  obtain ⟨w, hw, hresult, hcursor⟩ := (typed_value_of_flatten {} NumberValue.read? "Value"
    repeatedName [⟨.null, {}⟩] tokens [⟨.arrayEnd, {}⟩] htokens).1 ⟨by decide, hnumbers⟩
  have hmap : Value.IsMapOf [("a", .bool true)] [("a", .null), ("a", .bool true)] :=
    (Value.isMapOf_nil.insert "a" .null).insert "a" (.bool true)
  have hdenotes : repeatedName.Denotes NumberValue.read? (.object [("a", .bool true)]) :=
    .object (.cons .null (.cons (.bool true) .nil)) hmap
  rw [hw.unique hdenotes] at hresult
  exact ⟨hresult, congrArg Cursor.ahead hcursor⟩

end JsonReader
