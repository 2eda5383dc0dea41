import JsonReader.Value.Basic

/-!
# Objects as maps

The entries of an object value stand in the order of their names, one for each name. Putting entries
in one after the other leaves the last one of each name.

## Main definitions

* `Value.Ordered` holds of entries in the order of their names.
* `Value.IsMapOf` relates a map to the entries that it was made from.

## Main statements

* `Value.IsMapOf.insert`: one more entry.
* `Value.IsMapOf.unique`: entries make up one map only.
-/

namespace JsonReader.Value

variable {entries map map' : List (String × Value)}

/-- The names increase. -/
def Ordered (entries : List (String × Value)) : Prop := entries.Pairwise fun e f => e.1 < f.1

theorem Ordered.nodup (h : Ordered entries) : entries.Nodup := by
  refine List.Pairwise.imp ?_ h
  rintro e f hlt rfl
  exact Std.lt_irrefl hlt

theorem mem_insert (h : Ordered entries) {name : String} {v : Value} {e : String × Value} :
    e ∈ insert name v entries ↔ e = (name, v) ∨ e ∈ entries ∧ e.1 ≠ name := by
  induction entries with
  | nil => simp [insert]
  | cons f entries ih =>
    obtain ⟨other, w⟩ := f
    obtain ⟨hother, hrest⟩ := List.pairwise_cons.mp h
    have ih := ih hrest
    have hne : ∀ {x : String}, x < other → ∀ f ∈ entries, f.1 ≠ x := by
      rintro x hx f hf rfl
      exact Std.lt_irrefl (Std.lt_trans (hother f hf) hx)
    rw [insert]
    split
    · next hlt =>
      have : e ∈ (other, w) :: entries → e.1 ≠ name := by
        intro he
        rcases List.mem_cons.mp he with rfl | he
        · exact (Std.ne_of_lt hlt).symm
        · exact hne hlt e he
      grind
    · split
      · next heq =>
        subst heq
        have : e ∈ entries → e.1 ≠ name := by
          rintro he rfl
          exact Std.lt_irrefl (hother e he)
        grind
      · next hneq => grind

theorem ordered_insert (h : Ordered entries) (name : String) (v : Value) :
    Ordered (insert name v entries) := by
  induction entries with
  | nil => exact List.pairwise_singleton _ _
  | cons f entries ih =>
    obtain ⟨other, w⟩ := f
    obtain ⟨hother, hrest⟩ := List.pairwise_cons.mp h
    rw [insert]
    split
    · next hlt =>
      refine List.pairwise_cons.mpr ⟨?_, h⟩
      intro e he
      rcases List.mem_cons.mp he with rfl | he
      · exact hlt
      · exact Std.lt_trans hlt (hother e he)
    · next hle =>
      split
      · next heq =>
        subst heq
        exact List.pairwise_cons.mpr ⟨hother, hrest⟩
      · next hne =>
        refine List.pairwise_cons.mpr ⟨?_, ih hrest⟩
        intro e he
        rcases (mem_insert hrest).mp he with rfl | ⟨he, -⟩
        · exact Std.lt_of_le_of_ne (Std.not_lt.mp hle) (Ne.symm hne)
        · exact hother e he

/-- The map that is made from entries: it is in order, and of the entries with one name it has the
last. -/
structure IsMapOf (map entries : List (String × Value)) : Prop where
  ordered : Ordered map
  mem_iff : ∀ e, e ∈ map ↔ entries.reverse.find? (·.1 == e.1) = some e

theorem isMapOf_nil : IsMapOf [] [] := ⟨.nil, by simp⟩

theorem IsMapOf.insert (h : IsMapOf map entries) (name : String) (v : Value) :
    IsMapOf (insert name v map) (entries ++ [(name, v)]) := by
  refine ⟨ordered_insert h.ordered name v, ?_⟩
  rintro ⟨other, w⟩
  rw [mem_insert h.ordered, h.mem_iff, List.reverse_append, List.reverse_singleton,
    List.singleton_append, List.find?_cons]
  by_cases hname : name = other
  · simp [hname, eq_comm]
  · simp [beq_eq_false_iff_ne.mpr hname, Ne.symm hname]

theorem IsMapOf.unique (h : IsMapOf map entries) (h' : IsMapOf map' entries) : map = map' := by
  have hperm : map.Perm map' := (List.perm_ext_iff_of_nodup h.ordered.nodup
    h'.ordered.nodup).mpr fun e => (h.mem_iff e).trans (h'.mem_iff e).symm
  refine hperm.eq_of_pairwise ?_ h.ordered h'.ordered
  intro e f _ _ hef hfe
  exact absurd (Std.lt_trans hef hfe) Std.lt_irrefl

end JsonReader.Value
