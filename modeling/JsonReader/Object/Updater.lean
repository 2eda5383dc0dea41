import JsonReader.Text.Shown

/-!
# Updaters

An updater is a change that is yet to be made to an aggregate.

## Main definitions

* `Updater`, with `Updater.identity`, `Updater.andThen` and `Updater.sequence`.
* `Updater.lift` lets a change of one type work on another.
-/

namespace JsonReader

/-- A pending change to an aggregate. -/
structure Updater (α : Type) where
  apply : α → α

namespace Updater

variable {α β : Type}

@[ext] theorem ext {u v : Updater α} (h : ∀ a, u.apply a = v.apply a) : u = v := by
  cases u
  cases v
  congr
  funext a
  exact h a

/-- No change. -/
def identity : Updater α := ⟨id⟩

/-- The one change and then the other. -/
def andThen (u v : Updater α) : Updater α := ⟨fun a => v.apply (u.apply a)⟩

/-- All changes, in order. -/
def sequence (us : List (Updater α)) : Updater α := ⟨fun a => us.foldl (fun a u => u.apply a) a⟩

/-- Casts the aggregate, makes the change there, and takes the result back. -/
def lift (cast : β → α) (back : α → β) (u : Updater α) : Updater β :=
  ⟨fun b => back (u.apply (cast b))⟩

@[simp] theorem apply_identity (a : α) : (identity : Updater α).apply a = a := rfl

@[simp] theorem apply_andThen (u v : Updater α) (a : α) :
    (u.andThen v).apply a = v.apply (u.apply a) := rfl

@[simp] theorem apply_sequence_nil (a : α) : (sequence [] : Updater α).apply a = a := rfl

@[simp] theorem apply_sequence_cons (u : Updater α) (us : List (Updater α)) (a : α) :
    (sequence (u :: us)).apply a = (sequence us).apply (u.apply a) := rfl

@[simp] theorem apply_sequence_append (us vs : List (Updater α)) (a : α) :
    (sequence (us ++ vs)).apply a = (sequence vs).apply ((sequence us).apply a) :=
  List.foldl_append

@[simp] theorem apply_lift (cast : β → α) (back : α → β) (u : Updater α) (b : β) :
    (u.lift cast back).apply b = back (u.apply (cast b)) := rfl

end Updater

/-- A change has no parts to show. -/
instance {α : Type} : Shown (Updater α) := ⟨fun _ => "Updater"⟩

end JsonReader
