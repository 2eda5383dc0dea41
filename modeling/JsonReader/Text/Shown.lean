import JsonReader.Text.Quoted

/-!
# Values in messages

How a value is shown inside a message: on one line, and so that its shape can be seen.

## Main definitions

* `Shown` is the class of types with such a text.
-/

namespace JsonReader

/-- A type whose values can be shown in messages. -/
class Shown (α : Type) where
  shown : α → String

export Shown (shown)

instance : Shown Unit := ⟨fun _ => "()"⟩

instance : Shown Bool := ⟨fun b => if b then "true" else "false"⟩

instance : Shown Int := ⟨toString⟩

instance : Shown UInt8 := ⟨fun b => toString b.toNat⟩

instance : Shown String := ⟨Text.quoted⟩

instance {α : Type} [Shown α] : Shown (Option α) where
  shown
    | none => "None"
    | some a => s!"Some({shown a})"

instance {α : Type} [Shown α] : Shown (List α) where
  shown as := "[" ++ ", ".intercalate (as.map shown) ++ "]"

instance {α β : Type} [Shown α] [Shown β] : Shown (α × β) where
  shown p := s!"({shown p.1}, {shown p.2})"

end JsonReader
