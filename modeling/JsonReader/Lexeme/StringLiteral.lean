import JsonReader.Lexeme.Basic
import JsonReader.Text.Hex

/-!
# String literals

A string literal is a quote, a body of raw characters and escapes, and a quote.

## Main definitions

* `readEscape?` decodes one escape, a surrogate pair being one escape.
* `readBody` decodes the longest body, `lexString` the whole literal.
-/

namespace JsonReader

/-- Four hexadecimal digits as a UTF-16 code unit. -/
def readCodeUnit? : List Char → Option (Nat × List Char)
  | a :: b :: c :: d :: rest => (Text.hexValues? [a, b, c, d]).map (·, rest)
  | _ => none

/-- The first unit of a surrogate pair. -/
def isHighSurrogate (unit : Nat) : Bool := 0xD800 ≤ unit && unit < 0xDC00

/-- The second unit of a surrogate pair. -/
def isLowSurrogate (unit : Nat) : Bool := 0xDC00 ≤ unit && unit < 0xE000

/-- The character that a surrogate pair stands for. -/
def ofSurrogates (high low : Nat) : Char :=
  Char.ofNat (0x10000 + (high - 0xD800) * 0x400 + (low - 0xDC00))

/-- The escape that begins with a code unit: a character of its own, or a high surrogate with the
low surrogate that must follow it at once. -/
def readUnicodeEscape? (s : List Char) : Option (Char × List Char) :=
  match readCodeUnit? s with
  | none => none
  | some (unit, rest) =>
    if isHighSurrogate unit then
      match rest with
      | '\\' :: 'u' :: rest =>
        match readCodeUnit? rest with
        | some (low, rest) => if isLowSurrogate low then some (ofSurrogates unit low, rest) else none
        | none => none
      | _ => none
    else if isLowSurrogate unit then none
    else some (Char.ofNat unit, rest)

/-- The character that an escape stands for. The text begins behind the backslash. -/
def readEscape? : List Char → Option (Char × List Char)
  | '"' :: rest => some ('"', rest)
  | '\\' :: rest => some ('\\', rest)
  | '/' :: rest => some ('/', rest)
  | 'b' :: rest => some ('\x08', rest)
  | 'f' :: rest => some ('\x0C', rest)
  | 'n' :: rest => some ('\n', rest)
  | 'r' :: rest => some ('\r', rest)
  | 't' :: rest => some ('\t', rest)
  | 'u' :: rest => readUnicodeEscape? rest
  | _ => none

/-- A character that stands for itself in a string. -/
def isRaw (c : Char) : Bool := c != '"' && c != '\\' && 0x20 ≤ c.toNat

theorem suffix_of_readCodeUnit? {s rest : List Char} {unit : Nat}
    (h : readCodeUnit? s = some (unit, rest)) : rest <:+ s := by
  unfold readCodeUnit? at h
  split at h
  · simp only [Option.map_eq_some_iff, Prod.mk.injEq] at h
    obtain ⟨_, _, _, rfl⟩ := h
    exact ⟨[_, _, _, _], rfl⟩
  · simp at h

theorem suffix_of_readUnicodeEscape? {s rest : List Char} {c : Char}
    (h : readUnicodeEscape? s = some (c, rest)) : rest <:+ s := by
  unfold readUnicodeEscape? at h
  split at h
  · simp at h
  · next hu =>
    have hu := suffix_of_readCodeUnit? hu
    split at h
    · split at h
      · split at h
        · next hv =>
          have hv := suffix_of_readCodeUnit? hv
          split at h
          · simp only [Option.some.injEq, Prod.mk.injEq] at h
            obtain ⟨-, rfl⟩ := h
            exact ((hv.trans (List.suffix_cons _ _)).trans (List.suffix_cons _ _)).trans hu
          · simp at h
        · simp at h
      · simp at h
    · split at h
      · simp at h
      · simp only [Option.some.injEq, Prod.mk.injEq] at h
        obtain ⟨-, rfl⟩ := h
        exact hu

/-- An escape takes at least one character. -/
theorem advances_of_readEscape? {s rest : List Char} {c : Char}
    (h : readEscape? s = some (c, rest)) : rest <:+ s ∧ rest.length < s.length := by
  unfold readEscape? at h
  split at h
  case h_9 => exact suffix_and_lt_of_suffix_cons (suffix_of_readUnicodeEscape? h)
  case h_10 => simp at h
  all_goals
    simp only [Option.some.injEq, Prod.mk.injEq] at h
    obtain ⟨-, rfl⟩ := h
    exact suffix_and_lt_of_suffix_cons List.suffix_rfl

/-- The longest body, decoded, and the text behind it. -/
def readBody : List Char → List Char × List Char
  | [] => ([], [])
  | '\\' :: rest =>
    match h : readEscape? rest with
    | none => ([], '\\' :: rest)
    | some (c, rest') =>
      have : rest'.length < rest.length := (advances_of_readEscape? h).2
      let (body, rest'') := readBody rest'
      (c :: body, rest'')
  | c :: rest =>
    if isRaw c then
      let (body, rest') := readBody rest
      (c :: body, rest')
    else ([], c :: rest)
termination_by s => s.length

theorem readBody_suffix (s : List Char) : (readBody s).2 <:+ s := by
  fun_induction readBody s with
  | case1 => exact List.suffix_rfl
  | case2 => exact List.suffix_rfl
  | case3 rest c rest' h _ body rest'' heq ih =>
    rw [heq] at ih
    exact (ih.trans (advances_of_readEscape? h).1).trans (List.suffix_cons _ _)
  | case4 c rest _ _ body rest' heq ih =>
    rw [heq] at ih
    exact ih.trans (List.suffix_cons _ _)
  | case5 => exact List.suffix_rfl

/-- The number of bytes of a text. -/
def byteCount : List Char → Nat
  | [] => 0
  | c :: s => c.utf8Size + byteCount s

@[simp] theorem byteCount_nil : byteCount [] = 0 := rfl

@[simp] theorem byteCount_cons (c : Char) (s : List Char) :
    byteCount (c :: s) = c.utf8Size + byteCount s := rfl

@[simp] theorem byteCount_append (s t : List Char) :
    byteCount (s ++ t) = byteCount s + byteCount t := by
  induction s with
  | nil => simp
  | cons c s ih => simp [ih, Nat.add_assoc]

/-- A string literal, decoded. A failure reports the place where a closing quote was missed. -/
def lexString : Lexer String
  | '"' :: rest =>
    match readBody rest with
    | (body, '"' :: rest') => .ok (String.ofList body, rest')
    | (_, rest') =>
      .error [⟨1 + (byteCount rest - byteCount rest'), .char '"'⟩, ⟨0, .context "string literal"⟩]
  | _ => .error [⟨0, .char '"'⟩, ⟨0, .context "string literal"⟩]

theorem lexString_advances : lexString.Advances := by
  intro s a rest h
  unfold lexString at h
  split at h
  · next r =>
    split at h
    · next body rest' hb =>
      simp only [Except.ok.injEq, Prod.mk.injEq] at h
      obtain ⟨-, rfl⟩ := h
      have hs := readBody_suffix r
      rw [hb] at hs
      exact suffix_and_lt_of_suffix_cons ((List.suffix_cons _ _).trans hs)
    · simp at h
  · simp at h

end JsonReader
