import JsonReader.Proofs.Lexeme.StringLiteral
import Mathlib.Data.List.Forall2

/-!
# Spellings of strings

A text may spell each character of a string in several ways: as itself, by a short escape, or by
the code units of its UTF-16 form. A string literal is read exactly if it is a row of such
spellings, and it is read as the characters that they spell. Half of a surrogate pair spells
nothing, wherever it stands in a literal.

## Main statements

* `stringBody_iff_forall₂`: a body of the grammar is a row of spellings.
* `stringChar_unit_iff`, `stringChar_pair_iff`: which characters code units spell.
* `exists_unicodeEscape`: every character has a spelling by code units.
* `lowSurrogate_behind`: a surrogate in a literal is the first half of a pair.
* `lexString_iff_spelled`: what is read of a literal.
-/

namespace JsonReader

open Grammar

/-- A body is the spellings of its characters, one after the other. -/
theorem stringBody_iff_forall₂ {body text : List Char} :
    StringBody body text ↔
      ∃ sources, List.Forall₂ StringChar sources text ∧ body = sources.flatten := by
  constructor
  · intro h
    induction h with
    | nil => exact ⟨[], .nil, rfl⟩
    | cons hc _ ih =>
      obtain ⟨sources, hsources, rfl⟩ := ih
      exact ⟨_ :: sources, .cons hc hsources, rfl⟩
  · rintro ⟨sources, hsources, rfl⟩
    induction hsources with
    | nil => exact .nil
    | cons hc _ ih => exact .cons hc ih

/-! ## Code units -/

theorem exists_hexDigit {n : Nat} (h : n < 16) : ∃ c, HexDigit c n := by
  by_cases hn : n < 10
  · exact ⟨_, .decimal hn⟩
  · obtain ⟨m, rfl⟩ := Nat.exists_eq_add_of_le (Nat.le_of_not_lt hn)
    exact ⟨_, .lower (by omega)⟩

/-- Four digits write every code unit. -/
theorem exists_codeUnit {n : Nat} (h : n < 0x10000) : ∃ ds, CodeUnit ds n := by
  obtain ⟨a, ha⟩ := exists_hexDigit (n := n / 0x1000) (by omega)
  obtain ⟨b, hb⟩ := exists_hexDigit (n := n / 0x100 % 16) (by omega)
  obtain ⟨c, hc⟩ := exists_hexDigit (n := n / 0x10 % 16) (by omega)
  obtain ⟨d, hd⟩ := exists_hexDigit (n := n % 16) (by omega)
  have hu := CodeUnit.mk ha hb hc hd
  rw [show ((n / 0x1000 * 16 + n / 0x100 % 16) * 16 + n / 0x10 % 16) * 16 + n % 16 = n by omega]
    at hu
  exact ⟨_, hu⟩

theorem Grammar.CodeUnit.length_eq {ds : List Char} {n : Nat} (h : CodeUnit ds n) :
    ds.length = 4 := by
  cases h
  rfl

theorem Grammar.CodeUnit.lt {ds : List Char} {n : Nat} (h : CodeUnit ds n) : n < 0x10000 := by
  have hdigit : ∀ {c m}, HexDigit c m → m < 16 := by
    intro c m hm
    cases hm <;> omega
  cases h with
  | mk ha hb hc hd =>
    have := hdigit ha
    have := hdigit hb
    have := hdigit hc
    have := hdigit hd
    omega

/-- The digits at the front of a text are one code unit, and the text behind them is fixed too. -/
theorem Grammar.CodeUnit.unique {ds ds' rest rest' : List Char} {n n' : Nat} (h : CodeUnit ds n)
    (h' : CodeUnit ds' n') (happ : ds ++ rest = ds' ++ rest') : n = n' ∧ rest = rest' := by
  have hread := readCodeUnit?_eq_some_iff.mpr ⟨ds', h', happ⟩
  rw [readCodeUnit?_eq_some_iff.mpr ⟨ds, h, rfl⟩] at hread
  exact Prod.mk.inj (Option.some.inj hread)

/-- No character is a surrogate. -/
theorem toNat_lt_or_le (c : Char) :
    c.toNat < 0xD800 ∨ 0xE000 ≤ c.toNat ∧ c.toNat < 0x110000 := by
  have hvalid : c.toNat.isValidChar := c.valid
  simp only [Nat.isValidChar] at hvalid
  omega

theorem toNat_ofNat_of_lt_or_le {n : Nat} (h : n < 0xD800 ∨ 0xE000 ≤ n ∧ n < 0x110000) :
    (Char.ofNat n).toNat = n := by
  have hvalid : n.isValidChar := h.imp_right fun h => ⟨by omega, h.2⟩
  rw [Char.ofNat, dif_pos hvalid]
  rfl

/-- One code unit spells the character of that code, if there is one. -/
theorem stringChar_unit_iff {ds : List Char} {n : Nat} {c : Char} (hu : CodeUnit ds n) :
    StringChar ('\\' :: 'u' :: ds) c ↔ c.toNat = n := by
  constructor
  · intro h
    cases h with
    | short h => simp [shortEscapes] at h
    | unit hu' hn' =>
      obtain ⟨rfl, -⟩ := hu.unique hu' (rfl : ds ++ [] = ds ++ [])
      have := hu.lt
      exact toNat_ofNat_of_lt_or_le (by omega)
    | pair hh _ _ _ =>
      have hlength := hu.length_eq
      simp [hh.length_eq] at hlength
  · rintro rfl
    have hc := toNat_lt_or_le c
    have hunit := StringChar.unit hu (by omega)
    rwa [Char.ofNat_toNat] at hunit

/-- Two code units spell a character if they are a high and a low surrogate, and then it is the one
whose code they carry. -/
theorem stringChar_pair_iff {hs ls : List Char} {high low : Nat} {c : Char} (hh : CodeUnit hs high)
    (hl : CodeUnit ls low) :
    StringChar ('\\' :: 'u' :: (hs ++ '\\' :: 'u' :: ls)) c ↔
      (0xD800 ≤ high ∧ high < 0xDC00) ∧ (0xDC00 ≤ low ∧ low < 0xE000) ∧
        c.toNat = 0x10000 + (high - 0xD800) * 0x400 + (low - 0xDC00) := by
  constructor
  · generalize hs' : hs ++ '\\' :: 'u' :: ls = source
    intro h
    cases h with
    | short h => simp at hs'
    | unit hu' _ =>
      have hlength := hu'.length_eq
      simp [← hs', hh.length_eq] at hlength
    | pair hh' hhigh hl' hlow =>
      obtain ⟨rfl, htail⟩ := hh.unique hh' hs'
      simp only [List.cons.injEq, true_and] at htail
      subst htail
      obtain ⟨rfl, -⟩ := hl.unique hl' (rfl : ls ++ [] = ls ++ [])
      exact ⟨hhigh, hlow, toNat_ofNat_of_lt_or_le (by omega)⟩
  · rintro ⟨hhigh, hlow, hc⟩
    have hpair := StringChar.pair hh hhigh hl hlow
    rwa [← hc, Char.ofNat_toNat] at hpair

/-- Every character has a spelling by its code units, of which there are one or two. -/
theorem exists_unicodeEscape (c : Char) : ∃ ds, StringChar ('\\' :: 'u' :: ds) c := by
  have hc := toNat_lt_or_le c
  by_cases hone : c.toNat < 0x10000
  · obtain ⟨ds, hds⟩ := exists_codeUnit hone
    exact ⟨ds, (stringChar_unit_iff hds).mpr rfl⟩
  · obtain ⟨hs, hh⟩ := exists_codeUnit (n := 0xD800 + (c.toNat - 0x10000) / 0x400) (by omega)
    obtain ⟨ls, hl⟩ := exists_codeUnit (n := 0xDC00 + (c.toNat - 0x10000) % 0x400) (by omega)
    exact ⟨_, (stringChar_pair_iff hh hl).mpr (by omega)⟩

/-! ## Surrogates -/

/-- Only the first half of a pair can stand at the front of an escape that is a surrogate. -/
theorem pair_of_readUnicodeEscape? {ds behind rest : List Char} {n : Nat} {c : Char}
    (hu : CodeUnit ds n) (hn : 0xD800 ≤ n ∧ n < 0xE000)
    (h : readUnicodeEscape? (ds ++ behind) = some (c, rest)) :
    n < 0xDC00 ∧ ∃ ls low, CodeUnit ls low ∧ (0xDC00 ≤ low ∧ low < 0xE000) ∧
      behind = '\\' :: 'u' :: (ls ++ rest) := by
  obtain ⟨source, hc, happ⟩ := stringChar_of_readUnicodeEscape? h
  cases hc with
  | short h => simp [shortEscapes] at h
  | unit hu' hn' =>
    obtain ⟨rfl, rfl⟩ := hu.unique hu' happ
    omega
  | @pair hs ls high low hh hhigh hl hlow =>
    rw [List.append_assoc] at happ
    obtain ⟨rfl, rfl⟩ := hu.unique hh happ
    exact ⟨hhigh.2, ls, low, hl, hlow, by simp⟩

/-- A body ends before a backslash with no escape behind it. -/
theorem readBody_of_readEscape?_eq_none {s : List Char} (h : readEscape? s = none) :
    readBody ('\\' :: s) = ([], '\\' :: s) := by
  rw [readBody]
  split
  · rfl
  · next hsome =>
    rw [h] at hsome
    cases hsome

/-- Where an escape in a literal writes a surrogate, it is the first one of a pair, and the second
one follows at once. -/
theorem lowSurrogate_behind {front text ds behind rest : List Char} {n : Nat} {t : String}
    (hfront : StringBody front text) (hu : CodeUnit ds n) (hn : 0xD800 ≤ n ∧ n < 0xE000)
    (h : lexString ('"' :: (front ++ '\\' :: 'u' :: (ds ++ behind))) = .ok (t, rest)) :
    n < 0xDC00 ∧ ∃ ls low behind', CodeUnit ls low ∧ (0xDC00 ≤ low ∧ low < 0xE000) ∧
      behind = '\\' :: 'u' :: (ls ++ behind') := by
  obtain ⟨body, text', hbody, -, happ⟩ := lexString_eq_ok_iff.mp h
  -- The literal is read behind `front`, up to the quote that ends it.
  have hread := congrArg readBody (List.cons.inj happ).2
  rw [readBody_body_append hfront, readBody_append hbody] at hread
  cases hescape : readUnicodeEscape? (ds ++ behind) with
  | some found =>
    obtain ⟨c, rest'⟩ := found
    obtain ⟨hhigh, ls, low, hl, hlow, rfl⟩ := pair_of_readUnicodeEscape? hu hn hescape
    exact ⟨hhigh, ls, low, rest', hl, hlow, rfl⟩
  | none =>
    have hstop := readBody_of_readEscape?_eq_none (s := 'u' :: (ds ++ behind)) hescape
    rw [hstop] at hread
    simp at hread

/-! ## Literals -/

/-- A literal is read exactly if it is a quote, a row of spellings and a quote, whatever follows,
and it is read as the characters that they spell. Code units spell the characters that have these
codes, and so every character. A surrogate by itself spells none: no literal is read that holds one
without the other half of the pair. -/
theorem lexString_iff_spelled :
    (∀ (s rest : List Char) (t : String), lexString s = .ok (t, rest) ↔
      ∃ sources, List.Forall₂ StringChar sources t.toList ∧
        s = '"' :: (sources.flatten ++ '"' :: rest)) ∧
      (∀ {ds n} c, CodeUnit ds n → (StringChar ('\\' :: 'u' :: ds) c ↔ c.toNat = n)) ∧
      (∀ {hs ls high low} c, CodeUnit hs high → CodeUnit ls low →
        (StringChar ('\\' :: 'u' :: (hs ++ '\\' :: 'u' :: ls)) c ↔
          (0xD800 ≤ high ∧ high < 0xDC00) ∧ (0xDC00 ≤ low ∧ low < 0xE000) ∧
            c.toNat = 0x10000 + (high - 0xD800) * 0x400 + (low - 0xDC00))) ∧
      (∀ c, ∃ ds, StringChar ('\\' :: 'u' :: ds) c) ∧
      ∀ {front text ds behind rest n t}, StringBody front text → CodeUnit ds n →
        0xD800 ≤ n ∧ n < 0xE000 →
        lexString ('"' :: (front ++ '\\' :: 'u' :: (ds ++ behind))) = .ok (t, rest) →
        n < 0xDC00 ∧ ∃ ls low behind', CodeUnit ls low ∧ (0xDC00 ≤ low ∧ low < 0xE000) ∧
          behind = '\\' :: 'u' :: (ls ++ behind') := by
  refine ⟨?_, fun _ => stringChar_unit_iff, fun _ => stringChar_pair_iff, exists_unicodeEscape,
    lowSurrogate_behind⟩
  intro s rest t
  rw [lexString_eq_ok_iff]
  constructor
  · rintro ⟨body, text, hbody, rfl, rfl⟩
    obtain ⟨sources, hsources, rfl⟩ := stringBody_iff_forall₂.mp hbody
    exact ⟨sources, by rwa [String.toList_ofList], rfl⟩
  · rintro ⟨sources, hsources, rfl⟩
    exact ⟨_, _, stringBody_iff_forall₂.mpr ⟨sources, hsources, rfl⟩, String.ofList_toList.symm,
      rfl⟩

/-- The halves of a pair are read as one character, and not at all in the wrong order. -/
theorem lexString_surrogates :
    lexString "\"\\ud83d\\uDE00\":".toList = .ok ("😀", [':']) ∧
      ∃ e, lexString "\"a\\uDE00\\ud83d\"".toList = .error e := by
  obtain ⟨hread, -, hpair, -, hbehind⟩ := lexString_iff_spelled
  have hhigh : CodeUnit ['d', '8', '3', 'd'] 0xD83D :=
    .mk (.lower (n := 3) (by decide)) (.decimal (n := 8) (by decide))
      (.decimal (n := 3) (by decide)) (.lower (n := 3) (by decide))
  have hlow : CodeUnit ['D', 'E', '0', '0'] 0xDE00 :=
    .mk (.upper (n := 3) (by decide)) (.upper (n := 4) (by decide))
      (.decimal (n := 0) (by decide)) (.decimal (n := 0) (by decide))
  constructor
  · exact (hread _ _ _).mpr ⟨[_], .cons ((hpair '😀' hhigh hlow).mpr (by decide)) .nil, rfl⟩
  · cases hreversed : lexString "\"a\\uDE00\\ud83d\"".toList with
    | error e => exact ⟨e, rfl⟩
    | ok found =>
      have hfront : StringBody ['a'] ['a'] :=
        .cons (.raw (by decide) (by decide) (by decide)) .nil
      have hlone := @hbehind _ _ _ ['\\', 'u', 'd', '8', '3', 'd', '"'] _ _ _ hfront hlow
        (by decide) hreversed
      exact absurd hlone.1 (by decide)

end JsonReader
