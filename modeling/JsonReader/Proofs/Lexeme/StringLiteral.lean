import JsonReader.Lexeme.StringLiteral
import JsonReader.Proofs.Grammar.Lexical

/-!
# String literals read the lexical grammar

Each reader of `JsonReader.Lexeme.StringLiteral` is matched with the relation of the grammar that it
decides, from a single digit up to the literal. A string ends at the first quote that no backslash
stands before, so `lexString` and the grammar agree without a condition on what follows.

## Main statements

* `readEscape?_eq_some_iff`, `lexString_eq_ok_iff`: what is read is what the grammar describes.
-/

namespace JsonReader

open Grammar

/-! ## Escapes -/

theorem hexDigit_of_hexValue? {c : Char} {n : Nat} (h : Text.hexValue? c = some n) :
    HexDigit c n := by
  have h0 : ('0' : Char).toNat = 48 := rfl
  have h9 : ('9' : Char).toNat = 57 := rfl
  have ha : ('a' : Char).toNat = 97 := rfl
  have hf : ('f' : Char).toNat = 102 := rfl
  have hA : ('A' : Char).toNat = 65 := rfl
  have hF : ('F' : Char).toNat = 70 := rfl
  simp only [Text.hexValue?, Char.le_def, UInt32.le_iff_toNat_le, Char.toNat_val] at h
  split at h
  · obtain rfl : c.toNat - 48 = n := Option.some.inj h
    have hd := HexDigit.decimal (n := c.toNat - 48) (by omega)
    rwa [h0, show 48 + (c.toNat - 48) = c.toNat by omega, Char.ofNat_toNat] at hd
  · split at h
    · obtain rfl : c.toNat - 97 + 10 = n := Option.some.inj h
      have hd := HexDigit.lower (n := c.toNat - 97) (by omega)
      rwa [ha, show 97 + (c.toNat - 97) = c.toNat by omega, Char.ofNat_toNat, Nat.add_comm] at hd
    · split at h
      · obtain rfl : c.toNat - 65 + 10 = n := Option.some.inj h
        have hd := HexDigit.upper (n := c.toNat - 65) (by omega)
        rwa [hA, show 65 + (c.toNat - 65) = c.toNat by omega, Char.ofNat_toNat, Nat.add_comm] at hd
      · simp at h

theorem hexValue?_of_hexDigit {c : Char} {n : Nat} (h : HexDigit c n) :
    Text.hexValue? c = some n := by
  have decimal : ∀ m < 10, Text.hexValue? (Char.ofNat ('0'.toNat + m)) = some m := by decide
  have lower : ∀ m < 6, Text.hexValue? (Char.ofNat ('a'.toNat + m)) = some (10 + m) := by decide
  have upper : ∀ m < 6, Text.hexValue? (Char.ofNat ('A'.toNat + m)) = some (10 + m) := by decide
  cases h with
  | decimal h => exact decimal _ h
  | lower h => exact lower _ h
  | upper h => exact upper _ h

theorem hexValue?_eq_some_iff {c : Char} {n : Nat} :
    Text.hexValue? c = some n ↔ HexDigit c n :=
  ⟨hexDigit_of_hexValue?, hexValue?_of_hexDigit⟩

/-- The digits of a code unit count by their places, the most significant first. -/
theorem readCodeUnit?_eq_some_iff {s rest : List Char} {n : Nat} :
    readCodeUnit? s = some (n, rest) ↔ ∃ ds, CodeUnit ds n ∧ s = ds ++ rest := by
  constructor
  · intro h
    simp only [readCodeUnit?] at h
    split at h
    · next a b c d rest' =>
      simp only [Text.hexValues?, List.foldlM_cons, List.foldlM_nil, Option.map_eq_some_iff,
        Option.bind_eq_bind, Option.bind_eq_some_iff, Option.pure_def, Option.some.injEq,
        Prod.mk.injEq] at h
      obtain ⟨_, ⟨_, ⟨w, ha, rfl⟩, _, ⟨x, hb, rfl⟩, _, ⟨y, hc, rfl⟩, _, ⟨z, hd, rfl⟩, rfl⟩,
        rfl, rfl⟩ := h
      simp only [hexValue?_eq_some_iff] at ha hb hc hd
      have hu := CodeUnit.mk ha hb hc hd
      rw [show ((w * 16 + x) * 16 + y) * 16 + z = 16 * (16 * (16 * (16 * 0 + w) + x) + y) + z by
        omega] at hu
      exact ⟨[a, b, c, d], hu, rfl⟩
    · simp at h
  · rintro ⟨ds, ⟨ha, hb, hc, hd⟩, rfl⟩
    rename_i a b c d w x y z
    rw [← hexValue?_eq_some_iff] at ha hb hc hd
    simp only [readCodeUnit?, List.cons_append, List.nil_append, Text.hexValues?, List.foldlM_cons,
      List.foldlM_nil, ha, hb, hc, hd, Option.map_some, Option.bind_eq_bind, Option.bind_some,
      Option.pure_def, Option.some.injEq, Prod.mk.injEq, and_true]
    omega

theorem readUnicodeEscape?_unit {ds rest : List Char} {n : Nat} (hu : CodeUnit ds n)
    (hn : n < 0xD800 ∨ 0xE000 ≤ n) :
    readUnicodeEscape? (ds ++ rest) = some (Char.ofNat n, rest) := by
  have hr : readCodeUnit? (ds ++ rest) = some (n, rest) :=
    readCodeUnit?_eq_some_iff.mpr ⟨ds, hu, rfl⟩
  have hhigh : isHighSurrogate n = false := by simp [isHighSurrogate]; omega
  have hlow : isLowSurrogate n = false := by simp [isLowSurrogate]; omega
  simp [readUnicodeEscape?, hr, hhigh, hlow]

theorem readUnicodeEscape?_pair {hs ls rest : List Char} {high low : Nat} (hh : CodeUnit hs high)
    (hhigh : 0xD800 ≤ high ∧ high < 0xDC00) (hl : CodeUnit ls low)
    (hlow : 0xDC00 ≤ low ∧ low < 0xE000) :
    readUnicodeEscape? (hs ++ '\\' :: 'u' :: (ls ++ rest)) =
      some (ofSurrogates high low, rest) := by
  have hr : readCodeUnit? (hs ++ '\\' :: 'u' :: (ls ++ rest)) =
      some (high, '\\' :: 'u' :: (ls ++ rest)) := readCodeUnit?_eq_some_iff.mpr ⟨hs, hh, rfl⟩
  have hr' : readCodeUnit? (ls ++ rest) = some (low, rest) :=
    readCodeUnit?_eq_some_iff.mpr ⟨ls, hl, rfl⟩
  have hhigh' : isHighSurrogate high = true := by simp [isHighSurrogate]; omega
  have hlow' : isLowSurrogate low = true := by simp [isLowSurrogate]; omega
  simp [readUnicodeEscape?, hr, hr', hhigh', hlow']

theorem stringChar_of_readUnicodeEscape? {s rest : List Char} {c : Char}
    (h : readUnicodeEscape? s = some (c, rest)) :
    ∃ source, StringChar ('\\' :: 'u' :: source) c ∧ s = source ++ rest := by
  rw [readUnicodeEscape?] at h
  split at h
  · simp at h
  · next unit left hu =>
    obtain ⟨ds, hds, rfl⟩ := readCodeUnit?_eq_some_iff.mp hu
    split at h
    · next hhigh =>
      simp only [isHighSurrogate, Bool.and_eq_true, decide_eq_true_eq] at hhigh
      split at h
      · next left' =>
        split at h
        · next low left'' hl =>
          obtain ⟨ls, hls, rfl⟩ := readCodeUnit?_eq_some_iff.mp hl
          split at h
          · next hlow =>
            simp only [isLowSurrogate, Bool.and_eq_true, decide_eq_true_eq] at hlow
            simp only [Option.some.injEq, Prod.mk.injEq] at h
            obtain ⟨rfl, rfl⟩ := h
            exact ⟨ds ++ '\\' :: 'u' :: ls, .pair hds hhigh hls hlow, by simp⟩
          · simp at h
        · simp at h
      · simp at h
    · next hhigh =>
      split at h
      · simp at h
      · next hlow =>
        simp only [isHighSurrogate, isLowSurrogate, Bool.and_eq_true, decide_eq_true_eq]
          at hhigh hlow
        simp only [Option.some.injEq, Prod.mk.injEq] at h
        obtain ⟨rfl, rfl⟩ := h
        exact ⟨ds, .unit hds (by omega), rfl⟩

theorem stringChar_of_readEscape? {s rest : List Char} {c : Char}
    (h : readEscape? s = some (c, rest)) :
    ∃ source, StringChar ('\\' :: source) c ∧ s = source ++ rest := by
  simp only [readEscape?] at h
  split at h
  case h_9 =>
    obtain ⟨source, hc, rfl⟩ := stringChar_of_readUnicodeEscape? h
    exact ⟨'u' :: source, hc, rfl⟩
  case h_10 => simp at h
  all_goals
    simp only [Option.some.injEq, Prod.mk.injEq] at h
    obtain ⟨rfl, rfl⟩ := h
    exact ⟨[_], .short (by decide), rfl⟩

theorem readEscape?_of_stringChar {source rest : List Char} {c : Char}
    (h : StringChar ('\\' :: source) c) : readEscape? (source ++ rest) = some (c, rest) := by
  cases h with
  | raw _ hslash _ => exact absurd rfl hslash
  | short h =>
    simp only [shortEscapes, List.mem_cons, List.not_mem_nil, Prod.mk.injEq, or_false] at h
    rcases h with ⟨rfl, rfl⟩ | ⟨rfl, rfl⟩ | ⟨rfl, rfl⟩ | ⟨rfl, rfl⟩ | ⟨rfl, rfl⟩ | ⟨rfl, rfl⟩ |
      ⟨rfl, rfl⟩ | ⟨rfl, rfl⟩ <;> rfl
  | unit hu hn => exact readUnicodeEscape?_unit hu hn
  | @pair hs ls _ _ hh hhigh hl hlow =>
    have happ : (hs ++ '\\' :: 'u' :: ls) ++ rest = hs ++ '\\' :: 'u' :: (ls ++ rest) := by simp
    rw [List.cons_append, happ]
    exact readUnicodeEscape?_pair hh hhigh hl hlow

/-- An escape is read exactly where the grammar has one. -/
theorem readEscape?_eq_some_iff {s rest : List Char} {c : Char} :
    readEscape? s = some (c, rest) ↔
      ∃ source, StringChar ('\\' :: source) c ∧ s = source ++ rest := by
  constructor
  · exact stringChar_of_readEscape?
  · rintro ⟨source, hc, rfl⟩
    exact readEscape?_of_stringChar hc

/-! ## Bodies and literals -/

theorem isRaw_iff {c : Char} : isRaw c = true ↔ c ≠ '"' ∧ c ≠ '\\' ∧ 0x20 ≤ c.toNat := by
  simp [isRaw, and_assoc]

/-- What is read of a body is a body of the grammar. -/
theorem stringBody_readBody (s : List Char) :
    ∃ body, StringBody body (readBody s).1 ∧ s = body ++ (readBody s).2 := by
  fun_induction readBody s with
  | case1 => exact ⟨[], .nil, rfl⟩
  | case2 => exact ⟨[], .nil, rfl⟩
  | case3 rest c rest' h _ text rest'' heq ih =>
    obtain ⟨source, hc, rfl⟩ := readEscape?_eq_some_iff.mp h
    obtain ⟨body, hbody, happ⟩ := ih
    rw [heq] at hbody happ
    exact ⟨('\\' :: source) ++ body, .cons hc hbody, by simp [happ]⟩
  | case4 c rest _ hraw text rest' heq ih =>
    obtain ⟨hquote, hslash, hspace⟩ := isRaw_iff.mp hraw
    obtain ⟨body, hbody, happ⟩ := ih
    rw [heq] at hbody happ
    exact ⟨[c] ++ body, .cons (.raw hquote hslash hspace) hbody, by simp [happ]⟩
  | case5 => exact ⟨[], .nil, rfl⟩

theorem readBody_raw {c : Char} (h : isRaw c = true) (s : List Char) :
    readBody (c :: s) = (c :: (readBody s).1, (readBody s).2) := by
  obtain ⟨_, hslash, _⟩ := isRaw_iff.mp h
  rw [readBody]
  · simp [h]
  · exact hslash

theorem readBody_escape {s rest : List Char} {c : Char} (h : readEscape? s = some (c, rest)) :
    readBody ('\\' :: s) = (c :: (readBody rest).1, (readBody rest).2) := by
  rw [readBody]
  split
  · next hn => rw [h] at hn; simp at hn
  · next hs =>
    rw [h] at hs
    obtain ⟨rfl, rfl⟩ := Prod.mk.inj (Option.some.inj hs)
    rfl

/-- Every body of the grammar is read, and reading goes on behind it. -/
theorem readBody_body_append {body text : List Char} (h : StringBody body text) (s : List Char) :
    readBody (body ++ s) = (text ++ (readBody s).1, (readBody s).2) := by
  induction h with
  | nil => rfl
  | @cons source body text c hc _ ih =>
    have hescape : ∀ source, StringChar ('\\' :: source) c →
        readBody (('\\' :: source) ++ body ++ s) =
          (c :: text ++ (readBody s).1, (readBody s).2) := by
      intro source hc
      rw [List.append_assoc, List.cons_append, readBody_escape (readEscape?_of_stringChar hc), ih,
        List.cons_append]
    cases hc with
    | raw hquote hslash hspace =>
      rw [List.append_assoc, List.cons_append, List.nil_append,
        readBody_raw (isRaw_iff.mpr ⟨hquote, hslash, hspace⟩), ih, List.cons_append]
    | short h => exact hescape _ (.short h)
    | unit hu hn => exact hescape _ (.unit hu hn)
    | pair hh hhigh hl hlow => exact hescape _ (.pair hh hhigh hl hlow)

/-- The quote behind a body ends it. -/
theorem readBody_append {body text : List Char} (h : StringBody body text) (rest : List Char) :
    readBody (body ++ '"' :: rest) = (text, '"' :: rest) := by
  have hquote : readBody ('"' :: rest) = ([], '"' :: rest) := by simp [readBody, isRaw]
  rw [readBody_body_append h, hquote, List.append_nil]

/-- A string literal is a quote, a body of the grammar and a quote, whatever follows. -/
theorem lexString_eq_ok_iff {s rest : List Char} {t : String} :
    lexString s = .ok (t, rest) ↔
      ∃ body text, StringBody body text ∧ t = String.ofList text ∧
        s = '"' :: (body ++ '"' :: rest) := by
  constructor
  · intro h
    simp only [lexString] at h
    split at h
    · next left =>
      obtain ⟨body, hbody, happ⟩ := stringBody_readBody left
      split at h
      · next text left' heq =>
        rw [heq] at hbody happ
        simp only [Except.ok.injEq, Prod.mk.injEq] at h
        obtain ⟨rfl, rfl⟩ := h
        exact ⟨body, text, hbody, rfl, by rw [happ]⟩
      · simp at h
    · simp at h
  · rintro ⟨body, text, hbody, rfl, rfl⟩
    simp [lexString, readBody_append hbody]

end JsonReader
