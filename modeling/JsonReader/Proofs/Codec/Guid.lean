import JsonReader.Cursor.Scalar
import JsonReader.Proofs.Text.Hex
import JsonReader.Proofs.Token.Spans

/-!
# The one text of an identifier

Identifiers have several forms, and each form has a length of its own in bytes. So asking for the
length of the hyphenated form leaves none but that one, whatever reads the forms. A character that
is longer than a byte makes up no form at all.

## Main definitions

* `Guid.Spells` holds of the digits of an identifier, `Guid.Form` of its forms.
* `Guid.LawfulReader` holds of the readers that know these forms and no others.

## Main statements

* `Guid.dehyphenate?_eq_some_iff`: taking out the hyphens undoes putting them in.
* `Guid.exists_of_form`: a text of that length is the hyphenated form.
* `Guid.lawful_parse?`: a reader that knows the forms.
* `Cursor.guid?_eq_some_iff`: a string is read as the identifier whose form it has, in either case.
-/

namespace JsonReader

namespace Codec.Guid

open Text (hexPadded hexValue? hexValues?)

variable {ns : List Nat} {n : Nat} {s ds es rest : List Char} {g : Guid}

/-! ## Hyphens -/

theorem hyphenate_cons (hns : ns ≠ []) :
    hyphenate (n :: ns) ds = ds.take n ++ '-' :: hyphenate ns (ds.drop n) := by
  cases ns with
  | nil => exact absurd rfl hns
  | cons => rfl

/-- The first group ends before the first hyphen. -/
theorem dehyphenate?_cons_eq_some_iff (hns : ns ≠ []) :
    dehyphenate? (n :: ns) s = some ds ↔
      ∃ front rest back, s = front ++ '-' :: rest ∧ front.length = n ∧
        dehyphenate? ns rest = some back ∧ ds = front ++ back := by
  obtain ⟨m, ms, rfl⟩ := List.exists_cons_of_ne_nil hns
  simp only [dehyphenate?]
  constructor
  · intro h
    split at h
    · next hlength =>
      split at h
      · next rest hdrop =>
        obtain ⟨back, hback, rfl⟩ := Option.map_eq_some_iff.mp h
        refine ⟨s.take n, rest, back, ?_, hlength, hback, rfl⟩
        rw [← hdrop, List.take_append_drop]
      · cases h
    · cases h
  · rintro ⟨front, rest, back, rfl, rfl, hback, rfl⟩
    simp [hback]

/-- How many digits there are in all groups. -/
def total (ns : List Nat) : Nat := ns.foldr (· + ·) 0

/-- Taking out the hyphens undoes putting them in, and it takes out nothing else. By induction on
the groups. -/
theorem dehyphenate?_eq_some_iff :
    dehyphenate? ns s = some ds ↔ s = hyphenate ns ds ∧ ds.length = total ns := by
  induction ns generalizing s ds with
  | nil => simp [dehyphenate?, hyphenate, total]; grind
  | cons n ns ih =>
    by_cases hns : ns = []
    · subst hns
      simp [dehyphenate?, hyphenate, total]; grind
    · rw [dehyphenate?_cons_eq_some_iff hns, hyphenate_cons hns]
      constructor
      · rintro ⟨front, rest, back, rfl, rfl, hback, rfl⟩
        obtain ⟨rfl, hlength⟩ := ih.mp hback
        simp [total, hlength]
      · rintro ⟨rfl, hlength⟩
        have htotal : total (n :: ns) = n + total ns := rfl
        exact ⟨ds.take n, hyphenate ns (ds.drop n), ds.drop n, rfl, by simp; omega,
          ih.mpr ⟨rfl, by simp; omega⟩, (List.take_append_drop n ds).symm⟩

/-! ## The hyphenated form -/

theorem eq_hyphen_of_toLower {c : Char} (h : c.toLower = '-') : c = '-' := by
  have upper : ∀ k < 26, (Char.ofNat (65 + k)).toLower ≠ '-' := by decide
  rcases Text.toLower_eq_or_exists c with hc | ⟨k, hk, rfl⟩
  · exact hc.symm.trans h
  · exact absurd h (upper k hk)

theorem map_hyphenate (ns : List Nat) (ds : List Char) :
    (hyphenate ns ds).map Char.toLower = hyphenate ns (ds.map Char.toLower) := by
  have hhyphen : '-'.toLower = '-' := rfl
  induction ns generalizing ds with
  | nil => rfl
  | cons n ns ih =>
    by_cases hns : ns = []
    · subst hns
      rfl
    · simp [hyphenate_cons hns, ih, hhyphen, List.map_take, List.map_drop]

/-- Hyphens are hyphens in any case. -/
theorem exists_eq_hyphenate (h : s.map Char.toLower = hyphenate ns es)
    (hlength : es.length = total ns) :
    ∃ ds, s = hyphenate ns ds ∧ ds.map Char.toLower = es := by
  induction ns generalizing s es with
  | nil => exact ⟨s, rfl, h⟩
  | cons n ns ih =>
    by_cases hns : ns = []
    · subst hns
      exact ⟨s, rfl, h⟩
    · have htotal : total (n :: ns) = n + total ns := rfl
      rw [hyphenate_cons hns] at h
      obtain ⟨front, tail, rfl, hfront, htail⟩ := List.map_eq_append_iff.mp h
      obtain ⟨c, rest, rfl, hc, hrest⟩ := List.map_eq_cons_iff.mp htail
      obtain rfl := eq_hyphen_of_toLower hc
      obtain ⟨back, rfl, hback⟩ := ih hrest (by simp; omega)
      have hn : front.length = n := by
        have := congrArg List.length hfront
        simp at this
        omega
      refine ⟨front ++ back, ?_, ?_⟩
      · rw [hyphenate_cons hns, List.take_left' hn, List.drop_left' hn]
      · rw [List.map_append, hfront, hback, List.take_append_drop]

/-- The digits of an identifier, thirty-two of them, of either case. -/
def Spells (ds : List Char) (g : Guid) : Prop := ds.map Char.toLower = hexPadded 32 g.bits.toNat

theorem spells_iff : Spells ds g ↔ ds.length = 32 ∧ hexValues? ds = some g.bits.toNat := by
  have hlt : g.bits.toNat < 16 ^ 32 := by
    have hbits : (2 : Nat) ^ 128 = 16 ^ 32 := by norm_num
    exact hbits ▸ g.bits.isLt
  rw [Spells, Text.hexValues?_eq_some_iff]
  constructor
  · intro h
    have hlength : ds.length = 32 := by simpa using congrArg List.length h
    rw [hlength]
    exact ⟨rfl, hlt, h⟩
  · rintro ⟨hlength, -, h⟩
    rwa [hlength] at h

theorem ofDigits?_eq_some_iff (hlength : ds.length = 32) :
    ofDigits? ds = some g ↔ Spells ds g := by
  rw [spells_iff, ofDigits?, Option.map_eq_some_iff]
  constructor
  · rintro ⟨n, hn, rfl⟩
    have hlt := (Text.hexValues?_eq_some_iff.mp hn).1
    have hbits : (16 : Nat) ^ 32 = 2 ^ 128 := by norm_num
    rw [hlength, hbits] at hlt
    rw [BitVec.toNat_ofNat, Nat.mod_eq_of_lt hlt]
    exact ⟨hlength, hn⟩
  · rintro ⟨-, hn⟩
    refine ⟨_, hn, ?_⟩
    rw [BitVec.ofNat_toNat, BitVec.setWidth_eq]

theorem read?_eq_some_iff : read? s = some g ↔ ∃ ds, s = hyphenate groups ds ∧ Spells ds g := by
  have htotal : total groups = 32 := rfl
  simp only [read?, Option.bind_eq_some_iff, dehyphenate?_eq_some_iff, htotal]
  constructor
  · rintro ⟨ds, ⟨rfl, hlength⟩, h⟩
    exact ⟨ds, rfl, (ofDigits?_eq_some_iff hlength).mp h⟩
  · rintro ⟨ds, rfl, h⟩
    have hlength := (spells_iff.mp h).1
    exact ⟨ds, ⟨rfl, hlength⟩, (ofDigits?_eq_some_iff hlength).mpr h⟩

/-- The hyphenated form is the text of the identifier, up to the case of the digits. -/
theorem exists_spells_iff :
    (∃ ds, s = hyphenate groups ds ∧ Spells ds g) ↔ s.map Char.toLower = g.text.toList := by
  have htotal : total groups = 32 := rfl
  rw [text, String.toList_ofList]
  constructor
  · rintro ⟨ds, rfl, h⟩
    rw [map_hyphenate, h]
  · intro h
    exact exists_eq_hyphenate h (by simp [htotal])

/-! ## All forms -/

/-- The forms of an identifier: the digits alone, and the hyphenated form by itself, in braces or as
a name. -/
inductive Form : List Char → Guid → Prop
  | plain {ds : List Char} {g : Guid} (h : Spells ds g) : Form ds g
  | hyphenated {ds : List Char} {g : Guid} (h : Spells ds g) : Form (hyphenate groups ds) g
  | braced {ds : List Char} {g : Guid} (h : Spells ds g) :
      Form ('{' :: (hyphenate groups ds ++ ['}'])) g
  | named {ds : List Char} {g : Guid} (h : Spells ds g) : Form (urnStart ++ hyphenate groups ds) g

/-- The rules for readers: all forms are read, and nothing else. -/
structure LawfulReader (parse : Reader) : Prop where
  reads {s : List Char} {g : Guid} (h : Form s g) : parse s = some g
  only {s : List Char} {g : Guid} (h : parse s = some g) : Form s g

/-- A count of what is in a text finds the digits and the hyphens. -/
theorem count_hyphenate (count : List Char → Nat)
    (hcount : ∀ s t, count (s ++ t) = count s + count t) (hns : ns ≠ []) :
    count (hyphenate ns ds) = count ds + (ns.length - 1) * count ['-'] := by
  induction ns generalizing ds with
  | nil => exact absurd rfl hns
  | cons n ns ih =>
    by_cases hns' : ns = []
    · subst hns'
      simp [hyphenate]
    · obtain ⟨k, hk⟩ := Nat.exists_eq_succ_of_ne_zero (mt List.length_eq_zero_iff.mp hns')
      have hparts : count ds = count (ds.take n) + count (ds.drop n) := by
        rw [← hcount, List.take_append_drop]
      rw [hyphenate_cons hns', ← List.singleton_append, hcount, hcount, ih hns', hparts,
        List.length_cons, hk]
      simp only [Nat.succ_eq_add_one, Nat.add_sub_cancel]
      ring

theorem byteCount_of_spells (h : Spells ds g) : byteCount ds = 32 := by
  obtain ⟨hlength, hn⟩ := spells_iff.mp h
  rw [Text.byteCount_of_hexValues? hn, hlength]

theorem byteCount_hyphenate (h : Spells ds g) : byteCount (hyphenate groups ds) = textSize := by
  rw [count_hyphenate byteCount byteCount_append (by decide), byteCount_of_spells h]
  rfl

theorem byteCount_braced (h : Spells ds g) :
    byteCount ('{' :: (hyphenate groups ds ++ ['}'])) = textSize + 2 := by
  have hbraces : byteCount ['{'] = 1 ∧ byteCount ['}'] = 1 := by decide
  rw [← List.singleton_append, byteCount_append, byteCount_append, byteCount_hyphenate h,
    hbraces.1, hbraces.2]
  rfl

theorem byteCount_named (h : Spells ds g) :
    byteCount (urnStart ++ hyphenate groups ds) = textSize + 9 := by
  have hstart : byteCount urnStart = 9 := by decide
  rw [byteCount_append, byteCount_hyphenate h, hstart]
  rfl

/-- A form of the length of the hyphenated one is the hyphenated one. -/
theorem exists_of_form (h : Form s g) (hsize : byteCount s = textSize) :
    ∃ ds, s = hyphenate groups ds ∧ Spells ds g := by
  cases h with
  | plain h =>
    rw [byteCount_of_spells h] at hsize
    exact absurd hsize (by decide)
  | hyphenated h => exact ⟨_, rfl, h⟩
  | braced h =>
    rw [byteCount_braced h] at hsize
    exact absurd hsize (by decide)
  | named h =>
    rw [byteCount_named h] at hsize
    exact absurd hsize (by decide)

/-! ### The reader of all forms -/

theorem readPlain?_eq_some_iff : readPlain? s = some g ↔ Spells s g := by
  rw [readPlain?]
  by_cases hlength : s.length = 32
  · rw [if_pos hlength, ofDigits?_eq_some_iff hlength]
  · rw [if_neg hlength]
    exact ⟨nofun, fun h => absurd (spells_iff.mp h).1 hlength⟩

theorem unbrace?_eq_some_iff : unbrace? s = some rest ↔ s = '{' :: (rest ++ ['}']) := by
  rw [unbrace?.eq_def]
  constructor
  · intro h
    split at h
    · next inner =>
      split at h
      · next hlast =>
        cases h
        obtain ⟨rest, rfl⟩ := List.getLast?_eq_some_iff.mp hlast
        rw [List.dropLast_concat]
      · cases h
    · cases h
  · rintro rfl
    simp

theorem unname?_eq_some_iff : unname? s = some rest ↔ s = urnStart ++ rest := by
  rw [unname?]
  constructor
  · intro h
    split at h
    · next htake =>
      cases h
      conv_lhs => rw [← List.take_append_drop urnStart.length s, htake]
    · cases h
  · rintro rfl
    rw [List.take_left, if_pos rfl, List.drop_left]

/-- A form around the hyphenated one is taken off, and then that one is read. -/
theorem bind_read?_eq_some_iff {inner : Option (List Char)} {wrap : List Char → List Char}
    (hinner : ∀ rest, inner = some rest ↔ s = wrap rest) :
    inner.bind read? = some g ↔ ∃ ds, s = wrap (hyphenate groups ds) ∧ Spells ds g := by
  simp only [Option.bind_eq_some_iff, hinner, read?_eq_some_iff]
  constructor
  · rintro ⟨_, hs, ds, rfl, h⟩
    exact ⟨ds, hs, h⟩
  · rintro ⟨ds, hs, h⟩
    exact ⟨_, hs, ds, rfl, h⟩

theorem readBraced?_eq_some_iff :
    (unbrace? s).bind read? = some g ↔
      ∃ ds, s = '{' :: (hyphenate groups ds ++ ['}']) ∧ Spells ds g :=
  bind_read?_eq_some_iff fun _ => unbrace?_eq_some_iff

theorem readNamed?_eq_some_iff :
    (unname? s).bind read? = some g ↔ ∃ ds, s = urnStart ++ hyphenate groups ds ∧ Spells ds g :=
  bind_read?_eq_some_iff fun _ => unname?_eq_some_iff

/-- The forms are tried one after the other. By its length a text has one of them at most, so the
earlier ones do not get in the way. -/
theorem lawful_parse? : LawfulReader parse? where
  reads {s g} h := by
    have hplain : byteCount s ≠ 32 → readPlain? s = none := fun hne =>
      Option.eq_none_iff_forall_ne_some.mpr fun g' hg' =>
        hne (byteCount_of_spells (readPlain?_eq_some_iff.mp hg'))
    have hread : byteCount s ≠ textSize → read? s = none := fun hne =>
      Option.eq_none_iff_forall_ne_some.mpr fun g' hg' => by
        obtain ⟨ds, rfl, h'⟩ := read?_eq_some_iff.mp hg'
        exact hne (byteCount_hyphenate h')
    have hbraced : byteCount s ≠ textSize + 2 → (unbrace? s).bind read? = none := fun hne =>
      Option.eq_none_iff_forall_ne_some.mpr fun g' hg' => by
        obtain ⟨ds, rfl, h'⟩ := readBraced?_eq_some_iff.mp hg'
        exact hne (byteCount_braced h')
    rw [parse?]
    cases h with
    | plain h => rw [readPlain?_eq_some_iff.mpr h, Option.some_or]
    | hyphenated h =>
      have hsize := byteCount_hyphenate h
      rw [hplain (hsize ▸ by decide), read?_eq_some_iff.mpr ⟨_, rfl, h⟩, Option.none_or,
        Option.some_or]
    | braced h =>
      have hsize := byteCount_braced h
      rw [hplain (hsize ▸ by decide), hread (hsize ▸ by decide),
        readBraced?_eq_some_iff.mpr ⟨_, rfl, h⟩, Option.none_or, Option.none_or, Option.some_or]
    | named h =>
      have hsize := byteCount_named h
      rw [hplain (hsize ▸ by decide), hread (hsize ▸ by decide), hbraced (hsize ▸ by decide),
        readNamed?_eq_some_iff.mpr ⟨_, rfl, h⟩, Option.none_or, Option.none_or, Option.none_or]
  only {s g} h := by
    simp only [parse?, Option.or_eq_some_iff, readPlain?_eq_some_iff, read?_eq_some_iff,
      readBraced?_eq_some_iff, readNamed?_eq_some_iff] at h
    rcases h with h | ⟨-, ⟨ds, rfl, h⟩ | ⟨-, ⟨ds, rfl, h⟩ | ⟨-, ds, rfl, h⟩⟩⟩
    · exact .plain h
    · exact .hyphenated h
    · exact .braced h
    · exact .named h

/-! ## Characters -/

theorem eq_or_mem_of_mem_hyphenate {c : Char} (hc : c ∈ hyphenate ns ds) : c = '-' ∨ c ∈ ds := by
  induction ns generalizing ds with
  | nil => exact .inr hc
  | cons n ns ih =>
    by_cases hns : ns = []
    · subst hns
      exact .inr hc
    · rw [hyphenate_cons hns, List.mem_append, List.mem_cons] at hc
      rcases hc with hc | hc | hc
      · exact .inr (List.mem_of_mem_take hc)
      · exact .inl hc
      · exact (ih hc).imp_right List.mem_of_mem_drop

/-- The hyphenated form is made up of four hyphens and of digits. -/
theorem shape_of_spells (h : Spells ds g) :
    (hyphenate groups ds).length = 36 ∧ (hyphenate groups ds).count '-' = 4 ∧
      ∀ c ∈ hyphenate groups ds, c = '-' ∨ ∃ d, hexValue? c = some d := by
  obtain ⟨hlength, hn⟩ := spells_iff.mp h
  have hdigits : ds.count '-' = 0 := by
    refine List.count_eq_zero.mpr fun hmem => ?_
    obtain ⟨d, hd⟩ := Text.exists_hexValue?_of_mem hn hmem
    cases hd
  refine ⟨?_, ?_, fun c hc => ?_⟩
  · rw [count_hyphenate List.length (fun _ _ => List.length_append) (by decide), hlength]
    rfl
  · rw [count_hyphenate (List.count '-') (fun _ _ => List.count_append) (by decide), hdigits]
    rfl
  · exact (eq_or_mem_of_mem_hyphenate hc).imp_right (Text.exists_hexValue?_of_mem hn)

end Codec.Guid

/-! ## Tokens -/

namespace Cursor

open Codec

/-- A string is read as an identifier exactly if it is the hyphenated form of this identifier, with
letters of any case. No other form is read, whatever its length: neither the digits alone nor a form
in braces or behind `urn:uuid:`, and nothing with a character outside of these. This holds of every
reader that keeps to the rules. -/
theorem guid?_eq_some_iff {parse : Guid.Reader} (hparse : Guid.LawfulReader parse) {c : Cursor}
    {text : String} (hc : c.string? = some text) (g : Guid) :
    (c.guid? parse = some g ↔ text.toList.map Char.toLower = g.text.toList) ∧
      (c.guid? parse = some g →
        text.utf8ByteSize = 36 ∧ text.length = 36 ∧ text.toList.count '-' = 4 ∧
          ∀ ch ∈ text.toList, ch = '-' ∨ ∃ d, Text.hexValue? ch = some d) := by
  have hiff : c.guid? parse = some g ↔
      ∃ ds, text.toList = Guid.hyphenate Guid.groups ds ∧ Guid.Spells ds g := by
    rw [guid?, hc, Option.bind_some, utf8ByteSize_eq_byteCount]
    constructor
    · intro h
      split at h
      · next hsize => exact Guid.exists_of_form (hparse.only h) hsize
      · cases h
    · rintro ⟨ds, htext, h⟩
      rw [htext, if_pos (Guid.byteCount_hyphenate h)]
      exact hparse.reads (.hyphenated h)
  refine ⟨hiff.trans Guid.exists_spells_iff, fun h => ?_⟩
  obtain ⟨ds, htext, hspells⟩ := hiff.mp h
  rw [utf8ByteSize_eq_byteCount, ← String.length_toList, htext, Guid.byteCount_hyphenate hspells]
  exact ⟨rfl, Guid.shape_of_spells hspells⟩

/-- A string that writes an identifier in mixed case. -/
def mixedCase : Cursor := ⟨[⟨.string "6F9619ff-8b86-D011-b42d-00cf4FC964ff", {}⟩], []⟩

theorem guid?_eq_some_iff_mixedCase :
    Guid.LawfulReader Guid.parse? ∧
      mixedCase.string? = some "6F9619ff-8b86-D011-b42d-00cf4FC964ff" ∧
      mixedCase.guid? Guid.parse? = some ⟨0x6f9619ff8b86d011b42d00cf4fc964ff⟩ ∧
      Guid.text ⟨0x6f9619ff8b86d011b42d00cf4fc964ff⟩ = "6f9619ff-8b86-d011-b42d-00cf4fc964ff" := by
  have htext : Guid.text ⟨0x6f9619ff8b86d011b42d00cf4fc964ff⟩ =
      "6f9619ff-8b86-d011-b42d-00cf4fc964ff" := by decide +kernel
  refine ⟨Guid.lawful_parse?, rfl, (guid?_eq_some_iff Guid.lawful_parse? rfl _).1.mpr ?_, htext⟩
  rw [htext]
  decide +kernel

/-- A form in braces is known to the reader, and a string that has it is refused all the same. -/
example : Guid.parse? "\x7b6f9619ff-8b86-d011-b42d-00cf4fc964ff\x7d".toList =
      some ⟨0x6f9619ff8b86d011b42d00cf4fc964ff⟩ ∧
    guid? ⟨[⟨.string "\x7b6f9619ff-8b86-d011-b42d-00cf4fc964ff\x7d", {}⟩], []⟩ = none := by
  decide +kernel

end Cursor

end JsonReader
