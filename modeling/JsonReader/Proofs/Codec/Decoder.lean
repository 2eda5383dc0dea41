import JsonReader.Cursor.Scalar
import JsonReader.Proofs.Codec.Base64
import JsonReader.Proofs.Lexeme.Basic
import Mathlib.Data.List.Basic

/-!
# Decoders of base 64

What a decoder of the standard alphabet does is said bit by bit and without groups. A text is read
if it consists of symbols and of pads that fill the last group of four, and if the bits that the
pads leave over are zero; and the bits of its symbols are then those of the bytes. A decoder that
keeps to these rules reads a row of bytes from its text in base 64 and from no other text.

## Main definitions

* `symbolBits` are the six bits of each symbol, `byteBits` the eight bits of each byte.
* `Padded` holds of symbols and the number of pads behind them, `Writes` of a text and its bytes.
* `LawfulDecoder` holds of the decoders that keep to the rules.

## Main statements

* `writes_iff`: the text of a row of bytes is the one that writes their bits.
* `LawfulDecoder.eq_some_iff`: a decoder that keeps to the rules undoes `encode`.
* `lawful_decode?`: the decoder that takes four characters at a time keeps to them.
* `Cursor.bytes?_eq_some_iff`: which bytes are read from the token of a string.
-/

namespace JsonReader

namespace Codec.Base64

/-! ## Bits -/

/-- The lowest bits of a number, from the highest of them to the lowest. -/
def bits : Nat → Nat → List Bool
  | 0, _ => []
  | width + 1, n => n.testBit width :: bits width n

/-- The bits of the values of a row, all of one width. -/
def rowBits {α : Type} (width : Nat) (value : α → Nat) (row : List α) : List Bool :=
  row.flatMap fun a => bits width (value a)

variable {α : Type} {width : Nat} {value : α → Nat}

@[simp] theorem length_bits (width n : Nat) : (bits width n).length = width := by
  induction width with
  | zero => rfl
  | succ width ih => simp [bits, ih]

/-- The higher bits are those of the quotient. -/
theorem bits_add (high low n : Nat) :
    bits (high + low) n = bits high (n / 2 ^ low) ++ bits low n := by
  induction high with
  | zero => simp [bits]
  | succ high ih =>
    rw [Nat.add_right_comm, bits, bits, ih, Nat.testBit_div_two_pow, List.cons_append]

theorem bits_mod (width n : Nat) : bits width (n % 2 ^ width) = bits width n := by
  have hlow : ∀ k ≤ width, bits k (n % 2 ^ width) = bits k n := by
    intro k hk
    induction k with
    | zero => rfl
    | succ k ih => simp [bits, ih (by omega), Nat.testBit_mod_two_pow, Nat.lt_of_succ_le hk]
  exact hlow width (Nat.le_refl width)

/-- A number that is put behind another one moves its bits. -/
theorem bits_mul_add {low r : Nat} (high m : Nat) (hr : r < 2 ^ low) :
    bits (high + low) (m * 2 ^ low + r) = bits high m ++ bits low r := by
  have hpos : 0 < 2 ^ low := Nat.two_pow_pos low
  rw [bits_add, ← bits_mod low (m * 2 ^ low + r), Nat.mul_comm, Nat.mul_add_div hpos,
    Nat.div_eq_of_lt hr, Nat.add_zero, Nat.mul_add_mod, Nat.mod_eq_of_lt hr]

theorem bits_zero (width : Nat) : bits width 0 = List.replicate width false := by
  induction width with
  | zero => rfl
  | succ width ih => simp [bits, ih, List.replicate_succ]

/-- Numbers with the same lowest bits differ by a multiple of the next power of two. -/
theorem mod_eq_of_bits_eq {m n : Nat} (h : bits width m = bits width n) :
    m % 2 ^ width = n % 2 ^ width := by
  induction width with
  | zero => simp [Nat.mod_one]
  | succ width ih =>
    obtain ⟨hhigh, hlow⟩ := List.cons.inj h
    have hbit : m / 2 ^ width % 2 = n / 2 ^ width % 2 := by
      rw [← Nat.toNat_testBit, ← Nat.toNat_testBit, hhigh]
    rw [Nat.mod_pow_succ, Nat.mod_pow_succ, ih hlow, hbit]

theorem rowBits_cons (a : α) (row : List α) :
    rowBits width value (a :: row) = bits width (value a) ++ rowBits width value row := rfl

theorem rowBits_append (front back : List α) :
    rowBits width value (front ++ back) = rowBits width value front ++ rowBits width value back :=
  List.flatMap_append

@[simp] theorem length_rowBits (row : List α) :
    (rowBits width value row).length = width * row.length := by
  induction row with
  | nil => rfl
  | cons a row ih => rw [rowBits_cons, List.length_append, length_bits, ih, List.length_cons,
      Nat.mul_succ, Nat.add_comm]

/-- The bits tell the row, by induction on it, if the lowest bits of a value tell the element. -/
theorem eq_of_rowBits_eq {row row' : List α} (hlength : row.length = row'.length)
    (hvalue : ∀ a ∈ row, ∀ a' ∈ row', value a % 2 ^ width = value a' % 2 ^ width → a = a')
    (h : rowBits width value row = rowBits width value row') : row = row' := by
  induction row generalizing row' with
  | nil => exact (List.length_eq_zero_iff.mp hlength.symm).symm
  | cons a row ih =>
    obtain ⟨a', row', rfl⟩ := List.exists_cons_of_length_eq_add_one hlength.symm
    obtain ⟨hfirst, hrest⟩ := List.append_inj h (by simp)
    have ha := hvalue a List.mem_cons_self a' List.mem_cons_self (mod_eq_of_bits_eq hfirst)
    rw [ha, ih (Nat.succ.inj hlength) (fun b hb b' hb' =>
      hvalue b (List.mem_cons_of_mem a hb) b' (List.mem_cons_of_mem a' hb')) hrest]

/-! ## Symbols and bytes -/

/-- The symbols, in the order of their values. -/
def alphabet : List Char :=
  "ABCDEFGHIJKLMNOPQRSTUVWXYZabcdefghijklmnopqrstuvwxyz0123456789+/".toList

/-- Each symbol writes six bits. -/
def symbolBits (symbols : List Char) : List Bool := rowBits 6 alphabet.idxOf symbols

/-- Each byte has eight bits. -/
def byteBits (bytes : List UInt8) : List Bool := rowBits 8 UInt8.toNat bytes

theorem map_sextetChar : (List.range 64).map sextetChar = alphabet := by decide

theorem mem_alphabet_iff {c : Char} : c ∈ alphabet ↔ ∃ n, sextet? c = some n := by
  simp only [← map_sextetChar, List.mem_map, List.mem_range, sextet?_eq_some_iff]

theorem idxOf_sextetChar {n : Nat} (h : n < 64) : alphabet.idxOf (sextetChar n) = n := by
  have all : ∀ m ∈ List.range 64, alphabet.idxOf (sextetChar m) = m := by decide
  exact all n (List.mem_range.mpr h)

theorem symbolBits_append (front back : List Char) :
    symbolBits (front ++ back) = symbolBits front ++ symbolBits back := rowBits_append front back

theorem symbolBits_singleton {n : Nat} (h : n < 64) : symbolBits [sextetChar n] = bits 6 n := by
  rw [symbolBits, rowBits_cons, idxOf_sextetChar h]
  exact List.append_nil _

theorem eq_of_symbolBits_eq {symbols symbols' : List Char}
    (hlength : symbols.length = symbols'.length) (h : ∀ c ∈ symbols, c ∈ alphabet)
    (h' : ∀ c ∈ symbols', c ∈ alphabet) (hbits : symbolBits symbols = symbolBits symbols') :
    symbols = symbols' := by
  refine eq_of_rowBits_eq hlength (fun c hc d hd hmod => ?_) hbits
  have hlt : ∀ e ∈ alphabet, alphabet.idxOf e < 2 ^ 6 := fun e he =>
    List.idxOf_lt_length_iff.mpr he
  rw [Nat.mod_eq_of_lt (hlt c (h c hc)), Nat.mod_eq_of_lt (hlt d (h' d hd))] at hmod
  exact (List.idxOf_inj (h c hc)).mp hmod

theorem eq_of_byteBits_eq {bytes bytes' : List UInt8} (hlength : bytes.length = bytes'.length)
    (h : byteBits bytes = byteBits bytes') : bytes = bytes' := by
  refine eq_of_rowBits_eq hlength (fun b _ b' _ hmod => ?_) h
  rw [Nat.mod_eq_of_lt b.toNat_lt, Nat.mod_eq_of_lt b'.toNat_lt] at hmod
  exact UInt8.toNat_inj.mp hmod

/-! ## Padded texts -/

/-- Symbols of the alphabet, with up to two pads that fill the last group of four. -/
structure Padded (symbols : List Char) (pads : Nat) : Prop where
  mem_alphabet : ∀ c ∈ symbols, c ∈ alphabet
  pads_le : pads ≤ 2
  length_mod : (symbols.length + pads) % 4 = 0

/-- The bits of the symbols are those of the bytes, and zeros, two for each pad. -/
inductive Writes : List Char → List UInt8 → Prop
  | mk {symbols : List Char} {pads : Nat} {bytes : List UInt8} (h : Padded symbols pads)
      (hbits : symbolBits symbols = byteBits bytes ++ List.replicate (2 * pads) false) :
      Writes (symbols ++ List.replicate pads '=') bytes

/-- Symbols and pads are told apart. -/
theorem Padded.eq_of_append_eq {symbols symbols' : List Char} {pads pads' : Nat}
    (h : Padded symbols pads) (h' : Padded symbols' pads')
    (heq : symbols ++ List.replicate pads '=' = symbols' ++ List.replicate pads' '=') :
    symbols = symbols' ∧ pads = pads' := by
  have hrun : ∀ {cs : List Char} {n : Nat}, (∀ c ∈ cs, c ∈ alphabet) →
      (cs ++ List.replicate n '=').takeWhile (· != '=') = cs := by
    intro cs n hcs
    refine (longestRun_eq_iff.mpr ⟨fun c hc => ?_, ?_, rfl⟩).1
    · obtain ⟨v, hv⟩ := mem_alphabet_iff.mp (hcs c hc)
      exact bne_iff_ne.mpr (ne_pad_of_sextet? hv)
    · cases n with
      | zero => exact stops_nil _
      | succ n => exact stops_cons rfl
  have hsymbols : symbols = symbols' := by
    rw [← hrun h.mem_alphabet (n := pads), heq, hrun h'.mem_alphabet]
  refine ⟨hsymbols, ?_⟩
  simpa [hsymbols] using congrArg List.length heq

/-- A row of bytes is written in one way. The number of pads is that of the bytes that are missing
in the last group. -/
theorem Writes.unique {s s' : List Char} {bytes : List UInt8} (h : Writes s bytes)
    (h' : Writes s' bytes) : s = s' := by
  cases h with
  | @mk symbols pads _ h hbits =>
    cases h' with
    | @mk symbols' pads' _ h' hbits' =>
      have hlength := congrArg List.length hbits
      have hlength' := congrArg List.length hbits'
      simp only [symbolBits, byteBits, List.length_append, length_rowBits,
        List.length_replicate] at hlength hlength'
      have hmod := h.length_mod
      have hmod' := h'.length_mod
      have hle := h.pads_le
      have hle' := h'.pads_le
      obtain rfl : pads = pads' := by omega
      rw [eq_of_symbolBits_eq (by omega) h.mem_alphabet h'.mem_alphabet (hbits.trans hbits'.symm)]

/-! ## The text of a row of bytes -/

/-- The symbols of the lowest bits of a number, six bits for each. -/
def sextets : Nat → Nat → List Char
  | 0, _ => []
  | count + 1, n => sextets count (n / 64) ++ [sextetChar (n % 64)]

variable {count n : Nat}

@[simp] theorem length_sextets : (sextets count n).length = count := by
  induction count generalizing n with
  | zero => rfl
  | succ count ih => simp [sextets, ih]

theorem mem_alphabet_of_mem_sextets {c : Char} (hc : c ∈ sextets count n) : c ∈ alphabet := by
  induction count generalizing n with
  | zero => cases hc
  | succ count ih =>
    rcases List.mem_append.mp hc with hc | hc
    · exact ih hc
    · rw [List.mem_singleton.mp hc]
      exact mem_alphabet_iff.mpr ⟨n % 64, sextet?_sextetChar (Nat.mod_lt n (by decide))⟩

theorem symbolBits_sextets : symbolBits (sextets count n) = bits (6 * count) n := by
  induction count generalizing n with
  | zero => rfl
  | succ count ih =>
    rw [sextets, symbolBits_append, ih, symbolBits_singleton (Nat.mod_lt n (by decide)),
      show 64 = 2 ^ 6 from rfl, bits_mod, Nat.mul_succ, bits_add]

/-- Two symbols write a byte and four zeros. -/
theorem writes_one (a : UInt8) : Writes (encode [a]) [a] := by
  have ha := a.toNat_lt
  have htext : encode [a] = sextets 2 (a.toNat * 2 ^ 4 + 0) ++ List.replicate 2 '=' := by
    simp only [encode, sextets]
    rw [Nat.mod_eq_of_lt (show (a.toNat * 2 ^ 4 + 0) / 64 < 64 by omega)]
    rfl
  rw [htext]
  refine .mk ⟨fun c hc => mem_alphabet_of_mem_sextets hc, by decide, by simp⟩ ?_
  rw [symbolBits_sextets, show 6 * 2 = 8 + 4 from rfl, bits_mul_add 8 _ (by decide), bits_zero]
  rfl

/-- Three symbols write two bytes and two zeros. -/
theorem writes_two (a b : UInt8) : Writes (encode [a, b]) [a, b] := by
  have ha := a.toNat_lt
  have hb := b.toNat_lt
  have htext : encode [a, b] =
      sextets 3 ((a.toNat * 2 ^ 8 + b.toNat) * 2 ^ 2 + 0) ++ List.replicate 1 '=' := by
    simp only [encode, sextets, Nat.div_div_eq_div_mul]
    rw [Nat.mod_eq_of_lt (show ((a.toNat * 2 ^ 8 + b.toNat) * 2 ^ 2 + 0) / (64 * 64) < 64 by omega)]
    rfl
  rw [htext]
  refine .mk ⟨fun c hc => mem_alphabet_of_mem_sextets hc, by decide, by simp⟩ ?_
  rw [symbolBits_sextets, show 6 * 3 = 8 + 8 + 2 from rfl, bits_mul_add _ _ (by decide),
    bits_mul_add _ _ hb, bits_zero]
  rfl

/-- Four symbols write three bytes. -/
theorem writes_cons (a b c : UInt8) {s : List Char} {bytes : List UInt8} (h : Writes s bytes) :
    Writes (encode [a, b, c] ++ s) (a :: b :: c :: bytes) := by
  have ha := a.toNat_lt
  have hb := b.toNat_lt
  have hc := c.toNat_lt
  have htext : encode [a, b, c] =
      sextets 4 ((a.toNat * 2 ^ 8 + b.toNat) * 2 ^ 8 + c.toNat) := by
    simp only [encode, sextets, Nat.div_div_eq_div_mul]
    rw [Nat.mod_eq_of_lt
      (show ((a.toNat * 2 ^ 8 + b.toNat) * 2 ^ 8 + c.toNat) / (64 * 64 * 64) < 64 by omega)]
    rfl
  obtain ⟨hpadded, hbits⟩ := h
  rw [htext, ← List.append_assoc]
  refine .mk ⟨?_, hpadded.pads_le, ?_⟩ ?_
  · rintro d hd
    exact (List.mem_append.mp hd).elim mem_alphabet_of_mem_sextets (hpadded.mem_alphabet d)
  · have := hpadded.length_mod
    simp only [List.length_append, length_sextets]
    omega
  · rw [symbolBits_append, symbolBits_sextets, hbits, show 6 * 4 = 8 + 8 + 8 from rfl,
      bits_mul_add _ _ hc, bits_mul_add _ _ hb]
    simp only [byteBits, rowBits_cons, List.append_assoc]

/-- The text of a row of bytes writes them, by induction on the groups of three. -/
theorem writes_encode (bytes : List UInt8) : Writes (encode bytes) bytes := by
  match bytes with
  | [] => exact @Writes.mk [] 0 [] ⟨by simp, by decide, by simp⟩ rfl
  | [a] => exact writes_one a
  | [a, b] => exact writes_two a b
  | a :: b :: c :: rest =>
    rw [encode_cons]
    exact writes_cons a b c (writes_encode rest)

/-- It is the only text that does. -/
theorem writes_iff {s : List Char} {bytes : List UInt8} : Writes s bytes ↔ s = encode bytes :=
  ⟨fun h => h.unique (writes_encode bytes), fun h => h ▸ writes_encode bytes⟩

/-! ## Rules -/

/-- The rules of the standard alphabet with padding. -/
structure LawfulDecoder (decode : Decoder) : Prop where
  /-- Nothing is read but symbols and the pads that are due at the end. -/
  padded {s : List Char} {bytes : List UInt8} (h : decode s = some bytes) :
    ∃ symbols pads, Padded symbols pads ∧ s = symbols ++ List.replicate pads '='
  /-- These are read if the bits that are left over, two for each pad, are zero. -/
  reads {symbols : List Char} {pads : Nat} {front : List Bool} (h : Padded symbols pads)
    (hbits : symbolBits symbols = front ++ List.replicate (2 * pads) false) :
    ∃ bytes, decode (symbols ++ List.replicate pads '=') = some bytes
  /-- Then the bits of the symbols are those of the bytes, and these zeros. -/
  bits_eq {symbols : List Char} {pads : Nat} {bytes : List UInt8} (h : Padded symbols pads)
    (hread : decode (symbols ++ List.replicate pads '=') = some bytes) :
    symbolBits symbols = byteBits bytes ++ List.replicate (2 * pads) false

/-- A decoder that keeps to the rules reads a row of bytes from its text and from no other. -/
theorem LawfulDecoder.eq_some_iff {decode : Decoder} (h : LawfulDecoder decode) {s : List Char}
    {bytes : List UInt8} : decode s = some bytes ↔ s = encode bytes := by
  rw [← writes_iff]
  constructor
  · intro hread
    obtain ⟨symbols, pads, hpadded, rfl⟩ := h.padded hread
    exact .mk hpadded (h.bits_eq hpadded hread)
  · rintro ⟨hpadded, hbits⟩
    obtain ⟨bytes', hread⟩ := h.reads hpadded hbits
    have heq := List.append_cancel_right ((h.bits_eq hpadded hread).symm.trans hbits)
    have hlength := congrArg List.length heq
    simp only [byteBits, length_rowBits] at hlength
    rw [hread, eq_of_byteBits_eq (by omega) heq]

/-- The bits of the last symbol that the pads leave over are zero. -/
theorem mod_eq_zero_of_symbolBits {symbols : List Char} {pads n : Nat} {c : Char}
    {front : List Bool} (hpads : pads ≤ 2) (hlast : symbols.getLast? = some c)
    (hc : sextet? c = some n)
    (hbits : symbolBits symbols = front ++ List.replicate (2 * pads) false) :
    n % 4 ^ pads = 0 := by
  obtain ⟨body, rfl⟩ := List.getLast?_eq_some_iff.mp hlast
  obtain ⟨hn, rfl⟩ := sextet?_eq_some_iff.mp hc
  have hlow : bits 6 n = bits (6 - 2 * pads) (n / 2 ^ (2 * pads)) ++ bits (2 * pads) n := by
    rw [← bits_add, Nat.sub_add_cancel (by omega)]
  rw [symbolBits_append, symbolBits_singleton hn, hlow, ← List.append_assoc] at hbits
  have hzero : bits (2 * pads) n = bits (2 * pads) 0 := by
    rw [bits_zero]
    exact (List.append_inj' hbits (by simp)).2
  have hmod := mod_eq_of_bits_eq hzero
  rwa [Nat.zero_mod, Nat.pow_mul] at hmod

/-- The decoder that takes four characters at a time keeps to the rules. -/
theorem lawful_decode? : LawfulDecoder decode? where
  padded h := by
    obtain ⟨hpadded, -⟩ := writes_iff.mpr (decode?_eq_some_iff.mp h)
    exact ⟨_, _, hpadded, rfl⟩
  reads h hbits := by
    refine exists_decode?_iff_canonical.mpr (.mk h.pads_le h.length_mod ?_ ?_)
    · exact fun c hc => mem_alphabet_iff.mp (h.mem_alphabet c hc)
    · exact fun c n hlast hc => mod_eq_zero_of_symbolBits h.pads_le hlast hc hbits
  bits_eq {symbols pads bytes} h hread := by
    generalize hs : symbols ++ List.replicate pads '=' = s at hread
    obtain ⟨h', hbits⟩ := writes_iff.mpr (decode?_eq_some_iff.mp hread)
    obtain ⟨rfl, rfl⟩ := h.eq_of_append_eq h' hs
    exact hbits

end Codec.Base64

/-! ## Tokens -/

namespace Cursor

open Codec

/-- A string is read as bytes exactly if it is their text in base 64, and it is read at all exactly
if it is canonical: other characters, pads that are missing, too many or in other places, and bits
left over that are not zero are all refused. This holds of every decoder that keeps to the rules. -/
theorem bytes?_eq_some_iff {decode : Base64.Decoder} (hdecode : Base64.LawfulDecoder decode)
    {c : Cursor} {text : String} (hc : c.string? = some text) :
    (∀ bytes, c.bytes? decode = some bytes ↔ text = String.ofList (Base64.encode bytes)) ∧
      ((∃ bytes, c.bytes? decode = some bytes) ↔ Base64.Canonical text.toList) := by
  have hread : ∀ bytes, c.bytes? decode = some bytes ↔ text.toList = Base64.encode bytes := by
    intro bytes
    rw [bytes?, hc, Option.bind_some, hdecode.eq_some_iff]
  refine ⟨fun bytes => ?_, ?_⟩
  · rw [hread]
    constructor
    · intro h
      rw [← h, String.ofList_toList]
    · rintro rfl
      exact String.toList_ofList
  · simp only [hread, ← Base64.decode?_eq_some_iff, Base64.exists_decode?_iff_canonical]

/-- A string that writes five bytes. -/
def hello : Cursor := ⟨[⟨.string "aGVsbG8=", {}⟩], []⟩

theorem bytes?_eq_some_iff_hello :
    Base64.LawfulDecoder Base64.decode? ∧ hello.string? = some "aGVsbG8=" ∧
      hello.bytes? Base64.decode? = some [104, 101, 108, 108, 111] ∧
      Base64.Canonical "aGVsbG8=".toList := by
  obtain ⟨hiff, hcanonical⟩ := bytes?_eq_some_iff Base64.lawful_decode? (c := hello) rfl
  have hread := (hiff [104, 101, 108, 108, 111]).mpr (by decide +kernel)
  exact ⟨Base64.lawful_decode?, rfl, hread, hcanonical.mp ⟨_, hread⟩⟩

end Cursor

end JsonReader
