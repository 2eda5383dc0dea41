import JsonReader.Codec.Base64
import Mathlib.Tactic.Ring

/-!
# The one text of a row of bytes

A row of bytes is read from its text in base 64 and from no other text. The reader takes four
characters at a time, and each group is read as the bytes that are written as this group; the last
group may have pads, and then the bits that it leaves over are zero.

## Main definitions

* `Canonical` holds of the texts that are read.

## Main statements

* `oneByte?_eq_some_iff`, `twoBytes?_eq_some_iff`, `threeBytes?_eq_some_iff`: one group.
* `exists_oneByte?_iff`, `exists_twoBytes?_iff`, `exists_threeBytes?_iff`: which groups are read.
* `decode?_eq_some_iff`: a text is read as the bytes whose text it is.
* `exists_decode?_iff_canonical`: which texts are read.
-/

namespace JsonReader

namespace Codec.Base64

variable {a b c d : Char} {n : Nat} {s rest : List Char} {bytes : List UInt8}

/-! ## Characters -/

theorem toNat_lt_of_sextet? (h : sextet? c = some n) : c.toNat < 128 := by
  have hZ : ('Z' : Char).toNat = 90 := rfl
  have hz : ('z' : Char).toNat = 122 := rfl
  have h9 : ('9' : Char).toNat = 57 := rfl
  refine Nat.lt_of_not_le fun hc => ?_
  have hplus : c ≠ '+' := by
    rintro rfl
    exact absurd hc (by decide)
  have hslash : c ≠ '/' := by
    rintro rfl
    exact absurd hc (by decide)
  simp only [sextet?, Char.le_def, UInt32.le_iff_toNat_le, Char.toNat_val] at h
  rw [if_neg (by omega), if_neg (by omega), if_neg (by omega), if_neg hplus, if_neg hslash] at h
  cases h

/-- The characters of the alphabet are those that are written for the values below 64. -/
theorem sextet?_eq_some_iff : sextet? c = some n ↔ n < 64 ∧ sextetChar n = c := by
  constructor
  · intro h
    have ascii : ∀ k < 128, ∀ m ∈ sextet? (Char.ofNat k),
        m < 64 ∧ sextetChar m = Char.ofNat k := by decide
    have hc := ascii c.toNat (toNat_lt_of_sextet? h) n
    rw [Char.ofNat_toNat] at hc
    exact hc h
  · rintro ⟨hn, rfl⟩
    exact sextet?_sextetChar hn

theorem ne_pad_of_sextet? (h : sextet? c = some n) : c ≠ '=' := by
  have hpad : sextet? '=' = none := by decide
  rintro rfl
  cases hpad.symm.trans h

theorem sextetChar_ne_pad (hn : n < 64) : sextetChar n ≠ '=' :=
  ne_pad_of_sextet? (sextet?_sextetChar hn)

/-! ## Groups -/

theorem toNat_byte (h : n < 256) : (UInt8.ofNat n).toNat = n := UInt8.toNat_ofNat_of_lt' h

/-- The one byte is the higher eight bits of twelve, and the lower ones are zero. -/
theorem oneByte?_eq_some_iff :
    oneByte? a b = some bytes ↔ ∃ x, bytes = [x] ∧ encode [x] = [a, b, '=', '='] := by
  simp only [oneByte?, Option.bind_eq_bind, Option.bind_eq_some_iff, sextet?_eq_some_iff]
  constructor
  · rintro ⟨p, ⟨hp, rfl⟩, q, ⟨hq, rfl⟩, h⟩
    obtain ⟨hunused, rfl⟩ : (p * 64 + q) % 16 = 0 ∧
        [UInt8.ofNat ((p * 64 + q) / 16)] = bytes := by simpa using h
    refine ⟨_, rfl, ?_⟩
    rw [encode, toNat_byte (by omega)]
    simp only [show (p * 64 + q) / 16 * 16 / 64 = p by omega,
      show (p * 64 + q) / 16 * 16 % 64 = q by omega]
  · rintro ⟨x, rfl, h⟩
    have hx := x.toNat_lt
    simp only [encode, List.cons.injEq, and_true] at h
    refine ⟨_, ⟨by omega, h.1⟩, _, ⟨by omega, h.2⟩, ?_⟩
    rw [show x.toNat * 16 / 64 * 64 + x.toNat * 16 % 64 = x.toNat * 16 by omega,
      if_pos (by omega), Nat.mul_div_cancel _ (by decide), UInt8.ofNat_toNat]

/-- The two bytes are the higher sixteen bits of eighteen, and the lower ones are zero. -/
theorem twoBytes?_eq_some_iff :
    twoBytes? a b c = some bytes ↔
      ∃ x y, bytes = [x, y] ∧ encode [x, y] = [a, b, c, '='] := by
  simp only [twoBytes?, Option.bind_eq_bind, Option.bind_eq_some_iff, sextet?_eq_some_iff]
  constructor
  · rintro ⟨p, ⟨hp, rfl⟩, q, ⟨hq, rfl⟩, r, ⟨hr, rfl⟩, h⟩
    obtain ⟨hunused, rfl⟩ : ((p * 64 + q) * 64 + r) % 4 = 0 ∧
        [UInt8.ofNat (((p * 64 + q) * 64 + r) / 4 / 256),
          UInt8.ofNat (((p * 64 + q) * 64 + r) / 4 % 256)] = bytes := by simpa using h
    refine ⟨_, _, rfl, ?_⟩
    rw [encode, toNat_byte (by omega), toNat_byte (by omega)]
    have hbits : (((p * 64 + q) * 64 + r) / 4 / 256 * 256 + ((p * 64 + q) * 64 + r) / 4 % 256) * 4 =
        (p * 64 + q) * 64 + r := by omega
    simp only [hbits, show ((p * 64 + q) * 64 + r) / 4096 = p by omega,
      show ((p * 64 + q) * 64 + r) / 64 % 64 = q by omega,
      show ((p * 64 + q) * 64 + r) % 64 = r by omega]
  · rintro ⟨x, y, rfl, h⟩
    have hx := x.toNat_lt
    have hy := y.toNat_lt
    simp only [encode, List.cons.injEq, and_true] at h
    refine ⟨_, ⟨by omega, h.1⟩, _, ⟨by omega, h.2.1⟩, _, ⟨by omega, h.2.2⟩, ?_⟩
    generalize hbits : (x.toNat * 256 + y.toNat) * 4 = k
    rw [show (k / 4096 * 64 + k / 64 % 64) * 64 + k % 64 = k by omega, if_pos (by omega),
      show k / 4 / 256 = x.toNat by omega, show k / 4 % 256 = y.toNat by omega, UInt8.ofNat_toNat,
      UInt8.ofNat_toNat]

/-- The three bytes are the twenty-four bits, from the highest to the lowest. -/
theorem threeBytes?_eq_some_iff :
    threeBytes? a b c d = some bytes ↔
      ∃ x y z, bytes = [x, y, z] ∧ encode [x, y, z] = [a, b, c, d] := by
  simp only [threeBytes?, Option.bind_eq_bind, Option.bind_eq_some_iff, sextet?_eq_some_iff]
  constructor
  · rintro ⟨p, ⟨hp, rfl⟩, q, ⟨hq, rfl⟩, r, ⟨hr, rfl⟩, t, ⟨ht, rfl⟩, h⟩
    obtain rfl := Option.some.inj h
    refine ⟨_, _, _, rfl, ?_⟩
    generalize hbits : ((p * 64 + q) * 64 + r) * 64 + t = k
    rw [encode, toNat_byte (by omega), toNat_byte (by omega),
      toNat_byte (by omega), encode]
    simp only [show (k / 65536 * 256 + k / 256 % 256) * 256 + k % 256 = k by omega,
      show k / 262144 = p by omega, show k / 4096 % 64 = q by omega,
      show k / 64 % 64 = r by omega, show k % 64 = t by omega]
  · rintro ⟨x, y, z, rfl, h⟩
    have hx := x.toNat_lt
    have hy := y.toNat_lt
    have hz := z.toNat_lt
    simp only [encode, List.cons.injEq, and_true] at h
    refine ⟨_, ⟨by omega, h.1⟩, _, ⟨by omega, h.2.1⟩, _, ⟨by omega, h.2.2.1⟩, _,
      ⟨by omega, h.2.2.2⟩, ?_⟩
    generalize hbits : (x.toNat * 256 + y.toNat) * 256 + z.toNat = k
    rw [show ((k / 262144 * 64 + k / 4096 % 64) * 64 + k / 64 % 64) * 64 + k % 64 = k by omega,
      show k / 65536 = x.toNat by omega, show k / 256 % 256 = y.toNat by omega,
      show k % 256 = z.toNat by omega, UInt8.ofNat_toNat, UInt8.ofNat_toNat, UInt8.ofNat_toNat]

theorem exists_oneByte?_iff :
    (∃ bytes, oneByte? a b = some bytes) ↔
      ∃ p q, sextet? a = some p ∧ sextet? b = some q ∧ q % 16 = 0 := by
  simp only [oneByte?, Option.bind_eq_bind, Option.bind_eq_some_iff]
  constructor
  · rintro ⟨bytes, p, hp, q, hq, h⟩
    have hunused : (p * 64 + q) % 16 = 0 := by_contra fun hne => by simp [hne] at h
    exact ⟨p, q, hp, hq, by omega⟩
  · rintro ⟨p, q, hp, hq, hunused⟩
    exact ⟨_, p, hp, q, hq, if_pos (by omega)⟩

theorem exists_twoBytes?_iff :
    (∃ bytes, twoBytes? a b c = some bytes) ↔
      ∃ p q r, sextet? a = some p ∧ sextet? b = some q ∧ sextet? c = some r ∧ r % 4 = 0 := by
  simp only [twoBytes?, Option.bind_eq_bind, Option.bind_eq_some_iff]
  constructor
  · rintro ⟨bytes, p, hp, q, hq, r, hr, h⟩
    have hunused : ((p * 64 + q) * 64 + r) % 4 = 0 := by_contra fun hne => by simp [hne] at h
    exact ⟨p, q, r, hp, hq, hr, by omega⟩
  · rintro ⟨p, q, r, hp, hq, hr, hunused⟩
    exact ⟨_, p, hp, q, hq, r, hr, if_pos (by omega)⟩

theorem exists_threeBytes?_iff :
    (∃ bytes, threeBytes? a b c d = some bytes) ↔
      ∀ e ∈ [a, b, c, d], ∃ n, sextet? e = some n := by
  simp only [threeBytes?, Option.bind_eq_bind, Option.bind_eq_some_iff]
  constructor
  · rintro ⟨bytes, p, hp, q, hq, r, hr, t, ht, -⟩
    simp [hp, hq, hr, ht]
  · intro h
    obtain ⟨p, hp⟩ := h a (by simp)
    obtain ⟨q, hq⟩ := h b (by simp)
    obtain ⟨r, hr⟩ := h c (by simp)
    obtain ⟨t, ht⟩ := h d (by simp)
    exact ⟨_, p, hp, q, hq, r, hr, t, ht, rfl⟩

/-! ## Texts -/

/-- A group that ends in no pad is read by itself, and then what stands behind it. -/
theorem decode?_cons (hd : d ≠ '=') :
    decode? (a :: b :: c :: d :: rest) =
      (threeBytes? a b c d).bind fun group => (decode? rest).map (group ++ ·) := by
  rw [decode?]
  · cases threeBytes? a b c d <;> cases decode? rest <;> rfl
  · exact fun _ h => absurd h hd
  · exact fun h => absurd h hd

theorem encode_cons (x y z : UInt8) (bytes : List UInt8) :
    encode (x :: y :: z :: bytes) = encode [x, y, z] ++ encode bytes := by
  simp [encode]

theorem decode?_two (hc : c ≠ '=') : decode? [a, b, c, '='] = twoBytes? a b c := by
  rw [decode?]
  exact hc

/-- The bytes are read back from their text, by induction on the groups of three. -/
theorem decode?_encode (bytes : List UInt8) : decode? (encode bytes) = some bytes := by
  match bytes with
  | [] => rfl
  | [x] => exact oneByte?_eq_some_iff.mpr ⟨x, rfl, rfl⟩
  | [x, y] =>
    rw [encode, decode?_two (sextetChar_ne_pad (Nat.mod_lt _ (by decide)))]
    exact twoBytes?_eq_some_iff.mpr ⟨x, y, rfl, rfl⟩
  | x :: y :: z :: rest =>
    rw [encode, decode?_cons (sextetChar_ne_pad (Nat.mod_lt _ (by decide))),
      threeBytes?_eq_some_iff.mpr ⟨x, y, z, rfl, rfl⟩, decode?_encode rest]
    rfl

/-- A text that is read is the text of the bytes, by induction on the groups of four. -/
theorem eq_encode_of_decode? (h : decode? s = some bytes) : s = encode bytes := by
  fun_induction decode? s generalizing bytes with
  | case1 =>
    cases h
    rfl
  | case2 a b =>
    obtain ⟨x, rfl, hgroup⟩ := oneByte?_eq_some_iff.mp h
    exact hgroup.symm
  | case3 a b c =>
    obtain ⟨x, y, rfl, hgroup⟩ := twoBytes?_eq_some_iff.mp h
    exact hgroup.symm
  | case4 a b c d rest _ _ ih =>
    obtain ⟨group, hread, h⟩ := Option.bind_eq_some_iff.mp h
    obtain ⟨tail, htail, h⟩ := Option.bind_eq_some_iff.mp h
    obtain ⟨x, y, z, rfl, hgroup⟩ := threeBytes?_eq_some_iff.mp hread
    obtain rfl := Option.some.inj h
    rw [ih htail]
    exact ((encode_cons x y z tail).trans (congrArg (· ++ _) hgroup)).symm
  | case5 => cases h

theorem decode?_eq_some_iff : decode? s = some bytes ↔ s = encode bytes :=
  ⟨eq_encode_of_decode?, fun h => h ▸ decode?_encode bytes⟩

/-! ## Canonical texts -/

/-- Characters of the alphabet, and up to two pads that fill the last group of four. The bits of the
last character that the pads leave over, two for each pad, are zero. -/
inductive Canonical : List Char → Prop
  | mk {body : List Char} {pads : Nat} (hpads : pads ≤ 2) (hlength : (body.length + pads) % 4 = 0)
      (hbody : ∀ c ∈ body, ∃ n, sextet? c = some n)
      (hlast : ∀ c n, body.getLast? = some c → sextet? c = some n → n % 4 ^ pads = 0) :
      Canonical (body ++ List.replicate pads '=')

theorem Canonical.cons (h : Canonical rest)
    (hgroup : ∀ e ∈ [a, b, c, d], ∃ n, sextet? e = some n) :
    Canonical (a :: b :: c :: d :: rest) := by
  cases h with
  | @mk body pads hpads hlength hbody hlast =>
    refine @Canonical.mk (a :: b :: c :: d :: body) pads hpads ?_ ?_ ?_
    · simp only [List.length_cons]
      omega
    · exact fun e he => (List.mem_append.mp (show e ∈ [a, b, c, d] ++ body from he)).elim
        (hgroup e) (hbody e)
    · cases body with
      | nil =>
        -- an empty rest has no pads, so no bit is left over
        obtain rfl : pads = 0 := by simp at hlength; omega
        exact fun e n _ _ => Nat.mod_one n
      | cons e body => simpa only [List.getLast?_cons_cons] using hlast

/-- By induction on the groups of four characters. -/
theorem canonical_of_decode? (h : decode? s = some bytes) : Canonical s := by
  fun_induction decode? s generalizing bytes with
  | case1 => exact @Canonical.mk [] 0 (by decide) (by decide) (by simp) (by simp)
  | case2 a b =>
    obtain ⟨p, q, hp, hq, hunused⟩ := exists_oneByte?_iff.mp ⟨_, h⟩
    refine @Canonical.mk [a, b] 2 (by decide) (by simp) (by simp [hp, hq]) fun c n hc hn => ?_
    obtain rfl : b = c := Option.some.inj hc
    obtain rfl : q = n := Option.some.inj (hq.symm.trans hn)
    exact hunused
  | case3 a b c =>
    obtain ⟨p, q, r, hp, hq, hr, hunused⟩ := exists_twoBytes?_iff.mp ⟨_, h⟩
    refine @Canonical.mk [a, b, c] 1 (by decide) (by simp) (by simp [hp, hq, hr])
      fun d n hd hn => ?_
    obtain rfl : c = d := Option.some.inj hd
    obtain rfl : r = n := Option.some.inj (hr.symm.trans hn)
    exact hunused
  | case4 a b c d rest _ _ ih =>
    obtain ⟨group, hread, h⟩ := Option.bind_eq_some_iff.mp h
    obtain ⟨tail, htail, -⟩ := Option.bind_eq_some_iff.mp h
    exact (ih htail).cons (exists_threeBytes?_iff.mp ⟨_, hread⟩)
  | case5 => cases h

/-- By induction on the groups of four characters. -/
theorem exists_decode?_of_body (body : List Char) {pads : Nat} (hpads : pads ≤ 2)
    (hlength : (body.length + pads) % 4 = 0) (hbody : ∀ c ∈ body, ∃ n, sextet? c = some n)
    (hlast : ∀ c n, body.getLast? = some c → sextet? c = some n → n % 4 ^ pads = 0) :
    ∃ bytes, decode? (body ++ List.replicate pads '=') = some bytes := by
  match body with
  | [] =>
    obtain rfl : pads = 0 := by simp at hlength; omega
    exact ⟨[], rfl⟩
  | [a] => simp at hlength; omega
  | [a, b] =>
    obtain rfl : pads = 2 := by simp at hlength; omega
    obtain ⟨p, hp⟩ := hbody a (by simp)
    obtain ⟨q, hq⟩ := hbody b (by simp)
    exact exists_oneByte?_iff.mpr ⟨p, q, hp, hq, hlast b q rfl hq⟩
  | [a, b, c] =>
    obtain rfl : pads = 1 := by simp at hlength; omega
    obtain ⟨p, hp⟩ := hbody a (by simp)
    obtain ⟨q, hq⟩ := hbody b (by simp)
    obtain ⟨r, hr⟩ := hbody c (by simp)
    have hread := exists_twoBytes?_iff.mpr ⟨p, q, r, hp, hq, hr, hlast c r rfl hr⟩
    rwa [← decode?_two (ne_pad_of_sextet? hr)] at hread
  | a :: b :: c :: d :: rest =>
    obtain ⟨n, hd⟩ := hbody d (by simp)
    obtain ⟨group, hread⟩ := exists_threeBytes?_iff.mpr fun e he =>
      hbody e (List.mem_append_left rest he)
    obtain ⟨tail, htail⟩ := exists_decode?_of_body rest hpads
      (by simp only [List.length_cons] at hlength; omega) (fun e he => hbody e (by simp [he]))
      (by
        cases rest with
        | nil => simp
        | cons e rest => simpa only [List.getLast?_cons_cons] using hlast)
    refine ⟨group ++ tail, ?_⟩
    simp only [List.cons_append]
    rw [decode?_cons (ne_pad_of_sextet? hd), hread, htail]
    rfl

/-- The texts that are read are the canonical ones. -/
theorem exists_decode?_iff_canonical : (∃ bytes, decode? s = some bytes) ↔ Canonical s := by
  constructor
  · rintro ⟨bytes, h⟩
    exact canonical_of_decode? h
  · rintro ⟨hpads, hlength, hbody, hlast⟩
    exact exists_decode?_of_body _ hpads hlength hbody hlast

end Codec.Base64

end JsonReader
