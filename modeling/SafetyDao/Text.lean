import Mathlib.Data.List.Infix
import Mathlib.Data.List.TakeWhile
import Mathlib.Tactic.Common
import Mathlib.Tactic.IntervalCases

/-!
# Texts, prefixes and hexadecimal

A text is the list of its characters. This module has the few operations on texts
that URL routing and delimiter-separated formats are made of: removing a prefix,
splitting at the first occurrences of a separator, and writing bytes in
hexadecimal, which reads back and contains no other characters.
-/
namespace SafetyDao

abbrev Text : Type := List Char

namespace Text

instance lawfulBEq : LawfulBEq Text := inferInstance

/-- What follows a prefix, if the text starts with it. -/
def stripPrefix (p t : Text) : Option Text := if p <+: t then some (t.drop p.length) else none

theorem stripPrefix_append (p t : Text) : stripPrefix p (p ++ t) = some t := by
  simp [stripPrefix]

theorem stripPrefix_eq_some {p t r : Text} : stripPrefix p t = some r ↔ t = p ++ r := by
  constructor
  · intro h
    unfold stripPrefix at h
    split at h
    · rename_i hp
      rw [← Option.some.inj h]
      exact (List.prefix_iff_eq_append.mp hp).symm
    · cases h
  · rintro rfl
    exact stripPrefix_append p r

theorem stripPrefix_eq_none {p t : Text} : stripPrefix p t = none ↔ ¬ p <+: t := by
  simp [stripPrefix]

/-- A text does not start with two texts of which neither starts with the other. -/
theorem not_prefix_of_prefix {p q t : Text} (hp : p <+: t) (hpq : ¬ p <+: q) (hqp : ¬ q <+: p) :
    ¬ q <+: t :=
  fun hq => (List.prefix_or_prefix_of_prefix hp hq).elim hpq hqp

/-- The bytes of a text. -/
def utf8 (t : Text) : List UInt8 := t.flatMap String.utf8EncodeChar

/-- The text that bytes encode, if they do. -/
def ofUtf8 (bytes : List UInt8) : Option Text :=
  bytes.toByteArray.utf8Decode?.map Array.toList

theorem ofUtf8_utf8 (t : Text) : ofUtf8 (utf8 t) = some t := by
  have hdecode : (utf8 t).toByteArray.utf8Decode? = some t.toArray := List.utf8Decode?_utf8Encode
  rw [ofUtf8, hdecode, Option.map_some, List.toList_toArray]

theorem utf8_injective : Function.Injective utf8 := by
  intro t u h
  refine Option.some.inj ?_
  rw [← ofUtf8_utf8 t, h, ofUtf8_utf8]

/-- The text whose characters are the given bytes. -/
def latin1 (bytes : List UInt8) : Text := bytes.map fun b => Char.ofNat b.toNat

theorem utf8_of_ascii {t : Text} (h : ∀ c ∈ t, c.toNat < 128) :
    utf8 t = t.map fun c => UInt8.ofNat c.toNat := by
  induction t with
  | nil => rfl
  | cons c t ih =>
    have hc : c.val.toNat ≤ 127 := Nat.le_of_lt_succ (h c List.mem_cons_self)
    have hchar : String.utf8EncodeChar c = [UInt8.ofNat c.toNat] := if_pos hc
    have ht : t.flatMap String.utf8EncodeChar = t.map fun c => UInt8.ofNat c.toNat :=
      ih fun d hd => h d (List.mem_cons_of_mem _ hd)
    rw [utf8, List.flatMap_cons, hchar, ht]
    rfl

/-- Characters below 256 are bytes, and back. -/
theorem latin1_map {t : Text} (h : ∀ c ∈ t, c.toNat < 256) :
    latin1 (t.map fun c => UInt8.ofNat c.toNat) = t := by
  have hback : ∀ c ∈ t, Char.ofNat (UInt8.ofNat c.toNat).toNat = c := by
    intro c hc
    rw [UInt8.toNat_ofNat_of_lt' (h c hc), Char.ofNat_toNat]
  rw [latin1, List.map_map]
  exact (List.map_congr_left hback).trans t.map_id

/-- Of an ASCII text, the bytes are the characters. -/
theorem latin1_utf8 {t : Text} (h : ∀ c ∈ t, c.toNat < 128) : latin1 (utf8 t) = t := by
  rw [utf8_of_ascii h]
  exact latin1_map fun c hc => (h c hc).trans (by decide)

theorem toNat_ofNat_of_lt {n : ℕ} (h : n < 128) : (Char.ofNat n).toNat = n := by
  have hvalid : n.isValidChar := .inl (h.trans (by decide))
  rw [Char.ofNat, dif_pos hvalid]
  rfl

/-- Of bytes that are ASCII, the text has just these. -/
theorem utf8_latin1 {bytes : List UInt8} (h : ∀ b ∈ bytes, b.toNat < 128) :
    utf8 (latin1 bytes) = bytes := by
  have hchar : ∀ b ∈ bytes, (Char.ofNat b.toNat).toNat = b.toNat :=
    fun b hb => toNat_ofNat_of_lt (h b hb)
  rw [utf8_of_ascii, latin1, List.map_map]
  · refine (List.map_congr_left fun b hb => ?_).trans bytes.map_id
    rw [Function.comp_apply, hchar b hb, UInt8.ofNat_toNat, id]
  · intro c hc
    obtain ⟨b, hb, rfl⟩ := List.mem_map.mp hc
    rw [hchar b hb]
    exact h b hb

/-- Split at a separator into at most `n` pieces; the last one keeps what is left. -/
def splitN (sep : Char) : ℕ → Text → List Text
  | 0, _ => []
  | 1, t => [t]
  | n + 2, t =>
    match t.dropWhile (· ≠ sep) with
    | [] => [t]
    | _ :: rest => t.takeWhile (· ≠ sep) :: splitN sep (n + 1) rest

/-- The first piece of a text in which the separator follows it. -/
theorem splitN_append {sep : Char} {p : Text} (hp : sep ∉ p) (n : ℕ) (t : Text) :
    splitN sep (n + 2) (p ++ sep :: t) = p :: splitN sep (n + 1) t := by
  have hkeep : ∀ c ∈ p, decide (c ≠ sep) = true := by
    intro c hc
    simpa using fun h : c = sep => hp (h ▸ hc)
  have hdrop : (p ++ sep :: t).dropWhile (· ≠ sep) = sep :: t := by
    rw [List.dropWhile_append_of_pos hkeep]
    simp
  have htake : (p ++ sep :: t).takeWhile (· ≠ sep) = p := by
    rw [List.takeWhile_append_of_pos hkeep]
    simp
  rw [splitN, hdrop, htake]

end Text

namespace Hex

def digit (n : ℕ) : Char := if n < 10 then Char.ofNat (48 + n) else Char.ofNat (87 + n)

/-- The value of a hexadecimal digit of either case. -/
def value (c : Char) : Option ℕ :=
  let n := c.toNat
  if 48 ≤ n ∧ n ≤ 57 then some (n - 48)
  else if 97 ≤ n ∧ n ≤ 102 then some (n - 87)
  else if 65 ≤ n ∧ n ≤ 70 then some (n - 55)
  else none

def encodeByte (b : UInt8) : Text := [digit (b.toNat / 16), digit (b.toNat % 16)]

def encode (bytes : List UInt8) : Text := bytes.flatMap encodeByte

/-- Two digits make a byte; a digit left over or any other character is an error. -/
def decode : Text → Option (List UInt8)
  | [] => some []
  | [_] => none
  | hi :: lo :: rest => do
    let h ← value hi
    let l ← value lo
    let bytes ← decode rest
    return UInt8.ofNat (16 * h + l) :: bytes

theorem value_digit {n : ℕ} (hn : n < 16) : value (digit n) = some n := by
  interval_cases n <;> rfl

theorem value_isSome_digit {n : ℕ} (hn : n < 16) : (value (digit n)).isSome := by
  rw [value_digit hn]
  rfl

/-- Every character of an encoding is a digit. -/
theorem isSome_value_of_mem_encode {bytes : List UInt8} {c : Char} (h : c ∈ encode bytes) :
    (value c).isSome := by
  obtain ⟨b, -, hc⟩ := List.mem_flatMap.mp h
  have hb := b.toNat_lt
  simp only [encodeByte, List.mem_cons, List.not_mem_nil, or_false] at hc
  rcases hc with rfl | rfl
  · exact value_isSome_digit (by omega)
  · exact value_isSome_digit (by omega)

theorem not_mem_encode {c : Char} (hc : value c = none) (bytes : List UInt8) :
    c ∉ encode bytes := by
  intro h
  have hsome := isSome_value_of_mem_encode h
  rw [hc] at hsome
  cases hsome

theorem decode_encode (bytes : List UInt8) : decode (encode bytes) = some bytes := by
  induction bytes with
  | nil => rfl
  | cons b bytes ih =>
    have hb := b.toNat_lt
    have hbyte : UInt8.ofNat (16 * (b.toNat / 16) + b.toNat % 16) = b := by
      rw [Nat.div_add_mod]
      exact UInt8.ofNat_toNat
    have hcons : encode (b :: bytes) =
        digit (b.toNat / 16) :: digit (b.toNat % 16) :: encode bytes := rfl
    rw [hcons, decode, value_digit (by omega), value_digit (by omega), ih]
    exact congrArg (fun b => some (b :: bytes)) hbyte

theorem encode_injective : Function.Injective encode := by
  intro bytes others h
  refine Option.some.inj ?_
  rw [← decode_encode bytes, h, decode_encode]

/-- A text with a character that is no digit does not decode. -/
theorem decode_eq_none {t : Text} (c : Char) (hmem : c ∈ t) (hc : value c = none) :
    decode t = none := by
  induction t using decode.induct with
  | case1 => cases hmem
  | case2 => rfl
  | case3 hi lo rest ih =>
    simp only [List.mem_cons] at hmem
    rw [decode]
    rcases hmem with rfl | rfl | hmem
    · simp [hc]
    · cases value hi <;> simp [hc]
    · rw [ih hmem]
      cases value hi <;> cases value lo <;> rfl

end Hex

end SafetyDao
