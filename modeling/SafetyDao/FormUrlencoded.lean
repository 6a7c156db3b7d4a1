import SafetyDao.Text

/-!
# Decoding of application/x-www-form-urlencoded

A body is a sequence of bytes: fields between ampersands, name and value around the first sign
of equality, a plus for a space and a percent sign with two hexadecimal digits for any byte.
A value that nobody encoded reads back as itself exactly if it has none of these, the sign of
equality apart.
-/
namespace SafetyDao

abbrev Bytes : Type := List UInt8

namespace FormUrlencoded

section Decoder

def plusToSpace (x : Bytes) : Bytes := x.map fun b => if b = 0x2b then 0x20 else b

def hexValue (b : UInt8) : Option ℕ := Hex.value (Char.ofNat b.toNat)

/-- The byte that a percent sign and two digits stand for. -/
def escaped (b h l : UInt8) : Option UInt8 :=
  if b = 0x25 then do
    let x ← hexValue h
    let y ← hexValue l
    return UInt8.ofNat (16 * x + y)
  else none

def percentDecode : Bytes → Bytes
  | b :: h :: l :: rest =>
    match escaped b h l with
    | some c => c :: percentDecode rest
    | none => b :: percentDecode (h :: l :: rest)
  | bytes => bytes

def decode (x : Bytes) : Bytes := percentDecode (plusToSpace x)

/-- Name and value; without a sign of equality the value is empty. -/
def field (x : Bytes) : Bytes × Bytes :=
  (decode (x.takeWhile (· ≠ 0x3d)), decode ((x.dropWhile (· ≠ 0x3d)).drop 1))

/-- Empty sequences between ampersands are no fields. -/
def parse (body : Bytes) : List (Bytes × Bytes) :=
  ((body.splitOn 0x26).filter (· ≠ [])).map field

end Decoder

section Escapes

/-- Somewhere a percent sign is followed by two digits. -/
def hasEscape : Bytes → Bool
  | b :: h :: l :: rest => (escaped b h l).isSome || hasEscape (h :: l :: rest)
  | _ => false

theorem percentDecode_of_hasEscape_eq_false {x : Bytes} (h : hasEscape x = false) :
    percentDecode x = x := by
  induction x using percentDecode.induct with
  | case1 b d e rest c hc ih => simp [hasEscape, hc] at h
  | case2 b d e rest hc ih =>
    rw [hasEscape, Bool.or_eq_false_iff] at h
    rw [percentDecode, hc]
    exact congrArg _ (ih h.2)
  | case3 x hx =>
    unfold percentDecode
    split
    · exact absurd rfl (hx _ _ _ _)
    · rfl

theorem length_percentDecode_le (x : Bytes) : (percentDecode x).length ≤ x.length := by
  induction x using percentDecode.induct with
  | case1 b d e rest c hc ih =>
    simp only [percentDecode, hc, List.length_cons]
    omega
  | case2 b d e rest hc ih =>
    simp only [percentDecode, hc, List.length_cons] at ih ⊢
    omega
  | case3 x hx =>
    unfold percentDecode
    split
    · exact absurd rfl (hx _ _ _ _)
    · exact le_rfl

/-- An escape is three bytes for one. -/
theorem length_percentDecode_lt {x : Bytes} (h : hasEscape x = true) :
    (percentDecode x).length < x.length := by
  induction x using percentDecode.induct with
  | case1 b d e rest c hc ih =>
    have hle := length_percentDecode_le rest
    simp only [percentDecode, hc, List.length_cons]
    omega
  | case2 b d e rest hc ih =>
    rw [hasEscape, hc, Option.isSome_none, Bool.false_or] at h
    have hlt := ih h
    simp only [percentDecode, hc, List.length_cons] at hlt ⊢
    omega
  | case3 x hx =>
    unfold hasEscape at h
    split at h
    · exact absurd rfl (hx _ _ _ _)
    · cases h

/-- No escape reaches over a byte that is neither a percent sign nor a digit. -/
theorem hasEscape_append_cons {c : UInt8} (hsign : c ≠ 0x25) (hdigit : hexValue c = none)
    (x y : Bytes) : hasEscape (x ++ c :: y) = (hasEscape x || hasEscape y) := by
  have hfirst : ∀ d e, escaped c d e = none := fun d e => if_neg hsign
  have hsecond : ∀ d e, escaped d c e = none := by
    intro d e
    simp [escaped, hdigit]
  have hthird : ∀ d e, escaped d e c = none := by
    intro d e
    simp only [escaped, hdigit]
    split
    · cases hexValue e <;> rfl
    · rfl
  induction x with
  | nil =>
    match y with
    | [] => rfl
    | [_] => rfl
    | d :: e :: rest => simp [hasEscape, hfirst]
  | cons b x ih =>
    match x with
    | [] =>
      match y with
      | [] => rfl
      | d :: rest =>
        have hrest : hasEscape (c :: d :: rest) = hasEscape (d :: rest) :=
          ih.trans (Bool.false_or _)
        simp [hasEscape, hsecond, hrest]
    | [d] => simp_all [hasEscape]
    | d :: e :: rest =>
      rw [List.cons_append, List.cons_append] at ih
      simp only [List.cons_append, hasEscape] at ih ⊢
      rw [ih, Bool.or_assoc]

theorem hasEscape_plusToSpace (x : Bytes) : hasEscape (plusToSpace x) = hasEscape x := by
  have hdigit : ∀ b : UInt8, hexValue (if b = 0x2b then 0x20 else b) = hexValue b := by
    intro b
    split
    · subst b
      rfl
    · rfl
  have hsign : ∀ b : UInt8, (if b = 0x2b then 0x20 else b) = (0x25 : UInt8) ↔ b = 0x25 := by
    intro b
    split
    · subst b
      decide
    · rfl
  induction x using hasEscape.induct with
  | case1 b d e rest ih =>
    simp only [plusToSpace, List.map_cons] at ih
    simp only [plusToSpace, List.map_cons, hasEscape, ih, escaped, hdigit, hsign]
  | case2 x hx =>
    match x with
    | [] => rfl
    | [_] => rfl
    | [_, _] => rfl
    | b :: d :: e :: rest => exact absurd rfl (hx b d e rest)

theorem length_decode_le (x : Bytes) : (decode x).length ≤ x.length := by
  have hle := length_percentDecode_le (plusToSpace x)
  rwa [plusToSpace, List.length_map] at hle

theorem decode_eq_self_iff {x : Bytes} : decode x = x ↔ 0x2b ∉ x ∧ hasEscape x = false := by
  constructor
  · intro h
    have hescape : hasEscape (plusToSpace x) = false := by
      rw [← Bool.not_eq_true]
      intro htrue
      have hlt := length_percentDecode_lt htrue
      rw [show percentDecode (plusToSpace x) = x from h, plusToSpace, List.length_map] at hlt
      exact lt_irrefl _ hlt
    have hplus : plusToSpace x = x := (percentDecode_of_hasEscape_eq_false hescape).symm.trans h
    refine ⟨fun hmem => ?_, hasEscape_plusToSpace x ▸ hescape⟩
    rw [← hplus] at hmem
    obtain ⟨b, -, hb⟩ := List.mem_map.mp hmem
    split at hb
    · cases hb
    · exact absurd hb ‹_›
  · rintro ⟨hplus, hescape⟩
    have hsame : plusToSpace x = x := by
      refine (List.map_congr_left fun b hb => ?_).trans x.map_id
      exact if_neg fun heq : b = 0x2b => hplus (heq ▸ hb)
    rw [decode, hsame, percentDecode_of_hasEscape_eq_false hescape]

end Escapes

section Fields

/-- A value that reads back as itself, and does not end before its end. -/
structure Verbatim (x : Bytes) : Prop where
  noAmpersand : 0x26 ∉ x
  noPlus : 0x2b ∉ x
  noEscape : hasEscape x = false

theorem verbatim_iff {x : Bytes} : Verbatim x ↔ 0x26 ∉ x ∧ decode x = x := by
  rw [decode_eq_self_iff]
  exact ⟨fun h => ⟨h.noAmpersand, h.noPlus, h.noEscape⟩, fun h => ⟨h.1, h.2.1, h.2.2⟩⟩

theorem field_append {name : Bytes} (hname : 0x3d ∉ name) (value : Bytes) :
    field (name ++ 0x3d :: value) = (decode name, decode value) := by
  have hkeep : ∀ b ∈ name, decide (b ≠ 0x3d) = true :=
    fun b hb => decide_eq_true fun heq => hname (heq ▸ hb)
  rw [field, List.takeWhile_append_of_pos hkeep, List.dropWhile_append_of_pos hkeep]
  simp

theorem parse_append {x : Bytes} (hamp : 0x26 ∉ x) (hne : x ≠ []) (rest : Bytes) :
    parse (x ++ 0x26 :: rest) = field x :: parse rest := by
  rw [parse, List.splitOn_append_cons_self_of_not_mem hamp, List.filter_cons_of_pos (by simpa)]
  rfl

theorem parse_of_not_mem {x : Bytes} (hamp : 0x26 ∉ x) (hne : x ≠ []) : parse x = [field x] := by
  rw [parse, List.splitOn_eq_singleton hamp, List.filter_cons_of_pos (by simpa)]
  rfl

variable {name value : Bytes} (heq : 0x3d ∉ name) (hamp : 0x26 ∉ name)
include heq hamp

/-- An ampersand in a value ends it early, so that it is read as a shorter one. -/
theorem noAmpersand_of_parse_eq (rest : Bytes) {fields : List (Bytes × Bytes)}
    (h : parse (name ++ 0x3d :: (value ++ rest)) = (name, value) :: fields) : 0x26 ∉ value := by
  intro hmem
  obtain ⟨u, v, rfl, hu⟩ := List.eq_append_cons_of_mem hmem
  have hfirst : 0x26 ∉ name ++ 0x3d :: u := by
    simp [hamp, hu]
  have hbody : name ++ 0x3d :: (u ++ 0x26 :: v ++ rest) =
      (name ++ 0x3d :: u) ++ 0x26 :: (v ++ rest) := by simp
  rw [hbody, parse_append hfirst (by simp), field_append heq] at h
  have hvalue : decode u = u ++ 0x26 :: v := congrArg Prod.snd (List.cons.inj h).1
  have hle := length_decode_le u
  rw [hvalue, List.length_append, List.length_cons] at hle
  omega

variable (hname : decode name = name)
include hname

/-- A field before others is read as what was written exactly if its value is verbatim. -/
theorem parse_field_append_iff {rest : Bytes} {fields : List (Bytes × Bytes)} :
    parse (name ++ 0x3d :: (value ++ 0x26 :: rest)) = (name, value) :: fields ↔
      Verbatim value ∧ parse rest = fields := by
  have hparse : 0x26 ∉ value → parse (name ++ 0x3d :: (value ++ 0x26 :: rest)) =
      (name, decode value) :: parse rest := by
    intro hvalue
    have hfirst : 0x26 ∉ name ++ 0x3d :: value := by simp [hamp, hvalue]
    rw [show name ++ 0x3d :: (value ++ 0x26 :: rest) = (name ++ 0x3d :: value) ++ 0x26 :: rest by
      simp, parse_append hfirst (by simp), field_append heq, hname]
  constructor
  · intro h
    have hvalue := noAmpersand_of_parse_eq heq hamp _ h
    rw [hparse hvalue, List.cons.injEq, Prod.mk.injEq] at h
    exact ⟨verbatim_iff.mpr ⟨hvalue, h.1.2⟩, h.2⟩
  · rintro ⟨hvalue, hrest⟩
    rw [hparse hvalue.noAmpersand, hrest, (verbatim_iff.mp hvalue).2]

theorem parse_field_iff : parse (name ++ 0x3d :: value) = [(name, value)] ↔ Verbatim value := by
  have hparse : 0x26 ∉ value → parse (name ++ 0x3d :: value) = [(name, decode value)] := by
    intro hvalue
    rw [parse_of_not_mem (by simp [hamp, hvalue]) (by simp), field_append heq, hname]
  constructor
  · intro h
    have hnil : parse (name ++ 0x3d :: (value ++ [])) = [(name, value)] := by
      rwa [List.append_nil]
    have hvalue := noAmpersand_of_parse_eq heq hamp [] hnil
    rw [hparse hvalue, List.cons.injEq, Prod.mk.injEq] at h
    exact verbatim_iff.mpr ⟨hvalue, h.1.2⟩
  · intro hvalue
    rw [hparse hvalue.noAmpersand, (verbatim_iff.mp hvalue).2]

end Fields

end FormUrlencoded

end SafetyDao
