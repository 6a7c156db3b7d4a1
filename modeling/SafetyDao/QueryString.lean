import SafetyDao.FormUrlencoded

/-!
# Encoding of application/x-www-form-urlencoded

What the serializer writes has only letters, digits, the marks `*-._`, a plus for a space, and
escapes of three bytes for everything else; signs of equality and ampersands stand between the
names and values only. The strict reader, which skips a field with a broken escape or a
semicolon, reads it back as it was.
-/
namespace SafetyDao.FormUrlencoded

section Encoder

def isUnreserved (b : UInt8) : Bool :=
  (0x30 ≤ b && b ≤ 0x39) || (0x41 ≤ b && b ≤ 0x5a) || (0x61 ≤ b && b ≤ 0x7a) ||
    b = 0x2a || b = 0x2d || b = 0x2e || b = 0x5f

/-- A hexadecimal digit, in upper case. -/
def upperDigit (n : ℕ) : UInt8 := UInt8.ofNat (if n < 10 then 0x30 + n else 0x37 + n)

def encodeByte (b : UInt8) : Bytes :=
  if b = 0x20 then [0x2b]
  else if isUnreserved b then [b]
  else [0x25, upperDigit (b.toNat / 16), upperDigit (b.toNat % 16)]

def encode (x : Bytes) : Bytes := x.flatMap encodeByte

def serializeField (f : Bytes × Bytes) : Bytes := encode f.1 ++ 0x3d :: encode f.2

def serialize (fields : List (Bytes × Bytes)) : Bytes :=
  List.intercalate [0x26] (fields.map serializeField)

end Encoder

section StrictReader

/-- A percent sign without two digits behind it is an error. -/
def unescape : Bytes → Option Bytes
  | [] => some []
  | b :: rest =>
    if b = 0x25 then
      match rest with
      | h :: l :: rest => (escaped b h l).bind fun c => (unescape rest).map (c :: ·)
      | _ => none
    else (unescape rest).map ((if b = 0x2b then 0x20 else b) :: ·)

/-- A field with a semicolon, or with an escape in error, is skipped, and so is an empty one. -/
def strictField (x : Bytes) : Option (Bytes × Bytes) :=
  if 0x3b ∈ x then none
  else if x = [] then none
  else do
    let name ← unescape (x.takeWhile (· ≠ 0x3d))
    let value ← unescape ((x.dropWhile (· ≠ 0x3d)).drop 1)
    return (name, value)

def strictParse (query : Bytes) : List (Bytes × Bytes) :=
  (query.splitOn 0x26).filterMap strictField

end StrictReader

section Bytes

/-- What the serializer writes for names and values. -/
def isEncoded (b : UInt8) : Bool := isUnreserved b || b = 0x2b || b = 0x25

theorem hexValue_upperDigit {n : ℕ} (hn : n < 16) : hexValue (upperDigit n) = some n := by
  interval_cases n <;> rfl

theorem isUnreserved_upperDigit {n : ℕ} (hn : n < 16) : isUnreserved (upperDigit n) = true := by
  interval_cases n <;> rfl

theorem ne_of_isEncoded {b c : UInt8} (hb : isEncoded b = true) (hc : isEncoded c = false) :
    b ≠ c := by
  rintro rfl
  rw [hb] at hc
  cases hc

theorem toNat_lt_of_isEncoded {b : UInt8} (h : isEncoded b = true) : b.toNat < 128 := by
  simp only [isEncoded, isUnreserved, Bool.or_eq_true, Bool.and_eq_true, decide_eq_true_eq,
    UInt8.le_iff_toNat_le, ← UInt8.toNat_inj, UInt8.reduceToNat] at h
  omega

theorem isEncoded_of_mem_encodeByte {a b : UInt8} (h : a ∈ encodeByte b) :
    isEncoded a = true := by
  have hlow : b.toNat < 256 := b.toNat_lt
  unfold encodeByte at h
  split at h
  · rw [List.mem_singleton.mp h]
    rfl
  · split at h
    · rw [List.mem_singleton.mp h, isEncoded, ‹isUnreserved b = true›]
      rfl
    · simp only [List.mem_cons, List.not_mem_nil, or_false] at h
      rcases h with rfl | rfl | rfl
      · rfl
      · rw [isEncoded, isUnreserved_upperDigit (by omega)]
        rfl
      · rw [isEncoded, isUnreserved_upperDigit (by omega)]
        rfl

theorem isEncoded_of_mem_encode {a : UInt8} {x : Bytes} (h : a ∈ encode x) :
    isEncoded a = true := by
  obtain ⟨b, -, hb⟩ := List.mem_flatMap.mp h
  exact isEncoded_of_mem_encodeByte hb

theorem not_mem_encode {a : UInt8} (ha : isEncoded a = false) (x : Bytes) : a ∉ encode x :=
  fun h => ne_of_isEncoded (isEncoded_of_mem_encode h) ha rfl

/-- Names, values and the two separators: nothing else is in what the serializer writes. -/
theorem mem_serialize {a : UInt8} {fields : List (Bytes × Bytes)} (h : a ∈ serialize fields) :
    isEncoded a = true ∨ a = 0x3d ∨ a = 0x26 := by
  unfold serialize at h
  induction fields with
  | nil => simp [List.intercalate] at h
  | cons f fields ih =>
    have hfield : a ∈ serializeField f → isEncoded a = true ∨ a = 0x3d ∨ a = 0x26 := by
      intro ha
      rcases List.mem_append.mp ha with ha | ha
      · exact .inl (isEncoded_of_mem_encode ha)
      · rcases List.mem_cons.mp ha with ha | ha
        · exact .inr (.inl ha)
        · exact .inl (isEncoded_of_mem_encode ha)
    cases fields with
    | nil => exact hfield (by simpa [List.intercalate] using h)
    | cons g rest =>
      rw [List.map_cons, List.map_cons, List.intercalate_cons_cons] at h
      rcases List.mem_append.mp h with h | h
      · rcases List.mem_append.mp h with h | h
        · exact hfield h
        · exact .inr (.inr (List.mem_singleton.mp h))
      · exact ih h

theorem toNat_lt_of_mem_serialize {a : UInt8} {fields : List (Bytes × Bytes)}
    (h : a ∈ serialize fields) : a.toNat < 128 := by
  rcases mem_serialize h with ha | rfl | rfl
  · exact toNat_lt_of_isEncoded ha
  · decide
  · decide

end Bytes

section Unescape

theorem unescape_nil : unescape [] = some [] := unescape.eq_1

theorem unescape_cons_of_ne {b : UInt8} (hb : b ≠ 0x25) (rest : Bytes) :
    unescape (b :: rest) = (unescape rest).map ((if b = 0x2b then 0x20 else b) :: ·) := by
  rw [unescape.eq_def]
  exact if_neg hb

theorem unescape_escape (h l : UInt8) (rest : Bytes) :
    unescape (0x25 :: h :: l :: rest) =
      (escaped 0x25 h l).bind fun c => (unescape rest).map (c :: ·) := by
  rw [unescape.eq_def]
  exact if_pos rfl

theorem unescape_encodeByte (b : UInt8) (rest : Bytes) :
    unescape (encodeByte b ++ rest) = (unescape rest).map (b :: ·) := by
  have hlow : b.toNat < 256 := b.toNat_lt
  unfold encodeByte
  split
  · subst b
    exact unescape_cons_of_ne (by decide) rest
  · split
    · have hne : ∀ c, isUnreserved c = false → b ≠ c := by
        rintro c hc rfl
        rw [‹isUnreserved b = true›] at hc
        cases hc
      rw [List.singleton_append, unescape_cons_of_ne (hne 0x25 rfl), if_neg (hne 0x2b rfl)]
    · have hescaped : escaped 0x25 (upperDigit (b.toNat / 16)) (upperDigit (b.toNat % 16)) =
          some b := by
        rw [escaped, if_pos rfl, hexValue_upperDigit (by omega), hexValue_upperDigit (by omega)]
        show some (UInt8.ofNat (16 * (b.toNat / 16) + b.toNat % 16)) = some b
        rw [Nat.div_add_mod, UInt8.ofNat_toNat]
      rw [List.cons_append, List.cons_append, List.singleton_append, unescape_escape, hescaped,
        Option.bind_some]

/-- The strict reader finds what was encoded. -/
theorem unescape_encode (x : Bytes) : unescape (encode x) = some x := by
  induction x with
  | nil => exact unescape_nil
  | cons b x ih =>
    rw [encode, List.flatMap_cons, unescape_encodeByte, ← encode, ih, Option.map_some]

end Unescape

section RoundTrip

variable (fields : List (Bytes × Bytes))

theorem not_mem_serializeField {a : UInt8} (ha : isEncoded a = false) (hne : a ≠ 0x3d)
    (f : Bytes × Bytes) : a ∉ serializeField f := by
  intro h
  rcases List.mem_append.mp h with h | h
  · exact not_mem_encode ha _ h
  · rcases List.mem_cons.mp h with h | h
    · exact hne h
    · exact not_mem_encode ha _ h

theorem serializeField_ne_nil (f : Bytes × Bytes) : serializeField f ≠ [] := by
  simp [serializeField]

theorem serialize_eq_nil_iff : serialize fields = [] ↔ fields = [] := by
  constructor
  · intro h
    match fields with
    | [] => rfl
    | [f] => exact absurd (by simpa [serialize] using h) (serializeField_ne_nil f)
    | f :: g :: rest =>
      rw [serialize, List.map_cons, List.map_cons, List.intercalate_cons_cons] at h
      simp at h
  · rintro rfl
    rfl

/-- Splitting at the ampersands finds the fields again. -/
theorem splitOn_serialize (h : fields ≠ []) :
    (serialize fields).splitOn 0x26 = fields.map serializeField := by
  refine List.splitOn_intercalate 0x26 ?_ (by simpa using h)
  intro x hx
  obtain ⟨f, -, rfl⟩ := List.mem_map.mp hx
  exact not_mem_serializeField rfl (by decide) f

theorem strictField_serializeField (f : Bytes × Bytes) :
    strictField (serializeField f) = some f := by
  have hkeep : ∀ b ∈ encode f.1, decide (b ≠ 0x3d) = true :=
    fun b hb => decide_eq_true (ne_of_isEncoded (isEncoded_of_mem_encode hb) rfl)
  rw [strictField, if_neg (not_mem_serializeField rfl (by decide) f),
    if_neg (serializeField_ne_nil f), serializeField, List.takeWhile_append_of_pos hkeep,
    List.dropWhile_append_of_pos hkeep]
  simp [unescape_encode]

theorem strictParse_serialize : strictParse (serialize fields) = fields := by
  by_cases h : fields = []
  · subst h
    rfl
  · rw [strictParse, splitOn_serialize fields h, List.filterMap_map]
    exact (List.filterMap_congr fun f _ => strictField_serializeField f).trans
      List.filterMap_some

end RoundTrip

end SafetyDao.FormUrlencoded
