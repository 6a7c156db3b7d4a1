import SafetyDao.Text

/-!
# Base64

Three bytes make four groups of six bits, and a rest of one or two bytes makes two or three. The
two alphabets differ in the last two characters only, so a text of the URL alphabet decodes as
a standard one exactly as long as no group is 62 or 63. No group of an ASCII text is, unless it
has one of the four characters whose low six bits are 62 or 63.
-/
namespace SafetyDao.Base64

/-- The groups of six bits, the last one filled with zeros. -/
def sextets : List UInt8 → List ℕ
  | [] => []
  | [a] => [a.toNat / 4, a.toNat % 4 * 16]
  | [a, b] => [a.toNat / 4, a.toNat % 4 * 16 + b.toNat / 16, b.toNat % 16 * 4]
  | a :: b :: c :: rest =>
    a.toNat / 4 :: (a.toNat % 4 * 16 + b.toNat / 16) :: (b.toNat % 16 * 4 + c.toNat / 64) ::
      c.toNat % 64 :: sextets rest

/-- The bytes of groups of six bits; bits that fill no byte are dropped. -/
def octets : List ℕ → Option (List UInt8)
  | [] => some []
  | [_] => none
  | [s, t] => some [UInt8.ofNat (s * 4 + t / 16)]
  | [s, t, u] => some [UInt8.ofNat (s * 4 + t / 16), UInt8.ofNat (t % 16 * 16 + u / 4)]
  | s :: t :: u :: v :: rest => do
    let bytes ← octets rest
    return UInt8.ofNat (s * 4 + t / 16) :: UInt8.ofNat (t % 16 * 16 + u / 4) ::
      UInt8.ofNat (u % 4 * 64 + v) :: bytes

/-- The character of a group, in the alphabet that ends in the given two. -/
def digit (c62 c63 : Char) (n : ℕ) : Char :=
  if n < 26 then Char.ofNat (65 + n)
  else if n < 52 then Char.ofNat (71 + n)
  else if n < 62 then Char.ofNat (n - 4)
  else if n = 62 then c62
  else c63

/-- The group of a character. -/
def value (c62 c63 c : Char) : Option ℕ :=
  let n := c.toNat
  if 65 ≤ n ∧ n ≤ 90 then some (n - 65)
  else if 97 ≤ n ∧ n ≤ 122 then some (n - 71)
  else if 48 ≤ n ∧ n ≤ 57 then some (n + 4)
  else if c = c62 then some 62
  else if c = c63 then some 63
  else none

/-- The standard alphabet, padded to whole quadruples of characters. -/
def encode (bytes : List UInt8) : Text :=
  (sextets bytes).map (digit '+' '/') ++ List.replicate ((3 - bytes.length % 3) % 3) '='

/-- The URL alphabet, without padding. -/
def encodeUrl (bytes : List UInt8) : Text := (sextets bytes).map (digit '-' '_')

def decodeUrl (t : Text) : Option (List UInt8) := (t.mapM (value '-' '_')).bind octets

def isSpace (c : Char) : Bool := [' ', '\t', '\n', '\x0c', '\r'].contains c

/-- One or two signs of padding at the end are dropped. -/
def dropPadding (t : Text) : Text :=
  match t.reverse with
  | '=' :: '=' :: rest => rest.reverse
  | '=' :: rest => rest.reverse
  | _ => t

/-- The forgiving decoder of browsers, for the standard alphabet. -/
def forgivingDecode (t : Text) : Option (List UInt8) :=
  let data := t.filter (!isSpace ·)
  let data := if data.length % 4 = 0 then dropPadding data else data
  if data.length % 4 = 1 then none else (data.mapM (value '+' '/')).bind octets

section Groups

/-- Every group of six bits is one, and the rest of a byte is not lost. -/
theorem octets_sextets (bytes : List UInt8) : octets (sextets bytes) = some bytes := by
  induction bytes using sextets.induct with
  | case1 => rfl
  | case2 a =>
    have ha : a.toNat / 4 * 4 + a.toNat % 4 * 16 / 16 = a.toNat := by omega
    rw [sextets, octets, ha, UInt8.ofNat_toNat]
  | case3 a b =>
    have hb := b.toNat_lt
    have ha : a.toNat / 4 * 4 + (a.toNat % 4 * 16 + b.toNat / 16) / 16 = a.toNat := by omega
    have hb' : (a.toNat % 4 * 16 + b.toNat / 16) % 16 * 16 + b.toNat % 16 * 4 / 4 = b.toNat := by
      omega
    rw [sextets, octets, ha, hb', UInt8.ofNat_toNat, UInt8.ofNat_toNat]
  | case4 a b c rest ih =>
    have hb := b.toNat_lt
    have hc := c.toNat_lt
    have ha : a.toNat / 4 * 4 + (a.toNat % 4 * 16 + b.toNat / 16) / 16 = a.toNat := by omega
    have hb' : (a.toNat % 4 * 16 + b.toNat / 16) % 16 * 16 +
        (b.toNat % 16 * 4 + c.toNat / 64) / 4 = b.toNat := by omega
    have hc' : (b.toNat % 16 * 4 + c.toNat / 64) % 4 * 64 + c.toNat % 64 = c.toNat := by omega
    rw [sextets, octets, ih]
    simp only [Option.bind_eq_bind, Option.bind_some, ha, hb', hc', UInt8.ofNat_toNat]
    rfl

theorem length_sextets (bytes : List UInt8) :
    (sextets bytes).length = (4 * bytes.length + 2) / 3 := by
  induction bytes using sextets.induct with
  | case1 => rfl
  | case2 a => simp [sextets]
  | case3 a b => simp [sextets]
  | case4 a b c rest ih =>
    simp only [sextets, List.length_cons, ih]
    omega

theorem sextets_lt_64 (bytes : List UInt8) : ∀ s ∈ sextets bytes, s < 64 := by
  induction bytes using sextets.induct with
  | case1 => exact fun s hs => absurd hs List.not_mem_nil
  | case2 a =>
    have ha := a.toNat_lt
    simp only [sextets, List.forall_mem_cons, List.not_mem_nil, false_implies, implies_true,
      and_true]
    omega
  | case3 a b =>
    have ha := a.toNat_lt
    have hb := b.toNat_lt
    simp only [sextets, List.forall_mem_cons, List.not_mem_nil, false_implies, implies_true,
      and_true]
    omega
  | case4 a b c rest ih =>
    have ha := a.toNat_lt
    have hb := b.toNat_lt
    have hc := c.toNat_lt
    simp only [sextets, List.forall_mem_cons]
    refine ⟨?_, ?_, ?_, ?_, ih⟩ <;> omega

/-- No group of these bytes has its last character in the alphabets' difference. -/
theorem sextets_lt {bytes : List UInt8}
    (h : ∀ b ∈ bytes, b.toNat < 128 ∧ b.toNat % 64 < 62) : ∀ s ∈ sextets bytes, s < 62 := by
  induction bytes using sextets.induct with
  | case1 => exact fun s hs => absurd hs List.not_mem_nil
  | case2 a =>
    simp only [List.forall_mem_cons, List.not_mem_nil, false_implies, implies_true, and_true,
      sextets] at h ⊢
    omega
  | case3 a b =>
    simp only [List.forall_mem_cons, List.not_mem_nil, false_implies, implies_true, and_true,
      sextets] at h ⊢
    omega
  | case4 a b c rest ih =>
    simp only [List.forall_mem_cons, sextets] at h ⊢
    obtain ⟨ha, hb, hc, hrest⟩ := h
    refine ⟨?_, ?_, ?_, ?_, ih hrest⟩ <;> omega

end Groups

section Characters

theorem value_digit {n : ℕ} (h : n < 64) : value '+' '/' (digit '+' '/' n) = some n := by
  interval_cases n <;> rfl

theorem value_digit_url {n : ℕ} (h : n < 64) : value '-' '_' (digit '-' '_' n) = some n := by
  interval_cases n <;> rfl

/-- Groups written one by one are read one by one. -/
theorem mapM_value {read : Char → Option ℕ} {write : ℕ → Char} {groups : List ℕ}
    (h : ∀ s ∈ groups, read (write s) = some s) : (groups.map write).mapM read = some groups := by
  induction groups with
  | nil => rfl
  | cons s groups ih =>
    rw [List.map_cons, List.mapM_cons, h s List.mem_cons_self,
      ih fun s' hs' => h s' (List.mem_cons_of_mem _ hs')]
    rfl

theorem decodeUrl_encodeUrl (bytes : List UInt8) : decodeUrl (encodeUrl bytes) = some bytes := by
  have hvalues : (encodeUrl bytes).mapM (value '-' '_') = some (sextets bytes) :=
    mapM_value fun s hs => value_digit_url (sextets_lt_64 bytes s hs)
  rw [decodeUrl, hvalues, Option.bind_some, octets_sextets]

/-- Below 62 the alphabets agree. -/
theorem digit_eq {n : ℕ} (h : n < 62) (c62 c63 d62 d63 : Char) :
    digit c62 c63 n = digit d62 d63 n := by
  unfold digit
  rw [if_pos h, if_pos h]

/-- White space, padding and the dot are in no alphabet. -/
theorem not_special_digit {n : ℕ} (h : n < 64) :
    isSpace (digit '-' '_' n) = false ∧ digit '-' '_' n ≠ '=' ∧ digit '-' '_' n ≠ '.' := by
  interval_cases n <;> decide

theorem not_special_of_mem_encodeUrl {bytes : List UInt8} {c : Char} (h : c ∈ encodeUrl bytes) :
    isSpace c = false ∧ c ≠ '=' ∧ c ≠ '.' := by
  obtain ⟨s, hs, rfl⟩ := List.mem_map.mp h
  exact not_special_digit (sextets_lt_64 bytes s hs)

theorem dot_not_mem_encodeUrl (bytes : List UInt8) : '.' ∉ encodeUrl bytes :=
  fun hmem => (not_special_of_mem_encodeUrl hmem).2.2 rfl

end Characters

theorem dropPadding_of_not_mem {t : Text} (h : '=' ∉ t) : dropPadding t = t := by
  have hrev : '=' ∉ t.reverse := by rwa [List.mem_reverse]
  unfold dropPadding
  split
  · rename_i heq
    rw [heq] at hrev
    exact absurd List.mem_cons_self hrev
  · rename_i heq
    rw [heq] at hrev
    exact absurd List.mem_cons_self hrev
  · rfl

/-- A text of the URL alphabet is read back by the standard decoder, as long as no group is
one of the last two. -/
theorem forgivingDecode_encodeUrl {bytes : List UInt8} (h : ∀ s ∈ sextets bytes, s < 62) :
    forgivingDecode (encodeUrl bytes) = some bytes := by
  have hspace : (encodeUrl bytes).filter (!isSpace ·) = encodeUrl bytes := by
    refine List.filter_eq_self.mpr fun c hc => ?_
    rw [(not_special_of_mem_encodeUrl hc).1]
    rfl
  have hpad : '=' ∉ encodeUrl bytes := fun hmem => (not_special_of_mem_encodeUrl hmem).2.1 rfl
  have hlength : (encodeUrl bytes).length % 4 ≠ 1 := by
    rw [encodeUrl, List.length_map, length_sextets]
    omega
  have hvalues : (encodeUrl bytes).mapM (value '+' '/') = some (sextets bytes) := by
    refine mapM_value fun s hs => ?_
    rw [digit_eq (h s hs) '-' '_' '+' '/']
    exact value_digit (sextets_lt_64 bytes s hs)
  simp only [forgivingDecode, hspace, dropPadding_of_not_mem hpad, ite_self, if_neg hlength,
    hvalues, Option.bind_some, octets_sextets]

section Padded

theorem not_special_digit_std {n : ℕ} (h : n < 64) :
    isSpace (digit '+' '/' n) = false ∧ digit '+' '/' n ≠ '=' := by
  interval_cases n <;> decide

theorem dropPadding_append {t : Text} (h : '=' ∉ t) {k : ℕ} (hk : k ≤ 2) :
    dropPadding (t ++ List.replicate k '=') = t := by
  match k, hk with
  | 0, _ => rw [List.replicate_zero, List.append_nil, dropPadding_of_not_mem h]
  | 1, _ =>
    have hrev : (t ++ List.replicate 1 '=').reverse = '=' :: t.reverse := by simp
    rw [dropPadding, hrev]
    -- The text itself ends in no second sign of padding.
    split
    · rename_i rest heq
      have hmem : '=' ∈ t.reverse := by
        rw [List.tail_eq_of_cons_eq heq]
        exact List.mem_cons_self
      exact absurd (List.mem_reverse.mp hmem) h
    · rename_i rest _ heq
      rw [← List.tail_eq_of_cons_eq heq, List.reverse_reverse]
    · rename_i hone
      exact absurd rfl (hone _)
  | 2, _ =>
    have hrev : (t ++ List.replicate 2 '=').reverse = '=' :: '=' :: t.reverse := by simp
    rw [dropPadding, hrev]
    exact t.reverse_reverse

/-- The browser reads back what it has written. -/
theorem forgivingDecode_encode (bytes : List UInt8) :
    forgivingDecode (encode bytes) = some bytes := by
  have hspecial : ∀ c ∈ (sextets bytes).map (digit '+' '/'), isSpace c = false ∧ c ≠ '=' := by
    intro c hc
    obtain ⟨s, hs, rfl⟩ := List.mem_map.mp hc
    exact not_special_digit_std (sextets_lt_64 bytes s hs)
  have hspace : (encode bytes).filter (!isSpace ·) = encode bytes := by
    refine List.filter_eq_self.mpr fun c hc => ?_
    rcases List.mem_append.mp hc with hc | hc
    · rw [(hspecial c hc).1]
      rfl
    · rw [List.eq_of_mem_replicate hc]
      rfl
  have hwhole : (encode bytes).length % 4 = 0 := by
    rw [encode, List.length_append, List.length_map, List.length_replicate, length_sextets]
    have hrest : bytes.length % 3 = 0 ∨ bytes.length % 3 = 1 ∨ bytes.length % 3 = 2 := by omega
    rcases hrest with h | h | h <;> rw [h] <;> omega
  have hpad : dropPadding (encode bytes) = (sextets bytes).map (digit '+' '/') :=
    dropPadding_append (fun hmem => (hspecial _ hmem).2 rfl) (by omega)
  have hlength : ((sextets bytes).map (digit '+' '/')).length % 4 ≠ 1 := by
    rw [List.length_map, length_sextets]
    omega
  have hvalues : ((sextets bytes).map (digit '+' '/')).mapM (value '+' '/') =
      some (sextets bytes) :=
    mapM_value fun s hs => value_digit (sextets_lt_64 bytes s hs)
  simp only [forgivingDecode, hspace, if_pos hwhole, hpad, if_neg hlength, hvalues,
    Option.bind_some, octets_sextets]

end Padded

end SafetyDao.Base64
