import SafetyDao.Text
import Mathlib.Algebra.Order.Ring.Unbundled.Rat
import Mathlib.Data.Bool.AllAny

/-!
# JSON

Values and their parser, which reads a text to its end, and the compact form of objects whose
members are integers and strings. Writers differ in the characters they escape; the parser reads
back what any of them writes.
-/
namespace SafetyDao

inductive Json where
  | null
  | bool (b : Bool)
  | number (q : ℚ)
  | string (s : Text)
  | array (elements : List Json)
  | object (members : List (Text × Json))

namespace Json

/-- The value of a member, the last of its name. -/
def get? (name : Text) : Json → Option Json
  | .object members => (members.reverse.find? fun m => m.1 = name).map Prod.snd
  | _ => none

section Parser

def isSpace (c : Char) : Bool := [' ', '\t', '\n', '\r'].contains c

def skipSpace (t : Text) : Text := t.dropWhile isSpace

/-- The code units of `\uXXXX` and the code points of other characters, up to the quote. -/
def units : Text → Option (List ℕ × Text)
  | [] => none
  | '"' :: rest => some ([], rest)
  | '\\' :: 'u' :: a :: b :: c :: d :: rest => do
    let h ← [a, b, c, d].mapM Hex.value
    let (us, left) ← units rest
    return (h.foldl (fun n x => 16 * n + x) 0 :: us, left)
  | '\\' :: c :: rest => do
    let u ← ([('"', 34), ('\\', 92), ('/', 47), ('b', 8), ('f', 12), ('n', 10), ('r', 13),
      ('t', 9)].find? fun e => e.1 = c).map Prod.snd
    let (us, left) ← units rest
    return (u :: us, left)
  | c :: rest =>
    if c.toNat < 32 then none
    else do
      let (us, left) ← units rest
      return (c.toNat :: us, left)

/-- A unit that is a half of a pair on its own is replaced. -/
def ofUnit (u : ℕ) : Char := if 0xd800 ≤ u ∧ u ≤ 0xdfff then '\ufffd' else Char.ofNat u

/-- Pairs of units that make one character are put together. -/
def ofUnits : List ℕ → Text
  | [] => []
  | [u] => [ofUnit u]
  | u :: v :: rest =>
    if (0xd800 ≤ u ∧ u ≤ 0xdbff) ∧ 0xdc00 ≤ v ∧ v ≤ 0xdfff then
      Char.ofNat (0x10000 + (u - 0xd800) * 0x400 + (v - 0xdc00)) :: ofUnits rest
    else ofUnit u :: ofUnits (v :: rest)

/-- A string after its opening quote. -/
def parseString (t : Text) : Option (Text × Text) :=
  (units t).map fun out => (ofUnits out.1, out.2)

def parseDigits (t : Text) : Option (Text × Text) :=
  match t.takeWhile Char.isDigit with
  | [] => none
  | ds => some (ds, t.dropWhile Char.isDigit)

def parseFraction (q : ℚ) : Text → Option (ℚ × Text)
  | '.' :: t => do
    let (ds, rest) ← parseDigits t
    return (q + (Nat.ofDigitChars 10 ds 0 : ℚ) / 10 ^ ds.length, rest)
  | t => some (q, t)

def parseExponent (q : ℚ) : Text → Option (ℚ × Text)
  | c :: t =>
    if c = 'e' ∨ c = 'E' then
      match t with
      | '-' :: t => do
        let (ds, rest) ← parseDigits t
        return (q / 10 ^ Nat.ofDigitChars 10 ds 0, rest)
      | '+' :: t => do
        let (ds, rest) ← parseDigits t
        return (q * 10 ^ Nat.ofDigitChars 10 ds 0, rest)
      | t => do
        let (ds, rest) ← parseDigits t
        return (q * 10 ^ Nat.ofDigitChars 10 ds 0, rest)
    else some (q, c :: t)
  | [] => some (q, [])

/-- The digits before a point do not begin with a zero unless it is the only one. -/
def parseMagnitude (t : Text) : Option (ℚ × Text) := do
  let (ds, rest) ← parseDigits t
  if ds.head? = some '0' ∧ ds ≠ ['0'] then none
  let (q, rest) ← parseFraction (Nat.ofDigitChars 10 ds 0) rest
  parseExponent q rest

def parseNumber : Text → Option (ℚ × Text)
  | '-' :: t => (parseMagnitude t).map fun out => (-out.1, out.2)
  | t => parseMagnitude t

mutual

/-- A value, by recursion on a bound on its size. -/
def parseValue : ℕ → Text → Option (Json × Text)
  | 0, _ => none
  | n + 1, t =>
    match skipSpace t with
    | '\x7b' :: rest =>
      match skipSpace rest with
      | '\x7d' :: left => some (.object [], left)
      | left => (parseMembers n left).map fun out => (.object out.1, out.2)
    | '[' :: rest =>
      match skipSpace rest with
      | ']' :: left => some (.array [], left)
      | left => (parseElements n left).map fun out => (.array out.1, out.2)
    | '"' :: rest => (parseString rest).map fun out => (.string out.1, out.2)
    | 't' :: 'r' :: 'u' :: 'e' :: rest => some (.bool true, rest)
    | 'f' :: 'a' :: 'l' :: 's' :: 'e' :: rest => some (.bool false, rest)
    | 'n' :: 'u' :: 'l' :: 'l' :: rest => some (.null, rest)
    | rest => (parseNumber rest).map fun out => (.number out.1, out.2)

def parseElements : ℕ → Text → Option (List Json × Text)
  | 0, _ => none
  | n + 1, t => do
    let (v, rest) ← parseValue n t
    match skipSpace rest with
    | ',' :: rest => (parseElements n rest).map fun out => (v :: out.1, out.2)
    | ']' :: rest => some ([v], rest)
    | _ => none

def parseMembers : ℕ → Text → Option (List (Text × Json) × Text)
  | 0, _ => none
  | n + 1, t =>
    match skipSpace t with
    | '"' :: rest => do
      let (name, rest) ← parseString rest
      match skipSpace rest with
      | ':' :: rest => do
        let (v, rest) ← parseValue n rest
        match skipSpace rest with
        | ',' :: rest => (parseMembers n rest).map fun out => ((name, v) :: out.1, out.2)
        | '\x7d' :: rest => some ([(name, v)], rest)
        | _ => none
      | _ => none
    | _ => none

end

/-- The first value of a text, whatever follows it. -/
def decode (t : Text) : Option Json := (parseValue (t.length + 1) t).map Prod.fst

def parse (t : Text) : Option Json :=
  match parseValue (t.length + 1) t with
  | some (v, rest) => if skipSpace rest = [] then some v else none
  | none => none

end Parser

section Writer

inductive Scalar where
  | int (n : ℤ)
  | string (s : Text)

def Scalar.toJson : Scalar → Json
  | .int n => .number n
  | .string s => .string s

/-- How a character is written in a string. -/
abbrev Escape : Type := Char → Text

def quote (escape : Escape) (s : Text) : Text := '"' :: s.flatMap escape ++ ['"']

def writeInt (n : ℤ) : Text :=
  if n < 0 then '-' :: Nat.toDigits 10 n.natAbs else Nat.toDigits 10 n.natAbs

def Scalar.write (escape : Escape) : Scalar → Text
  | .int n => writeInt n
  | .string s => quote escape s

def writeMember (escape : Escape) (m : Text × Scalar) : Text :=
  quote escape m.1 ++ ':' :: m.2.write escape

def writeMembers (escape : Escape) : List (Text × Scalar) → Text
  | [] => []
  | [m] => writeMember escape m
  | m :: ms => writeMember escape m ++ ',' :: writeMembers escape ms

/-- An object without white space, its members in the order given. -/
def writeObject (escape : Escape) (members : List (Text × Scalar)) : Text :=
  '\x7b' :: writeMembers escape members ++ ['\x7d']

theorem forall_mem_writeInt {P : Char → Prop} (hminus : P '-')
    (hdigit : ∀ c : Char, c.isDigit → P c) (n : ℤ) : ∀ c ∈ writeInt n, P c := by
  have hdigits : ∀ c ∈ Nat.toDigits 10 n.natAbs, P c := fun c hc =>
    hdigit c (Nat.isDigit_of_mem_toDigits (by decide) (by decide) hc)
  rw [writeInt]
  split
  · exact List.forall_mem_cons.mpr ⟨hminus, hdigits⟩
  · exact hdigits

theorem forall_mem_writeMembers {escape : Escape} {P : Char → Prop} (hcomma : P ',')
    {members : List (Text × Scalar)} (h : ∀ m ∈ members, ∀ c ∈ writeMember escape m, P c) :
    ∀ c ∈ writeMembers escape members, P c := by
  induction members using writeMembers.induct with
  | case1 => exact fun c hc => absurd hc List.not_mem_nil
  | case2 m => exact h m List.mem_cons_self
  | case3 m ms hne ih =>
    rw [writeMembers]
    · simp only [List.forall_mem_append, List.forall_mem_cons]
      exact ⟨h m List.mem_cons_self, hcomma, ih fun m' hm' => h m' (List.mem_cons_of_mem _ hm')⟩
    · exact hne

/-- The names and the strings of members, escaped, are all that a property of the characters
of an object depends on. -/
theorem forall_mem_writeObject {escape : Escape} {P : Char → Prop}
    (hsign : ∀ c ∈ ['\x7b', '\x7d', '"', ':', ',', '-'], P c) (hdigit : ∀ c : Char, c.isDigit → P c)
    {members : List (Text × Scalar)} (hname : ∀ m ∈ members, ∀ c ∈ m.1.flatMap escape, P c)
    (hstring : ∀ m ∈ members, ∀ s, m.2 = .string s → ∀ c ∈ s.flatMap escape, P c) :
    ∀ c ∈ writeObject escape members, P c := by
  simp only [List.forall_mem_cons, List.not_mem_nil, false_implies, implies_true, and_true] at hsign
  obtain ⟨hopen, hclose, hquote, hcolon, hcomma, hminus⟩ := hsign
  have hquoted : ∀ s : Text, (∀ c ∈ s.flatMap escape, P c) → ∀ c ∈ quote escape s, P c := by
    intro s hs
    simp only [quote, List.cons_append, List.forall_mem_cons, List.forall_mem_append,
      List.not_mem_nil, false_implies, implies_true, and_true]
    exact ⟨hquote, hs, hquote⟩
  have hmember : ∀ m ∈ members, ∀ c ∈ writeMember escape m, P c := by
    rintro ⟨name, v⟩ hm
    simp only [writeMember, List.forall_mem_append, List.forall_mem_cons]
    refine ⟨hquoted _ (hname _ hm), hcolon, ?_⟩
    cases v with
    | int n => exact forall_mem_writeInt hminus hdigit n
    | string s => exact hquoted _ (hstring _ hm s rfl)
  simp only [writeObject, List.cons_append, List.forall_mem_cons, List.forall_mem_append,
    List.not_mem_nil, false_implies, implies_true, and_true]
  exact ⟨hopen, forall_mem_writeMembers hcomma hmember, hclose⟩

end Writer

section Strings

/-- No code point is a half of a pair. -/
theorem not_surrogate (c : Char) : ¬ (0xd800 ≤ c.toNat ∧ c.toNat ≤ 0xdfff) := by
  rcases c.valid with h | h
  · have hbelow : c.toNat < 0xd800 := h
    omega
  · have habove : 0xdfff < c.toNat := h.1
    omega

theorem ofUnit_toNat (c : Char) : ofUnit c.toNat = c := by
  rw [ofUnit, if_neg (not_surrogate c), Char.ofNat_toNat]

theorem ofUnits_toNat (s : Text) : ofUnits (s.map Char.toNat) = s := by
  induction s with
  | nil => rfl
  | cons c s ih =>
    cases s with
    | nil => simp [ofUnits, ofUnit_toNat]
    | cons d s =>
      have hne : ¬ ((0xd800 ≤ c.toNat ∧ c.toNat ≤ 0xdbff) ∧
          0xdc00 ≤ d.toNat ∧ d.toNat ≤ 0xdfff) := by
        have hc := not_surrogate c
        omega
      simp only [List.map_cons, ofUnits, if_neg hne, ofUnit_toNat]
      rw [List.map_cons] at ih
      rw [ih]

/-- A way to write characters that the parser reads back. -/
def Escape.Sound (escape : Escape) : Prop :=
  ∀ c rest, units (escape c ++ rest) = (units rest).map fun out => (c.toNat :: out.1, out.2)

variable {escape : Escape}

theorem parseString_quote (h : escape.Sound) (s rest : Text) :
    parseString (s.flatMap escape ++ '"' :: rest) = some (s, rest) := by
  have hunits : units (s.flatMap escape ++ '"' :: rest) = some (s.map Char.toNat, rest) := by
    induction s with
    | nil => rfl
    | cons c s ih => rw [List.flatMap_cons, List.append_assoc, h, ih]; rfl
  rw [parseString, hunits, Option.map_some, ofUnits_toNat]

/-- A character that is no quote, no backslash and no control character may stand as it is. -/
theorem units_cons {c : Char} (hquote : c ≠ '"') (hbackslash : c ≠ '\\') (hcontrol : 32 ≤ c.toNat)
    (rest : Text) : units (c :: rest) = (units rest).map fun out => (c.toNat :: out.1, out.2) := by
  rw [units.eq_def]
  split
  · rename_i heq
    cases heq
  · rename_i heq
    exact absurd (List.cons.inj heq).1 hquote
  · rename_i heq
    exact absurd (List.cons.inj heq).1 hbackslash
  · rename_i heq
    exact absurd (List.cons.inj heq).1 hbackslash
  · rename_i heq
    obtain ⟨rfl, rfl⟩ := List.cons.inj heq
    rw [if_neg (by omega)]
    cases units rest <;> rfl

/-- Four hexadecimal digits stand for the number they make. -/
theorem units_hex {a b c d : Char} {h : List ℕ} (hhex : [a, b, c, d].mapM Hex.value = some h)
    (rest : Text) : units ('\\' :: 'u' :: a :: b :: c :: d :: rest) =
      (units rest).map fun out => (h.foldl (fun n x => 16 * n + x) 0 :: out.1, out.2) := by
  rw [units, hhex]
  cases units rest <;> rfl

/-- A control character as four hexadecimal digits. -/
def escapeUnit (c : Char) : Text :=
  "\\u00".toList ++ [Hex.digit (c.toNat / 16), Hex.digit (c.toNat % 16)]

theorem units_escapeUnit {c : Char} (h : c.toNat < 256) (rest : Text) :
    units (escapeUnit c ++ rest) = (units rest).map fun out => (c.toNat :: out.1, out.2) := by
  have hmapM : ['0', '0', Hex.digit (c.toNat / 16), Hex.digit (c.toNat % 16)].mapM Hex.value =
      some [0, 0, c.toNat / 16, c.toNat % 16] := by
    have hzero : Hex.value '0' = some 0 := rfl
    simp [Hex.value_digit (show c.toNat / 16 < 16 by omega),
      Hex.value_digit (show c.toNat % 16 < 16 by omega), hzero]
  have hvalue : [0, 0, c.toNat / 16, c.toNat % 16].foldl (fun n x => 16 * n + x) 0 = c.toNat := by
    simp only [List.foldl_cons, List.foldl_nil]
    omega
  rw [← hvalue]
  exact units_hex hmapM rest

end Strings

section Numbers

theorem takeWhile_digits (n : ℕ) {rest : Text} (h : ∀ c ∈ rest.head?, c.isDigit = false) :
    (Nat.toDigits 10 n ++ rest).takeWhile Char.isDigit = Nat.toDigits 10 n ∧
      (Nat.toDigits 10 n ++ rest).dropWhile Char.isDigit = rest := by
  have hdigits : ∀ c ∈ Nat.toDigits 10 n, c.isDigit = true :=
    fun c hc => Nat.isDigit_of_mem_toDigits (by omega) (by omega) hc
  rw [List.takeWhile_append_of_pos hdigits, List.dropWhile_append_of_pos hdigits]
  cases rest with
  | nil => simp
  | cons c rest =>
    have hc := h c rfl
    simp [hc]

theorem parseDigits_toDigits (n : ℕ) {rest : Text} (h : ∀ c ∈ rest.head?, c.isDigit = false) :
    parseDigits (Nat.toDigits 10 n ++ rest) = some (Nat.toDigits 10 n, rest) := by
  obtain ⟨htake, hdrop⟩ := takeWhile_digits n h
  rw [parseDigits, htake, hdrop]
  split
  · rename_i hnil
    exact absurd hnil Nat.toDigits_ne_nil
  · rfl

/-- A number other than zero does not begin with the digit zero. -/
theorem head?_toDigits {n : ℕ} (h : 0 < n) : (Nat.toDigits 10 n).head? ≠ some '0' := by
  induction n using Nat.strong_induction_on with
  | _ n ih =>
    rw [Nat.toDigits_eq_if (by omega)]
    split
    · rename_i hn
      interval_cases n <;> decide
    · rename_i hn
      rw [List.head?_append_of_ne_nil _ Nat.toDigits_ne_nil]
      exact ih (n / 10) (by omega) (by omega)

/-- What may follow a number. -/
def EndsNumber (rest : Text) : Prop :=
  ∀ c ∈ rest.head?, c.isDigit = false ∧ c ≠ '.' ∧ c ≠ 'e' ∧ c ≠ 'E'

theorem parseMagnitude_toDigits (n : ℕ) {rest : Text} (h : EndsNumber rest) :
    parseMagnitude (Nat.toDigits 10 n ++ rest) = some ((n : ℚ), rest) := by
  have hzero : ¬ ((Nat.toDigits 10 n).head? = some '0' ∧ Nat.toDigits 10 n ≠ ['0']) := by
    rintro ⟨hhead, hne⟩
    rcases Nat.eq_zero_or_pos n with rfl | hpos
    · exact hne rfl
    · exact head?_toDigits hpos hhead
  have hfraction : parseFraction (n : ℚ) rest = some ((n : ℚ), rest) := by
    unfold parseFraction
    split
    · exact absurd rfl (h '.' rfl).2.1
    · rfl
  have hexponent : parseExponent (n : ℚ) rest = some ((n : ℚ), rest) := by
    cases rest with
    | nil => rfl
    | cons c rest =>
      have hc := (h c rfl).2.2
      unfold parseExponent
      dsimp only
      rw [if_neg (not_or.mpr hc)]
  rw [parseMagnitude, parseDigits_toDigits n fun c hc => (h c hc).1]
  simp only [Option.bind_eq_bind, Option.bind_some, if_neg hzero, Nat.ofDigitChars_ten_toDigits,
    hfraction, hexponent]

theorem parseNumber_writeInt (n : ℤ) {rest : Text} (h : EndsNumber rest) :
    parseNumber (writeInt n ++ rest) = some ((n : ℚ), rest) := by
  unfold writeInt
  split
  · rename_i hneg
    have habs : (n : ℚ) = -(n.natAbs : ℚ) := by
      have hint : n = -(n.natAbs : ℤ) := by omega
      have hcast := congrArg (Int.cast : ℤ → ℚ) hint
      rwa [Int.cast_neg, Int.cast_natCast] at hcast
    rw [List.cons_append, parseNumber, parseMagnitude_toDigits _ h, habs]
    rfl
  · rename_i hneg
    have habs : (n : ℚ) = (n.natAbs : ℚ) := by
      have hint : n = (n.natAbs : ℤ) := by omega
      have hcast := congrArg (Int.cast : ℤ → ℚ) hint
      rwa [Int.cast_natCast] at hcast
    rw [habs, ← parseMagnitude_toDigits n.natAbs h]
    unfold parseNumber
    split
    · rename_i heq
      have hhead : (Nat.toDigits 10 n.natAbs).head? = some '-' := by
        rw [← List.head?_append_of_ne_nil _ Nat.toDigits_ne_nil, heq]
        rfl
      have hdigit := Nat.isDigit_of_mem_toDigits (by omega) (by omega) (List.mem_of_mem_head? hhead)
      exact absurd hdigit (by decide)
    · rfl

end Numbers

section Objects

variable {escape : Escape}

theorem skipSpace_cons {c : Char} (h : isSpace c = false) (t : Text) :
    skipSpace (c :: t) = c :: t := by
  rw [skipSpace, List.dropWhile_cons_of_neg (by simp [h])]

/-- What may follow a member: a comma or the closing brace. -/
def EndsMember (rest : Text) : Prop := ∃ c left, rest = c :: left ∧ (c = ',' ∨ c = '\x7d')

theorem EndsMember.endsNumber {rest : Text} (h : EndsMember rest) : EndsNumber rest := by
  obtain ⟨c, left, rfl, hc⟩ := h
  intro d hd
  obtain rfl := Option.some.inj hd
  rcases hc with rfl | rfl <;> decide

theorem EndsMember.skipSpace {rest : Text} (h : EndsMember rest) : skipSpace rest = rest := by
  obtain ⟨c, left, rfl, hc⟩ := h
  refine skipSpace_cons ?_ left
  rcases hc with rfl | rfl <;> rfl

/-- A text that begins as numbers do is read as one. -/
theorem parseValue_number (n : ℕ) {c : Char} (hc : c = '-' ∨ c.isDigit = true) (t : Text) :
    parseValue (n + 1) (c :: t) =
      (parseNumber (c :: t)).map fun out => (.number out.1, out.2) := by
  have hne : ∀ d : Char, d ≠ '-' → d.isDigit = false → c ≠ d := by
    rintro d hminus hdigit rfl
    rcases hc with rfl | hc
    · exact hminus rfl
    · rw [hdigit] at hc
      cases hc
  have hspace : isSpace c = false := by
    rw [isSpace, List.contains_eq_mem, decide_eq_false_iff_not]
    have hspaces : ∀ d ∈ [' ', '\t', '\n', '\r'], d ≠ '-' ∧ d.isDigit = false :=
      List.all_iff_forall_prop.mp (by decide)
    exact fun hmem => hne c (hspaces c hmem).1 (hspaces c hmem).2 rfl
  rw [parseValue, skipSpace_cons hspace]
  split
  · rename_i heq
    exact absurd (List.cons.inj heq).1 (hne _ (by decide) (by decide))
  · rename_i heq
    exact absurd (List.cons.inj heq).1 (hne _ (by decide) (by decide))
  · rename_i heq
    exact absurd (List.cons.inj heq).1 (hne _ (by decide) (by decide))
  · rename_i heq
    exact absurd (List.cons.inj heq).1 (hne _ (by decide) (by decide))
  · rename_i heq
    exact absurd (List.cons.inj heq).1 (hne _ (by decide) (by decide))
  · rename_i heq
    exact absurd (List.cons.inj heq).1 (hne _ (by decide) (by decide))
  · rfl

theorem exists_cons_writeInt (m : ℤ) :
    ∃ c t, writeInt m = c :: t ∧ (c = '-' ∨ c.isDigit = true) := by
  unfold writeInt
  split
  · exact ⟨'-', _, rfl, .inl rfl⟩
  · obtain ⟨c, t, hct⟩ := List.exists_cons_of_ne_nil (@Nat.toDigits_ne_nil m.natAbs 10)
    refine ⟨c, t, hct, .inr (@Nat.isDigit_of_mem_toDigits 10 m.natAbs c (by omega) (by omega) ?_)⟩
    rw [hct]
    exact List.mem_cons_self

theorem parseValue_write (h : escape.Sound) (n : ℕ) (v : Scalar) {rest : Text}
    (hrest : EndsMember rest) :
    parseValue (n + 1) (v.write escape ++ rest) = some (v.toJson, rest) := by
  cases v with
  | string s =>
    have htext : (Scalar.string s).write escape ++ rest =
        '"' :: (s.flatMap escape ++ '"' :: rest) := by simp [Scalar.write, quote]
    rw [htext, parseValue, skipSpace_cons rfl]
    simp only [parseString_quote h, Option.map_some]
    rfl
  | int m =>
    obtain ⟨c, t, hct, hc⟩ := exists_cons_writeInt m
    have hnumber := parseNumber_writeInt m hrest.endsNumber
    rw [hct, List.cons_append] at hnumber
    rw [Scalar.write, hct, List.cons_append, parseValue_number n hc, hnumber]
    rfl

/-- A written member is read back, and the sign after it says whether another follows. -/
theorem parseMembers_member (h : escape.Sound) (n : ℕ) (m : Text × Scalar) {c : Char}
    (hc : c = ',' ∨ c = '\x7d') (left : Text) :
    parseMembers (n + 2) (writeMember escape m ++ c :: left) =
      if c = ',' then (parseMembers (n + 1) left).map fun out =>
        ((m.1, m.2.toJson) :: out.1, out.2)
      else some ([(m.1, m.2.toJson)], left) := by
  have hends : EndsMember (c :: left) := ⟨c, left, rfl, hc⟩
  have htext : writeMember escape m ++ c :: left =
      '"' :: (m.1.flatMap escape ++ '"' :: (':' :: (m.2.write escape ++ c :: left))) := by
    simp [writeMember, quote]
  have hcolon : skipSpace (':' :: (m.2.write escape ++ c :: left)) =
      ':' :: (m.2.write escape ++ c :: left) := skipSpace_cons rfl _
  rw [htext, parseMembers, skipSpace_cons rfl]
  simp only [parseString_quote h, Option.bind_eq_bind, Option.bind_some, hcolon,
    parseValue_write h n m.2 hends, hends.skipSpace]
  rcases hc with rfl | rfl <;> rfl

theorem parseMembers_write (h : escape.Sound) {members : List (Text × Scalar)} {n : ℕ}
    (hne : members ≠ []) (hn : members.length < n) (rest : Text) :
    parseMembers n (writeMembers escape members ++ '\x7d' :: rest) =
      some (members.map fun m => (m.1, m.2.toJson), rest) := by
  induction members generalizing n with
  | nil => exact absurd rfl hne
  | cons m ms ih =>
    obtain ⟨n, rfl⟩ := Nat.exists_eq_add_one_of_ne_zero (Nat.ne_zero_of_lt hn)
    obtain ⟨k, rfl⟩ := Nat.exists_eq_add_one_of_ne_zero
      (Nat.ne_zero_of_lt (show ms.length < n from Nat.lt_of_succ_lt_succ hn))
    cases ms with
    | nil => exact parseMembers_member h k m (.inr rfl) rest
    | cons m' ms =>
      have htext : writeMembers escape (m :: m' :: ms) ++ '\x7d' :: rest =
          writeMember escape m ++ ',' :: (writeMembers escape (m' :: ms) ++ '\x7d' :: rest) := by
        simp [writeMembers]
      rw [htext, parseMembers_member h k m (.inl rfl), if_pos rfl,
        ih (List.cons_ne_nil _ _) (Nat.lt_of_succ_lt_succ hn)]
      rfl

theorem length_lt_writeObject (escape : Escape) (members : List (Text × Scalar)) :
    members.length < (writeObject escape members).length := by
  have hmembers : members.length ≤ (writeMembers escape members).length := by
    induction members with
    | nil => exact Nat.le_refl 0
    | cons m ms ih =>
      cases ms with
      | nil => simp [writeMembers, writeMember, quote]
      | cons m' ms =>
        simp only [writeMembers, List.length_append, List.length_cons] at ih ⊢
        omega
  simp only [writeObject, List.cons_append, List.length_cons, List.length_append, List.length_nil]
  omega

/-- What is written is read back. -/
theorem parseValue_writeObject (h : escape.Sound) {members : List (Text × Scalar)}
    (hne : members ≠ []) :
    parseValue ((writeObject escape members).length + 1) (writeObject escape members) =
      some (.object (members.map fun m => (m.1, m.2.toJson)), []) := by
  have hmembers := parseMembers_write h hne (length_lt_writeObject escape members) []
  obtain ⟨t, ht⟩ : ∃ t, writeMembers escape members ++ ['\x7d'] = '"' :: t := by
    cases members with
    | nil => exact absurd rfl hne
    | cons m ms => cases ms <;> exact ⟨_, rfl⟩
  have hbrace : writeObject escape members =
      '\x7b' :: (writeMembers escape members ++ ['\x7d']) := rfl
  have hquote : skipSpace ('"' :: t) = '"' :: t := skipSpace_cons rfl t
  generalize (writeObject escape members).length = n at hmembers ⊢
  rw [ht] at hmembers
  rw [hbrace, ht, parseValue, skipSpace_cons rfl]
  simp only [hquote]
  exact congrArg (Option.map fun out => (Json.object out.1, out.2)) hmembers

theorem decode_writeObject (h : escape.Sound) {members : List (Text × Scalar)}
    (hne : members ≠ []) :
    decode (writeObject escape members) =
      some (.object (members.map fun m => (m.1, m.2.toJson))) := by
  rw [decode, parseValue_writeObject h hne]
  rfl

theorem parse_writeObject (h : escape.Sound) {members : List (Text × Scalar)}
    (hne : members ≠ []) :
    parse (writeObject escape members) =
      some (.object (members.map fun m => (m.1, m.2.toJson))) := by
  rw [parse, parseValue_writeObject h hne]
  rfl

end Objects

section Escapes

/-- How `JSON.stringify` writes a character. -/
def escapeJs : Escape := fun c =>
  if c = '"' then "\\\"".toList
  else if c = '\\' then "\\\\".toList
  else if c = '\x08' then "\\b".toList
  else if c = '\x0c' then "\\f".toList
  else if c = '\n' then "\\n".toList
  else if c = '\r' then "\\r".toList
  else if c = '\t' then "\\t".toList
  else if c.toNat < 32 then escapeUnit c
  else [c]

/-- How `json.Marshal` writes a character: so that the text may stand in HTML. -/
def escapeGo : Escape := fun c =>
  if c = '<' ∨ c = '>' ∨ c = '&' then escapeUnit c
  else if c.toNat = 0x2028 then "\\u2028".toList
  else if c.toNat = 0x2029 then "\\u2029".toList
  else escapeJs c

theorem units_short {e : Char} {u : ℕ} (he : e ≠ 'u')
    (hu : ([('"', 34), ('\\', 92), ('/', 47), ('b', 8), ('f', 12), ('n', 10), ('r', 13),
      ('t', 9)].find? fun x => x.1 = e) = some (e, u)) (rest : Text) :
    units ('\\' :: e :: rest) = (units rest).map fun out => (u :: out.1, out.2) := by
  rw [units, hu]
  · cases units rest <;> rfl
  · rintro _ _ _ _ _ rfl
    exact absurd rfl he

theorem escapeJs_sound : escapeJs.Sound := by
  intro c rest
  unfold escapeJs
  split_ifs with h1 h2 h3 h4 h5 h6 h7 h8
  · subst h1
    exact units_short (by decide) rfl rest
  · subst h2
    exact units_short (by decide) rfl rest
  · subst h3
    exact units_short (by decide) rfl rest
  · subst h4
    exact units_short (by decide) rfl rest
  · subst h5
    exact units_short (by decide) rfl rest
  · subst h6
    exact units_short (by decide) rfl rest
  · subst h7
    exact units_short (by decide) rfl rest
  · exact units_escapeUnit (by omega) rest
  · exact units_cons h1 h2 (by omega) rest

theorem escapeGo_sound : escapeGo.Sound := by
  intro c rest
  unfold escapeGo
  split_ifs with h1 h2 h3
  · refine units_escapeUnit ?_ rest
    rcases h1 with rfl | rfl | rfl <;> decide
  · have hhex : ['2', '0', '2', '8'].mapM Hex.value = some [2, 0, 2, 8] := rfl
    rw [h2]
    exact units_hex hhex rest
  · have hhex : ['2', '0', '2', '9'].mapM Hex.value = some [2, 0, 2, 9] := rfl
    rw [h3]
    exact units_hex hhex rest
  · exact escapeJs_sound c rest

end Escapes

end Json

end SafetyDao
