import SafetyDao.Text

/-!
# Patterns of SQL's LIKE

In a pattern `%` stands for any text, `_` for any character, and a backslash takes the
character after it literally. ILIKE matches the lower-case text against the lower-case
pattern; the lower-case letters are those of the database's locale.
-/
namespace SafetyDao.LikePattern

inductive Token where
  | literal (c : Char)
  | anyChar
  | anyText
deriving DecidableEq, Repr

/-- The reading of a pattern. One that ends in its escape character is no pattern. -/
def parse : Text → Option (List Token)
  | [] => some []
  | '%' :: p => (parse p).map (Token.anyText :: ·)
  | '_' :: p => (parse p).map (Token.anyChar :: ·)
  | ['\\'] => none
  | '\\' :: c :: p => (parse p).map (Token.literal c :: ·)
  | c :: p => (parse p).map (Token.literal c :: ·)

def matchTokens : List Token → Text → Bool
  | [], t => t.isEmpty
  | .literal a :: ts, t => match t with
    | [] => false
    | c :: t => c = a && matchTokens ts t
  | .anyChar :: ts, t => match t with
    | [] => false
    | _ :: t => matchTokens ts t
  | .anyText :: ts, t => t.tails.any (matchTokens ts)

/-- Whether a character has a meaning of its own in a pattern. -/
def isSpecial (c : Char) : Bool := c = '%' || c = '_' || c = '\\'

/-- Whether a text matches a pattern, if it is one. -/
def like (pattern text : Text) : Option Bool := (parse pattern).map fun ts => matchTokens ts text

section Literals

theorem matchTokens_anyText {ts : List Token} {t : Text} :
    matchTokens (.anyText :: ts) t = true ↔ ∃ s r, t = s ++ r ∧ matchTokens ts r = true := by
  simp only [matchTokens, List.any_eq_true, List.mem_tails]
  constructor
  · rintro ⟨r, ⟨s, hs⟩, hr⟩
    exact ⟨s, r, hs.symm, hr⟩
  · rintro ⟨s, r, rfl, hr⟩
    exact ⟨r, List.suffix_append s r, hr⟩

theorem matchTokens_all (t : Text) : matchTokens [.anyText] t = true :=
  matchTokens_anyText.mpr ⟨t, [], by simp, rfl⟩

theorem matchTokens_literals {q : Text} {ts : List Token} {t : Text} :
    matchTokens (q.map .literal ++ ts) t = true ↔ ∃ r, t = q ++ r ∧ matchTokens ts r = true := by
  induction q generalizing t with
  | nil => simp
  | cons a q ih =>
    cases t with
    | nil => simp [matchTokens]
    | cons c t =>
      simp only [List.map_cons, List.cons_append, matchTokens, Bool.and_eq_true, decide_eq_true_eq,
        ih, List.cons.injEq]
      constructor
      · rintro ⟨rfl, r, rfl, hr⟩
        exact ⟨r, ⟨rfl, rfl⟩, hr⟩
      · rintro ⟨r, ⟨rfl, rfl⟩, hr⟩
        exact ⟨rfl, r, rfl, hr⟩

/-- Between two percent signs, a text without special characters matches what contains it. -/
theorem matchTokens_infix {q t : Text} :
    matchTokens (.anyText :: (q.map .literal ++ [.anyText])) t = true ↔ q <:+: t := by
  rw [matchTokens_anyText]
  constructor
  · rintro ⟨s, r, rfl, hr⟩
    obtain ⟨r, rfl, -⟩ := matchTokens_literals.mp hr
    exact ⟨s, r, by simp⟩
  · rintro ⟨s, r, rfl⟩
    exact ⟨s, q ++ r, by simp, matchTokens_literals.mpr ⟨r, rfl, matchTokens_all r⟩⟩

theorem parse_cons_plain {c : Char} (h : isSpecial c = false) (p : Text) :
    parse (c :: p) = (parse p).map (Token.literal c :: ·) := by
  simp only [isSpecial, Bool.or_eq_false_iff, decide_eq_false_iff_not] at h
  rw [parse]
  · exact h.1.1
  · exact h.1.2
  · exact fun hc _ => h.2 hc
  · exact fun _ _ hc _ => h.2 hc

/-- The last case of `parse` is that of a character without a meaning. -/
theorem plain_of_ne {c : Char} {p : Text} (hpercent : c ≠ '%') (hunderscore : c ≠ '_')
    (hlast : c = '\\' → p = [] → False) (hescape : ∀ d r, c = '\\' → p = d :: r → False) :
    isSpecial c = false := by
  simp only [isSpecial, Bool.or_eq_false_iff, decide_eq_false_iff_not]
  refine ⟨⟨hpercent, hunderscore⟩, fun hc => ?_⟩
  cases p with
  | nil => exact hlast hc rfl
  | cons d r => exact hescape d r hc rfl

theorem parse_plain {q : Text} (h : ∀ c ∈ q, isSpecial c = false) (p : Text) :
    parse (q ++ p) = (parse p).map (q.map Token.literal ++ ·) := by
  induction q with
  | nil => simp
  | cons c q ih =>
    rw [List.cons_append, parse_cons_plain (h c List.mem_cons_self),
      ih fun d hd => h d (List.mem_cons_of_mem c hd), Option.map_map]
    rfl

end Literals

/-- A locale's lower case. The special characters have none and are no lower case of others. -/
structure Folding where
  lower : Char → Char
  lower_special : ∀ c, isSpecial c = true → lower c = c
  special_lower : ∀ c, isSpecial (lower c) = true → isSpecial c = true

/-- `text ILIKE pattern`. -/
def Folding.ilike (F : Folding) (pattern text : Text) : Option Bool :=
  like (pattern.map F.lower) (text.map F.lower)

/-- The text has `q` in it, in whatever case. -/
def Folding.Contains (F : Folding) (q text : Text) : Prop := q.map F.lower <:+: text.map F.lower

instance (F : Folding) (q text : Text) : Decidable (F.Contains q text) :=
  inferInstanceAs (Decidable (_ <:+: _))

section Containing

variable (F : Folding)

theorem Folding.plain_lower_char {c : Char} (h : isSpecial c = false) :
    isSpecial (F.lower c) = false := by
  rw [← Bool.not_eq_true] at h ⊢
  exact fun hs => h (F.special_lower c hs)

theorem Folding.plain_lower {q : Text} (h : ∀ c ∈ q, isSpecial c = false) :
    ∀ c ∈ q.map F.lower, isSpecial c = false := by
  intro c hc
  obtain ⟨d, hd, rfl⟩ := List.mem_map.mp hc
  exact F.plain_lower_char (h d hd)

/-- The pattern `%q%` finds the texts that contain `q`, if nothing in `q` is special. -/
theorem Folding.ilike_containing {q : Text} (h : ∀ c ∈ q, isSpecial c = false) (text : Text) :
    F.ilike ('%' :: q ++ ['%']) text = some (decide (F.Contains q text)) := by
  have hpercent : F.lower '%' = '%' := F.lower_special '%' rfl
  have hparse : parse (('%' :: q ++ ['%']).map F.lower) =
      some (.anyText :: ((q.map F.lower).map .literal ++ [.anyText])) := by
    rw [List.cons_append, List.map_cons, List.map_append, hpercent, parse,
      parse_plain (F.plain_lower h), List.map_singleton, hpercent]
    rfl
  rw [ilike, like, hparse, Option.map_some, Option.some.injEq, Bool.eq_iff_iff, matchTokens_infix,
    decide_eq_true_eq, Contains]

end Containing

section Samples

/-- The shortest text that tokens match, with `a` for any character. -/
def sample : List Token → Text
  | [] => []
  | .literal c :: ts => c :: sample ts
  | .anyChar :: ts => 'a' :: sample ts
  | .anyText :: ts => sample ts

def Token.map (f : Char → Char) : Token → Token
  | .literal c => .literal (f c)
  | .anyChar => .anyChar
  | .anyText => .anyText

theorem matchTokens_sample (f : Char → Char) (ts : List Token) :
    matchTokens (ts.map (Token.map f)) ((sample ts).map f) = true := by
  induction ts with
  | nil => rfl
  | cons a ts ih =>
    cases a with
    | literal c => simpa [sample, Token.map, matchTokens] using ih
    | anyChar => simpa [sample, Token.map, matchTokens] using ih
    | anyText => exact matchTokens_anyText.mpr ⟨[], _, rfl, ih⟩

variable (F : Folding)

/-- Lower case keeps the structure of a pattern. -/
theorem Folding.parse_lower (p : Text) :
    parse (p.map F.lower) = (parse p).map (List.map (Token.map F.lower)) := by
  induction p using parse.induct with
  | case1 => rfl
  | case2 p ih =>
    rw [List.map_cons, F.lower_special '%' rfl, parse, parse, ih, Option.map_map, Option.map_map]
    rfl
  | case3 p ih =>
    rw [List.map_cons, F.lower_special '_' rfl, parse, parse, ih, Option.map_map, Option.map_map]
    rfl
  | case4 =>
    rw [List.map_cons, F.lower_special '\\' rfl]
    rfl
  | case5 c p ih =>
    rw [List.map_cons, F.lower_special '\\' rfl, List.map_cons, parse, parse, ih, Option.map_map,
      Option.map_map]
    rfl
  | case6 c p hpercent hunderscore hlast hescape ih =>
    have hplain := plain_of_ne hpercent hunderscore hlast hescape
    have hlower := F.plain_lower_char hplain
    rw [List.map_cons, parse_cons_plain hlower, parse_cons_plain hplain, ih, Option.map_map,
      Option.map_map]
    rfl

theorem length_eq_of_map_eq {f : Char → Char} {s t : Text} (h : s.map f = t.map f) :
    s.length = t.length := by
  have hlength := congrArg List.length h
  rwa [List.length_map, List.length_map] at hlength

/-- The sample of `q%` is no longer than `q`, and of the same length differs from it
unless nothing in `q` is special. -/
theorem Folding.sample_short (q : Text) : ∃ ts, parse (q ++ ['%']) = some ts ∧
    (sample ts).length ≤ q.length ∧
      ((sample ts).map F.lower = q.map F.lower → ∀ c ∈ q, isSpecial c = false) := by
  induction q using parse.induct with
  | case1 => exact ⟨[.anyText], rfl, le_rfl, fun _ c hc => by cases hc⟩
  | case2 p ih =>
    obtain ⟨ts, hts, hlen, -⟩ := ih
    refine ⟨.anyText :: ts, by rw [List.cons_append, parse, hts]; rfl, ?_, fun h => ?_⟩
    · exact hlen.trans (Nat.le_succ _)
    · have hsame : (sample ts).length = p.length + 1 := length_eq_of_map_eq h
      omega
  | case3 p ih =>
    obtain ⟨ts, hts, hlen, -⟩ := ih
    refine ⟨.anyChar :: ts, by rw [List.cons_append, parse, hts]; rfl, Nat.succ_le_succ hlen, ?_⟩
    intro h
    have hhead : F.lower 'a' = F.lower '_' := (List.cons.inj h).1
    rw [F.lower_special '_' rfl] at hhead
    exact absurd (F.special_lower 'a' (by rw [hhead]; rfl)) (by decide)
  | case4 =>
    refine ⟨[.literal '%'], rfl, le_rfl, fun h => ?_⟩
    have hhead : F.lower '%' = F.lower '\\' := (List.cons.inj h).1
    rw [F.lower_special '%' rfl, F.lower_special '\\' rfl] at hhead
    exact absurd hhead (by decide)
  | case5 c p ih =>
    obtain ⟨ts, hts, hlen, -⟩ := ih
    refine ⟨.literal c :: ts, by rw [List.cons_append, List.cons_append, parse, hts]; rfl, ?_, ?_⟩
    · exact (Nat.succ_le_succ hlen).trans (Nat.le_succ _)
    · intro h
      have hsame : (sample ts).length + 1 = p.length + 1 + 1 := length_eq_of_map_eq h
      omega
  | case6 c p hpercent hunderscore hlast hescape ih =>
    obtain ⟨ts, hts, hlen, hsame⟩ := ih
    have hplain := plain_of_ne hpercent hunderscore hlast hescape
    refine ⟨.literal c :: ts, by rw [List.cons_append, parse_cons_plain hplain, hts]; rfl,
      Nat.succ_le_succ hlen, fun h => ?_⟩
    have htail := hsame (List.cons.inj h).2
    exact List.forall_mem_cons.mpr ⟨hplain, htail⟩

/-- A text with a special character is found, as a pattern, in a text that does not contain it. -/
theorem Folding.exists_found_not_containing {q : Text} (h : ∃ c ∈ q, isSpecial c = true) :
    ∃ text, F.ilike ('%' :: q ++ ['%']) text = some true ∧ ¬ F.Contains q text := by
  obtain ⟨ts, hts, hlen, hsame⟩ := F.sample_short q
  refine ⟨sample ts, ?_, fun hin => ?_⟩
  · have hparse : parse ('%' :: q ++ ['%']) = some (.anyText :: ts) := by
      rw [List.cons_append, parse, hts]
      rfl
    rw [ilike, like, F.parse_lower, hparse, Option.map_some, Option.map_some]
    exact congrArg some (matchTokens_sample F.lower (.anyText :: ts))
  · obtain ⟨c, hc, hspecial⟩ := h
    have heq := hin.eq_of_length_le (by simpa using hlen)
    rw [hsame heq.symm c hc] at hspecial
    cases hspecial

/-- The pattern `%q%` is one, whatever `q` is. -/
theorem parse_isSome (q : Text) : (parse ('%' :: q ++ ['%'])).isSome := by
  -- the reading does not depend on the locale
  obtain ⟨ts, hts, -⟩ := (⟨id, fun _ _ => rfl, fun _ h => h⟩ : Folding).sample_short q
  rw [List.cons_append, parse, hts]
  rfl

end Samples

end SafetyDao.LikePattern
