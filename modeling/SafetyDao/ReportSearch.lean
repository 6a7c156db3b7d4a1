import SafetyDao.RegistryQueries

/-!
# Which reports a search finds

`SearchReports` puts the search text between percent signs and matches with ILIKE, so the
special characters of patterns keep their meaning in it. Without them, and as long as
PostgreSQL takes the texts, the search is the literal one.
-/
namespace SafetyDao.ReportSearch
open LikePattern (Folding isSpecial)
open ReportStore (storable meets wellFormed exec selectReports)

variable (F : Folding)

/-- The reports asked for: the text in one of the two fields, in whatever case, and the filters. -/
def Wanted (query category status : String) (r : ModeratedReport) : Prop :=
  (query = "" ∨ F.Contains query.toList r.clientIdentifier.toList ∨
    F.Contains query.toList r.description.toList) ∧
  (category = "" ∨ r.category = category) ∧ (status = "" ∨ r.status = status)

instance (query category status : String) (r : ModeratedReport) :
    Decidable (Wanted F query category status r) := inferInstanceAs (Decidable (_ ∧ _ ∧ _))

/-- Unless the database fails, a search returns the reports asked for, newest first. -/
def FindsWanted (w : ReportStore) (query category status : String) : Prop :=
  ∀ (cs : List Env) (r : Except String (List ModeratedReport)) (w' : ReportStore),
    (∀ env ∈ cs, env.failure = none) →
    (RegistryService.searchReports query category status).run (exec F) w cs = some (r, w', []) →
    ∃ rows, r = .ok rows ∧
      rows.Perm (w.rows.filter fun r => Wanted F query category status r) ∧
      rows.Pairwise fun a b => b.createdAt ≤ a.createdAt

/-- What the statement finds: the text as a pattern in one of the two fields, and the filters. -/
def Found (query category status : String) (r : ModeratedReport) : Prop :=
  (query = "" ∨ F.ilike ('%' :: query.toList ++ ['%']) r.clientIdentifier.toList = some true ∨
    F.ilike ('%' :: query.toList ++ ['%']) r.description.toList = some true) ∧
  (category = "" ∨ r.category = category) ∧ (status = "" ∨ r.status = status)

instance (query category status : String) (r : ModeratedReport) :
    Decidable (Found F query category status r) := inferInstanceAs (Decidable (_ ∧ _ ∧ _))

section Statement

variable (query category status : String)

/-- The statement has a placeholder for each argument. -/
theorem search_placeholders :
    ((ReportSql.search query category status).conditions.map ReportCondition.placeholder).foldr
      max 0 = (ReportSql.search query category status).args.length := by
  unfold ReportSql.search
  split_ifs <;> rfl

theorem search_storable :
    (ReportSql.search query category status).args.all storable =
      (storable query && (storable category && storable status)) := by
  have hquery : storable ("%" ++ query ++ "%") = storable query := by
    simp [storable, String.toList_append]
  have hempty : storable "" = true := rfl
  unfold ReportSql.search
  split_ifs <;> simp_all [ReportSql.and]

theorem toList_pattern : ("%" ++ query ++ "%").toList = '%' :: query.toList ++ ['%'] := by
  simp [String.toList_append]

theorem search_wellFormed : (ReportSql.search query category status).conditions.all
    (wellFormed (ReportSql.search query category status).args) = true := by
  have hpattern := LikePattern.parse_isSome query.toList
  rw [List.cons_append] at hpattern
  unfold ReportSql.search
  split_ifs <;> simp [ReportSql.and, wellFormed, hpattern]

theorem search_meets (r : ModeratedReport) : (ReportSql.search query category status).conditions.all
    (meets F (ReportSql.search query category status).args r) =
      decide (Found F query category status r) := by
  rw [Bool.eq_iff_iff, decide_eq_true_eq, Found, ← toList_pattern]
  unfold ReportSql.search
  split_ifs <;> simp_all [ReportSql.and, meets]

/-- The rows of a search whose texts PostgreSQL takes. -/
def foundRows (w : ReportStore) (env : Env) : List ModeratedReport :=
  (env.arrange (fun r => r.id)
    (w.rows.filter fun r => Found F query category status r)).insertionSort
      fun a b => b.createdAt ≤ a.createdAt

theorem selectReports_search (w : ReportStore) (env : Env) :
    selectReports F w env (ReportSql.search query category status).conditions
      (ReportSql.search query category status).args =
    if storable query && (storable category && storable status) then
      .ok (foundRows F query category status w env)
    else .error "invalid byte sequence for encoding \"UTF8\": 0x00" := by
  rw [selectReports, search_placeholders, if_neg (not_not.mpr rfl), search_storable,
    search_wellFormed]
  simp only [search_meets]
  cases storable query && (storable category && storable status) with
  | false => rfl
  | true => rfl

end Statement

section Calls

variable {F} {query category status : String} {w w' : ReportStore}

/-- Rows that the database does not fail to give come as they are. -/
theorem run_scanRows {acc rows : List ModeratedReport} {cs rest : List Env} {scanning : String}
    {r : Except String (List ModeratedReport)} (hcs : ∀ env ∈ cs, env.failure = none)
    (h : (scanRows (Program.call ReportOp.rowsNext) (Program.call ReportOp.rowsScan) scanning acc
      rows).run (exec F) w cs = some (r, w', rest)) : r = .ok (acc ++ rows) := by
  induction rows generalizing acc cs with
  | nil =>
    simp only [scanRows, Program.pure_eq, Program.run, Option.some.injEq, Prod.mk.injEq] at h
    rw [List.append_nil]
    exact h.1.symm
  | cons row rows ih =>
    simp only [scanRows, Program.call_bind, Program.pure_eq] at h
    obtain ⟨env₁, cs₁, rfl, h₁⟩ := Program.run_request.mp h
    have hnext : exec F w .rowsNext env₁ = (w, .ok ()) :=
      Env.attempt_good (hcs env₁ (by simp)) w _
    rw [hnext] at h₁
    obtain ⟨env₂, cs₂, rfl, h₂⟩ := Program.run_request.mp h₁
    have hscan : exec F w .rowsScan env₂ = (w, .ok ()) :=
      Env.attempt_good (hcs env₂ (by simp)) w _
    rw [hscan] at h₂
    have hrest := ih (fun env henv => hcs env (by simp [henv])) h₂
    rw [hrest, List.append_assoc]
    rfl

theorem exists_run_scanRows (scanning : String) (acc rows : List ModeratedReport) :
    ∃ cs : List Env, (∀ env ∈ cs, env.failure = none) ∧
      (scanRows (Program.call ReportOp.rowsNext) (Program.call ReportOp.rowsScan) scanning acc
        rows).run (exec F) w cs = some (.ok (acc ++ rows), w, []) := by
  induction rows generalizing acc with
  | nil => exact ⟨[], by simp, by simp [scanRows, Program.run]⟩
  | cons row rows ih =>
    obtain ⟨cs, hcs, hrun⟩ := ih (acc ++ [row])
    refine ⟨.good 0 0 :: .good 0 0 :: cs, ?_, ?_⟩
    · simpa [Env.good] using hcs
    · rw [List.append_assoc] at hrun
      exact hrun

theorem exec_search {env : Env} (henv : env.failure = none) :
    exec F w (.selectReports (ReportSql.search query category status).conditions
      (ReportSql.search query category status).args) env =
    (w, if storable query && (storable category && storable status) then
      .ok (foundRows F query category status w env)
    else .error "invalid byte sequence for encoding \"UTF8\": 0x00") := by
  refine (Env.attempt_good henv w _).trans ?_
  rw [selectReports_search]

/-- Without failures a search of texts that PostgreSQL takes returns the rows it finds. -/
theorem run_searchReports {cs : List Env} {r : Except String (List ModeratedReport)}
    (hstorable : (storable query && (storable category && storable status)) = true)
    (hcs : ∀ env ∈ cs, env.failure = none)
    (h : (RegistryService.searchReports query category status).run (exec F) w cs =
      some (r, w', [])) : ∃ env, r = .ok (foundRows F query category status w env) := by
  simp only [RegistryService.searchReports, Program.call_bind] at h
  obtain ⟨env, cs', rfl, hrun⟩ := Program.run_request.mp h
  rw [exec_search (hcs env (by simp)), if_pos hstorable] at hrun
  exact ⟨env, run_scanRows (fun env' henv => hcs env' (by simp [henv])) hrun⟩

theorem exists_run_searchReports
    (hstorable : (storable query && (storable category && storable status)) = true) :
    ∃ cs : List Env, (∀ env ∈ cs, env.failure = none) ∧
      (RegistryService.searchReports query category status).run (exec F) w cs =
        some (.ok (foundRows F query category status w (.good 0 0)), w, []) := by
  obtain ⟨cs, hcs, hrun⟩ := exists_run_scanRows (F := F) (w := w) "scanning report: " []
    (foundRows F query category status w (.good 0 0))
  refine ⟨.good 0 0 :: cs, by simpa [Env.good] using hcs, ?_⟩
  have hgood : (Env.good 0 0).failure = none := rfl
  simp only [RegistryService.searchReports, Program.call_bind]
  refine Program.run_request.mpr ⟨_, _, rfl, ?_⟩
  rw [exec_search hgood, if_pos hstorable]
  exact hrun

theorem foundRows_perm (env : Env) : (foundRows F query category status w env).Perm
    (w.rows.filter fun r => Found F query category status r) :=
  (List.perm_insertionSort _ _).trans (env.arrange_perm _ _)

theorem mem_foundRows {env : Env} {r : ModeratedReport} :
    r ∈ foundRows F query category status w env ↔
      r ∈ w.rows ∧ Found F query category status r := by
  rw [(foundRows_perm env).mem_iff]
  simp

/-- A search that is answered has found the rows of the statement. -/
theorem exec_selectReports {env : Env} {rows : List ModeratedReport}
    (h : (exec F w (.selectReports (ReportSql.search query category status).conditions
      (ReportSql.search query category status).args) env).2 = .ok rows) :
    rows = foundRows F query category status w env := by
  have hok := Env.ok_of_attempt h
  rw [selectReports_search] at hok
  split at hok
  · exact (Except.ok.inj hok).symm
  · cases hok

theorem foundRows_newestFirst (env : Env) :
    (foundRows F query category status w env).Pairwise fun a b => b.createdAt ≤ a.createdAt := by
  have htotal : Std.Total fun a b : ModeratedReport => b.createdAt ≤ a.createdAt :=
    ⟨fun a b => le_total b.createdAt a.createdAt⟩
  have htrans : IsTrans ModeratedReport fun a b => b.createdAt ≤ a.createdAt :=
    ⟨fun _ _ _ hab hbc => hbc.trans hab⟩
  exact List.pairwise_insertionSort _ _

/-- Of texts that PostgreSQL takes, the search is the one asked for exactly if the pattern
finds the same rows. -/
theorem findsWanted_iff_found
    (hstorable : (storable query && (storable category && storable status)) = true) :
    FindsWanted F w query category status ↔
      ∀ r ∈ w.rows, (Found F query category status r ↔ Wanted F query category status r) := by
  constructor
  · intro h r hr
    obtain ⟨cs, hcs, hrun⟩ := exists_run_searchReports (F := F) (w := w) hstorable
    obtain ⟨rows, hrows, hperm, -⟩ := h cs _ _ hcs hrun
    have hmem := ((foundRows_perm (.good 0 0)).symm.trans
      ((Except.ok.inj hrows) ▸ hperm)).mem_iff (a := r)
    simpa [List.mem_filter, hr] using hmem
  · intro h cs r w' hcs hrun
    obtain ⟨env, rfl⟩ := run_searchReports hstorable hcs hrun
    refine ⟨_, rfl, ?_, foundRows_newestFirst env⟩
    rw [← List.filter_congr fun r hr => decide_eq_decide.mpr (h r hr)]
    exact foundRows_perm env

/-- A text with a zero byte makes the search fail. -/
theorem not_findsWanted_of_unstorable
    (h : (storable query && (storable category && storable status)) = false) :
    ¬ FindsWanted F w query category status := by
  intro hfinds
  have hgood : (Env.good 0 0).failure = none := rfl
  have hrun : (RegistryService.searchReports query category status).run (exec F) w
      [.good 0 0] = some (.error ("searching reports: " ++
        "invalid byte sequence for encoding \"UTF8\": 0x00"), w, []) := by
    simp only [RegistryService.searchReports, Program.call_bind]
    refine Program.run_request.mpr ⟨_, _, rfl, ?_⟩
    rw [exec_search hgood, h]
    rfl
  obtain ⟨rows, hrows, -⟩ := hfinds [.good 0 0] _ w (by simp [Env.good]) hrun
  cases hrows

theorem found_iff_wanted (h : ∀ c ∈ query.toList, isSpecial c = false) (r : ModeratedReport) :
    Found F query category status r ↔ Wanted F query category status r := by
  simp only [Found, Wanted, F.ilike_containing h, Option.some.injEq, decide_eq_true_eq]

/-- A report that the pattern finds and that does not have the text. -/
theorem exists_found_unwanted (h : ∃ c ∈ query.toList, isSpecial c = true) :
    ∃ r, Found F query category status r ∧ ¬ Wanted F query category status r := by
  obtain ⟨text, hfound, hnot⟩ := F.exists_found_not_containing h
  have hne : query ≠ "" := by
    rintro rfl
    obtain ⟨c, hc, -⟩ := h
    cases hc
  refine ⟨⟨⟨0, 0, String.ofList text, category, String.ofList text, status, 0, 0⟩, none, none⟩,
    ⟨.inr (.inl ?_), .inr rfl, .inr rfl⟩, ?_⟩
  · rw [String.toList_ofList]
    exact hfound
  · rintro ⟨hquery | hin | hin, -⟩
    · exact hne hquery
    · rw [String.toList_ofList] at hin
      exact hnot hin
    · rw [String.toList_ofList] at hin
      exact hnot hin

end Calls

/-- The search is the literal one on every set of reports exactly if the text has no
special character of patterns and no text has a zero byte. -/
theorem findsWanted_iff_plain (query category status : String) :
    (∀ w, FindsWanted F w query category status) ↔
      (∀ c ∈ query.toList, isSpecial c = false) ∧
        storable query = true ∧ storable category = true ∧ storable status = true := by
  cases hs : storable query && (storable category && storable status) with
  | false =>
    refine iff_of_false (fun h => not_findsWanted_of_unstorable hs (h .empty)) ?_
    rintro ⟨-, hquery, hcategory, hstatus⟩
    rw [hquery, hcategory, hstatus] at hs
    cases hs
  | true =>
    have hparts : storable query = true ∧ storable category = true ∧ storable status = true := by
      simpa only [Bool.and_eq_true] using hs
    simp only [hparts, and_true, findsWanted_iff_found hs]
    constructor
    · intro h c hc
      rw [← Bool.not_eq_true]
      intro hspecial
      obtain ⟨r, hfound, hnot⟩ : ∃ r, Found F query category status r ∧
        ¬ Wanted F query category status r := exists_found_unwanted ⟨c, hc, hspecial⟩
      exact hnot ((h ⟨[r], by simp⟩ r (by simp)).mp hfound)
    · exact fun h w r _ => found_iff_wanted h r

theorem toLower_of_special {c : Char} (h : isSpecial c = true) : c.toLower = c := by
  simp only [isSpecial, Bool.or_eq_true, decide_eq_true_eq] at h
  rcases h with (rfl | rfl) | rfl <;> rfl

theorem special_of_toLower {c : Char} (h : isSpecial c.toLower = true) : isSpecial c = true := by
  unfold Char.toLower at h
  split at h
  · rename_i hupper
    have hlow : 65 ≤ c.val.toNat := UInt32.le_iff_toNat_le.mp hupper.1
    have hhigh : c.val.toNat ≤ 90 := UInt32.le_iff_toNat_le.mp hupper.2
    have hval : (c.val + ('a'.val - 'A'.val)).toNat = c.val.toNat + 32 := by
      rw [UInt32.toNat_add]
      exact Nat.mod_eq_of_lt (by change _ + 32 < _; omega)
    -- the lower case of a letter is another letter
    simp only [isSpecial, Bool.or_eq_true, decide_eq_true_eq, Char.ext_iff] at h
    rcases h with (h | h) | h <;> rw [h] at hval
    · exact absurd hval (ne_of_lt (by change 37 < _; omega))
    · exact absurd hval (ne_of_lt (by change 95 < _; omega))
    · exact absurd hval (ne_of_lt (by change 92 < _; omega))
  · exact h

/-- The locale in which only ASCII letters have a case. -/
def asciiFolding : Folding :=
  ⟨Char.toLower, fun _ => toLower_of_special, fun _ => special_of_toLower⟩

/-- One report on `jane.doe@mail.test`. -/
def oneReport : ReportStore :=
  ⟨[⟨⟨1, 2, "jane.doe@mail.test", "theft", "", "pending", 0, 0⟩, none, none⟩],
    List.nodup_singleton _⟩

/-- The search for `jane_doe` finds it. -/
theorem underscore_matches_dot : ¬ ∀ (F : Folding) (w : ReportStore)
    (query category status : String), FindsWanted F w query category status := by
  intro h
  have hfinds := (findsWanted_iff_found (by decide)).mp (h asciiFolding oneReport "jane_doe" "" "")
  exact absurd (hfinds _ (List.mem_singleton.mpr rfl)) (by decide)

end SafetyDao.ReportSearch
