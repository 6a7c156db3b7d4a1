import SafetyDao.Histogram
import SafetyDao.Json
import SafetyDao.TopRanked

/-!
# Trends of reports

`report_trends` counts the reports by category and by region with a pass for each value, by month
in a single pass, and ranks the categories. The order in which Julia lists a dictionary is a
parameter.
-/
namespace SafetyDao.ReportTrends
open Histogram (occurrences)
open Json (writeInt)

section Model

structure Date where
  year : ℤ
  month : ℕ
  day : ℕ
deriving DecidableEq

/-- `Dates.format(date, "Y-m")`: neither number is padded or cut. -/
def monthKey (d : Date) : Text := writeInt d.year ++ '-' :: writeInt d.month

/-- The columns of the data frame that are read, each present or not. -/
structure ReportsFrame (δ : Type) where
  nrow : ℕ
  category : Option (List Text)
  region : Option (List Text)
  date : Option (List δ)
  length_category : ∀ cats ∈ category, cats.length = nrow
  length_region : ∀ regions ∈ region, regions.length = nrow
  length_date : ∀ dates ∈ date, dates.length = nrow

/-- The order in which `collect` lists a dictionary. -/
structure DictOrder where
  collect : Histogram Text → List (Text × ℕ)
  collect_perm : ∀ dict, (collect dict).Perm (dict.entries.map fun e => (e.1, e.2))

structure Trends where
  totalReports : ℕ
  byCategory : Histogram Text
  byRegion : Histogram Text
  byMonth : Histogram Text
  trendingCategories : List Text

variable {δ : Type} (order : DictOrder) (toDate : δ → Date)

/-- `toDate` is `Dates.Date` on the values of the date column. -/
def reportTrends (reports : ReportsFrame δ) : Trends :=
  let total := reports.nrow
  if total = 0 then ⟨0, ∅, ∅, ∅, []⟩
  else
    let byCategory := match reports.category with
      | none => ∅
      | some cats => Histogram.recount cats
    let byRegion := match reports.region with
      | none => ∅
      | some regions => Histogram.recount regions
    let byMonth := match reports.date with
      | none => ∅
      | some dates => Histogram.tally (dates.map fun d => monthKey (toDate d))
    let sortedCats := (order.collect byCategory).insertionSort fun a b => b.2 ≤ a.2
    ⟨total, byCategory, byRegion, byMonth, (sortedCats.take 5).map Prod.fst⟩

end Model

section Keys

/-- A written number ends where the next sign begins. -/
theorem writeInt_append_inj {m n : ℤ} {rest rest' : Text}
    (h : writeInt m ++ '-' :: rest = writeInt n ++ '-' :: rest') : m = n ∧ rest = rest' := by
  have hends : ∀ t : Text, Json.EndsNumber ('-' :: t) := by
    intro t c hc
    obtain rfl := Option.some.inj hc
    decide
  have hparsed := congrArg Json.parseNumber h
  rw [Json.parseNumber_writeInt m (hends rest),
    Json.parseNumber_writeInt n (hends rest')] at hparsed
  simp only [Option.some.injEq, Prod.mk.injEq, Int.cast_inj, List.cons.injEq, true_and] at hparsed
  exact hparsed

theorem writeInt_injective : Function.Injective writeInt := by
  intro m n h
  exact (writeInt_append_inj (congrArg (· ++ ['-']) h)).1

/-- The keys of two dates are the same in the same month of the same year only. -/
theorem monthKey_inj {d d' : Date} :
    monthKey d = monthKey d' ↔ d.year = d'.year ∧ d.month = d'.month := by
  constructor
  · intro h
    obtain ⟨hyear, hmonth⟩ := writeInt_append_inj h
    exact ⟨hyear, Int.ofNat.inj (writeInt_injective hmonth)⟩
  · rintro ⟨hyear, hmonth⟩
    rw [monthKey, monthKey, hyear, hmonth]

end Keys

section Conservation

/-- The values are the numbers of reports with each key, and add up to all reports. -/
structure Conserves (dict : Histogram Text) (keys : List Text) (total : ℕ) : Prop where
  counts : Histogram.Counts dict keys
  sum : (Histogram.values dict).sum = total

theorem conserves_of_counts {dict : Histogram Text} {keys : List Text} {total : ℕ}
    (h : Histogram.Counts dict keys) (hlength : keys.length = total) :
    Conserves dict keys total :=
  ⟨h, h.sum_values.trans hlength⟩

/-- However the dictionary is listed, the first five in the order of their counts are the five
most frequent categories. -/
theorem isTop_trending (order : DictOrder) {dict : Histogram Text} {cats : List Text}
    (h : Histogram.Counts dict cats) :
    IsTop (occurrences cats) cats.dedup 5
      ((((order.collect dict).insertionSort fun a b => b.2 ≤ a.2).take 5).map Prod.fst) := by
  have hlisted : (order.collect dict).Perm (cats.dedup.map fun c => (c, occurrences cats c)) := by
    have hperm := h.entries_perm.map fun e => (e.1, e.2)
    rw [List.map_map] at hperm
    exact (order.collect_perm dict).trans hperm
  have hnodup : (order.collect dict).Nodup := by
    refine hlisted.nodup_iff.mpr (cats.nodup_dedup.map fun _ _ heq => ?_)
    exact (Prod.mk.inj heq).1
  have hcount : ∀ e ∈ order.collect dict, occurrences cats e.1 = e.2 := by
    intro e he
    obtain ⟨c, -, rfl⟩ := List.mem_map.mp (hlisted.subset he)
    rfl
  have hkey : ∀ e ∈ order.collect dict, ∀ e' ∈ order.collect dict, e.1 = e'.1 → e = e' := by
    intro e he e' he' heq
    refine Prod.ext heq ?_
    rw [← hcount e he, ← hcount e' he', heq]
  have hkeys : ((order.collect dict).map Prod.fst).Perm cats.dedup := by
    have hmapped := hlisted.map Prod.fst
    rw [List.map_map] at hmapped
    exact hmapped.trans (.of_eq (List.map_id _))
  have htop : IsTop (occurrences cats) ((order.collect dict).map Prod.fst) 5
      ((((order.collect dict).insertionSort fun a b => b.2 ≤ a.2).take 5).map Prod.fst) :=
    (isTop_take_insertionSort hnodup Prod.snd 5).map hkey hcount
  exact htop.of_perm hkeys

end Conservation

section Claims

variable {δ : Type}

/-- Each of the three dictionaries conserves the reports, months have keys of their own, and the
trending categories are the five most frequent, or all if they are fewer. -/
theorem reportTrends_conserves (order : DictOrder) (toDate : δ → Date) {reports : ReportsFrame δ}
    {cats regions : List Text} {dates : List δ} (hrows : reports.nrow ≠ 0)
    (hcats : reports.category = some cats) (hregions : reports.region = some regions)
    (hdates : reports.date = some dates) :
    let trends := reportTrends order toDate reports
    trends.totalReports = reports.nrow ∧
      Conserves trends.byCategory cats trends.totalReports ∧
      Conserves trends.byRegion regions trends.totalReports ∧
      Conserves trends.byMonth (dates.map fun d => monthKey (toDate d)) trends.totalReports ∧
      (∀ d d' : δ, monthKey (toDate d) = monthKey (toDate d') ↔
        (toDate d).year = (toDate d').year ∧ (toDate d).month = (toDate d').month) ∧
      IsTop (occurrences cats) cats.dedup 5 trends.trendingCategories := by
  have htrends : reportTrends order toDate reports =
      ⟨reports.nrow, Histogram.recount cats, Histogram.recount regions,
        Histogram.tally (dates.map fun d => monthKey (toDate d)),
        (((order.collect (Histogram.recount cats)).insertionSort fun a b => b.2 ≤ a.2).take 5).map
          Prod.fst⟩ := by
    rw [reportTrends, if_neg hrows, hcats, hregions, hdates]
  have hmonths : (dates.map fun d => monthKey (toDate d)).length = reports.nrow := by
    rw [List.length_map, reports.length_date dates hdates]
  dsimp only
  rw [htrends]
  refine ⟨rfl, ?_, ?_, ?_, fun _ _ => monthKey_inj, ?_⟩
  · exact conserves_of_counts (Histogram.counts_recount cats) (reports.length_category cats hcats)
  · exact conserves_of_counts (Histogram.counts_recount regions)
      (reports.length_region regions hregions)
  · exact conserves_of_counts (Histogram.counts_tally _) hmonths
  · exact isTop_trending order (Histogram.counts_recount cats)

/-- The entries as they come. -/
def asStored : DictOrder := ⟨fun dict => dict.entries.map fun e => (e.1, e.2), fun _ => .refl _⟩

/-- Eight reports of the first quarter of 2025. -/
def sampleReports : ReportsFrame Date where
  nrow := 8
  category := some (["safety", "harassment", "safety", "medical", "harassment", "safety", "medical",
    "legal"].map String.toList)
  region := some (["north", "south", "east", "west", "north", "south", "east", "west"].map
    String.toList)
  date := some [⟨2025, 1, 15⟩, ⟨2025, 2, 20⟩, ⟨2025, 3, 10⟩, ⟨2025, 1, 25⟩, ⟨2025, 2, 5⟩,
    ⟨2025, 3, 15⟩, ⟨2025, 1, 30⟩, ⟨2025, 2, 28⟩]
  length_category := by rintro _ ⟨⟩; rfl
  length_region := by rintro _ ⟨⟩; rfl
  length_date := by rintro _ ⟨⟩; rfl

theorem sampleReports_conserves :
    (Histogram.values (reportTrends asStored id sampleReports).byMonth).sum = 8 ∧
      (reportTrends asStored id sampleReports).trendingCategories.length = 4 := by
  have hrows : sampleReports.nrow ≠ 0 := by decide
  obtain ⟨htotal, -, -, hmonth, -, htop⟩ :=
    reportTrends_conserves asStored id hrows rfl rfl rfl
  exact ⟨hmonth.sum.trans htotal, htop.length_eq⟩

end Claims

end SafetyDao.ReportTrends
