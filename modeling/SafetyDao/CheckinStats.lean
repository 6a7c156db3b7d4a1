import Mathlib.Algebra.Order.Field.Basic
import Mathlib.Tactic.Linarith
import Mathlib.Tactic.Positivity
import SafetyDao.Histogram
import SafetyDao.ReportTrends
import SafetyDao.SafetyStore

/-!
# Statistics of check-ins

`checkin_stats` takes the share of completed check-ins and counts the timestamps by the hour and by
the day of the week. It throws on a timestamp that is none, and it may on a mean of no durations.
Rounding and the mean of floating-point numbers are parameters.
-/
namespace SafetyDao.CheckinStats
open Histogram (occurrences)
open Json (writeInt)
open ReportTrends (Conserves conserves_of_counts writeInt_injective)

section Model

/-- Milliseconds, of which the first day of the year 1 begins after one day's. -/
structure DateTime where
  value : ℤ
deriving DecidableEq

namespace DateTime

def hour (dt : DateTime) : ℤ := dt.value / 3600000 % 24

/-- Days of the week from Monday on; the first day of the year 1 was one. -/
def dayOfWeek (dt : DateTime) : ℤ := (dt.value / 86400000 - 1) % 7

def dayNames : List Text :=
  ["Monday", "Tuesday", "Wednesday", "Thursday", "Friday", "Saturday", "Sunday"].map String.toList

def dayname (dt : DateTime) : Text := dayNames.getD dt.dayOfWeek.toNat []

def hourKey (dt : DateTime) : Text := writeInt dt.hour

end DateTime

/-- The columns of the data frame that are read, each present or not. A duration can be missing. -/
structure CheckinsFrame (δ : Type) where
  nrow : ℕ
  status : Option (List Text)
  durationMinutes : Option (List (Option ℚ))
  timestamp : Option (List δ)
  length_status : ∀ statuses ∈ status, statuses.length = nrow
  length_durationMinutes : ∀ durations ∈ durationMinutes, durations.length = nrow
  length_timestamp : ∀ timestamps ∈ timestamp, timestamps.length = nrow

structure Stats (φ : Type) where
  totalCheckins : ℕ
  completionRate : ℚ
  avgDurationMinutes : φ
  byHour : Histogram Text
  byDay : Histogram Text

variable {δ φ : Type} [Zero φ] (toDateTime : δ → Option DateTime)
  (meanRound1 : List ℚ → Option φ) (round1 : ℚ → ℚ)

/-- `toDateTime` is `Dates.DateTime` on the values of the timestamp column, and `meanRound1` is
`mean` of the durations that are not missing with its rounding. -/
def checkinStats (checkins : CheckinsFrame δ) : Option (Stats φ) :=
  let total := checkins.nrow
  if total = 0 then some ⟨0, 0, 0, ∅, ∅⟩
  else do
    let completed := match checkins.status with
      | none => 0
      | some statuses => occurrences statuses "completed".toList
    let completionRate : ℚ := if 0 < total then completed / total * 100 else 0
    let avgDuration ← match checkins.durationMinutes with
      | none => some 0
      | some durations => meanRound1 durations.reduceOption
    let dts ← match checkins.timestamp with
      | none => some []
      | some timestamps => timestamps.mapM toDateTime
    let byHour := Histogram.tally (dts.map DateTime.hourKey)
    let byDay := Histogram.tally (dts.map DateTime.dayname)
    return ⟨total, round1 completionRate, avgDuration, byHour, byDay⟩

end Model

section Throwing

variable {α β : Type} {f : α → Option β} {xs : List α}

/-- A list is mapped if each of its elements is. -/
theorem mapM_eq_some {ys : List β} (h : xs.mapM f = some ys) : xs.map f = ys.map some := by
  induction xs generalizing ys with
  | nil =>
    cases h
    rfl
  | cons x xs ih =>
    rw [List.mapM_cons, Option.bind_eq_bind, Option.bind_eq_some_iff] at h
    obtain ⟨y, hy, hrest⟩ := h
    rw [Option.bind_eq_bind, Option.bind_eq_some_iff] at hrest
    obtain ⟨rest, hxs, hcons⟩ := hrest
    cases hcons
    rw [List.map_cons, List.map_cons, hy, ih hxs]

theorem mapM_eq_none : xs.mapM f = none ↔ ∃ x ∈ xs, f x = none := by
  induction xs with
  | nil => exact ⟨nofun, by rintro ⟨x, ⟨⟩, -⟩⟩
  | cons x xs ih =>
    rw [List.mapM_cons, List.exists_mem_cons_iff, ← ih]
    cases hx : f x with
    | none => exact ⟨fun _ => .inl rfl, fun _ => rfl⟩
    | some y =>
      cases hxs : xs.mapM f with
      | none => exact ⟨fun _ => .inr rfl, fun _ => rfl⟩
      | some ys => exact ⟨nofun, fun h => h.elim nofun nofun⟩

end Throwing

section Keys

/-- Different days have different names. -/
theorem dayname_inj {d d' : DateTime} : d.dayname = d'.dayname ↔ d.dayOfWeek = d'.dayOfWeek := by
  have hnames : ∀ i < 7, ∀ j < 7, DateTime.dayNames.getD i [] = DateTime.dayNames.getD j [] →
      i = j := by decide
  have hday : ∀ d : DateTime, 0 ≤ d.dayOfWeek ∧ d.dayOfWeek < 7 := by
    intro d
    unfold DateTime.dayOfWeek
    omega
  constructor
  · intro h
    have hd := hday d
    have hd' := hday d'
    have hindex := hnames d.dayOfWeek.toNat (by omega) d'.dayOfWeek.toNat (by omega) h
    omega
  · intro h
    rw [DateTime.dayname, DateTime.dayname, h]

theorem hourKey_inj {d d' : DateTime} : d.hourKey = d'.hourKey ↔ d.hour = d'.hour :=
  writeInt_injective.eq_iff

end Keys

section Rate

/-- A share of a nonempty whole, in percent. -/
theorem rate_mem {part whole : ℕ} (hpos : 0 < whole) (hle : part ≤ whole) :
    (0 : ℚ) ≤ part / whole * 100 ∧ (part : ℚ) / whole * 100 ≤ 100 ∧
      ((part : ℚ) / whole * 100 = 100 ↔ part = whole) := by
  have hwhole : (0 : ℚ) < whole := Nat.cast_pos.mpr hpos
  have hshare : (part : ℚ) / whole ≤ 1 := (div_le_one hwhole).mpr (Nat.cast_le.mpr hle)
  have hone : (part : ℚ) / whole = 1 ↔ part = whole := by
    rw [div_eq_one_iff_eq hwhole.ne', Nat.cast_inj]
  refine ⟨by positivity, by linarith, ?_⟩
  rw [← hone]
  constructor
  · intro h
    linarith
  · intro h
    rw [h, one_mul]

/-- All occur if the occurrences are as many as the elements. -/
theorem occurrences_eq_length {statuses : List Text} {s : Text} :
    occurrences statuses s = statuses.length ↔ ∀ status ∈ statuses, status = s := by
  simp [occurrences, List.countP_eq_length]

/-- Of the statuses of check-ins, those of the completed ones are counted. -/
theorem occurrences_completed (rows : List CheckIn) :
    occurrences (rows.map fun r => r.status.text.toList) "completed".toList =
      rows.countP fun r => r.status = .completed := by
  rw [occurrences, List.countP_map]
  refine List.countP_congr fun r _ => ?_
  cases hstatus : r.status <;> simp [hstatus, CheckInStatus.text]

end Rate

section Frame

variable {δ φ : Type} [Zero φ] (toDateTime : δ → Option DateTime)
  (meanRound1 : List ℚ → Option φ) {checkins : CheckinsFrame δ}
  {statuses : List Text} {timestamps : List δ}

/-- The average of the durations, if they are there. -/
def avgDuration (checkins : CheckinsFrame δ) : Option φ :=
  match checkins.durationMinutes with
  | none => some 0
  | some durations => meanRound1 durations.reduceOption

/-- What is computed of a frame with rows, statuses and timestamps. -/
theorem checkinStats_eq (hrows : checkins.nrow ≠ 0) (hstatus : checkins.status = some statuses)
    (htimestamp : checkins.timestamp = some timestamps) :
    checkinStats toDateTime meanRound1 id checkins =
      (avgDuration meanRound1 checkins).bind fun avg =>
        (timestamps.mapM toDateTime).map fun dts =>
          ⟨checkins.nrow, occurrences statuses "completed".toList / checkins.nrow * 100, avg,
            Histogram.tally (dts.map DateTime.hourKey),
            Histogram.tally (dts.map DateTime.dayname)⟩ := by
  simp only [checkinStats, if_neg hrows, hstatus, htimestamp,
    if_pos (Nat.pos_of_ne_zero hrows), id, Option.bind_eq_bind, Option.pure_def, avgDuration,
    Option.map_eq_bind]
  cases checkins.durationMinutes <;> rfl

/-- It throws when the mean of the durations or a conversion of a timestamp does. -/
theorem checkinStats_eq_none (hrows : checkins.nrow ≠ 0)
    (hstatus : checkins.status = some statuses)
    (htimestamp : checkins.timestamp = some timestamps) :
    checkinStats toDateTime meanRound1 id checkins = none ↔
      (∃ durations ∈ checkins.durationMinutes, meanRound1 durations.reduceOption = none) ∨
        ∃ ts ∈ timestamps, toDateTime ts = none := by
  have havg : avgDuration meanRound1 checkins = none ↔
      ∃ durations ∈ checkins.durationMinutes, meanRound1 durations.reduceOption = none := by
    unfold avgDuration
    cases checkins.durationMinutes with
    | none => exact ⟨nofun, by rintro ⟨durations, ⟨⟩, -⟩⟩
    | some durations =>
      exact ⟨fun h => ⟨durations, rfl, h⟩, by rintro ⟨_, ⟨⟩, h⟩; exact h⟩
  rw [checkinStats_eq toDateTime meanRound1 hrows hstatus htimestamp, ← havg, ← mapM_eq_none]
  cases avgDuration meanRound1 checkins with
  | none => exact ⟨fun _ => .inl rfl, fun _ => rfl⟩
  | some avg =>
    rw [Option.bind_some, Option.map_eq_none_iff]
    exact ⟨.inr, fun h => h.resolve_left nofun⟩

end Frame

variable {δ φ : Type} [Zero φ]

/-- Three check-ins on the first two days of 2025, a Wednesday and a Thursday. -/
def sampleCheckins : CheckinsFrame DateTime where
  nrow := 3
  status := some (["completed", "missed", "completed"].map String.toList)
  durationMinutes := none
  timestamp := some [⟨63871410600000⟩, ⟨63871453800000⟩, ⟨63871493400000⟩]
  length_status := by rintro _ ⟨⟩; rfl
  length_durationMinutes := nofun
  length_timestamp := by rintro _ ⟨⟩; rfl

end SafetyDao.CheckinStats
