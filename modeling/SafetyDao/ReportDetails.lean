import SafetyDao.BrowserSession
import SafetyDao.ReportForm

/-!
# Report details between the form and the registry page

The form puts the details into base64 with `btoa`, and the page and its cards read them with
`atob`. Both know bytes only: the details come back as they were as long as each of their
characters is one, and any other character makes the form's own step throw. The search of the page
reads the details too, and throws when it gets to some that it cannot read.
-/
namespace SafetyDao

/-- The code units of a text: one for a character below U+10000, a pair of surrogates for any
other. -/
def Text.utf16 (t : Text) : List ℕ :=
  t.flatMap fun c =>
    if c.toNat < 0x10000 then [c.toNat]
    else [0xD800 + (c.toNat - 0x10000) / 0x400, 0xDC00 + (c.toNat - 0x10000) % 0x400]

/-- A pair of surrogates has no unit that is a byte. -/
theorem Text.utf16_lt_256 {t : Text} : (∀ u ∈ t.utf16, u < 256) ↔ ∀ c ∈ t, c.toNat < 256 := by
  simp only [utf16, List.forall_mem_flatMap]
  refine forall₂_congr fun c _ => ?_
  split
  · rw [List.forall_mem_singleton]
  · rename_i hbig
    simp only [List.forall_mem_cons, List.not_mem_nil, false_implies, implies_true, and_true]
    omega

namespace RegistryPage

inductive Status where
  | pending | verified | dismissed
deriving DecidableEq

def Status.text : Status → Text
  | .pending => "pending".toList
  | .verified => "verified".toList
  | .dismissed => "dismissed".toList

/-- A report as the page gets it. -/
structure BadClientReport where
  encryptedDetails : Text
  reportCategory : Text
  status : Status
deriving DecidableEq

/-- `atob(report.encryptedDetails)`, which may throw. -/
def details (r : BadClientReport) : Option Text := BrowserSession.atob r.encryptedDetails

/-- What a card shows of the details. -/
def cardText (r : BadClientReport) : Option Text :=
  (details r).map fun text => text.take 120 ++ "...".toList

variable (toLowerCase : Text → Text)

def matchesSearch (search : Text) (r : BadClientReport) : Option Bool :=
  if search = [] then some true
  else if toLowerCase search <:+: toLowerCase r.reportCategory then some true
  else (details r).map fun text => decide (toLowerCase search <:+: toLowerCase text)

def matchesMenus (category status : Text) (r : BadClientReport) : Bool :=
  (category = "All".toList ∨ r.reportCategory = category) ∧
    (status = "All".toList ∨ r.status.text = status)

/-- The reports under the search field and the two menus. -/
def filtered (search category status : Text) (reports : List BadClientReport) :
    Option (List BadClientReport) :=
  reports.filterM fun r => (matchesSearch toLowerCase search r).map
    (· && matchesMenus category status r)

section Codec

/-- The details get through the form's encoding, and what reads them gets the same text. -/
def Readable (text : Text) : Prop :=
  ∃ encryptedDetails, ReportForm.btoa text = .ok encryptedDetails ∧
    BrowserSession.atob encryptedDetails = some text

/-- `btoa` takes a text exactly if its code units are bytes. -/
theorem btoa_isOk_iff {text : Text} :
    (∃ encryptedDetails, ReportForm.btoa text = .ok encryptedDetails) ↔
      ∀ u ∈ text.utf16, u < 256 := by
  rw [Text.utf16_lt_256]
  constructor
  · rintro ⟨encryptedDetails, hok⟩
    by_cases hall : text.all (·.toNat < 256) = true
    · simpa using hall
    · rw [ReportForm.btoa, if_neg hall] at hok
      cases hok
  · intro hbytes
    have hall : text.all (·.toNat < 256) = true := by simpa using hbytes
    exact ⟨_, if_pos hall⟩

/-- Whatever `btoa` gives, `atob` reads. -/
theorem atob_btoa {text encryptedDetails : Text}
    (h : ReportForm.btoa text = .ok encryptedDetails) :
    BrowserSession.atob encryptedDetails = some text := by
  have hbytes : ∀ c ∈ text, c.toNat < 256 := Text.utf16_lt_256.mp (btoa_isOk_iff.mp ⟨_, h⟩)
  have hall : text.all (·.toNat < 256) = true := by simpa using hbytes
  rw [ReportForm.btoa, if_pos hall] at h
  obtain rfl := Except.ok.inj h
  rw [BrowserSession.atob, Base64.forgivingDecode_encode, Option.map_some,
    Text.latin1_map hbytes]

/-- The details come back exactly if they have no character from U+0100 on. -/
theorem readable_iff (text : Text) : Readable text ↔ ∀ c ∈ text, c.toNat < 256 := by
  rw [← Text.utf16_lt_256, ← btoa_isOk_iff]
  constructor
  · rintro ⟨encryptedDetails, hok, -⟩
    exact ⟨encryptedDetails, hok⟩
  · rintro ⟨encryptedDetails, hok⟩
    exact ⟨encryptedDetails, hok, atob_btoa hok⟩

theorem euro_not_readable : ¬ ∀ text : Text, Readable text := by
  intro h
  obtain ⟨encryptedDetails, hok, -⟩ := h "Zahlte 100 € nicht".toList
  have hthrown : ReportForm.btoa "Zahlte 100 € nicht".toList =
      .error "The string to be encoded contains characters outside of the Latin1 range." := rfl
  rw [hthrown] at hok
  cases hok

end Codec

section Page

/-- The search looks for its text in the details, and they cannot be read. -/
def Stuck (search : Text) (r : BadClientReport) : Prop :=
  search ≠ [] ∧ ¬ toLowerCase search <:+: toLowerCase r.reportCategory ∧ details r = none

/-- The report has the text in its category or its details, and is of the category and the status
of the menus. -/
def Wanted (search category status : Text) (r : BadClientReport) : Prop :=
  (search = [] ∨ toLowerCase search <:+: toLowerCase r.reportCategory ∨
    (details r).any fun text => toLowerCase search <:+: toLowerCase text) ∧
  (category = "All".toList ∨ r.reportCategory = category) ∧
  (status = "All".toList ∨ r.status.text = status)

instance (search category status : Text) (r : BadClientReport) :
    Decidable (Wanted toLowerCase search category status r) :=
  inferInstanceAs (Decidable (_ ∧ _))

theorem matchesSearch_eq_none {search : Text} {r : BadClientReport} :
    matchesSearch toLowerCase search r = none ↔ Stuck toLowerCase search r := by
  rw [matchesSearch, Stuck]
  split
  · simp_all
  · split <;> simp_all

theorem matches_of_not_stuck {search : Text} {r : BadClientReport}
    (h : ¬ Stuck toLowerCase search r) (category status : Text) :
    (matchesSearch toLowerCase search r).map (· && matchesMenus category status r) =
      some (decide (Wanted toLowerCase search category status r)) := by
  have hmenus : matchesMenus category status r = true ↔
      (category = "All".toList ∨ r.reportCategory = category) ∧
        (status = "All".toList ∨ r.status.text = status) := decide_eq_true_iff
  have hsearch : ∃ found : Bool, matchesSearch toLowerCase search r = some found ∧
      (found = true ↔ search = [] ∨ toLowerCase search <:+: toLowerCase r.reportCategory ∨
        (details r).any fun text => toLowerCase search <:+: toLowerCase text) := by
    rw [matchesSearch]
    by_cases hempty : search = []
    · exact ⟨true, if_pos hempty, iff_of_true rfl (.inl hempty)⟩
    by_cases hcategory : toLowerCase search <:+: toLowerCase r.reportCategory
    · exact ⟨true, by rw [if_neg hempty, if_pos hcategory], iff_of_true rfl (.inr (.inl hcategory))⟩
    cases hdetails : details r with
    | none => exact absurd ⟨hempty, hcategory, hdetails⟩ h
    | some text =>
      refine ⟨_, by rw [if_neg hempty, if_neg hcategory, Option.map_some], ?_⟩
      simp [hempty, hcategory]
  obtain ⟨found, hfound, hiff⟩ := hsearch
  rw [hfound, Option.map_some, Option.some.injEq, Bool.eq_iff_iff, Bool.and_eq_true, hiff, hmenus,
    decide_eq_true_eq, Wanted]

theorem filterAuxM_eq_none {α : Type} {f : α → Option Bool} {xs : List α}
    (h : ∃ x ∈ xs, f x = none) (acc : List α) : xs.filterAuxM f acc = none := by
  induction xs generalizing acc with
  | nil => exact absurd h (by simp)
  | cons x xs ih =>
    rw [List.filterAuxM]
    cases hx : f x with
    | none => rfl
    | some b =>
      obtain ⟨y, hy, hnone⟩ := h
      rcases List.mem_cons.mp hy with rfl | hy
      · rw [hx] at hnone
        cases hnone
      · exact ih ⟨y, hy, hnone⟩ _

theorem filterAuxM_eq {α : Type} {f : α → Option Bool} {p : α → Bool} {xs : List α}
    (h : ∀ x ∈ xs, f x = some (p x)) (acc : List α) :
    xs.filterAuxM f acc = some ((xs.filter p).reverse ++ acc) := by
  induction xs generalizing acc with
  | nil => rfl
  | cons x xs ih =>
    have hrest := ih fun y hy => h y (List.mem_cons_of_mem x hy)
    rw [List.filterAuxM, h x List.mem_cons_self, Option.bind_eq_bind, Option.bind_some, hrest]
    cases hp : p x <;> simp [hp]

/-- A filter whose test always answers is an ordinary filter. -/
theorem filterM_eq {α : Type} {f : α → Option Bool} {p : α → Bool} {xs : List α}
    (h : ∀ x ∈ xs, f x = some (p x)) : xs.filterM f = some (xs.filter p) := by
  rw [List.filterM, filterAuxM_eq h, Option.bind_eq_bind, Option.bind_some, List.append_nil,
    List.reverse_reverse]
  rfl

/-- The page throws exactly if the search gets to details that cannot be read, and otherwise shows
the wanted reports in their order. What the form has encoded is read as it was entered, and its
card starts with it. -/
theorem filtered_exact (search category status : Text) (reports : List BadClientReport) :
    (filtered toLowerCase search category status reports = none ↔
      ∃ r ∈ reports, Stuck toLowerCase search r) ∧
    (∀ shown, filtered toLowerCase search category status reports = some shown →
      shown = reports.filter (Wanted toLowerCase search category status)) ∧
    ∀ r text, ReportForm.btoa text = .ok r.encryptedDetails →
      details r = some text ∧ cardText r = some (text.take 120 ++ "...".toList) := by
  have hcards : ∀ r text, ReportForm.btoa text = .ok r.encryptedDetails →
      details r = some text ∧ cardText r = some (text.take 120 ++ "...".toList) := by
    intro r text h
    have hdetails : details r = some text := atob_btoa h
    exact ⟨hdetails, by rw [cardText, hdetails, Option.map_some]⟩
  by_cases hstuck : ∃ r ∈ reports, Stuck toLowerCase search r
  · have hnone : filtered toLowerCase search category status reports = none := by
      obtain ⟨r, hr, hstuck⟩ := hstuck
      have htest : (matchesSearch toLowerCase search r).map
          (· && matchesMenus category status r) = none := by
        rw [(matchesSearch_eq_none toLowerCase).mpr hstuck, Option.map_none]
      rw [filtered, List.filterM, filterAuxM_eq_none ⟨r, hr, htest⟩]
      rfl
    refine ⟨iff_of_true hnone hstuck, fun shown hshown => ?_, hcards⟩
    rw [hnone] at hshown
    cases hshown
  · have hsome : filtered toLowerCase search category status reports =
        some (reports.filter (Wanted toLowerCase search category status)) :=
      filterM_eq fun r hr => matches_of_not_stuck toLowerCase (fun h => hstuck ⟨r, hr, h⟩) _ _
    refine ⟨iff_of_false (by rw [hsome]; exact nofun) hstuck, fun shown hshown => ?_, hcards⟩
    rw [hsome] at hshown
    exact (Option.some.inj hshown).symm

end Page

end RegistryPage

end SafetyDao
