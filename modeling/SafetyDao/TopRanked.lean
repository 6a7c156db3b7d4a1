import Mathlib.Data.List.Pairwise
import Mathlib.Data.List.Perm.Subperm
import Mathlib.Data.List.Sort
import Mathlib.Logic.Equiv.Basic

/-!
# The best of some candidates, best first

Ranking candidates by a score leaves open how those of equal score are put. There is always
an answer, and there is one only exactly if no tie decides what it has or in which order.
-/
namespace SafetyDao

variable {α β κ : Type} [LinearOrder β]

/-- `answer` has the `limit` best candidates, or all if they are fewer, best first. -/
structure IsTop (score : α → β) (candidates : List α) (limit : ℕ) (answer : List α) : Prop where
  nodup : answer.Nodup
  subset : answer ⊆ candidates
  length_eq : answer.length = min limit candidates.length
  ranked : answer.Pairwise fun a b => score b ≤ score a
  best : ∀ a ∈ answer, ∀ b ∈ candidates, b ∉ answer → score b ≤ score a

/-- Nothing in the answer ties with another candidate. -/
def Decided (score : α → β) (candidates answer : List α) : Prop :=
  ∀ a ∈ answer, ∀ b ∈ candidates, score b = score a → b = a

variable {score : α → β} {candidates answer other : List α} {limit : ℕ}

/-- The first of the candidates in falling order are an answer. -/
theorem isTop_take_insertionSort (hnodup : candidates.Nodup) (score : α → β) (limit : ℕ) :
    IsTop score candidates limit
      ((candidates.insertionSort fun a b => score b ≤ score a).take limit) := by
  let sorted := candidates.insertionSort fun a b => score b ≤ score a
  have hperm : sorted.Perm candidates := List.perm_insertionSort _ _
  have hsorted : sorted.Pairwise fun a b => score b ≤ score a :=
    List.pairwise_insertionSort _ _
  have hsplit := sorted.take_append_drop limit
  refine ⟨?_, ?_, ?_, ?_, fun a ha b hb hout => ?_⟩
  · exact (hperm.nodup_iff.mpr hnodup).sublist (List.take_sublist _ _)
  · exact fun a ha => hperm.subset (List.mem_of_mem_take ha)
  · rw [List.length_take, hperm.length_eq]
  · exact hsorted.sublist (List.take_sublist _ _)
  · rw [← hsplit, List.pairwise_append] at hsorted
    have hdrop : b ∈ sorted.drop limit := by
      have hmem := hperm.symm.subset hb
      rw [← hsplit, List.mem_append] at hmem
      exact hmem.resolve_left hout
    exact hsorted.2.2 a ha b hdrop

theorem exists_isTop (hnodup : candidates.Nodup) (score : α → β) (limit : ℕ) :
    ∃ answer, IsTop score candidates limit answer :=
  ⟨_, isTop_take_insertionSort hnodup score limit⟩

/-- Two candidates of one score are best in either order. -/
theorem isTop_pair {a b : α} (hne : a ≠ b) (htie : score a = score b) (hlimit : 2 ≤ limit) :
    IsTop score [a, b] limit [a, b] where
  nodup := by simp [hne]
  subset := List.Subset.refl _
  length_eq := (min_eq_right hlimit).symm
  ranked := by simp [htie]
  best := fun _ _ _ hb hout => absurd hb hout

/-- The order of the candidates does not matter. -/
theorem IsTop.of_perm {others : List α} (h : IsTop score candidates limit answer)
    (hperm : candidates.Perm others) : IsTop score others limit answer where
  nodup := h.nodup
  subset := fun _ ha => hperm.subset (h.subset ha)
  length_eq := h.length_eq.trans (by rw [hperm.length_eq])
  ranked := h.ranked
  best := fun a ha b hb hout => h.best a ha b (hperm.symm.subset hb) hout

/-- Candidates may be replaced by names of their own with the same scores. -/
theorem IsTop.map {key : α → κ} {score' : κ → β} (h : IsTop score candidates limit answer)
    (hkey : ∀ a ∈ candidates, ∀ b ∈ candidates, key a = key b → a = b)
    (hscore : ∀ a ∈ candidates, score' (key a) = score a) :
    IsTop score' (candidates.map key) limit (answer.map key) where
  nodup := h.nodup.map_on fun a ha b hb => hkey a (h.subset ha) b (h.subset hb)
  subset := List.map_subset key h.subset
  length_eq := by rw [List.length_map, List.length_map, h.length_eq]
  ranked := by
    refine List.pairwise_map.mpr (h.ranked.imp_of_mem fun ha hb hle => ?_)
    rwa [hscore _ (h.subset ha), hscore _ (h.subset hb)]
  best := by
    intro x hx y hy hout
    obtain ⟨a, ha, rfl⟩ := List.mem_map.mp hx
    obtain ⟨b, hb, rfl⟩ := List.mem_map.mp hy
    rw [hscore a (h.subset ha), hscore b hb]
    exact h.best a ha b hb fun hin => hout (List.mem_map_of_mem hin)

/-- An answer without ties is the only one. -/
theorem IsTop.eq_of_decided (h : IsTop score candidates limit answer)
    (hdecided : Decided score candidates answer) (hother : IsTop score candidates limit other) :
    other = answer := by
  have hlength : other.length = answer.length := hother.length_eq.trans h.length_eq.symm
  have hsubset : answer ⊆ other := by
    intro a ha
    by_contra hout
    -- then something else has taken the place of `a`
    obtain ⟨b, hb, hb'⟩ : ∃ b ∈ other, b ∉ answer := by
      by_contra hnone
      have hall : other ⊆ answer := fun b hb => by_contra fun hb' => hnone ⟨b, hb, hb'⟩
      have hperm : other.Perm answer :=
        (List.subperm_of_subset hother.nodup hall).perm_of_length_le hlength.ge
      exact hout (hperm.symm.subset ha)
    have hle := h.best a ha b (hother.subset hb) hb'
    have hge := hother.best b hb a (h.subset ha) hout
    exact hb' (hdecided a ha b (hother.subset hb) (le_antisymm hle hge) ▸ ha)
  have hperm : answer.Perm other :=
    (List.subperm_of_subset h.nodup hsubset).perm_of_length_le hlength.le
  refine (hperm.eq_of_pairwise (fun a b ha hb hba hab => ?_) h.ranked hother.ranked).symm
  exact (hdecided a ha b (hother.subset hb) (le_antisymm hba hab)).symm

/-- Candidates of equal score may take each other's place. -/
theorem IsTop.swap [DecidableEq α] (h : IsTop score candidates limit answer) {a b : α}
    (ha : a ∈ candidates) (hb : b ∈ candidates) (htie : score a = score b) :
    IsTop score candidates limit (answer.map (Equiv.swap a b)) := by
  have hscore : ∀ x, score (Equiv.swap a b x) = score x := by
    intro x
    rw [Equiv.swap_apply_def]
    split
    · rename_i hx
      rw [hx, htie]
    · split
      · rename_i hx
        rw [hx, htie]
      · rfl
  have hmem : ∀ x ∈ candidates, Equiv.swap a b x ∈ candidates := by
    intro x hx
    rw [Equiv.swap_apply_def]
    split
    · exact hb
    · split
      · exact ha
      · exact hx
  refine ⟨h.nodup.map (Equiv.injective _), ?_, ?_, ?_, ?_⟩
  · intro x hx
    obtain ⟨y, hy, rfl⟩ := List.mem_map.mp hx
    exact hmem y (h.subset hy)
  · rw [List.length_map, h.length_eq]
  · rw [List.pairwise_map]
    exact h.ranked.imp fun hxy => by rwa [hscore, hscore]
  · intro _ hmap y hy hout
    obtain ⟨x, hx, rfl⟩ := List.mem_map.mp hmap
    have hout' : Equiv.swap a b y ∉ answer := by
      intro hin
      exact hout (List.mem_map.mpr ⟨_, hin, Equiv.swap_apply_self a b y⟩)
    have hle := h.best x hx _ (hmem y hy) hout'
    rwa [hscore] at hle ⊢

/-- The first of the answer is a best candidate. -/
theorem IsTop.le_head {a : α} {rest : List α} (h : IsTop score candidates limit (a :: rest)) {b : α}
    (hb : b ∈ candidates) : score b ≤ score a := by
  by_cases hin : b ∈ a :: rest
  · rcases List.mem_cons.mp hin with rfl | hrest
    · exact le_rfl
    · exact (List.pairwise_cons.mp h.ranked).1 b hrest
  · exact h.best a List.mem_cons_self b hb hin

section Threshold

variable {bound : β}

/-- Nothing in the answer reaches a bound only if no candidate does. -/
theorem IsTop.lt_of_filter_eq_nil (h : IsTop score candidates limit answer) (hlimit : 0 < limit)
    (hnone : answer.filter (fun a => bound ≤ score a) = []) {b : α} (hb : b ∈ candidates) :
    score b < bound := by
  cases answer with
  | nil =>
    have hlength := h.length_eq
    have hpos := List.length_pos_of_mem hb
    rw [List.length_nil] at hlength
    omega
  | cons a rest =>
    have ha := List.filter_eq_nil_iff.mp hnone a List.mem_cons_self
    exact (h.le_head hb).trans_lt (not_le.mp fun hle => ha (decide_eq_true hle))

/-- The first of the answer that reaches a bound is a best candidate. -/
theorem IsTop.of_filter_eq_cons {a : α} {rest : List α} (h : IsTop score candidates limit answer)
    (hsome : answer.filter (fun a => bound ≤ score a) = a :: rest) :
    a ∈ candidates ∧ bound ≤ score a ∧ ∀ b ∈ candidates, score b ≤ score a := by
  have ha : a ∈ answer.filter fun a => bound ≤ score a := hsome ▸ List.mem_cons_self
  obtain ⟨hmem, hbound⟩ := List.mem_filter.mp ha
  cases answer with
  | nil => cases hmem
  | cons first tail =>
    have hfirst : bound ≤ score first :=
      (of_decide_eq_true hbound).trans (h.le_head (h.subset hmem))
    rw [List.filter_cons, if_pos (decide_eq_true hfirst)] at hsome
    obtain rfl : first = a := (List.cons.inj hsome).1
    exact ⟨h.subset hmem, hfirst, fun b hb => h.le_head hb⟩

/-- What of the answer reaches a bound is an answer among the candidates that do. -/
theorem IsTop.filter (h : IsTop score candidates limit answer) (hnodup : candidates.Nodup)
    (bound : β) : IsTop score (candidates.filter fun a => bound ≤ score a) limit
      (answer.filter fun a => bound ≤ score a) := by
  have hsubset : answer.filter (fun a => bound ≤ score a) ⊆
      candidates.filter fun a => bound ≤ score a := by
    intro a ha
    obtain ⟨ha, hbound⟩ := List.mem_filter.mp ha
    exact List.mem_filter.mpr ⟨h.subset ha, hbound⟩
  refine ⟨h.nodup.filter _, hsubset, ?_, h.ranked.filter _, fun a ha b hb hout => ?_⟩
  · have hle : (answer.filter fun a => bound ≤ score a).length ≤
        (candidates.filter fun a => bound ≤ score a).length :=
      (List.subperm_of_subset (h.nodup.filter _) hsubset).length_le
    have hanswer := h.length_eq
    have hcandidates := List.length_filter_le (fun a => decide (bound ≤ score a)) candidates
    by_cases hall : ∀ a ∈ answer, bound ≤ score a
    · have hsame : answer.filter (fun a => bound ≤ score a) = answer :=
        List.filter_eq_self.mpr fun a ha => decide_eq_true (hall a ha)
      rw [hsame] at hle ⊢
      omega
    · -- one of the answer falls short, so every candidate that reaches the bound is in it
      obtain ⟨a, ha, hlow⟩ : ∃ a ∈ answer, ¬ bound ≤ score a := by simpa using hall
      have hin : candidates.filter (fun a => bound ≤ score a) ⊆
          answer.filter fun a => bound ≤ score a := by
        intro b hb
        obtain ⟨hb, hbound⟩ := List.mem_filter.mp hb
        refine List.mem_filter.mpr ⟨?_, hbound⟩
        by_contra hout
        exact hlow ((of_decide_eq_true hbound).trans (h.best a ha b hb hout))
      have hge := (List.subperm_of_subset (hnodup.filter _) hin).length_le
      have hfilter := List.length_filter_le (fun a => decide (bound ≤ score a)) answer
      omega
  · obtain ⟨hmem, hbound⟩ := List.mem_filter.mp hb
    refine h.best a (List.mem_of_mem_filter ha) b hmem fun hin => ?_
    exact hout (List.mem_filter.mpr ⟨hin, hbound⟩)

end Threshold

/-- An answer with room for all candidates is all of them. -/
theorem IsTop.perm (h : IsTop score candidates limit answer) (hroom : candidates.length ≤ limit) :
    answer.Perm candidates := by
  refine (List.subperm_of_subset h.nodup h.subset).perm_of_length_le ?_
  rw [h.length_eq, min_eq_right hroom]

/-- Whatever the ties, the scores of an answer are the best scores. -/
theorem IsTop.map_score (h : IsTop score candidates limit answer) (hnodup : candidates.Nodup) :
    answer.map score = ((candidates.map score).insertionSort fun x y => y ≤ x).take limit := by
  obtain ⟨rest, hrest⟩ : ∃ rest, candidates.Perm (answer ++ rest) := by
    obtain ⟨l, hl, hsub⟩ := List.subperm_of_subset h.nodup h.subset
    obtain ⟨rest, hrest⟩ := hsub.exists_perm_append
    exact ⟨rest, hrest.trans (hl.append_right rest)⟩
  have hranked : (answer.map score).Pairwise fun x y => y ≤ x := List.pairwise_map.mpr h.ranked
  have hsorted : ((answer ++ rest.insertionSort fun a b => score b ≤ score a).map score).Pairwise
      fun x y => y ≤ x := by
    rw [List.map_append, List.pairwise_append]
    refine ⟨hranked, List.pairwise_map.mpr (List.pairwise_insertionSort _ _), ?_⟩
    intro x hx y hy
    obtain ⟨a, ha, rfl⟩ := List.mem_map.mp hx
    obtain ⟨b, hb, rfl⟩ := List.mem_map.mp hy
    have hb' : b ∈ rest := (List.mem_insertionSort _).mp hb
    refine h.best a ha b (hrest.mem_iff.mpr (List.mem_append_right _ hb')) fun hin => ?_
    exact (List.nodup_append.mp (hrest.nodup_iff.mp hnodup)).2.2 b hin b hb' rfl
  have hperm : ((answer ++ rest.insertionSort fun a b => score b ≤ score a).map score).Perm
      ((candidates.map score).insertionSort fun x y => y ≤ x) :=
    ((((List.perm_insertionSort _ rest).append_left answer).trans hrest.symm).map score).trans
      (List.perm_insertionSort _ _).symm
  have hsame := hperm.eq_of_pairwise (fun x y _ _ hxy hyx => le_antisymm hyx hxy) hsorted
    (List.pairwise_insertionSort _ _)
  have hlength : answer.length = limit ∨ answer.length = candidates.length := by
    have hanswer := h.length_eq
    omega
  rw [← hsame, List.map_append]
  rcases hlength with hlimit | hall
  · rw [List.take_left' (by rw [List.length_map, hlimit])]
  · have hempty : rest = [] := by
      have hlengths := hrest.length_eq
      rw [List.length_append] at hlengths
      exact List.eq_nil_of_length_eq_zero (by omega)
    have hle : (answer.map score).length ≤ limit := by
      rw [List.length_map, h.length_eq]
      exact min_le_left _ _
    rw [hempty, List.insertionSort_nil, List.map_nil, List.append_nil, List.take_of_length_le hle]

section Names

variable (score) (candidates) (limit) (key : α → κ)

/-- The names of the `limit` best candidates, when no tie leaves a choice. -/
structure NamesTop (names : List κ) : Prop where
  named : ∀ x ∈ names, ∃ a ∈ candidates, key a = x
  falling : names.Pairwise fun x y => ∀ a ∈ candidates, ∀ b ∈ candidates,
    key a = x → key b = y → score b < score a
  best : ∀ a ∈ candidates, ∀ b ∈ candidates, key a ∈ names → key b ∉ names → score b < score a
  length_le : names.length ≤ limit
  exhausted : names.length < limit → ∀ a ∈ candidates, key a ∈ names

variable {score candidates limit key} {names : List κ}

/-- Some candidates have the names, in their order. -/
theorem NamesTop.exists_map (h : NamesTop score candidates limit key names) :
    ∃ answer, answer ⊆ candidates ∧ answer.map key = names := by
  have hnamed := h.named
  clear h
  induction names with
  | nil => exact ⟨[], List.nil_subset _, rfl⟩
  | cons x names ih =>
    obtain ⟨a, ha, rfl⟩ := hnamed x List.mem_cons_self
    obtain ⟨answer, hsubset, rfl⟩ := ih fun y hy => hnamed y (List.mem_cons_of_mem _ hy)
    exact ⟨a :: answer, List.cons_subset.mpr ⟨ha, hsubset⟩, rfl⟩

theorem NamesTop.isTop (h : NamesTop score candidates limit key (answer.map key))
    (hnodup : candidates.Nodup)
    (hkey : ∀ a ∈ candidates, ∀ b ∈ candidates, key a = key b → a = b)
    (hsubset : answer ⊆ candidates) :
    IsTop score candidates limit answer ∧ Decided score candidates answer := by
  have hmem : ∀ {a}, a ∈ candidates → key a ∈ answer.map key → a ∈ answer := by
    intro a ha hin
    obtain ⟨b, hb, hab⟩ := List.mem_map.mp hin
    rwa [← hkey b (hsubset hb) a ha hab]
  have hfalling : answer.Pairwise fun a b => score b < score a := by
    refine (List.pairwise_map.mp h.falling).imp_of_mem fun ha hb hlt => ?_
    exact hlt _ (hsubset ha) _ (hsubset hb) rfl rfl
  have hbest : ∀ a ∈ answer, ∀ b ∈ candidates, b ∉ answer → score b < score a := by
    intro a ha b hb hout
    exact h.best a (hsubset ha) b hb (List.mem_map_of_mem ha) fun hin => hout (hmem hb hin)
  have hdistinct : answer.Nodup := hfalling.imp fun hlt heq => by
    rw [heq] at hlt
    exact lt_irrefl _ hlt
  refine ⟨⟨hdistinct, hsubset, ?_, ?_, fun a ha b hb hout => (hbest a ha b hb hout).le⟩, ?_⟩
  · have hle := (List.subperm_of_subset hdistinct hsubset).length_le
    have hlimit := h.length_le
    rw [List.length_map] at hlimit
    by_cases hfew : answer.length < limit
    · have hall : candidates ⊆ answer :=
        fun a ha => hmem ha (h.exhausted (by rwa [List.length_map]) a ha)
      have hge := (List.subperm_of_subset hnodup hall).length_le
      omega
    · omega
  · exact hfalling.imp le_of_lt
  · intro a ha b hb htie
    by_cases hin : b ∈ answer
    · by_contra hne
      have hscores : answer.Pairwise fun a b => score a ≠ score b := hfalling.imp fun hlt => hlt.ne'
      have hsymm : Std.Symm fun a b => score a ≠ score b := ⟨fun _ _ hne => hne.symm⟩
      exact hscores.forall hin ha hne htie
    · exact absurd htie (hbest a ha b hb hin).ne

theorem IsTop.namesTop (h : IsTop score candidates limit answer)
    (hdecided : Decided score candidates answer)
    (hkey : ∀ a ∈ candidates, ∀ b ∈ candidates, key a = key b → a = b) :
    NamesTop score candidates limit key (answer.map key) where
  named x hx := by
    obtain ⟨a, ha, rfl⟩ := List.mem_map.mp hx
    exact ⟨a, h.subset ha, rfl⟩
  falling := by
    refine List.pairwise_map.mpr ((h.ranked.and h.nodup).imp_of_mem fun ha hb hab => ?_)
    intro a' ha' b' hb' hka hkb
    rw [hkey a' ha' _ (h.subset ha) hka, hkey b' hb' _ (h.subset hb) hkb]
    exact lt_of_le_of_ne hab.1 fun htie => hab.2 (hdecided _ ha _ (h.subset hb) htie).symm
  best a ha b hb hin hout := by
    obtain ⟨a', ha', hka⟩ := List.mem_map.mp hin
    obtain rfl := hkey a' (h.subset ha') a ha hka
    have hnot : b ∉ answer := fun hb' => hout (List.mem_map_of_mem hb')
    refine lt_of_le_of_ne (h.best a' ha' b hb hnot) fun htie => hnot ?_
    rwa [hdecided a' ha' b hb htie]
  length_le := by
    rw [List.length_map, h.length_eq]
    exact min_le_left _ _
  exhausted hfew a ha := by
    rw [List.length_map, h.length_eq] at hfew
    have hall : candidates.length ≤ answer.length := by
      rw [h.length_eq]
      omega
    have hperm := (List.subperm_of_subset h.nodup h.subset).perm_of_length_le hall
    exact List.mem_map_of_mem (hperm.symm.subset ha)

/-- Every answer has these names exactly if the names are those of the best, without a tie. -/
theorem forall_isTop_iff_namesTop (hnodup : candidates.Nodup)
    (hkey : ∀ a ∈ candidates, ∀ b ∈ candidates, key a = key b → a = b) :
    (∀ answer, IsTop score candidates limit answer → answer.map key = names) ↔
      NamesTop score candidates limit key names := by
  classical
  constructor
  · intro h
    obtain ⟨answer, htop⟩ := exists_isTop hnodup score limit
    have hdecided : Decided score candidates answer := by
      intro a ha b hb htie
      have hswap := h _ (htop.swap hb (htop.subset ha) htie)
      rw [← h answer htop, List.map_map] at hswap
      have hsame := List.map_inj_left.mp hswap a ha
      rw [Function.comp_apply, Equiv.swap_apply_right] at hsame
      exact hkey b hb a (htop.subset ha) hsame
    rw [← h answer htop]
    exact htop.namesTop hdecided hkey
  · intro h other hother
    obtain ⟨answer, hsubset, rfl⟩ := h.exists_map
    obtain ⟨htop, hdecided⟩ := h.isTop hnodup hkey hsubset
    rw [htop.eq_of_decided hdecided hother]

end Names

end SafetyDao
