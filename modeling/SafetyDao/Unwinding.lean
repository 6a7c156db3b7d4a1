import Mathlib.Data.List.Basic
import Mathlib.Tactic.Common

/-!
# Runs from which steps have been removed

A system takes steps, puts out something at each, and may refuse one. If the states of two
runs stand in a relation that every step kept carries on in both runs, with the same
observed output, and that every other step carries on in the first run alone, unobserved,
then removing the other steps changes nothing that is observed. The relation may speak of
the steps still to come.
-/
namespace SafetyDao

variable {σ Step Out : Type} {step : σ → Step → Option (List Out × σ)}

def runSteps (step : σ → Step → Option (List Out × σ)) : σ → List Step → Option (List Out × σ)
  | s, [] => some ([], s)
  | s, x :: xs =>
    (step s x).bind fun now =>
      (runSteps step now.2 xs).map fun later => (now.1 ++ later.1, later.2)

theorem runSteps_cons {s s' : σ} {x : Step} {xs : List Step} {outs : List Out} :
    runSteps step s (x :: xs) = some (outs, s') ↔
      ∃ out later mid, step s x = some (out, mid) ∧ runSteps step mid xs = some (later, s') ∧
        outs = out ++ later := by
  simp only [runSteps, Option.bind_eq_some_iff, Option.map_eq_some_iff, Prod.exists,
    Prod.mk.injEq]
  constructor
  · rintro ⟨out, mid, hx, later, _, hxs, rfl, rfl⟩
    exact ⟨out, later, mid, hx, hxs, rfl⟩
  · rintro ⟨out, later, mid, hx, hxs, rfl⟩
    exact ⟨out, mid, hx, later, s', hxs, rfl, rfl⟩

/-- `alike xs s r` relates the state `s` of the run of all steps to the state `r` of the run
of the kept ones, when the steps `xs` are still to come. -/
structure Unwinding (step : σ → Step → Option (List Out × σ)) (kept : Step → Bool)
    (observed : Out → Bool) (alike : List Step → σ → σ → Prop) : Prop where
  common : ∀ {x xs s r out s'}, kept x = true → alike (x :: xs) s r → step s x = some (out, s') →
    ∃ out' r', step r x = some (out', r') ∧ out'.filter observed = out.filter observed ∧
      alike xs s' r'
  removed : ∀ {x xs s r out s'}, kept x = false → alike (x :: xs) s r →
    step s x = some (out, s') → out.filter observed = [] ∧ alike xs s' r

/-- Without the other steps the run goes through and shows the same: by induction on the
steps, for whatever states stand in the relation. -/
theorem Unwinding.run {kept : Step → Bool} {observed : Out → Bool}
    {alike : List Step → σ → σ → Prop} (hu : Unwinding step kept observed alike)
    {xs : List Step} {s r s' : σ} {outs : List Out} (h : alike xs s r)
    (hrun : runSteps step s xs = some (outs, s')) :
    ∃ outs' r', runSteps step r (xs.filter kept) = some (outs', r') ∧
      outs'.filter observed = outs.filter observed ∧ alike [] s' r' := by
  induction xs generalizing s r outs with
  | nil =>
    simp only [runSteps, Option.some.injEq, Prod.mk.injEq] at hrun
    obtain ⟨rfl, rfl⟩ := hrun
    exact ⟨[], r, rfl, rfl, h⟩
  | cons x xs ih =>
    obtain ⟨out, later, mid, hx, hxs, rfl⟩ := runSteps_cons.mp hrun
    cases hk : kept x with
    | true =>
      obtain ⟨out', mid', hx', hobs, hmid⟩ := hu.common hk h hx
      obtain ⟨later', r', hxs', hlater, hend⟩ := ih hmid hxs
      refine ⟨out' ++ later', r', ?_, ?_, hend⟩
      · rw [List.filter_cons_of_pos hk]
        exact runSteps_cons.mpr ⟨out', later', mid', hx', hxs', rfl⟩
      · rw [List.filter_append, List.filter_append, hobs, hlater]
    | false =>
      obtain ⟨hobs, hmid⟩ := hu.removed hk h hx
      obtain ⟨later', r', hxs', hlater, hend⟩ := ih hmid hxs
      refine ⟨later', r', ?_, ?_, hend⟩
      · rwa [List.filter_cons_of_neg (by simp [hk])]
      · rw [List.filter_append, hobs, List.nil_append, hlater]

end SafetyDao
