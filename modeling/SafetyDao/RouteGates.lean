import SafetyDao.Router

/-!
# Middleware that opens or answers

A gate looks at the method, the headers and the context of a request. It answers the request, or
lets it pass with another context and nothing else changed. Which gates stand before an endpoint
can be read off the tree of routes, so a request gets to an endpoint exactly if the routes have it
for the path and every gate before it opens.
-/
namespace SafetyDao

namespace Routes

variable {M E : Type}

/-- The middleware on the way of a request, the outermost first, and the endpoint at the end of
it, if the path goes on to one. -/
def trail : Routes M E → (method path : Text) → Option (List M × Option (E × List (Text × Text)))
  | .nil, _, _ => none
  | .handle method' segments e rest, method, path =>
    match if method' = method then matchPath segments path else none with
    | some params => some ([], some (e, params))
    | none => rest.trail method path
  | .mount mounted sub rest, method, path =>
    match below mounted path with
    | some path' => some ((sub.trail method path').getD ([], none))
    | none => rest.trail method path
  | .group middlewares members rest, method, path =>
    match members.trail method path with
    | some out => some (middlewares ++ out.1, out.2)
    | none => rest.trail method path

/-- Every endpoint of the tree, with the middleware before it. -/
def table : Routes M E → List (List M × E)
  | .nil => []
  | .handle _ _ e rest => ([], e) :: rest.table
  | .mount _ sub rest => sub.table ++ rest.table
  | .group middlewares members rest =>
    (members.table.map fun entry => (middlewares ++ entry.1, entry.2)) ++ rest.table

theorem mem_table_of_trail {routes : Routes M E} {method path : Text} {ms : List M} {e : E}
    {params : List (Text × Text)}
    (h : routes.trail method path = some (ms, some (e, params))) : (ms, e) ∈ routes.table := by
  induction routes generalizing path ms with
  | nil => cases h
  | handle method' segments e' rest ih =>
    rw [trail] at h
    split at h
    · cases h
      exact List.mem_cons_self
    · exact List.mem_cons_of_mem _ (ih h)
  | mount mounted sub rest ihsub ihrest =>
    rw [trail] at h
    split at h
    · rename_i path' hbelow
      cases hsub : sub.trail method path' with
      | none =>
        rw [hsub] at h
        cases h
      | some out =>
        rw [hsub, Option.getD_some, Option.some.injEq] at h
        exact List.mem_append_left _ (ihsub (hsub.trans (congrArg some h)))
    · exact List.mem_append_right _ (ihrest h)
  | group middlewares members rest ihmembers ihrest =>
    rw [trail] at h
    split at h
    · rename_i out hout
      obtain ⟨ms', o⟩ := out
      cases h
      exact List.mem_append_left _ (List.mem_map.mpr ⟨_, ihmembers hout, rfl⟩)
    · exact List.mem_append_right _ (ihrest h)

end Routes

variable {K V M E : Type}

/-- When each middleware opens, and the context with which it lets a request pass. -/
structure Gates (apply : M → Middleware K V E) where
  opens : M → (method : Text) → (headers : List (Text × Text)) → Context K V → Prop
  enter : M → (headers : List (Text × Text)) → Context K V → Context K V
  arrival_open : ∀ m next r, opens m r.method r.headers r.context →
    (apply m next r).arrival = (next { r with context := enter m r.headers r.context }).arrival
  arrival_shut : ∀ m next r, ¬ opens m r.method r.headers r.context →
    (apply m next r).arrival = none

namespace Gates

variable {apply : M → Middleware K V E} (gates : Gates apply)

/-- The gates open one after the other. -/
def Admit (method : Text) (headers : List (Text × Text)) : List M → Context K V → Prop
  | [], _ => True
  | m :: ms, ctx =>
    gates.opens m method headers ctx ∧ Admit method headers ms (gates.enter m headers ctx)

/-- A handler that is reached through the gates, and what is behind them. -/
def Leads (ms : List M) (o : Option (E × List (Text × Text))) (h : Handler K V E) : Prop :=
  ∀ r e params, (h r).arrival = some (e, params) ↔ gates.Admit r.method r.headers ms r.context ∧
    ∃ own, o = some (e, own) ∧ params = r.urlParams ++ own

variable {gates}

theorem leads_unmatched (known : Bool) : gates.Leads [] none (unmatched known) := by
  intro r e params
  simp

theorem Leads.chain {ms ms' : List M} {o : Option (E × List (Text × Text))} {h : Handler K V E}
    (hleads : gates.Leads ms' o h) :
    gates.Leads (ms ++ ms') o (SafetyDao.chain (ms.map apply) h) := by
  induction ms with
  | nil => exact hleads
  | cons m ms ih =>
    intro r e params
    change (apply m (SafetyDao.chain (ms.map apply) h) r).arrival = _ ↔ _
    by_cases hopens : gates.opens m r.method r.headers r.context
    · rw [gates.arrival_open m _ r hopens, ih]
      simp only [List.cons_append, Admit, hopens, true_and]
    · rw [gates.arrival_shut m _ r hopens]
      simp [Admit, hopens]

/-- The handler that is found leads along the trail, and where none is found there is no trail. -/
theorem leads_find (gates : Gates apply) (routes : Routes M E) (method path : Text) :
    match routes.find apply method path, routes.trail method path with
    | some h, some out => gates.Leads out.1 out.2 h
    | none, none => True
    | _, _ => False := by
  induction routes generalizing path with
  | nil => trivial
  | handle method' segments e rest ih =>
    rw [Routes.find, Routes.trail]
    cases (if method' = method then matchPath segments path else none) with
    | some params =>
      intro r e' params'
      simp only [Dispatched.arrival, Option.some.injEq, Prod.mk.injEq, Admit, true_and]
      constructor
      · rintro ⟨rfl, rfl⟩
        exact ⟨params, ⟨rfl, rfl⟩, rfl⟩
      · rintro ⟨own, ⟨rfl, rfl⟩, rfl⟩
        exact ⟨rfl, rfl⟩
    | none => exact ih path
  | mount mounted sub rest ihsub ihrest =>
    rw [Routes.find, Routes.trail]
    cases below mounted path with
    | some path' =>
      have hsub := ihsub path'
      intro r e params
      dsimp only
      cases hfind : sub.find apply method path' with
      | none =>
        cases htrail : sub.trail method path' with
        | none => exact leads_unmatched _ { r with routePath := path' } e params
        | some out =>
          rw [hfind, htrail] at hsub
          exact hsub.elim
      | some h =>
        cases htrail : sub.trail method path' with
        | none =>
          rw [hfind, htrail] at hsub
          exact hsub.elim
        | some out =>
          rw [hfind, htrail] at hsub
          exact hsub { r with routePath := path' } e params
    | none => exact ihrest path
  | group middlewares members rest ihmembers ihrest =>
    have hmembers := ihmembers path
    rw [Routes.find, Routes.trail]
    cases hfind : members.find apply method path with
    | none =>
      cases htrail : members.trail method path with
      | none => exact ihrest path
      | some out =>
        rw [hfind, htrail] at hmembers
        exact hmembers.elim
    | some h =>
      cases htrail : members.trail method path with
      | none =>
        rw [hfind, htrail] at hmembers
        exact hmembers.elim
      | some out =>
        rw [hfind, htrail] at hmembers
        exact hmembers.chain

/-- A request arrives where its trail leads, if its method is one and every gate opens. -/
theorem arrival_serve (gates : Gates apply) (routes : Routes M E) (r : Request K V) (e : E)
    (params : List (Text × Text)) : (routes.serve apply r).arrival = some (e, params) ↔
      r.method ∈ methods ∧ ∃ ms own, routes.trail r.method r.routePath = some (ms, some (e, own)) ∧
        gates.Admit r.method r.headers ms r.context ∧ params = r.urlParams ++ own := by
  have hleads := leads_find gates routes r.method r.routePath
  unfold Routes.serve
  by_cases hmethod : r.method ∈ methods
  · rw [if_pos hmethod]
    cases hfind : routes.find apply r.method r.routePath with
    | none =>
      cases htrail : routes.trail r.method r.routePath with
      | none => simp
      | some out =>
        rw [hfind, htrail] at hleads
        exact hleads.elim
    | some h =>
      cases htrail : routes.trail r.method r.routePath with
      | none =>
        rw [hfind, htrail] at hleads
        exact hleads.elim
      | some out =>
        rw [hfind, htrail] at hleads
        rw [Option.getD_some, hleads r e params]
        obtain ⟨ms, o⟩ := out
        constructor
        · rintro ⟨hadmits, own, rfl, hparams⟩
          exact ⟨hmethod, ms, own, rfl, hadmits, hparams⟩
        · rintro ⟨-, ms', own, heq, hadmits, hparams⟩
          cases heq
          exact ⟨hadmits, own, rfl, hparams⟩
  · rw [if_neg hmethod]
    simp [Dispatched.arrival, hmethod]

end Gates

/-- The gates of a router whose middleware lets every request pass. -/
def openGates : Gates (fun (_ : M) (next : Handler Unit Unit E) => next) where
  opens _ _ _ _ := True
  enter _ _ ctx := ctx
  arrival_open _ _ _ _ := rfl
  arrival_shut _ _ _ h := absurd trivial h

theorem admit_openGates (ms : List M) (method : Text) (headers : List (Text × Text))
    (ctx : Context Unit Unit) : (openGates (E := E)).Admit method headers ms ctx := by
  induction ms generalizing ctx with
  | nil => trivial
  | cons m ms ih => exact ⟨trivial, ih ctx⟩

theorem Routes.endpoint_eq_some {routes : Routes M E} {method path : Text} {e : E}
    {params : List (Text × Text)} : routes.endpoint method path = some (e, params) ↔
      method ∈ methods ∧ ∃ ms, routes.trail method path = some (ms, some (e, params)) := by
  rw [endpoint, openGates.arrival_serve]
  constructor
  · rintro ⟨hmethod, ms, own, htrail, -, rfl⟩
    exact ⟨hmethod, ms, htrail⟩
  · rintro ⟨hmethod, ms, htrail⟩
    exact ⟨hmethod, ms, params, htrail, admit_openGates ms _ _ _, rfl⟩

/-- If the same gates stand before an endpoint wherever it stands in the tree, a request gets to
it exactly if the path leads there and these gates open. -/
theorem Gates.arrival_serve_iff {apply : M → Middleware K V E} (gates : Gates apply)
    {routes : Routes M E} {e : E} {needs : List M}
    (hneeds : ∀ entry ∈ routes.table, entry.2 = e → entry.1 = needs) (r : Request K V)
    (params : List (Text × Text)) : (routes.serve apply r).arrival = some (e, params) ↔
      ∃ own, routes.endpoint r.method r.routePath = some (e, own) ∧
        params = r.urlParams ++ own ∧ gates.Admit r.method r.headers needs r.context := by
  simp only [gates.arrival_serve, Routes.endpoint_eq_some]
  constructor
  · rintro ⟨hmethod, ms, own, htrail, hadmits, hparams⟩
    have hms : ms = needs := hneeds _ (Routes.mem_table_of_trail htrail) rfl
    exact ⟨own, ⟨hmethod, ms, htrail⟩, hparams, hms ▸ hadmits⟩
  · rintro ⟨own, ⟨hmethod, ms, htrail⟩, hparams, hadmits⟩
    have hms : ms = needs := hneeds _ (Routes.mem_table_of_trail htrail) rfl
    exact ⟨hmethod, ms, own, htrail, hms ▸ hadmits, hparams⟩

end SafetyDao
