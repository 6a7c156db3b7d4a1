import SafetyDao.Text

/-!
# Routers, middleware and request contexts

A router is a tree of routes, of routers mounted below a path and of groups behind
middleware. It takes a request to the handler of the route that matches, unless a
middleware answers first. A request carries a context, a chain of keys and values
to which middleware adds. The rules at the end follow a condition on requests from
the entrance of a router to its handlers.

The routers are those of chi v5.0.12, axum 0.7 and Genie 1. What is defined here of them is
documented: a static segment matches itself and a parameter any one segment; a mounted router
gets the rest of the path; chi answers a path that has no route with 404, and with 405 if it
has one for another method or the method is none it knows.
-/
namespace SafetyDao

/-- A chain of keys and values, the latest first. -/
structure Context (K V : Type) where
  entries : List (K × V)

namespace Context

variable {K V : Type} [DecidableEq K]

def withValue (ctx : Context K V) (key : K) (v : V) : Context K V := ⟨(key, v) :: ctx.entries⟩

/-- The value that was stored last under the key. -/
def value (ctx : Context K V) (key : K) : Option V :=
  (ctx.entries.find? (fun entry => entry.1 = key)).map Prod.snd

@[simp] theorem value_withValue_self (ctx : Context K V) (key : K) (v : V) :
    (ctx.withValue key v).value key = some v := by
  simp [withValue, value]

@[simp] theorem value_withValue_of_ne (ctx : Context K V) {key key' : K} (v : V) (h : key ≠ key') :
    (ctx.withValue key v).value key' = ctx.value key' := by
  simp [withValue, value, h]

end Context

/-- `routePath` is what the routers passed so far have left of the path, and
`urlParams` what the routes have taken from it. -/
structure Request (K V : Type) where
  method : Text
  headers : List (Text × Text)
  query : List (Text × Text)
  body : Text
  routePath : Text
  urlParams : List (Text × Text)
  context : Context K V

namespace Request

variable {K V : Type}

/-- The first value of a header, empty if there is none. -/
def header (r : Request K V) (name : Text) : Text :=
  ((r.headers.find? (fun h => h.1 = name)).map Prod.snd).getD []

/-- The first value of a query parameter, empty if there is none. -/
def queryParam (r : Request K V) (name : Text) : Text :=
  ((r.query.find? (fun q => q.1 = name)).map Prod.snd).getD []

/-- The latest value of a path parameter, empty if there is none. -/
def urlParam (r : Request K V) (name : Text) : Text :=
  ((r.urlParams.reverse.find? (fun p => p.1 = name)).map Prod.snd).getD []

end Request

/-- Where a request ends up: answered on the way, or at a handler, with the request as
it arrives there and whether a middleware recovers if the handler panics. -/
inductive Dispatched (K V E : Type) where
  | answered (status : ℕ) (body : Text)
  | reached (endpoint : E) (r : Request K V) (recovers : Bool)

namespace Dispatched

variable {K V E : Type}

/-- The endpoint that is reached, with the path parameters. -/
def arrival : Dispatched K V E → Option (E × List (Text × Text))
  | .answered .. => none
  | .reached e r _ => some (e, r.urlParams)

theorem arrival_eq_some {d : Dispatched K V E} {e : E} {params : List (Text × Text)} :
    d.arrival = some (e, params) ↔
      ∃ r recovers, d = .reached e r recovers ∧ r.urlParams = params := by
  cases d with
  | answered status body => simp [arrival]
  | reached e' r recovers =>
    simp only [arrival, Option.some.injEq, Prod.mk.injEq, reached.injEq]
    constructor
    · rintro ⟨rfl, rfl⟩
      exact ⟨r, recovers, ⟨rfl, rfl, rfl⟩, rfl⟩
    · rintro ⟨r', recovers', ⟨rfl, rfl, rfl⟩, rfl⟩
      exact ⟨rfl, rfl⟩

end Dispatched

abbrev Handler (K V E : Type) : Type := Request K V → Dispatched K V E

abbrev Middleware (K V E : Type) : Type := Handler K V E → Handler K V E

/-- A handler behind middleware, the first outermost. -/
def chain {K V E : Type} (middlewares : List (Middleware K V E)) (h : Handler K V E) :
    Handler K V E :=
  middlewares.foldr (fun mw next => mw next) h

inductive Segment where
  | static (s : Text)
  | param (name : Text)

/-- Match segments one by one. A parameter takes any text without a slash, which at the end of the
path may not be empty, as in a chi tree. -/
def matchSegments : List Segment → List Text → Option (List (Text × Text))
  | [], [] => some []
  | .static s :: ps, t :: ts => if s = t then matchSegments ps ts else none
  | .param name :: ps, t :: ts =>
    if ps = [] ∧ t = [] then none else (matchSegments ps ts).map ((name, t) :: ·)
  | _, _ => none

/-- Match a path that starts with a slash. -/
def matchPath (segments : List Segment) (path : Text) : Option (List (Text × Text)) :=
  match path.splitOn '/' with
  | [] :: parts => matchSegments segments parts
  | _ => none

/-- What is left of a path below a mounted one, again as a path. -/
def below (mounted path : Text) : Option Text :=
  match Text.stripPrefix mounted path with
  | some [] => some ['/']
  | some ('/' :: rest) => some ('/' :: rest)
  | _ => none

/-- The routes of a router, in the order they are added. -/
inductive Routes (M E : Type) where
  | nil
  | handle (method : Text) (segments : List Segment) (endpoint : E) (rest : Routes M E)
  | mount (path : Text) (sub rest : Routes M E)
  | group (middlewares : List M) (members rest : Routes M E)

def methods : List Text :=
  ["CONNECT", "DELETE", "GET", "HEAD", "OPTIONS", "PATCH", "POST", "PUT", "TRACE"].map String.toList

/-- The answer of chi's mux to a request that no route matches: 405 if one would with another
method. -/
def unmatched {K V E : Type} (known : Bool) : Handler K V E := fun _ =>
  if known then .answered 405 [] else .answered 404 "404 page not found\n".toList

@[simp] theorem unmatched_arrival {K V E : Type} (known : Bool) (r : Request K V) :
    (unmatched known r : Dispatched K V E).arrival = none := by
  unfold unmatched
  split <;> rfl

namespace Routes

variable {K V M E : Type}

/-- Whether some route matches the path with some method. -/
def known : Routes M E → Text → Bool
  | .nil, _ => false
  | .handle _ segments _ rest, path => (matchPath segments path).isSome || rest.known path
  | .mount mounted _ rest, path => (below mounted path).isSome || rest.known path
  | .group _ members rest, path => members.known path || rest.known path

section Serve

variable (apply : M → Middleware K V E)

/-- The handler of the first route that matches, behind the middleware of its groups. -/
def find : Routes M E → (method path : Text) → Option (Handler K V E)
  | .nil, _, _ => none
  | .handle method' segments endpoint rest, method, path =>
    match if method' = method then matchPath segments path else none with
    | some params =>
      some (fun r => .reached endpoint { r with urlParams := r.urlParams ++ params } false)
    | none => rest.find method path
  | .mount mounted sub rest, method, path =>
    match below mounted path with
    | some path' => some (fun r =>
        ((sub.find method path').getD (unmatched (sub.known path'))) { r with routePath := path' })
    | none => rest.find method path
  | .group middlewares members rest, method, path =>
    match members.find method path with
    | some h => some (chain (middlewares.map apply) h)
    | none => rest.find method path

def serve (routes : Routes M E) : Handler K V E := fun r =>
  if r.method ∈ methods then
    ((routes.find apply r.method r.routePath).getD (unmatched (routes.known r.routePath))) r
  else .answered 405 []

end Serve

/-- The endpoint of a request, with its path parameters, where every middleware lets
it pass. -/
def endpoint (routes : Routes M E) (method path : Text) : Option (E × List (Text × Text)) :=
  let pass : M → Middleware Unit Unit E := fun _ next => next
  (routes.serve pass ⟨method, [], [], [], path, [], ⟨[]⟩⟩).arrival

/-- The texts of which a path starts with one if a route matches it. -/
def heads : Routes M E → List Text
  | .nil => []
  | .handle _ (.static s :: _) _ rest => ('/' :: s) :: rest.heads
  | .handle _ _ _ rest => [] :: rest.heads
  | .mount mounted _ rest => mounted :: rest.heads
  | .group _ members rest => members.heads ++ rest.heads

/-- The middleware of all groups, at any depth. -/
def middlewares : Routes M E → List M
  | .nil => []
  | .handle _ _ _ rest => rest.middlewares
  | .mount _ sub rest => sub.middlewares ++ rest.middlewares
  | .group middlewares members rest => middlewares ++ members.middlewares ++ rest.middlewares

end Routes

theorem below_append (mounted rest : Text) :
    below mounted (mounted ++ '/' :: rest) = some ('/' :: rest) := by
  rw [below, Text.stripPrefix_append]
  rfl

theorem below_of_not_prefix {mounted path : Text} (h : ¬ mounted <+: path) :
    below mounted path = none := by
  rw [below, Text.stripPrefix_eq_none.mpr h]

theorem below_prefix {mounted path path' : Text} (h : below mounted path = some path') :
    mounted <+: path := by
  by_contra hnone
  rw [below, Text.stripPrefix_eq_none.mpr hnone] at h
  cases h

/-- Below a mounted path is the rest of the path, or the root for the path itself. -/
theorem below_eq_some {mounted path path' : Text} (h : below mounted path = some path') :
    path = mounted ++ path' ∨ path' = ['/'] := by
  unfold below at h
  split at h
  · exact .inr (Option.some.inj h).symm
  · rename_i rest hstrip
    rw [← Option.some.inj h]
    exact .inl (Text.stripPrefix_eq_some.mp hstrip)
  · cases h

theorem matchPath_prefix {s : Text} {segments : List Segment} {path : Text}
    {params : List (Text × Text)} (h : matchPath (.static s :: segments) path = some params) :
    '/' :: s <+: path := by
  have hjoin : ['/'].intercalate (path.splitOn '/') = path := List.intercalate_splitOn '/'
  unfold matchPath at h
  split at h
  · rename_i parts hparts
    cases parts with
    | nil => simp [matchSegments] at h
    | cons t ts =>
      rw [matchSegments] at h
      split at h
      · rename_i hs
        rw [← hjoin, hparts, hs]
        cases ts with
        | nil => simp [List.intercalate]
        | cons u us => simp [List.intercalate, List.intersperse]
      · cases h
  · cases h

namespace Routes

variable {K V M E : Type} {apply : M → Middleware K V E}

theorem heads_subset_handle (method : Text) (segments : List Segment) (e : E)
    (rest : Routes M E) : rest.heads ⊆ (Routes.handle method segments e rest).heads := by
  rcases segments with _ | ⟨_ | _, _⟩ <;> exact List.subset_cons_self _ _

/-- A route that matches starts like one of the routes. -/
theorem find_heads {routes : Routes M E} {method path : Text} {h : Handler K V E}
    (hfind : routes.find apply method path = some h) : ∃ head ∈ routes.heads, head <+: path := by
  induction routes generalizing h with
  | nil => cases hfind
  | handle method' segments e rest ih =>
    rw [find] at hfind
    split at hfind
    · rename_i params hmatch
      have hpath := (Option.ite_none_right_eq_some.mp hmatch).2
      rcases segments with _ | ⟨s | name, segments⟩
      · exact ⟨[], List.mem_cons_self, List.nil_prefix⟩
      · exact ⟨_, List.mem_cons_self, matchPath_prefix hpath⟩
      · exact ⟨[], List.mem_cons_self, List.nil_prefix⟩
    · obtain ⟨head, hmem, hstarts⟩ := ih hfind
      exact ⟨head, heads_subset_handle _ _ _ _ hmem, hstarts⟩
  | mount mounted sub rest ihsub ihrest =>
    rw [find] at hfind
    split at hfind
    · rename_i path' hbelow
      exact ⟨mounted, List.mem_cons_self, below_prefix hbelow⟩
    · obtain ⟨head, hmem, hstarts⟩ := ihrest hfind
      exact ⟨head, List.mem_cons_of_mem _ hmem, hstarts⟩
  | group middlewares members rest ihmembers ihrest =>
    rw [find] at hfind
    split at hfind
    · rename_i h' hmembers
      obtain ⟨head, hmem, hstarts⟩ := ihmembers hmembers
      exact ⟨head, List.mem_append_left _ hmem, hstarts⟩
    · obtain ⟨head, hmem, hstarts⟩ := ihrest hfind
      exact ⟨head, List.mem_append_right _ hmem, hstarts⟩

/-- A request that gets to an endpoint was routed by a handler that is found. -/
theorem find_of_endpoint {routes : Routes M E} {method path : Text} {e : E}
    {params : List (Text × Text)} (hend : routes.endpoint method path = some (e, params)) :
    ∃ h : Handler Unit Unit E, routes.find (fun _ next => next) method path = some h ∧
      (h ⟨method, [], [], [], path, [], ⟨[]⟩⟩).arrival = some (e, params) := by
  unfold endpoint serve at hend
  dsimp only at hend
  split at hend
  · cases hfind : routes.find (fun _ next => next) method path with
    | none =>
      rw [hfind, Option.getD_none, unmatched_arrival] at hend
      cases hend
    | some h =>
      rw [hfind, Option.getD_some] at hend
      exact ⟨h, rfl, hend⟩
  · cases hend

theorem endpoint_heads {routes : Routes M E} {method path : Text} {e : E}
    {params : List (Text × Text)} (hend : routes.endpoint method path = some (e, params)) :
    ∃ head ∈ routes.heads, head <+: path := by
  obtain ⟨h, hfind, -⟩ := find_of_endpoint hend
  exact find_heads hfind

/-- Under a router with one mount, the path continues like a route of the mounted one. -/
theorem endpoint_mount {mounted : Text} {sub : Routes M E} {method path : Text} {e : E}
    {params : List (Text × Text)}
    (hend : (Routes.mount mounted sub .nil).endpoint method path = some (e, params)) :
    ∃ path', below mounted path = some path' ∧ ∃ head ∈ sub.heads, head <+: path' := by
  obtain ⟨h, hfind, harrival⟩ := find_of_endpoint hend
  rw [find] at hfind
  split at hfind
  · rename_i path' hbelow
    cases hfind
    cases hsub : sub.find (fun _ next => next) method path' with
    | none =>
      rw [hsub, Option.getD_none, unmatched_arrival] at harrival
      cases harrival
    | some h' => exact ⟨path', hbelow, find_heads hsub⟩
  · cases hfind

end Routes

/-! ## Conditions along the way of a request -/

section Rules

variable {K V M E : Type} {pre mid : Request K V → Prop} {post post' : E → Request K V → Prop}

/-- If the request arrives at a handler, it arrives there with `post`. -/
def Dispatched.Meets (post : E → Request K V → Prop) : Dispatched K V E → Prop
  | .answered .. => True
  | .reached e r _ => post e r

def Handler.Meets (pre : Request K V → Prop) (post : E → Request K V → Prop)
    (h : Handler K V E) : Prop :=
  ∀ r, pre r → (h r).Meets post

/-- A middleware lets requests with `pre` pass only with `mid`. -/
def Middleware.Takes (pre mid : Request K V → Prop) (mw : Middleware K V E) : Prop :=
  ∀ post next, Handler.Meets mid post next → Handler.Meets pre post (mw next)

theorem Handler.Meets.mono {h : Handler K V E} (hmeets : h.Meets pre post)
    (hpost : ∀ e r, post e r → post' e r) : h.Meets pre post' := by
  intro r hr
  have hout := hmeets r hr
  cases hd : h r with
  | answered status body => trivial
  | reached e r' recovers =>
    rw [hd] at hout
    exact hpost e r' hout

theorem unmatched_meets (known : Bool) : Handler.Meets pre post (unmatched known) := by
  intro r hr
  unfold unmatched
  split <;> trivial

theorem Middleware.Takes.chain_cons {mw : Middleware K V E} {mws : List (Middleware K V E)}
    {h : Handler K V E} (htakes : mw.Takes pre mid) (hrest : Handler.Meets mid post (chain mws h)) :
    Handler.Meets pre post (chain (mw :: mws) h) :=
  htakes post _ hrest

/-- Middleware that keeps a condition may stand before any handler that needs it. -/
theorem chain_meets {mws : List (Middleware K V E)} {h : Handler K V E}
    (hmws : ∀ mw ∈ mws, mw.Takes pre pre) (hmeets : h.Meets pre post) :
    Handler.Meets pre post (chain mws h) := by
  induction mws with
  | nil => exact hmeets
  | cons mw mws ih =>
    exact (hmws mw List.mem_cons_self).chain_cons
      (ih fun mw' hmem => hmws mw' (List.mem_cons_of_mem _ hmem))

namespace Routes

variable {apply : M → Middleware K V E}

/-- Whatever handler is found, a request with `pre` arrives with `post`. -/
def Meets (apply : M → Middleware K V E) (pre : Request K V → Prop)
    (post : E → Request K V → Prop) (routes : Routes M E) : Prop :=
  ∀ method path h, routes.find apply method path = some h → h.Meets pre post

theorem Meets.nil : Meets apply pre post .nil := by
  intro method path h hfind
  cases hfind

theorem Meets.mono {routes : Routes M E} (hmeets : routes.Meets apply pre post)
    (hpost : ∀ e r, post e r → post' e r) : routes.Meets apply pre post' :=
  fun method path h hfind => (hmeets method path h hfind).mono hpost

theorem Meets.handle {method : Text} {segments : List Segment} {e : E} {rest : Routes M E}
    (harrive : ∀ r params, pre r → post e { r with urlParams := r.urlParams ++ params })
    (hrest : rest.Meets apply pre post) :
    (Routes.handle method segments e rest).Meets apply pre post := by
  intro method' path h hfind
  rw [find] at hfind
  split at hfind
  · cases hfind
    exact fun r hr => harrive r _ hr
  · exact hrest _ _ _ hfind

theorem Meets.getD_find {routes : Routes M E} (hmeets : routes.Meets apply pre post)
    (method path path' : Text) :
    Handler.Meets pre post
      ((routes.find apply method path).getD (unmatched (routes.known path'))) := by
  cases hfind : routes.find apply method path with
  | none => exact unmatched_meets _
  | some h => exact hmeets _ _ _ hfind

theorem Meets.mount {mounted : Text} {sub rest : Routes M E}
    (hpath : ∀ r path, pre r → pre { r with routePath := path })
    (hsub : sub.Meets apply pre post) (hrest : rest.Meets apply pre post) :
    (Routes.mount mounted sub rest).Meets apply pre post := by
  intro method path h hfind
  rw [find] at hfind
  split at hfind
  · cases hfind
    exact fun r hr => hsub.getD_find _ _ _ _ (hpath r _ hr)
  · exact hrest _ _ _ hfind

theorem Meets.group {middlewares : List M} {members rest : Routes M E}
    (hchain : ∀ h : Handler K V E, h.Meets mid post →
      Handler.Meets pre post (chain (middlewares.map apply) h))
    (hmembers : members.Meets apply mid post) (hrest : rest.Meets apply pre post) :
    (Routes.group middlewares members rest).Meets apply pre post := by
  intro method path h hfind
  rw [find] at hfind
  split at hfind
  · rename_i h' hmember
    cases hfind
    exact hchain _ (hmembers _ _ _ hmember)
  · exact hrest _ _ _ hfind

theorem Meets.serve {routes : Routes M E} (hmeets : routes.Meets apply pre post) :
    Handler.Meets pre post (routes.serve apply) := by
  intro r hr
  unfold Routes.serve
  split
  · exact hmeets.getD_find _ _ _ r hr
  · trivial

/-- What the routing and every middleware keep holds at every handler. -/
theorem meets_of_keeps {routes : Routes M E}
    (hpath : ∀ r path, pre r → pre { r with routePath := path })
    (hparams : ∀ r params, pre r → pre { r with urlParams := r.urlParams ++ params })
    (hkeeps : ∀ m ∈ routes.middlewares, (apply m).Takes pre pre) :
    routes.Meets apply pre (fun _ => pre) := by
  induction routes with
  | nil => exact .nil
  | handle method segments e rest ih => exact .handle hparams (ih hkeeps)
  | mount mounted sub rest ihsub ihrest =>
    exact .mount hpath (ihsub fun m hm => hkeeps m (List.mem_append_left _ hm))
      (ihrest fun m hm => hkeeps m (List.mem_append_right _ hm))
  | group mws members rest ihmembers ihrest =>
    refine .group (fun h hmeets => chain_meets ?_ hmeets)
      (ihmembers fun m hm => hkeeps m (by simp [middlewares, hm]))
      (ihrest fun m hm => hkeeps m (by simp [middlewares, hm]))
    intro mw hmw
    obtain ⟨m, hm, rfl⟩ := List.mem_map.mp hmw
    exact hkeeps m (by simp [middlewares, hm])

end Routes

end Rules

end SafetyDao
