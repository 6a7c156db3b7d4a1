import SafetyDao.GatewayRouting

/-!
# What the gateway leaves of the URI

`upstream_request_filter` takes the path of the request's URI, removes the version and
parses the rest as a URI of its own. The parser is that of the `http` crate: what the
filter relies on of it are the forms of a URI that it takes, and where it finds their
paths and queries. A query is not part of the path, so it does not come back; and a rest
without a slash in front is a URI of another form.
-/
namespace SafetyDao

/-- A path and a query as the readers of a URI get them. Only some characters stand in a
path. -/
structure Uri (pathChar : Char → Bool) where
  path : Text
  query : Option Text
  valid : ∀ c ∈ path, pathChar c

/-- The parser, its checks of the parts of a URI and the bytes it takes at most. -/
structure UriLib where
  pathChar : Char → Bool
  isScheme : Text → Bool
  isAuthority : Text → Bool
  maxLen : ℕ
  parse : Text → Option (Uri pathChar)

namespace UriLib

variable (lib : UriLib)

def Fits (t : Text) : Prop := (Text.utf8 t).length ≤ lib.maxLen

/-- The text has no character that ends a path or that no path may have. -/
def PathChars (t : Text) : Prop := ∀ c ∈ t, lib.pathChar c

/-- A scheme and an authority, and a path unless it is left out. -/
def AbsoluteForm (t : Text) : Prop :=
  ∃ scheme authority path, lib.isScheme scheme ∧ lib.isAuthority authority ∧
    (path = [] ∨ ['/'] <+: path) ∧ t = scheme ++ "://".toList ++ authority ++ path

def parsePath (t : Text) : Option Text := (lib.parse t).map Uri.path

/-- What the crate says of its parser: a text that starts with a slash is a path with a
query or fragment, one with a scheme has an absolute path, and the authority alone and
the asterisk are the forms without one. -/
structure Documented : Prop where
  path_ends : lib.pathChar '?' = false ∧ lib.pathChar '#' = false
  empty : lib.parse [] = none
  too_long : ∀ t, ¬ lib.Fits t → lib.parse t = none
  origin_path : GatewayRouting.ParsesPaths lib.parsePath
  query_marked : ∀ t uri, lib.parse t = some uri → '?' ∉ t → uri.query = none
  origin_form : ∀ t, ['/'] <+: t → lib.PathChars t → lib.Fits t → (lib.parse t).isSome
  absolute_form : ∀ t, lib.AbsoluteForm t → lib.PathChars t → lib.Fits t →
    ∃ uri, lib.parse t = some uri ∧ ['/'] <+: uri.path
  other_forms : ∀ t uri, lib.PathChars t → lib.parse t = some uri → ¬ ['/'] <+: t →
    ¬ lib.AbsoluteForm t → uri.path = [] ∨ uri.path = ['*']

namespace Documented

variable {lib} (hlib : lib.Documented)
include hlib

theorem not_mem_of_pathChars {t : Text} (ht : lib.PathChars t) : '?' ∉ t ∧ '#' ∉ t := by
  have hmark : ∀ c, lib.pathChar c = false → c ∉ t := by
    intro c hc hmem
    have := ht c hmem
    rw [hc] at this
    cases this
  exact ⟨hmark '?' hlib.path_ends.1, hmark '#' hlib.path_ends.2⟩

theorem fits_of_parse {t : Text} {uri : Uri lib.pathChar} (h : lib.parse t = some uri) :
    lib.Fits t := by
  by_contra hlong
  rw [hlib.too_long t hlong] at h
  cases h

/-- Nothing of a path is a query. -/
theorem query_eq_none {t : Text} {uri : Uri lib.pathChar} (ht : lib.PathChars t)
    (h : lib.parse t = some uri) : uri.query = none :=
  hlib.query_marked t uri h (hlib.not_mem_of_pathChars ht).1

/-- A text that can be a path and starts with a slash is the path it parses to. -/
theorem path_eq {t : Text} {uri : Uri lib.pathChar} (hslash : ['/'] <+: t)
    (ht : lib.PathChars t) (h : lib.parse t = some uri) : uri.path = t := by
  obtain ⟨hquery, hfragment⟩ := hlib.not_mem_of_pathChars ht
  obtain ⟨s, rfl⟩ := hslash
  have hparse : lib.parsePath ('/' :: s) = some uri.path := congrArg (Option.map Uri.path) h
  rw [hlib.origin_path s uri.path hparse]
  refine List.takeWhile_eq_self_iff.mpr fun c hc => ?_
  have hcquery : c ≠ '?' := fun he => hquery (he ▸ hc)
  have hcfragment : c ≠ '#' := fun he => hfragment (he ▸ hc)
  simp [hcquery, hcfragment]

/-- The texts that can be a path and parse to a URI with an absolute one. -/
theorem absolutePath_iff {t : Text} (ht : lib.PathChars t) :
    (∃ uri, lib.parse t = some uri ∧ ['/'] <+: uri.path) ↔
      lib.Fits t ∧ (['/'] <+: t ∨ lib.AbsoluteForm t) := by
  constructor
  · rintro ⟨uri, hparse, habsolute⟩
    refine ⟨hlib.fits_of_parse hparse, ?_⟩
    by_contra hform
    obtain ⟨hslash, hscheme⟩ := not_or.mp hform
    rcases hlib.other_forms t uri ht hparse hslash hscheme with hpath | hpath
    · rw [hpath] at habsolute
      exact absurd habsolute (by decide)
    · rw [hpath] at habsolute
      exact absurd habsolute (by decide)
  · rintro ⟨hfits, hslash | hscheme⟩
    · obtain ⟨uri, hparse⟩ := Option.isSome_iff_exists.mp (hlib.origin_form t hslash ht hfits)
      refine ⟨uri, hparse, ?_⟩
      rw [hlib.path_eq hslash ht hparse]
      exact hslash
    · exact hlib.absolute_form t hscheme ht hfits

end Documented

end UriLib

/-- A request on its way to an upstream. -/
structure RequestHeader (lib : UriLib) where
  uri : Uri lib.pathChar
  headers : HeaderMap

namespace UriRewrite
open GatewayProxy

variable {lib : UriLib} (requestID : HeaderValue)

/-- `upstream_request_filter`: only the path of the URI goes into the new one. -/
def upstreamRequest (r : RequestHeader lib) : Option (RequestHeader lib) :=
  let headers := upstreamHeaders requestID r.headers
  match Text.stripPrefix "/api/v1".toList r.uri.path with
  | none => some { r with headers := headers }
  | some stripped => (lib.parse stripped).map fun newUri => { uri := newUri, headers := headers }

/-- Of the path and the headers it is what the gateway's other results speak of. -/
theorem upstreamRequest_forwards (r : RequestHeader lib) :
    (upstreamRequest requestID r).map (fun v => (v.uri.path, v.headers)) =
      (upstreamRequestFilter lib.parsePath r.uri.path).map fun path =>
        (path, upstreamHeaders requestID r.headers) := by
  unfold upstreamRequest upstreamRequestFilter UriLib.parsePath
  cases Text.stripPrefix "/api/v1".toList r.uri.path with
  | none => rfl
  | some stripped =>
    simp only [Option.map_map]
    rfl

variable {requestID} {r : RequestHeader lib} {rest : Text}

theorem upstreamRequest_eq_some (hpath : r.uri.path = "/api/v1".toList ++ rest)
    {v : RequestHeader lib} : upstreamRequest requestID r = some v ↔
      lib.parse rest = some v.uri ∧ v.headers = upstreamHeaders requestID r.headers := by
  have hfilter : upstreamRequest requestID r = (lib.parse rest).map fun newUri =>
      { uri := newUri, headers := upstreamHeaders requestID r.headers } := by
    rw [upstreamRequest, hpath, Text.stripPrefix_append]
  rw [hfilter, Option.map_eq_some_iff]
  constructor
  · rintro ⟨newUri, hparse, rfl⟩
    exact ⟨hparse, rfl⟩
  · rintro ⟨hparse, hheaders⟩
    exact ⟨v.uri, hparse, by rw [← hheaders]⟩

/-- Of a request under the version, what the filter says of the URI is what the parser
says of the rest. -/
theorem exists_upstreamRequest (hpath : r.uri.path = "/api/v1".toList ++ rest)
    (P : Uri lib.pathChar → Prop) :
    (∃ v, upstreamRequest requestID r = some v ∧ P v.uri) ↔
      ∃ uri, lib.parse rest = some uri ∧ P uri := by
  constructor
  · rintro ⟨v, hv, hP⟩
    exact ⟨v.uri, ((upstreamRequest_eq_some hpath).mp hv).1, hP⟩
  · rintro ⟨uri, hparse, hP⟩
    exact ⟨⟨uri, upstreamHeaders requestID r.headers⟩,
      (upstreamRequest_eq_some hpath).mpr ⟨hparse, rfl⟩, hP⟩

theorem pathChars_rest (hpath : r.uri.path = "/api/v1".toList ++ rest) : lib.PathChars rest := by
  intro c hc
  refine r.uri.valid c ?_
  rw [hpath]
  exact List.mem_append_right _ hc

/-- No query gets past the gateway. -/
theorem upstreamRequest_query (hlib : lib.Documented) {v : RequestHeader lib}
    (hpath : r.uri.path = "/api/v1".toList ++ rest) (hv : upstreamRequest requestID r = some v) :
    v.uri.query = none :=
  hlib.query_eq_none (pathChars_rest hpath) ((upstreamRequest_eq_some hpath).mp hv).1

/-- The filter fails on the bare version. -/
theorem upstreamRequest_bare (hlib : lib.Documented) (hpath : r.uri.path = "/api/v1".toList) :
    upstreamRequest requestID r = none := by
  have hrest : r.uri.path = "/api/v1".toList ++ [] := by rw [hpath, List.append_nil]
  cases hv : upstreamRequest requestID r with
  | none => rfl
  | some v =>
    have hparse := ((upstreamRequest_eq_some hrest).mp hv).1
    rw [hlib.empty] at hparse
    cases hparse

variable (requestID r)

/-- The upstream gets the part after the version with the query as it was, and an absolute
path at any rate. -/
structure Rewritten : Prop where
  below : ∀ suffix, r.uri.path = "/api/v1/".toList ++ suffix →
    ∃ v, upstreamRequest requestID r = some v ∧ v.uri.path = '/' :: suffix ∧
      v.uri.query = r.uri.query
  absolute : "/api/v1".toList <+: r.uri.path →
    ∃ v, upstreamRequest requestID r = some v ∧ ['/'] <+: v.uri.path

/-- After the version comes a slash and there is no query, or else a whole URI comes after
it, within the length that the parser takes. -/
def Reparses : Prop :=
  ∀ rest, r.uri.path = "/api/v1".toList ++ rest →
    lib.Fits rest ∧ if ['/'] <+: rest then r.uri.query = none else lib.AbsoluteForm rest

variable {requestID r}

theorem below_iff (hlib : lib.Documented) {suffix : Text}
    (hpath : r.uri.path = "/api/v1".toList ++ '/' :: suffix) :
    (∃ v, upstreamRequest requestID r = some v ∧ v.uri.path = '/' :: suffix ∧
      v.uri.query = r.uri.query) ↔ lib.Fits ('/' :: suffix) ∧ r.uri.query = none := by
  have hchars := pathChars_rest hpath
  have hslash : ['/'] <+: '/' :: suffix := ⟨suffix, rfl⟩
  rw [exists_upstreamRequest hpath fun uri => uri.path = '/' :: suffix ∧ uri.query = r.uri.query]
  constructor
  · rintro ⟨uri, hparse, -, hquery⟩
    exact ⟨hlib.fits_of_parse hparse, hquery.symm.trans (hlib.query_eq_none hchars hparse)⟩
  · rintro ⟨hfits, hnone⟩
    obtain ⟨uri, hparse⟩ :=
      Option.isSome_iff_exists.mp (hlib.origin_form _ hslash hchars hfits)
    refine ⟨uri, hparse, hlib.path_eq hslash hchars hparse, ?_⟩
    rw [hlib.query_eq_none hchars hparse, hnone]

theorem absolute_iff (hlib : lib.Documented) (hpath : r.uri.path = "/api/v1".toList ++ rest) :
    (∃ v, upstreamRequest requestID r = some v ∧ ['/'] <+: v.uri.path) ↔
      lib.Fits rest ∧ (['/'] <+: rest ∨ lib.AbsoluteForm rest) := by
  rw [exists_upstreamRequest hpath fun uri => ['/'] <+: uri.path]
  exact hlib.absolutePath_iff (pathChars_rest hpath)

theorem rewritten_iff_reparses (lib : UriLib) (hlib : lib.Documented) (requestID : HeaderValue)
    (r : RequestHeader lib) : Rewritten requestID r ↔ Reparses r := by
  constructor
  · rintro ⟨hbelow, habsolute⟩ rest hpath
    obtain ⟨hfits, hform⟩ := (absolute_iff hlib hpath).mp (habsolute ⟨rest, hpath.symm⟩)
    refine ⟨hfits, ?_⟩
    split
    · rename_i hslash
      obtain ⟨suffix, rfl⟩ := hslash
      exact ((below_iff hlib hpath).mp (hbelow suffix hpath)).2
    · rename_i hslash
      exact hform.resolve_left hslash
  · intro h
    constructor
    · intro suffix hpath
      obtain ⟨hfits, hquery⟩ := h ('/' :: suffix) hpath
      rw [if_pos ⟨suffix, rfl⟩] at hquery
      exact (below_iff hlib hpath).mpr ⟨hfits, hquery⟩
    · rintro ⟨rest, hrest⟩
      obtain ⟨hfits, hform⟩ := h rest hrest.symm
      refine (absolute_iff hlib hrest.symm).mpr ⟨hfits, ?_⟩
      split at hform
      · rename_i hslash
        exact Or.inl hslash
      · exact Or.inr hform

/-- The characters that the crate takes in a path. -/
def pathChar (c : Char) : Bool :=
  let n := c.toNat
  n = 0x21 || n = 0x22 || (0x24 ≤ n && n ≤ 0x3b) || n = 0x3d || (0x40 ≤ n && n ≤ 0x5f) ||
    (0x61 ≤ n && n ≤ 0x7e) || 0x7f ≤ n

def inPath (c : Char) : Bool := c ≠ '?' && c ≠ '#'

/-- What follows the first question mark, up to a fragment. -/
def queryOf (t : Text) : Option Text :=
  match t.dropWhile inPath with
  | '?' :: query => some (query.takeWhile (· ≠ '#'))
  | _ => none

/-- The parser on the texts that start with a slash. -/
def slashForm : UriLib where
  pathChar := pathChar
  isScheme := fun _ => false
  isAuthority := fun _ => false
  maxLen := 65534
  parse t :=
    if h : (['/'] <+: t ∧ (Text.utf8 t).length ≤ 65534) ∧ (t.takeWhile inPath).all pathChar then
      some ⟨t.takeWhile inPath, queryOf t, List.all_eq_true.mp h.2⟩
    else none

theorem slashForm_eq_some {t : Text} {uri : Uri pathChar} : slashForm.parse t = some uri ↔
    ['/'] <+: t ∧ (Text.utf8 t).length ≤ 65534 ∧ uri.path = t.takeWhile inPath ∧
      uri.query = queryOf t := by
  constructor
  · intro h
    obtain ⟨⟨⟨hslash, hfits⟩, _⟩, huri⟩ := Option.dite_none_right_eq_some.mp h
    rw [← Option.some.inj huri]
    exact ⟨hslash, hfits, rfl, rfl⟩
  · obtain ⟨path, query, valid⟩ := uri
    rintro ⟨hslash, hfits, rfl, rfl⟩
    exact dif_pos ⟨⟨hslash, hfits⟩, List.all_eq_true.mpr valid⟩

theorem slashForm_documented : slashForm.Documented where
  path_ends := by decide
  empty := rfl
  too_long := by
    intro t hlong
    cases h : slashForm.parse t with
    | none => rfl
    | some uri => exact absurd (slashForm_eq_some.mp h).2.1 hlong
  origin_path := by
    intro t path h
    obtain ⟨uri, huri, hpath⟩ := Option.map_eq_some_iff.mp h
    rw [← hpath, (slashForm_eq_some.mp huri).2.2.1]
    congr 1
    funext c
    simp [inPath]
  query_marked := by
    intro t uri h hmark
    rw [(slashForm_eq_some.mp h).2.2.2, queryOf]
    split
    · rename_i query hdrop
      have hmem : '?' ∈ t.dropWhile inPath := hdrop ▸ List.mem_cons_self
      exact absurd (List.dropWhile_sublist inPath |>.mem hmem) hmark
    · rfl
  origin_form := by
    intro t hslash hchars hfits
    have hpart : ∀ c ∈ t.takeWhile inPath, pathChar c :=
      fun c hc => hchars c ((List.takeWhile_prefix inPath).subset hc)
    exact Option.isSome_iff_exists.mpr ⟨⟨t.takeWhile inPath, queryOf t, hpart⟩,
      slashForm_eq_some.mpr ⟨hslash, hfits, rfl, rfl⟩⟩
  absolute_form := by
    rintro t ⟨scheme, -, -, hscheme, -⟩
    cases hscheme
  other_forms := fun t uri _ h hslash => absurd (slashForm_eq_some.mp h).1 hslash

/-- A search of the registry as the gateway gets it. -/
def search (query : Option Text) : RequestHeader slashForm where
  uri := ⟨"/api/v1/registry/reports".toList, query,
    List.all_eq_true.mp (by decide)⟩
  headers := []

theorem search_path (query : Option Text) :
    (search query).uri.path = "/api/v1".toList ++ "/registry/reports".toList := rfl

theorem rewritten_iff_reparses_search :
    Rewritten [] (search none) ∧ ¬ Rewritten [] (search (some "q=x".toList)) := by
  have hslash : ['/'] <+: "/registry/reports".toList := by decide
  constructor
  · refine (rewritten_iff_reparses slashForm slashForm_documented [] (search none)).mpr ?_
    intro rest h
    have hrest : rest = "/registry/reports".toList :=
      List.append_cancel_left (h.symm.trans (search_path none))
    rw [hrest, if_pos hslash]
    have hfits : (Text.utf8 "/registry/reports".toList).length ≤ 65534 := by decide +kernel
    exact ⟨hfits, rfl⟩
  · rw [rewritten_iff_reparses slashForm slashForm_documented]
    intro h
    have hquery := (h "/registry/reports".toList (search_path _)).2
    rw [if_pos hslash] at hquery
    cases hquery

/-- The registry is asked without the search term. -/
theorem search_term_lost :
    ¬ ∀ lib : UriLib, lib.Documented → ∀ (requestID : HeaderValue) (r : RequestHeader lib),
      Rewritten requestID r := by
  intro h
  have hrewritten := h slashForm slashForm_documented [] (search (some "q=x".toList))
  obtain ⟨v, hv, -, hquery⟩ := hrewritten.below "registry/reports".toList rfl
  rw [upstreamRequest_query slashForm_documented (search_path _) hv] at hquery
  cases hquery

end UriRewrite

end SafetyDao
