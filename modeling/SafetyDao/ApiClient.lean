import SafetyDao.BrowserSession
import SafetyDao.CheckinServer
import SafetyDao.QueryString
import Mathlib.Data.List.AList

/-!
# The client of the API

`api.ts` builds a URL and the headers of a request, with the stored token as bearer, and the
parameters of a search as a query string. How a request gets from `fetch` to the server is a
parameter; the server splits the target at its question mark and reads the query. A parameter
arrives as it was given, whatever characters it has, and one that is undefined arrives as the
empty text that stands for no filter.
-/
namespace SafetyDao.ApiClient
open BrowserSession (Window getToken)
open CheckinServer (Arrival)
open FormUrlencoded (isEncoded serialize strictParse)

section Query

/-- The defined values of a parameter; `N` are the numbers of the language. -/
inductive ParamValue (N : Type) where
  | string (s : Text)
  | number (n : N)
  | boolean (b : Bool)

variable {N : Type} (numberText : N → Text)

/-- `String(value)`. -/
def ParamValue.text : ParamValue N → Text
  | .string s => s
  | .number n => numberText n
  | .boolean b => if b then "true".toList else "false".toList

/-- Values by their keys, in the order of `Object.entries`; a value may be undefined. -/
abbrev Params (N : Type) : Type := AList fun _ : Text => Option (ParamValue N)

abbrev URLSearchParams : Type := List (Text × Text)

namespace URLSearchParams

/-- The first value of the name is replaced and the others are removed. -/
def set (name value : Text) : URLSearchParams → URLSearchParams
  | [] => [(name, value)]
  | p :: rest =>
    if p.1 = name then (name, value) :: rest.filter (fun q => q.1 ≠ name)
    else p :: set name value rest

def toText (search : URLSearchParams) : Text :=
  Text.latin1 (serialize (search.map (Prod.map Text.utf8 Text.utf8)))

end URLSearchParams

def search (entries : List (Sigma fun _ : Text => Option (ParamValue N))) : URLSearchParams :=
  entries.foldl (fun search entry =>
    match entry.2 with
    | none => search
    | some value => search.set entry.1 (value.text numberText)) []

def buildQueryString : Option (Params N) → Text
  | none => []
  | some params =>
    let qs := (search numberText params.entries).toText
    if qs = [] then [] else '?' :: qs

end Query

section Client

/-- The calls of the Go service's routes. The data of a request is its JSON text. -/
inductive ApiCall (N : Type) where
  | createCheckIn (data : Text)
  | completeCheckIn (id : Text)
  | listCheckIns
  | triggerAlert (data : Text)
  | resolveAlert (id : Text)
  | submitReport (data : Text)
  | searchReports (params : Option (Params N))
  | createProposal (data : Text)
  | listProposals
  | castVote (proposalId data : Text)

structure RequestInit where
  method : Text
  body : Text

structure FetchRequest where
  method : Text
  url : Text
  headers : List (Text × Text)
  body : Text

variable {N : Type} (numberText : N → Text)

def request (apiUrl : Text) (window : Window) (endpoint : Text) (options : Option RequestInit) :
    FetchRequest :=
  let headers := [("Content-Type".toList, "application/json".toList)]
  let token := (getToken window).getD []
  { method := (options.map RequestInit.method).getD "GET".toList
    url := apiUrl ++ endpoint
    headers := if token = [] then headers
      else headers ++ [("Authorization".toList, "Bearer ".toList ++ token)]
    body := (options.map RequestInit.body).getD [] }

def ApiCall.endpoint : ApiCall N → Text
  | .createCheckIn _ => "/checkins".toList
  | .completeCheckIn id => "/checkins/".toList ++ id ++ "/complete".toList
  | .listCheckIns => "/checkins".toList
  | .triggerAlert _ => "/emergency".toList
  | .resolveAlert id => "/emergency/".toList ++ id ++ "/resolve".toList
  | .submitReport _ => "/registry/reports".toList
  | .searchReports params => "/registry/reports".toList ++ buildQueryString numberText params
  | .createProposal _ => "/dao/proposals".toList
  | .listProposals => "/dao/proposals".toList
  | .castVote proposalId _ => "/dao/proposals/".toList ++ proposalId ++ "/votes".toList

def ApiCall.options : ApiCall N → Option RequestInit
  | .createCheckIn data | .triggerAlert data | .submitReport data | .createProposal data
  | .castVote _ data => some ⟨"POST".toList, data⟩
  | .completeCheckIn _ | .resolveAlert _ => some ⟨"POST".toList, []⟩
  | .listCheckIns | .searchReports _ | .listProposals => none

def ApiCall.fetched (apiUrl : Text) (window : Window) (call : ApiCall N) : FetchRequest :=
  request apiUrl window (call.endpoint numberText) call.options

end Client

section Transport

/-- A request as it reaches the server, with the target of its first line. -/
structure Delivered where
  method : Text
  target : Text
  headers : List (Text × Text)
  body : Text

/-- A character of a path that no parser of URLs changes. -/
def pathChar (c : Char) : Bool := c.isAlphanum || c = '-' || c = '/'

/-- A character that the serializer writes. -/
def queryChar (c : Char) : Bool :=
  c.toNat < 128 && (isEncoded (UInt8.ofNat c.toNat) || c = '=' || c = '&')

/-- A path, and a query behind a question mark unless there is none. -/
def PlainTarget (t : Text) : Prop :=
  ∃ path query, t = path ++ query ∧ (∀ c ∈ path, pathChar c) ∧
    (query = [] ∨ ∃ qs, query = '?' :: qs ∧ ∀ c ∈ qs, queryChar c)

/-- A character that a header may have in any place. -/
def visible (c : Char) : Bool := 33 ≤ c.toNat && c.toNat < 127

/-- Words of visible characters, with a blank between them. -/
def PlainHeader (v : Text) : Prop :=
  ∃ words : List Text, v = List.intercalate [' '] words ∧
    ∀ word ∈ words, word ≠ [] ∧ word.all visible

/-- `fetch` and the protocol below it: a request whose URL and headers need no encoding arrives
with the target that follows the origin in its URL. -/
structure Carries (deliver : FetchRequest → Option Delivered) (apiUrl : Text) : Prop where
  plain : ∀ r endpoint, r.url = apiUrl ++ endpoint → PlainTarget endpoint →
    (∀ h ∈ r.headers, PlainHeader h.2) →
    deliver r = some ⟨r.method, "/api/v1".toList ++ endpoint, r.headers, r.body⟩

/-- `URL.Query`. Names and values are texts if their bytes encode some. -/
def readQuery (raw : Text) : Option (List (Text × Text)) :=
  (strictParse (Text.utf8 raw)).mapM fun f => do
    let name ← Text.ofUtf8 f.1
    let value ← Text.ofUtf8 f.2
    return (name, value)

/-- The target up to the first question mark is the path. Escapes in it are not modelled. -/
def arrive (jwtParse : (secret token : Text) → Option MapClaims) (d : Delivered) :
    Option Arrival := do
  let path := d.target.takeWhile (· ≠ '?')
  let query ← readQuery ((d.target.dropWhile (· ≠ '?')).drop 1)
  if '%' ∈ path then none
  else return ⟨d.method, path, d.headers, query, d.body, jwtParse⟩

end Transport

section RoundTrip

variable {N : Type} (numberText : N → Text)

/-- What is sent of an entry: nothing if its value is undefined. -/
def sentEntry (entry : Sigma fun _ : Text => Option (ParamValue N)) : Option (Text × Text) :=
  entry.2.map fun value => (entry.1, value.text numberText)

/-- The parameters that are sent, with the texts of their values. -/
def sent : Option (Params N) → List (Text × Text)
  | none => []
  | some params => params.entries.filterMap (sentEntry numberText)

/-- The text of a parameter, empty if it is undefined. -/
def paramText (params : Option (Params N)) (key : Text) : Text :=
  ((params.bind fun params => (params.lookup key).join).map (·.text numberText)).getD []

theorem set_of_not_mem {name : Text} (value : Text) {search : URLSearchParams}
    (h : name ∉ search.map Prod.fst) : search.set name value = search ++ [(name, value)] := by
  induction search with
  | nil => rfl
  | cons p rest ih =>
    rw [List.map_cons, List.mem_cons, not_or] at h
    rw [URLSearchParams.set, if_neg (Ne.symm h.1), ih h.2, List.cons_append]

/-- Keys that are set once each stay where they were set. -/
theorem foldl_set {entries : List (Sigma fun _ : Text => Option (ParamValue N))}
    (hkeys : entries.NodupKeys) (search : URLSearchParams)
    (hnew : ∀ entry ∈ entries, entry.1 ∉ search.map Prod.fst) :
    entries.foldl (fun search entry =>
      match entry.2 with
      | none => search
      | some value => search.set entry.1 (value.text numberText)) search =
    search ++ entries.filterMap (sentEntry numberText) := by
  induction entries generalizing search with
  | nil => simp
  | cons entry rest ih =>
    obtain ⟨key, value⟩ := entry
    obtain ⟨hkey, hrest⟩ := List.nodupKeys_cons.mp hkeys
    have hnewRest : ∀ entry ∈ rest, entry.1 ∉ search.map Prod.fst :=
      fun entry hentry => hnew entry (List.mem_cons_of_mem _ hentry)
    rw [List.foldl_cons, List.filterMap_cons]
    cases value with
    | none => exact ih hrest search hnewRest
    | some value =>
      have hset : search.set key (value.text numberText) =
          search ++ [(key, value.text numberText)] :=
        set_of_not_mem _ (hnew ⟨key, some value⟩ List.mem_cons_self)
      have hboth : ∀ entry ∈ rest,
          entry.1 ∉ (search ++ [(key, value.text numberText)]).map Prod.fst := by
        intro entry hentry hmem
        rw [List.map_append, List.mem_append, List.map_singleton, List.mem_singleton] at hmem
        rcases hmem with hmem | heq
        · exact hnewRest entry hentry hmem
        · have hrepeated : entry.1 ∈ rest.keys := List.mem_keys_of_mem hentry
          rw [show entry.1 = key from heq] at hrepeated
          exact hkey hrepeated
      dsimp only
      rw [hset, ih hrest _ hboth, List.append_assoc]
      rfl

theorem search_entries (params : Params N) :
    search numberText params.entries = sent numberText (some params) :=
  foldl_set numberText params.nodupKeys [] fun _ _ => List.not_mem_nil

theorem find?_sentEntry {entries : List (Sigma fun _ : Text => Option (ParamValue N))}
    (hkeys : entries.NodupKeys) (key : Text) :
    (entries.filterMap (sentEntry numberText)).find? (fun p => p.1 = key) =
      (entries.dlookup key).join.map fun value => (key, value.text numberText) := by
  induction entries with
  | nil => rfl
  | cons entry rest ih =>
    obtain ⟨name, value⟩ := entry
    obtain ⟨hname, hrest⟩ := List.nodupKeys_cons.mp hkeys
    rw [List.filterMap_cons]
    by_cases h : name = key
    · subst h
      rw [List.dlookup_cons_eq]
      cases value with
      | none =>
        have hnone : rest.dlookup name = none := List.dlookup_eq_none.mpr hname
        exact (ih hrest).trans (by rw [hnone]; rfl)
      | some value => exact List.find?_cons_of_pos (by simp)
    · rw [List.dlookup_cons_ne _ _ (Ne.symm h)]
      cases value with
      | none => exact ih hrest
      | some value => exact (List.find?_cons_of_neg (by simpa using h)).trans (ih hrest)

/-- Each parameter is found under its key. -/
theorem getD_find?_sent (params : Option (Params N)) (key : Text) :
    (((sent numberText params).find? fun p => p.1 = key).map Prod.snd).getD [] =
      paramText numberText params key := by
  cases params with
  | none => rfl
  | some params =>
    rw [sent, find?_sentEntry numberText params.nodupKeys, Option.map_map]
    rfl

theorem queryChar_of_mem_toText {search : URLSearchParams} {c : Char} (h : c ∈ search.toText) :
    queryChar c := by
  obtain ⟨b, hb, rfl⟩ := List.mem_map.mp h
  have hlow := FormUrlencoded.toNat_lt_of_mem_serialize hb
  have hnat : (Char.ofNat b.toNat).toNat = b.toNat := Text.toNat_ofNat_of_lt hlow
  have hkind : isEncoded b = true ∨ Char.ofNat b.toNat = '=' ∨ Char.ofNat b.toNat = '&' := by
    rcases FormUrlencoded.mem_serialize hb with hb | rfl | rfl
    · exact .inl hb
    · exact .inr (.inl rfl)
    · exact .inr (.inr rfl)
  simp only [queryChar, hnat, UInt8.ofNat_toNat, Bool.and_eq_true, Bool.or_eq_true,
    decide_eq_true_eq]
  exact ⟨hlow, or_assoc.mpr hkind⟩

theorem decode_fields (search : URLSearchParams) :
    (search.map (Prod.map Text.utf8 Text.utf8)).mapM (fun f => do
      let name ← Text.ofUtf8 f.1
      let value ← Text.ofUtf8 f.2
      return (name, value)) = some search := by
  induction search with
  | nil => rfl
  | cons p rest ih =>
    rw [List.map_cons, List.mapM_cons, ih]
    simp [Text.ofUtf8_utf8]

theorem readQuery_toText (search : URLSearchParams) : readQuery search.toText = some search := by
  rw [readQuery, URLSearchParams.toText,
    Text.utf8_latin1 fun _ => FormUrlencoded.toNat_lt_of_mem_serialize,
    FormUrlencoded.strictParse_serialize, decode_fields]

theorem toText_eq_nil_iff {search : URLSearchParams} : search.toText = [] ↔ search = [] := by
  rw [URLSearchParams.toText, Text.latin1, List.map_eq_nil_iff,
    FormUrlencoded.serialize_eq_nil_iff, List.map_eq_nil_iff]

/-- The query string is empty if nothing is sent, and otherwise what the serializer writes
behind a question mark. -/
theorem buildQueryString_cases (params : Option (Params N)) :
    (sent numberText params = [] ∧ buildQueryString numberText params = []) ∨
      buildQueryString numberText params =
        '?' :: URLSearchParams.toText (sent numberText params) := by
  cases params with
  | none => exact .inl ⟨rfl, rfl⟩
  | some params =>
    rw [buildQueryString, search_entries]
    split
    · rename_i hnil
      exact .inl ⟨toText_eq_nil_iff.mp hnil, rfl⟩
    · exact .inr rfl

theorem plainTarget_append {path : Text} (hpath : ∀ c ∈ path, pathChar c)
    (params : Option (Params N)) : PlainTarget (path ++ buildQueryString numberText params) := by
  refine ⟨path, _, rfl, hpath, ?_⟩
  rcases buildQueryString_cases numberText params with ⟨-, hquery⟩ | hquery
  · exact .inl hquery
  · exact .inr ⟨_, hquery, fun c hc => queryChar_of_mem_toText hc⟩

/-- The server finds the path and the parameters that were sent. -/
theorem arrive_target (jwtParse : (secret token : Text) → Option MapClaims) {path : Text}
    (hpath : ∀ c ∈ path, pathChar c) (params : Option (Params N)) (method body : Text)
    (headers : List (Text × Text)) :
    arrive jwtParse ⟨method, path ++ buildQueryString numberText params, headers, body⟩ =
      some ⟨method, path, headers, sent numberText params, body, jwtParse⟩ := by
  have hkeep : ∀ c ∈ path, decide (c ≠ '?') = true := by
    intro c hc
    exact decide_eq_true fun heq => absurd (hpath c hc) (by rw [heq]; decide)
  have hescape : '%' ∉ path := fun hmem => absurd (hpath '%' hmem) (by decide)
  have hsplit : (path ++ buildQueryString numberText params).takeWhile (· ≠ '?') = path ∧
      readQuery (((path ++ buildQueryString numberText params).dropWhile (· ≠ '?')).drop 1) =
        some (sent numberText params) := by
    rw [List.takeWhile_append_of_pos hkeep, List.dropWhile_append_of_pos hkeep]
    rcases buildQueryString_cases numberText params with ⟨hsent, hquery⟩ | hquery
    · rw [hquery, hsent]
      exact ⟨List.append_nil path, readQuery_toText []⟩
    · rw [hquery]
      simp [readQuery_toText]
  unfold arrive
  rw [hsplit.1, hsplit.2]
  exact if_neg hescape

/-- Parameters of a search, whatever is in their keys and values, survive the URL: nothing that
an encoder of URLs would change is in the query string, the server finds the path and exactly
the defined parameters in their order, and a handler reads each one's text under its key. -/
theorem params_arrive (jwtParse : (secret token : Text) → Option MapClaims) (path : Text)
    (hpath : ∀ c ∈ path, pathChar c) (params : Option (Params N)) (method body : Text)
    (headers : List (Text × Text)) :
    PlainTarget (path ++ buildQueryString numberText params) ∧
      ∃ a, arrive jwtParse ⟨method, path ++ buildQueryString numberText params, headers, body⟩ =
          some a ∧ a.path = path ∧ a.query = sent numberText params ∧
        ∀ key, (newRequest a.method a.path a.headers a.query a.body).queryParam key =
          paramText numberText params key :=
  ⟨plainTarget_append numberText hpath params, _,
    arrive_target numberText jwtParse hpath params method body headers, rfl, rfl,
    getD_find?_sent numberText params⟩

end RoundTrip

section Witness

/-- A search for a text of special characters, without a category, and with a limit that no
handler reads. -/
def oddSearch : Params ℕ :=
  ⟨[⟨"q".toList, some (.string "50% & más=?".toList)⟩, ⟨"category".toList, none⟩,
    ⟨"limit".toList, some (.number 20)⟩], by unfold List.NodupKeys; decide⟩

def numeral (n : ℕ) : Text := (toString n).toList

/-- The text and the limit arrive, and nothing of the category. -/
theorem params_arrive_search : ∃ a, arrive (fun _ _ => none) ⟨"GET".toList,
      "/api/v1/registry/reports".toList ++ buildQueryString numeral (some oddSearch), [], []⟩ =
        some a ∧ a.query = [("q".toList, "50% & más=?".toList), ("limit".toList, "20".toList)] := by
  obtain ⟨-, a, harrive, -, hquery, -⟩ := params_arrive numeral (fun _ _ => none)
    "/api/v1/registry/reports".toList (List.all_eq_true.mp rfl) (some oddSearch) "GET".toList [] []
  exact ⟨a, harrive, hquery.trans rfl⟩

end Witness

end SafetyDao.ApiClient
