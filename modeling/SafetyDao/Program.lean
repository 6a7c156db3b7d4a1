import Mathlib.Logic.Function.Basic
import Mathlib.Tactic.Common

/-!
# Programs that act on a state through atomic requests

A program either returns or issues one request and continues with the answer.
What a request does is given separately, by `perform`: it reads the state, the
request and a choice of the environment (a clock reading, a failure, a fresh
name) and returns the next state with the answer. Between two requests a program
touches nothing, so the requests are exactly the points where other programs can
come in between. This module has the sequential reading; `Interleaving` runs many
programs on one state.
-/
namespace SafetyDao

inductive Program {Op : Type} (Res : Op → Type) (α : Type) : Type where
  | done (a : α)
  | request (op : Op) (next : Res op → Program Res α)

namespace Program

variable {Op : Type} {Res : Op → Type} {α β : Type}

def bind (p : Program Res α) (k : α → Program Res β) : Program Res β :=
  match p with
  | .done a => k a
  | .request op next => .request op (fun r => (next r).bind k)

instance : Monad (Program Res) where
  pure := .done
  bind := bind

/-- Issue one request and return its answer. -/
def call (op : Op) : Program Res (Res op) := .request op .done

@[simp] theorem pure_eq (a : α) : (pure a : Program Res α) = .done a := rfl

@[simp] theorem done_bind (a : α) (k : α → Program Res β) :
    (.done a : Program Res α) >>= k = k a := rfl

@[simp] theorem request_bind (op : Op) (next : Res op → Program Res α) (k : α → Program Res β) :
    (.request op next : Program Res α) >>= k = .request op (fun r => next r >>= k) := rfl

@[simp] theorem call_bind (op : Op) (k : Res op → Program Res β) :
    (call op : Program Res (Res op)) >>= k = .request op k := rfl

@[simp] theorem map_eq_bind (f : α → β) (p : Program Res α) :
    f <$> p = p >>= fun a => .done (f a) := rfl

/-- Every request that the program may come to issue, whatever the answers are, is
admissible. -/
def Issues (admissible : Op → Prop) : Program Res α → Prop
  | .done _ => True
  | .request op next => admissible op ∧ ∀ r, Issues admissible (next r)

theorem Issues.request {admissible : Op → Prop} {op : Op} {next : Res op → Program Res α}
    (hop : admissible op) (h : ∀ r, (next r).Issues admissible) :
    (Program.request op next).Issues admissible := ⟨hop, h⟩

theorem issues_any (p : Program Res α) : p.Issues (fun _ => True) := by
  induction p with
  | done a => trivial
  | request op next ih => exact ⟨trivial, ih⟩

theorem Issues.mono {admissible admissible' : Op → Prop} {p : Program Res α}
    (h : p.Issues admissible) (himp : ∀ op, admissible op → admissible' op) :
    p.Issues admissible' := by
  induction p with
  | done a => trivial
  | request op next ih => exact ⟨himp op h.1, fun r => ih r (h.2 r)⟩

theorem Issues.bind {admissible : Op → Prop} {p : Program Res α} {k : α → Program Res β}
    (h : p.Issues admissible) (hk : ∀ a, (k a).Issues admissible) :
    (p >>= k).Issues admissible := by
  induction p with
  | done a => exact hk a
  | request op next ih => exact ⟨h.1, fun r => ih r (h.2 r)⟩

theorem Issues.map {admissible : Op → Prop} {p : Program Res α} (h : p.Issues admissible)
    (f : α → β) : (f <$> p).Issues admissible := by
  rw [map_eq_bind]
  exact h.bind fun _ => trivial

section After

/-- What is left of a program when these requests have been answered. -/
inductive After : Program Res α → List (Σ op, Res op) → Program Res α → Prop
  | start (p : Program Res α) : After p [] p
  | answered {op : Op} {next : Res op → Program Res α} {r : Res op} {es : List (Σ op, Res op)}
      {p : Program Res α} (h : After (next r) es p) : After (.request op next) (⟨op, r⟩ :: es) p

theorem After.next {op : Op} {next : Res op → Program Res α} {es : List (Σ op, Res op)}
    {p q : Program Res α} (h : After p es q) (hq : q = .request op next) (r : Res op) :
    After p (es ++ [⟨op, r⟩]) (next r) := by
  induction h with
  | start p =>
    subst hq
    exact .answered (.start _)
  | answered _ ih => exact .answered (ih hq)

theorem after_done {a : α} {es : List (Σ op, Res op)} {p : Program Res α} :
    After (.done a) es p ↔ es = [] ∧ p = .done a := by
  constructor
  · rintro ⟨⟩
    exact ⟨rfl, rfl⟩
  · rintro ⟨rfl, rfl⟩
    exact .start _

theorem after_request {op : Op} {next : Res op → Program Res α} {es : List (Σ op, Res op)}
    {p : Program Res α} : After (.request op next) es p ↔ es = [] ∧ p = .request op next ∨
      ∃ r es', es = ⟨op, r⟩ :: es' ∧ After (next r) es' p := by
  constructor
  · rintro ⟨⟩
    · exact .inl ⟨rfl, rfl⟩
    · exact .inr ⟨_, _, rfl, ‹_›⟩
  · rintro (⟨rfl, rfl⟩ | ⟨r, es', rfl, h⟩)
    · exact .start _
    · exact .answered h

theorem After.issues {admissible : Op → Prop} {p q : Program Res α} {es : List (Σ op, Res op)}
    (h : After p es q) (hp : p.Issues admissible) : ∀ e ∈ es, admissible e.1 := by
  induction h with
  | start p => exact fun e he => absurd he List.not_mem_nil
  | answered _ ih =>
    intro e he
    rcases List.mem_cons.mp he with rfl | he
    · exact hp.1
    · exact ih (hp.2 _) e he

/-- A sequence is in its first part, or the first part has returned. -/
theorem After.of_bind {p : Program Res α} {k : α → Program Res β} {es : List (Σ op, Res op)}
    {q : Program Res β} (h : After (p >>= k) es q) :
    (∃ p', After p es p' ∧ q = p' >>= k) ∨
      ∃ a es₁ es₂, es = es₁ ++ es₂ ∧ After p es₁ (.done a) ∧ After (k a) es₂ q := by
  induction p generalizing es with
  | done a => exact .inr ⟨a, [], es, rfl, .start _, h⟩
  | request op next ih =>
    rcases after_request.mp h with ⟨rfl, rfl⟩ | ⟨r, es', rfl, hnext⟩
    · exact .inl ⟨_, .start _, rfl⟩
    · rcases ih r hnext with ⟨p', hp', hq⟩ | ⟨a, es₁, es₂, rfl, h₁, h₂⟩
      · exact .inl ⟨p', .answered hp', hq⟩
      · exact .inr ⟨a, ⟨op, r⟩ :: es₁, es₂, rfl, .answered h₁, h₂⟩

theorem After.of_map {f : α → β} {p : Program Res α} {es : List (Σ op, Res op)} {q : Program Res β}
    (h : After (f <$> p) es q) : ∃ p', After p es p' ∧ q = f <$> p' := by
  rcases h.of_bind with hfirst | ⟨a, es₁, es₂, rfl, h₁, h₂⟩
  · exact hfirst
  · obtain ⟨rfl, rfl⟩ := after_done.mp h₂
    exact ⟨.done a, by rwa [List.append_nil], rfl⟩

theorem map_eq_done {f : α → β} {p : Program Res α} {b : β} (h : f <$> p = .done b) :
    ∃ a, p = .done a ∧ f a = b := by
  cases p with
  | done a => exact ⟨a, rfl, Program.done.inj h⟩
  | request op next => cases h

end After

section Embed

variable {Op' : Type} {Res' : Op' → Type}

/-- A program of one part of a system as a program of the whole. -/
def embed (f : Op → Op') (answer : ∀ op, Res' (f op) → Res op) : Program Res α → Program Res' α
  | .done a => .done a
  | .request op next => .request (f op) fun r => (next (answer op r)).embed f answer

@[simp] theorem embed_done (f : Op → Op') (answer : ∀ op, Res' (f op) → Res op) (a : α) :
    (done a : Program Res α).embed f answer = .done a := rfl

@[simp] theorem embed_request (f : Op → Op') (answer : ∀ op, Res' (f op) → Res op) (op : Op)
    (next : Res op → Program Res α) : (request op next).embed f answer =
      .request (f op) fun r => (next (answer op r)).embed f answer := rfl

theorem embed_bind (f : Op → Op') (answer : ∀ op, Res' (f op) → Res op) (p : Program Res α)
    (k : α → Program Res β) :
    (p >>= k).embed f answer = p.embed f answer >>= fun a => (k a).embed f answer := by
  induction p with
  | done a => rfl
  | request op next ih => exact congrArg (Program.request (f op)) (funext fun r => ih _)

theorem Issues.embed {admissible : Op → Prop} {admissible' : Op' → Prop} {f : Op → Op'}
    {answer : ∀ op, Res' (f op) → Res op} {p : Program Res α} (h : p.Issues admissible)
    (hop : ∀ op, admissible op → admissible' (f op)) : (p.embed f answer).Issues admissible' := by
  induction p with
  | done a => trivial
  | request op next ih => exact ⟨hop op h.1, fun r => ih _ (h.2 _)⟩

end Embed

section Sequential

variable {σ Choice : Type} (perform : σ → (op : Op) → Choice → σ × Res op)

/-- Run a program on its own. Each request consumes one choice; the run is
undefined when the choices do not last, and returns those left over. -/
def run : Program Res α → σ → List Choice → Option (α × σ × List Choice)
  | .done a, s, cs => some (a, s, cs)
  | .request _ _, _, [] => none
  | .request op next, s, c :: cs =>
    let out := perform s op c
    run (next out.2) out.1 cs

/-- `Completes p s a s'`: alone, from `s`, some choices lead `p` to return `a` in `s'`. -/
def Completes (p : Program Res α) (s : σ) (a : α) (s' : σ) : Prop :=
  ∃ cs, p.run perform s cs = some (a, s', [])

/-- The weakest condition on the start under which every completed run of the
program ends in `post`. -/
def Ensures (post : α → σ → Prop) : Program Res α → σ → Prop
  | .done a, s => post a s
  | .request op next, s => ∀ c : Choice, Ensures post (next (perform s op c).2) (perform s op c).1

variable {perform}

theorem run_request {op : Op} {next : Res op → Program Res α} {s s' : σ} {cs rest : List Choice}
    {a : α} : (Program.request op next).run perform s cs = some (a, s', rest) ↔
      ∃ c cs', cs = c :: cs' ∧
        (next (perform s op c).2).run perform (perform s op c).1 cs' = some (a, s', rest) := by
  cases cs with
  | nil => simp [run]
  | cons c cs => simp [run]

theorem run_bind (p : Program Res α) (k : α → Program Res β) (s : σ) (cs : List Choice) :
    (p >>= k).run perform s cs =
      (p.run perform s cs).bind fun out => (k out.1).run perform out.2.1 out.2.2 := by
  induction p generalizing s cs with
  | done a => rfl
  | request op next ih =>
    cases cs with
    | nil => rfl
    | cons c cs => exact ih (perform s op c).2 (perform s op c).1 cs

theorem run_map {f : α → β} {p : Program Res α} {s s' : σ} {cs rest : List Choice} {b : β} :
    (f <$> p).run perform s cs = some (b, s', rest) ↔
      ∃ a, p.run perform s cs = some (a, s', rest) ∧ f a = b := by
  rw [map_eq_bind, run_bind, Option.bind_eq_some_iff]
  constructor
  · rintro ⟨⟨a, mid, left⟩, hp, hdone⟩
    simp only [run, Option.some.injEq, Prod.mk.injEq] at hdone
    obtain ⟨hb, rfl, rfl⟩ := hdone
    exact ⟨a, hp, hb⟩
  · rintro ⟨a, hp, rfl⟩
    exact ⟨(a, s', rest), hp, rfl⟩

/-- Two states that answer every admissible request alike, and stay alike, are not told
apart by a program that issues no others. -/
theorem Issues.run_alike {admissible : Op → Prop} {usable : Choice → Prop} {alike : σ → σ → Prop}
    (hstep : ∀ s r op c, alike s r → admissible op → usable c →
      alike (perform s op c).1 (perform r op c).1 ∧ (perform s op c).2 = (perform r op c).2)
    {p : Program Res α} (hp : p.Issues admissible) {s r s' : σ} {cs rest : List Choice} {a : α}
    (hcs : ∀ c ∈ cs, usable c) (h : alike s r) (hrun : p.run perform s cs = some (a, s', rest)) :
    ∃ r', p.run perform r cs = some (a, r', rest) ∧ alike s' r' := by
  induction p generalizing s r cs with
  | done b =>
    simp only [run, Option.some.injEq, Prod.mk.injEq] at hrun
    obtain ⟨rfl, rfl, rfl⟩ := hrun
    exact ⟨r, rfl, h⟩
  | request op next ih =>
    obtain ⟨c, cs', rfl, hnext⟩ := run_request.mp hrun
    obtain ⟨hstate, hanswer⟩ := hstep s r op c h hp.1 (hcs c List.mem_cons_self)
    obtain ⟨r', hr', halike⟩ := ih _ (hp.2 _)
      (fun c' hc' => hcs c' (List.mem_cons_of_mem _ hc')) hstate hnext
    exact ⟨r', run_request.mpr ⟨c, cs', rfl, hanswer ▸ hr'⟩, halike⟩

theorem Ensures.run_some {post : α → σ → Prop} {p : Program Res α} {s s' : σ} {a : α}
    {cs rest : List Choice} (h : Ensures perform post p s)
    (hr : p.run perform s cs = some (a, s', rest)) : post a s' := by
  induction p generalizing s cs with
  | done b =>
    simp only [run, Option.some.injEq, Prod.mk.injEq] at hr
    obtain ⟨rfl, rfl, -⟩ := hr
    exact h
  | request op next ih =>
    cases cs with
    | nil => simp [run] at hr
    | cons c cs => exact ih _ (h c) hr

/-- Every completed run meets the postcondition. -/
theorem Ensures.completes {post : α → σ → Prop} {p : Program Res α} {s s' : σ} {a : α}
    (h : Ensures perform post p s) (hc : p.Completes perform s a s') : post a s' := by
  obtain ⟨cs, hr⟩ := hc
  exact h.run_some hr

/-- A program comes to an end whatever it is answered. -/
theorem Ensures.exists_completes [Inhabited Choice] {post : α → σ → Prop} {p : Program Res α}
    {s : σ} (h : Ensures perform post p s) :
    ∃ a s', p.Completes perform s a s' ∧ post a s' := by
  induction p generalizing s with
  | done a => exact ⟨a, s, ⟨[], rfl⟩, h⟩
  | request op next ih =>
    obtain ⟨a, s', ⟨cs, hrun⟩, hpost⟩ := ih _ (h default)
    exact ⟨a, s', ⟨default :: cs, hrun⟩, hpost⟩

/-- Sequencing: the first part reaches what the second needs. -/
theorem Ensures.bind {mid : α → σ → Prop} {post : β → σ → Prop} {p : Program Res α}
    {k : α → Program Res β} {s : σ} (h : Ensures perform mid p s)
    (hk : ∀ a s, mid a s → Ensures perform post (k a) s) :
    Ensures perform post (p >>= k) s := by
  induction p generalizing s with
  | done a => exact hk a s h
  | request op next ih => exact fun c => ih _ (h c)

end Sequential

end Program

end SafetyDao
