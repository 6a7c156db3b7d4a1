import SafetyDao.Program

/-!
# Interleaved runs of request programs

A pool holds one program per thread and one shared state. A schedule lists which
thread performs its next request and which choice the environment makes there, so
a run is a function of the schedule and every interleaving is some schedule.

`Holds` is a rely-guarantee triple: before each request of the thread the others
may have moved the state anywhere along `rely`, and the thread's own request must
move it along `guar`. `run_sound` puts the threads together. A `guard` restricts
the requests a run may perform, for properties that only hold of such runs.
-/
namespace SafetyDao

/-- One performed request: who asked, what, and the answer. -/
structure Event {Op : Type} (Res : Op → Type) (ι : Type) where
  thread : ι
  op : Op
  result : Res op

def Event.request {Op : Type} {Res : Op → Type} {ι : Type} (e : Event Res ι) : Σ op, Res op :=
  ⟨e.op, e.result⟩

/-- A world together with the requests performed on it, the newest first. -/
structure Recorded {Op : Type} (Res : Op → Type) (World ι : Type) where
  world : World
  history : List (Event Res ι)

/-- Perform a request on the world and record it. -/
def Recorded.perform {Op : Type} {Res : Op → Type} {World ι Choice : Type}
    (exec : World → (op : Op) → Choice → World × Res op) (t : ι)
    (s : Recorded Res World ι) (op : Op) (c : Choice) : Recorded Res World ι × Res op :=
  let out := exec s.world op c
  (⟨out.1, ⟨t, op, out.2⟩ :: s.history⟩, out.2)

structure Pool {Op : Type} (Res : Op → Type) (σ ι α : Type) where
  state : σ
  threads : ι → Program Res α

namespace Pool

variable {Op : Type} {Res : Op → Type} {σ ι α Choice : Type} [DecidableEq ι]
  (perform : ι → σ → (op : Op) → Choice → σ × Res op)

/-- The scheduled thread performs its next request; a finished thread does nothing. -/
def step (pool : Pool Res σ ι α) (slot : ι × Choice) : Pool Res σ ι α :=
  match pool.threads slot.1 with
  | .done _ => pool
  | .request op next =>
    let out := perform slot.1 pool.state op slot.2
    ⟨out.1, Function.update pool.threads slot.1 (next out.2)⟩

def run (pool : Pool Res σ ι α) : List (ι × Choice) → Pool Res σ ι α
  | [] => pool
  | slot :: rest => run (pool.step perform slot) rest

theorem run_append (pool : Pool Res σ ι α) (xs ys : List (ι × Choice)) :
    pool.run perform (xs ++ ys) = (pool.run perform xs).run perform ys := by
  induction xs generalizing pool with
  | nil => rfl
  | cons x xs ih => exact ih _

/-- The next request of the scheduled thread is one that the guard admits. -/
def Admits (guard : ι → σ → Op → Choice → Prop) (pool : Pool Res σ ι α)
    (slot : ι × Choice) : Prop :=
  match pool.threads slot.1 with
  | .done _ => True
  | .request op _ => guard slot.1 pool.state op slot.2

/-- Every request of the run is admitted in the state it is performed in. -/
def Guarded (guard : ι → σ → Op → Choice → Prop) :
    Pool Res σ ι α → List (ι × Choice) → Prop
  | _, [] => True
  | pool, slot :: rest => pool.Admits guard slot ∧ Guarded guard (pool.step perform slot) rest

instance decidableAdmits (guard : ι → σ → Op → Choice → Prop)
    [∀ t s op c, Decidable (guard t s op c)] (pool : Pool Res σ ι α) (slot : ι × Choice) :
    Decidable (pool.Admits guard slot) := by
  unfold Admits
  split <;> infer_instance

instance decidableGuarded (guard : ι → σ → Op → Choice → Prop)
    [∀ t s op c, Decidable (guard t s op c)] :
    (pool : Pool Res σ ι α) → (xs : List (ι × Choice)) →
      Decidable (Guarded perform guard pool xs)
  | _, [] => inferInstanceAs (Decidable True)
  | pool, slot :: rest =>
    have := decidableGuarded guard (pool.step perform slot) rest
    inferInstanceAs (Decidable (pool.Admits guard slot ∧ _))

variable {perform}

theorem issues_run {admissible : Op → Prop} {pool : Pool Res σ ι α}
    (h : ∀ t, (pool.threads t).Issues admissible) (xs : List (ι × Choice)) (t : ι) :
    ((pool.run perform xs).threads t).Issues admissible := by
  induction xs generalizing pool with
  | nil => exact h t
  | cons x xs ih =>
    refine ih fun u => ?_
    have hx := h x.1
    unfold step
    split
    · exact h u
    · rename_i op next hp
      rw [hp] at hx
      by_cases hu : u = x.1
      · subst hu
        simpa using hx.2 _
      · simpa [Function.update_of_ne hu] using h u

/-- A thread that is not scheduled stays where it is. -/
theorem threads_run_of_forall_ne (pool : Pool Res σ ι α) {xs : List (ι × Choice)} {t : ι}
    (h : ∀ slot ∈ xs, slot.1 ≠ t) : (pool.run perform xs).threads t = pool.threads t := by
  induction xs generalizing pool with
  | nil => rfl
  | cons x xs ih =>
    refine (ih _ fun slot hslot => h slot (List.mem_cons_of_mem _ hslot)).trans ?_
    unfold step
    split
    · rfl
    · exact Function.update_of_ne (h x List.mem_cons_self).symm _ _

/-- A thread that has its next request before it and returns in the end is scheduled in
between, for the first time after some part of the schedule. -/
theorem exists_turn {pool : Pool Res σ ι α} {xs : List (ι × Choice)} {t : ι} {op : Op}
    {next : Res op → Program Res α} (h : pool.threads t = .request op next) {a : α}
    (hdone : (pool.run perform xs).threads t = .done a) :
    ∃ ys c zs, xs = ys ++ (t, c) :: zs ∧ (pool.run perform ys).step perform (t, c) =
      ⟨(perform t (pool.run perform ys).state op c).1,
        Function.update (pool.run perform ys).threads t
          (next (perform t (pool.run perform ys).state op c).2)⟩ := by
  have hturn : ∃ slot ∈ xs, slot.1 = t := by
    by_contra hnone
    rw [threads_run_of_forall_ne pool fun slot hslot ht => hnone ⟨slot, hslot, ht⟩, h] at hdone
    cases hdone
  obtain ⟨slot, hfind⟩ : ∃ slot, (xs.find? fun slot => slot.1 = t) = some slot :=
    Option.isSome_iff_exists.mp (List.find?_isSome.mpr (by simpa using hturn))
  obtain ⟨ht, ys, zs, rfl, hys⟩ := List.find?_eq_some_iff_append.mp hfind
  obtain ⟨u, c⟩ := slot
  obtain rfl : u = t := by simpa using ht
  have hthread : (pool.run perform ys).threads u = .request op next := by
    rw [threads_run_of_forall_ne pool fun slot hslot => by simpa using hys slot hslot, h]
  exact ⟨ys, c, zs, rfl, by simp [step, hthread]⟩

/-- If what a step does in one system is done by at most one step of another, then so is what a
run does. -/
theorem exists_run_of_step {Op' : Type} {Res' : Op' → Type} {σ' ι' α' Choice' : Type}
    [DecidableEq ι'] {perform' : ι' → σ' → (op : Op') → Choice' → σ' × Res' op}
    {Follows : Pool Res σ ι α → Pool Res' σ' ι' α' → Prop}
    {slotOf : ι × Choice → Option (ι' × Choice')}
    (hstep : ∀ p q slot, Follows p q → Follows (p.step perform slot) q ∨
      ∃ slot', slotOf slot = some slot' ∧ Follows (p.step perform slot) (q.step perform' slot'))
    {p : Pool Res σ ι α} {q : Pool Res' σ' ι' α'} (h : Follows p q) (xs : List (ι × Choice)) :
    ∃ ys, ys.Sublist (xs.filterMap slotOf) ∧ Follows (p.run perform xs) (q.run perform' ys) := by
  induction xs generalizing p q with
  | nil => exact ⟨[], List.nil_sublist _, h⟩
  | cons x xs ih =>
    rcases hstep p q x h with hp | ⟨slot', hslot, hpq⟩
    · obtain ⟨ys, hys, hrun⟩ := ih hp
      refine ⟨ys, hys.trans ?_, hrun⟩
      exact (List.sublist_cons_self x xs).filterMap slotOf
    · obtain ⟨ys, hys, hrun⟩ := ih hpq
      refine ⟨slot' :: ys, ?_, hrun⟩
      rw [List.filterMap_cons_some hslot]
      exact hys.cons_cons slot'

theorem guarded_append {guard : ι → σ → Op → Choice → Prop} {pool : Pool Res σ ι α}
    {xs ys : List (ι × Choice)} :
    Guarded perform guard pool (xs ++ ys) ↔
      Guarded perform guard pool xs ∧ Guarded perform guard (pool.run perform xs) ys := by
  induction xs generalizing pool with
  | nil => simp [Guarded, run]
  | cons x xs ih => simp only [List.cons_append, Guarded, run, ih, and_assoc]

theorem guarded_of_forall {guard : ι → σ → Op → Choice → Prop} (h : ∀ t s op c, guard t s op c)
    (pool : Pool Res σ ι α) (xs : List (ι × Choice)) : Guarded perform guard pool xs := by
  induction xs generalizing pool with
  | nil => trivial
  | cons x xs ih =>
    refine ⟨?_, ih _⟩
    unfold Admits
    split
    · trivial
    · exact h _ _ _ _

end Pool

section History

variable {Op : Type} {Res : Op → Type} {World ι α Choice : Type} [DecidableEq ι]
  (exec : World → (op : Op) → Choice → World × Res op)

/-- A step appends at most one event to the history. -/
theorem Pool.step_history (pool : Pool Res (Recorded Res World ι) ι α) (slot : ι × Choice) :
    pool.step (Recorded.perform exec) slot = pool ∨ ∃ op,
      (pool.step (Recorded.perform exec) slot).state =
        (Recorded.perform exec slot.1 pool.state op slot.2).1 := by
  unfold Pool.step
  split
  · exact .inl rfl
  · rename_i op next _
    exact .inr ⟨op, rfl⟩

/-- The history only grows. -/
theorem Pool.run_history (pool : Pool Res (Recorded Res World ι) ι α) (xs : List (ι × Choice)) :
    ∃ es, (pool.run (Recorded.perform exec) xs).state.history = es ++ pool.state.history := by
  induction xs generalizing pool with
  | nil => exact ⟨[], rfl⟩
  | cons x xs ih =>
    obtain ⟨es, hes⟩ := ih (pool.step (Recorded.perform exec) x)
    rw [Pool.run, hes]
    rcases pool.step_history exec x with hs | ⟨op, hs⟩
    · exact ⟨es, by rw [hs]⟩
    · refine ⟨es ++ [⟨x.1, op, (exec pool.state.world op x.2).2⟩], ?_⟩
      rw [hs]
      simp [Recorded.perform]

/-- What a run adds to the history was the next request of its thread at some moment. -/
theorem Pool.exists_moment {pool : Pool Res (Recorded Res World ι) ι α} {xs : List (ι × Choice)}
    {e : Event Res ι} (he : e ∈ (pool.run (Recorded.perform exec) xs).state.history) :
    e ∈ pool.state.history ∨ ∃ ys c zs next, xs = ys ++ (e.thread, c) :: zs ∧
      (pool.run (Recorded.perform exec) ys).threads e.thread = .request e.op next ∧
      e.result = (exec (pool.run (Recorded.perform exec) ys).state.world e.op c).2 := by
  induction xs generalizing pool with
  | nil => exact .inl he
  | cons x xs ih =>
    rcases ih he with hmem | ⟨ys, c, zs, next, rfl, hthread, hresult⟩
    · cases hp : pool.threads x.1 with
      | done a => exact .inl (by simpa [Pool.step, hp] using hmem)
      | request op next =>
        simp only [Pool.step, hp, Recorded.perform, List.mem_cons] at hmem
        rcases hmem with rfl | hmem
        · exact .inr ⟨[], x.2, xs, next, rfl, hp, rfl⟩
        · exact .inl hmem
    · exact .inr ⟨x :: ys, c, zs, next, rfl, hthread, hresult⟩

/-- What a run adds to the history is of scheduled threads. -/
theorem Pool.mem_history_run {pool : Pool Res (Recorded Res World ι) ι α} {xs : List (ι × Choice)}
    {e : Event Res ι} (he : e ∈ (pool.run (Recorded.perform exec) xs).state.history) :
    e ∈ pool.state.history ∨ ∃ slot ∈ xs, slot.1 = e.thread := by
  rcases Pool.exists_moment exec he with hmem | ⟨ys, c, zs, -, rfl, -⟩
  · exact .inl hmem
  · exact .inr ⟨(e.thread, c), by simp, rfl⟩

/-- The requests of one thread with their answers, in order. -/
def requestsOf (t : ι) (history : List (Event Res ι)) : List (Σ op, Res op) :=
  (history.reverse.filter fun e => e.thread = t).map Event.request

theorem requestsOf_cons_self (e : Event Res ι) (history : List (Event Res ι)) :
    requestsOf e.thread (e :: history) = requestsOf e.thread history ++ [e.request] := by
  simp [requestsOf]

theorem requestsOf_cons_of_ne {t : ι} {e : Event Res ι} (h : e.thread ≠ t)
    (history : List (Event Res ι)) : requestsOf t (e :: history) = requestsOf t history := by
  simp [requestsOf, h]

theorem mem_requestsOf {t : ι} {history : List (Event Res ι)} {op : Op} {r : Res op} :
    ⟨op, r⟩ ∈ requestsOf t history ↔ ⟨t, op, r⟩ ∈ history := by
  simp only [requestsOf, List.mem_map, List.mem_filter, List.mem_reverse, decide_eq_true_eq]
  constructor
  · rintro ⟨⟨u, op', r'⟩, ⟨hmem, rfl⟩, heq⟩
    cases heq
    exact hmem
  · exact fun h => ⟨_, ⟨h, rfl⟩, rfl⟩

/-- Events are pairwise in a relation if those of each thread are and those of two threads are. -/
theorem pairwise_of_threads {R : Event Res ι → Event Res ι → Prop}
    {events : List (Event Res ι)} (hsame : ∀ t, (events.filter fun e => e.thread = t).Pairwise R)
    (hother : ∀ e ∈ events, ∀ e' ∈ events, e.thread ≠ e'.thread → R e e') : events.Pairwise R := by
  induction events with
  | nil => exact .nil
  | cons e events ih =>
    refine List.pairwise_cons.mpr ⟨fun e' he' => ?_, ih (fun t => ?_) fun a ha b hb =>
      hother a (List.mem_cons_of_mem _ ha) b (List.mem_cons_of_mem _ hb)⟩
    · by_cases ht : e.thread = e'.thread
      · have hown := hsame e.thread
        rw [List.filter_cons_of_pos (by simp)] at hown
        exact (List.pairwise_cons.mp hown).1 e' (List.mem_filter.mpr ⟨he', by simp [ht]⟩)
      · exact hother e List.mem_cons_self e' (List.mem_cons_of_mem _ he') ht
    · exact (hsame t).sublist ((List.sublist_cons_self e events).filter _)

/-- Each thread is where its own requests and their answers have brought it. -/
theorem Pool.after_run {programs : ι → Program Res α}
    {pool : Pool Res (Recorded Res World ι) ι α}
    (h : ∀ t, (programs t).After (requestsOf t pool.state.history) (pool.threads t))
    (xs : List (ι × Choice)) (t : ι) :
    (programs t).After (requestsOf t (pool.run (Recorded.perform exec) xs).state.history)
      ((pool.run (Recorded.perform exec) xs).threads t) := by
  induction xs generalizing pool with
  | nil => exact h t
  | cons x xs ih =>
    refine ih fun u => ?_
    cases hp : pool.threads x.1 with
    | done a =>
      have hstep : pool.step (Recorded.perform exec) x = pool := by simp [Pool.step, hp]
      rw [hstep]
      exact h u
    | request op next =>
      simp only [Pool.step, hp, Recorded.perform]
      by_cases hu : u = x.1
      · subst hu
        rw [Function.update_self]
        exact requestsOf_cons_self ⟨x.1, op, _⟩ pool.state.history ▸ (h x.1).next hp _
      · rw [Function.update_of_ne hu, requestsOf_cons_of_ne (Ne.symm hu)]
        exact h u

/-- The requests of a run are the events of its history. -/
theorem Pool.guarded_of_history {good : Event Res ι → Prop}
    {pool : Pool Res (Recorded Res World ι) ι α} {xs : List (ι × Choice)}
    (h : ∀ e ∈ (pool.run (Recorded.perform exec) xs).state.history, good e) :
    Pool.Guarded (Recorded.perform exec) (fun t s op c => good ⟨t, op, (exec s.world op c).2⟩)
      pool xs := by
  induction xs generalizing pool with
  | nil => trivial
  | cons x xs ih =>
    refine ⟨?_, ih h⟩
    unfold Pool.Admits
    split
    · trivial
    · rename_i op next hp
      obtain ⟨es, hes⟩ := Pool.run_history exec (pool.step (Recorded.perform exec) x) xs
      have hstep : (pool.step (Recorded.perform exec) x).state.history =
          ⟨x.1, op, (exec pool.state.world op x.2).2⟩ :: pool.state.history := by
        simp [Pool.step, hp, Recorded.perform]
      rw [Pool.run, hes, hstep] at h
      exact h _ (by simp)

end History

/-- What a thread assumes of the others, promises them, and has reached when it returns. -/
structure Contract (σ α : Type) where
  rely : σ → σ → Prop
  guar : σ → σ → Prop
  post : α → σ → Prop

namespace Contract

variable {Op : Type} {Res : Op → Type} {σ ι α β Choice : Type}
  (perform : ι → σ → (op : Op) → Choice → σ × Res op) (guard : ι → σ → Op → Choice → Prop)

/-- Thread `t` meets its contract while running a program from a state: after any
moves along `rely`, each admitted request moves along `guar`, and so on to `post`. -/
def Holds (t : ι) (K : Contract σ α) : Program Res α → σ → Prop
  | .done a, s => ∀ s', K.rely s s' → K.post a s'
  | .request op next, s => ∀ s', K.rely s s' → ∀ c, guard t s' op c →
      K.guar s' (perform t s' op c).1 ∧
        Holds t K (next (perform t s' op c).2) (perform t s' op c).1

/-- Contracts that fit together: each `rely` is a preorder and contains the
guarantees of all other threads. -/
structure Compatible (K : ι → Contract σ α) : Prop where
  refl : ∀ t s, (K t).rely s s
  trans : ∀ t s₁ s₂ s₃, (K t).rely s₁ s₂ → (K t).rely s₂ s₃ → (K t).rely s₁ s₃
  guar_rely : ∀ t u, t ≠ u → ∀ s s', (K t).guar s s' → (K u).rely s s'

variable {perform guard}

theorem Holds.rely {t : ι} {K : Contract σ α} {p : Program Res α} {s s' : σ}
    (htrans : ∀ s₁ s₂ s₃, K.rely s₁ s₂ → K.rely s₂ s₃ → K.rely s₁ s₃)
    (h : Holds perform guard t K p s) (hs : K.rely s s') : Holds perform guard t K p s' := by
  cases p with
  | done a => exact fun s'' hr => h s'' (htrans _ _ _ hs hr)
  | request op next => exact fun s'' hr => h s'' (htrans _ _ _ hs hr)

theorem Holds.mono {t : ι} {K K' : Contract σ α} {p : Program Res α} {s : σ}
    (hrely : ∀ s s', K'.rely s s' → K.rely s s') (hguar : ∀ s s', K.guar s s' → K'.guar s s')
    (hpost : ∀ a s, K.post a s → K'.post a s) (h : Holds perform guard t K p s) :
    Holds perform guard t K' p s := by
  induction p generalizing s with
  | done a => exact fun s' hr => hpost a s' (h s' (hrely s s' hr))
  | request op next ih =>
    intro s' hr c hc
    obtain ⟨hmove, hnext⟩ := h s' (hrely s s' hr) c hc
    exact ⟨hguar _ _ hmove, ih _ hnext⟩

/-- What follows from the postcondition holds too. -/
theorem Holds.imp {t : ι} {rely guar : σ → σ → Prop} {post post' : α → σ → Prop}
    {p : Program Res α} {s : σ} (h : Holds perform guard t ⟨rely, guar, post⟩ p s)
    (hpost : ∀ a s, post a s → post' a s) : Holds perform guard t ⟨rely, guar, post'⟩ p s :=
  Holds.mono (K := ⟨rely, guar, post⟩) (fun _ _ hr => hr) (fun _ _ hg => hg) hpost h

/-- Two postconditions can be shown one by one, and the moves with either of them. -/
theorem Holds.and {t : ι} {rely guar guar' : σ → σ → Prop} {post post' : α → σ → Prop}
    {p : Program Res α} {s : σ} (h : Holds perform guard t ⟨rely, guar, post⟩ p s)
    (h' : Holds perform guard t ⟨rely, guar', post'⟩ p s) :
    Holds perform guard t ⟨rely, guar, fun a s => post a s ∧ post' a s⟩ p s := by
  induction p generalizing s with
  | done a => exact fun s' hr => ⟨h s' hr, h' s' hr⟩
  | request op next ih =>
    intro s' hr c hc
    exact ⟨(h s' hr c hc).1, ih _ (h s' hr c hc).2 (h' s' hr c hc).2⟩

/-- Sequencing: the rest of the program starts where the first part may have returned. -/
theorem Holds.bind {t : ι} {K : Contract σ β} {mid : α → σ → Prop} {p : Program Res α}
    {k : α → Program Res β} {s : σ} (hrefl : ∀ s, K.rely s s)
    (h : Holds perform guard t ⟨K.rely, K.guar, mid⟩ p s)
    (hk : ∀ a s, mid a s → Holds perform guard t K (k a) s) :
    Holds perform guard t K (p >>= k) s := by
  induction p generalizing s with
  | done a => exact hk a s (h s (hrefl s))
  | request op next ih =>
    intro s' hr c hc
    exact ⟨(h s' hr c hc).1, ih _ (h s' hr c hc).2⟩

/-- A request under an assertion that the others keep. -/
theorem Holds.of_stable {t : ι} {K : Contract σ α} {P : σ → Prop} {op : Op}
    {next : Res op → Program Res α} {s : σ} (hstable : ∀ s s', K.rely s s' → P s → P s') (hs : P s)
    (h : ∀ s, P s → ∀ c, guard t s op c → K.guar s (perform t s op c).1 ∧
      Holds perform guard t K (next (perform t s op c).2) (perform t s op c).1) :
    Holds perform guard t K (.request op next) s :=
  fun s' hr c hc => h s' (hstable s s' hr hs) c hc

/-- A request that moves as all threads do, under an assertion that such moves keep. -/
theorem Holds.of_moves {t : ι} {Moves : σ → σ → Prop} {post : α → σ → Prop} {P : σ → Prop} {op : Op}
    {next : Res op → Program Res α} {s : σ} (hstable : ∀ s s', Moves s s' → P s → P s')
    (hmove : ∀ s c, Moves s (perform t s op c).1) (hs : P s)
    (hnext : ∀ s c, P s → guard t s op c → P (perform t s op c).1 →
      Holds perform guard t ⟨Moves, Moves, post⟩ (next (perform t s op c).2)
        (perform t s op c).1) :
    Holds perform guard t ⟨Moves, Moves, post⟩ (.request op next) s :=
  Holds.of_stable hstable hs fun s hs c hc =>
    ⟨hmove s c, hnext s c hs hc (hstable _ _ (hmove s c) hs)⟩

theorem keeps_true (Moves : σ → σ → Prop) (s s' : σ) (_ : Moves s s') (_ : True) : True := trivial

/-- A thread that has returned is at its postcondition, and stays there. -/
theorem Holds.done {t : ι} {K : Contract σ α} {p : Program Res α} {a : α} {s : σ}
    (h : Holds perform guard t K p s) (hp : p = .done a) (hrefl : ∀ s, K.rely s s) :
    K.post a s := by
  subst hp
  exact h s (hrefl s)

/-- What is met whenever the guard admits a request is met when it admits fewer. -/
theorem Holds.of_guard {guard' : ι → σ → Op → Choice → Prop} {t : ι} {K : Contract σ α}
    (hguard : ∀ s op c, guard' t s op c → guard t s op c) {p : Program Res α} {s : σ}
    (h : Holds perform guard t K p s) : Holds perform guard' t K p s := by
  induction p generalizing s with
  | done a => exact h
  | request op next ih =>
    intro s' hr c hc
    obtain ⟨hmove, hnext⟩ := h s' hr c (hguard s' op c hc)
    exact ⟨hmove, ih _ hnext⟩

/-- A program meets the contract if each of its requests, on its own, moves along the
guarantee. -/
theorem Holds.of_issues {t : ι} {K : Contract σ α} {admissible : Op → Prop}
    (hstep : ∀ s op c, admissible op → guard t s op c → K.guar s (perform t s op c).1)
    (hpost : ∀ a s, K.post a s) {p : Program Res α} (h : p.Issues admissible) (s : σ) :
    Holds perform guard t K p s := by
  induction p generalizing s with
  | done a => exact fun s' _ => hpost a s'
  | request op next ih => exact fun s' _ c hc => ⟨hstep s' op c h.1 hc, ih _ (h.2 _) _⟩

/-- A program whose requests are answered as they are at the start, which they leave as it is,
returns what it returns when it runs there alone. -/
theorem Holds.alone {t : ι} {Moves : σ → σ → Prop} {P : σ → Prop} {admissible : Op → Prop}
    {World : Type} {exec : World → (op : Op) → Choice → World × Res op} {w : World}
    (hstable : ∀ s s', Moves s s' → P s → P s')
    (hmove : ∀ s op c, admissible op → P s → Moves s (perform t s op c).1)
    (hsame : ∀ s op c, admissible op → P s → exec w op c = (w, (perform t s op c).2))
    {p : Program Res α} (hp : p.Issues admissible) {s : σ} (hs : P s) :
    Holds perform guard t ⟨Moves, Moves, fun a _ => p.Completes exec w a w⟩ p s := by
  induction p generalizing s with
  | done a => exact fun _ _ => ⟨[], rfl⟩
  | request op next ih =>
    intro s' hr c _
    have hs' : P s' := hstable s s' hr hs
    have hstep : Moves s' (perform t s' op c).1 := hmove s' op c hp.1 hs'
    refine ⟨hstep, (ih _ (hp.2 _) (hstable _ _ hstep hs')).imp ?_⟩
    rintro a - ⟨cs, hcs⟩
    refine ⟨c :: cs, ?_⟩
    rw [Program.run, hsame s' op c hp.1 hs']
    exact hcs

/-- What a program meets as part of a system that does to its requests what it is said to do. -/
theorem Holds.embed {Op' : Type} {Res' : Op' → Type} {f : Op → Op'}
    {answer : ∀ op, Res' (f op) → Res op} {perform' : ι → σ → (op : Op') → Choice → σ × Res' op}
    {guard' : ι → σ → Op' → Choice → Prop} {t : ι} {K : Contract σ α}
    (hperform : ∀ s op c, perform t s op c =
      ((perform' t s (f op) c).1, answer op (perform' t s (f op) c).2))
    (hguard : ∀ s op c, guard' t s (f op) c → guard t s op c) {p : Program Res α} {s : σ}
    (h : Holds perform guard t K p s) : Holds perform' guard' t K (p.embed f answer) s := by
  induction p generalizing s with
  | done a => exact h
  | request op next ih =>
    intro s' hr c hc
    obtain ⟨hmove, hnext⟩ := h s' hr c (hguard s' op c hc)
    rw [hperform] at hmove hnext
    exact ⟨hmove, ih _ hnext⟩

section Others

variable {Moves : σ → σ → List (Event Res ι) → Prop} {t : ι}

/-- Moves by requests of other threads. -/
def Others (Moves : σ → σ → List (Event Res ι) → Prop) (t : ι) (s s' : σ) : Prop :=
  ∃ es, Moves s s' es ∧ ∀ e ∈ es, e.thread ≠ t

theorem Others.refl (hrefl : ∀ s, Moves s s []) (s : σ) : Others Moves t s s :=
  ⟨[], hrefl s, by simp⟩

theorem Others.trans
    (htrans : ∀ s₁ s₂ s₃ es fs, Moves s₁ s₂ es → Moves s₂ s₃ fs → Moves s₁ s₃ (fs ++ es))
    {s₁ s₂ s₃ : σ} (h₁ : Others Moves t s₁ s₂) (h₂ : Others Moves t s₂ s₃) :
    Others Moves t s₁ s₃ := by
  obtain ⟨es, hm₁, he₁⟩ := h₁
  obtain ⟨fs, hm₂, he₂⟩ := h₂
  refine ⟨fs ++ es, htrans _ _ _ _ _ hm₁ hm₂, fun e he => ?_⟩
  rcases List.mem_append.mp he with he | he
  · exact he₂ e he
  · exact he₁ e he

/-- Moves by requests of thread `t` itself. -/
def Own (Moves : σ → σ → List (Event Res ι) → Prop) (t : ι) (s s' : σ) : Prop :=
  ∃ es, Moves s s' es ∧ ∀ e ∈ es, e.thread = t

/-- Each thread moves as it may assume the others to move. -/
def apart (Moves : σ → σ → List (Event Res ι) → Prop) (t : ι) (post : α → σ → Prop) :
    Contract σ α := ⟨Others Moves t, Own Moves t, post⟩

theorem compatible_apart (hrefl : ∀ s, Moves s s [])
    (htrans : ∀ s₁ s₂ s₃ es fs, Moves s₁ s₂ es → Moves s₂ s₃ fs → Moves s₁ s₃ (fs ++ es))
    (post : ι → α → σ → Prop) : Compatible (fun t => apart Moves t (post t)) where
  refl _ := Others.refl hrefl
  trans _ _ _ _ := Others.trans htrans
  guar_rely t u htu s s' h := by
    obtain ⟨es, hm, he⟩ := h
    exact ⟨es, hm, fun e hmem => (he e hmem).symm ▸ htu⟩

end Others

section Sound

variable [DecidableEq ι] {K : ι → Contract σ α}

/-- One admitted step keeps every thread's contract and moves along the guarantee
of the thread that was scheduled, or not at all. -/
theorem step_sound (hK : Compatible K) {pool : Pool Res σ ι α} {slot : ι × Choice}
    (hadm : pool.Admits guard slot)
    (h : ∀ t, Holds perform guard t (K t) (pool.threads t) pool.state) :
    (∀ t, Holds perform guard t (K t) ((pool.step perform slot).threads t)
      (pool.step perform slot).state) ∧
    (pool.step perform slot = pool ∨
      (K slot.1).guar pool.state (pool.step perform slot).state) := by
  cases hp : pool.threads slot.1 with
  | done a =>
    have hs : pool.step perform slot = pool := by simp [Pool.step, hp]
    rw [hs]
    exact ⟨h, .inl rfl⟩
  | request op next =>
    have hg : guard slot.1 pool.state op slot.2 := by simpa [Pool.Admits, hp] using hadm
    have ht := h slot.1
    rw [hp] at ht
    obtain ⟨hguar, hnext⟩ := ht pool.state (hK.refl _ _) slot.2 hg
    have hs : pool.step perform slot = ⟨(perform slot.1 pool.state op slot.2).1,
        Function.update pool.threads slot.1 (next (perform slot.1 pool.state op slot.2).2)⟩ := by
      simp [Pool.step, hp]
    rw [hs]
    refine ⟨fun t => ?_, .inr hguar⟩
    by_cases ht : t = slot.1
    · subst ht
      simpa using hnext
    · simp only [Function.update_of_ne ht]
      exact (h t).rely (hK.trans t) (hK.guar_rely _ _ (Ne.symm ht) _ _ hguar)

/-- Along a guarded run every thread meets its contract, and the state only moves
along any preorder that contains all guarantees. -/
theorem run_sound (hK : Compatible K) (R : σ → σ → Prop) (hrefl : ∀ s, R s s)
    (htrans : ∀ s₁ s₂ s₃, R s₁ s₂ → R s₂ s₃ → R s₁ s₃)
    (hguar : ∀ t s s', (K t).guar s s' → R s s')
    {pool : Pool Res σ ι α} {xs : List (ι × Choice)} (hx : Pool.Guarded perform guard pool xs)
    (h : ∀ t, Holds perform guard t (K t) (pool.threads t) pool.state) :
    (∀ t, Holds perform guard t (K t) ((pool.run perform xs).threads t)
      (pool.run perform xs).state) ∧ R pool.state (pool.run perform xs).state := by
  induction xs generalizing pool with
  | nil => exact ⟨h, hrefl _⟩
  | cons x xs ih =>
    obtain ⟨hstep, hmove⟩ := step_sound hK hx.1 h
    obtain ⟨hend, hrest⟩ := ih hx.2 hstep
    refine ⟨hend, htrans _ _ _ ?_ hrest⟩
    rcases hmove with heq | hg
    · rw [heq]; exact hrefl _
    · exact hguar _ _ _ hg

/-- When all threads move the state along one preorder, so does a guarded run, along which
every thread meets its contract. -/
theorem run_shared {Moves : σ → σ → Prop} (hrefl : ∀ s, Moves s s)
    (htrans : ∀ s₁ s₂ s₃, Moves s₁ s₂ → Moves s₂ s₃ → Moves s₁ s₃) {post : ι → α → σ → Prop}
    {pool : Pool Res σ ι α} {xs : List (ι × Choice)} (hx : Pool.Guarded perform guard pool xs)
    (h : ∀ t, Holds perform guard t ⟨Moves, Moves, post t⟩ (pool.threads t) pool.state) :
    (∀ t, Holds perform guard t ⟨Moves, Moves, post t⟩ ((pool.run perform xs).threads t)
      (pool.run perform xs).state) ∧ Moves pool.state (pool.run perform xs).state :=
  run_sound ⟨fun _ => hrefl, fun _ => htrans, fun _ _ _ _ _ hs => hs⟩ Moves hrefl htrans
    (fun _ _ _ hs => hs) hx h

/-- What a program reaches whatever the others do and whatever it is answered. -/
theorem Holds.returns (post : α → σ → Prop) {t : ι} {pool : Pool Res σ ι α}
    {xs : List (ι × Choice)} {a : α}
    (h : Holds perform (fun _ _ _ _ => True) t ⟨fun _ _ => True, fun _ _ => True, post⟩
      (pool.threads t) pool.state)
    (hdone : (pool.run perform xs).threads t = .done a) : post a (pool.run perform xs).state := by
  have hholds : ∀ u, Holds perform (fun _ _ _ _ => True) u
      ⟨fun _ _ => True, fun _ _ => True, fun a s => u = t → post a s⟩
      (pool.threads u) pool.state := by
    intro u
    by_cases hu : u = t
    · subst hu
      exact h.imp fun _ _ hpost _ => hpost
    · exact Holds.of_issues (fun _ _ _ _ _ => trivial) (fun _ _ ht => absurd ht hu)
        (Program.issues_any _) _
  have hrun := run_shared (fun _ => trivial) (fun _ _ _ _ _ => trivial)
    (Pool.guarded_of_forall (fun _ _ _ _ => trivial) pool xs) hholds
  exact (hrun.1 t).done hdone (fun _ => trivial) rfl

/-- Along a guarded run of threads that move apart, each meets its contract, and the run moves
the state by the requests it performs. -/
theorem run_apart {Moves : σ → σ → List (Event Res ι) → Prop} (hrefl : ∀ s, Moves s s [])
    (htrans : ∀ s₁ s₂ s₃ es fs, Moves s₁ s₂ es → Moves s₂ s₃ fs → Moves s₁ s₃ (fs ++ es))
    {post : ι → α → σ → Prop} {pool : Pool Res σ ι α} {xs : List (ι × Choice)}
    (hx : Pool.Guarded perform guard pool xs)
    (h : ∀ t, Holds perform guard t (apart Moves t (post t)) (pool.threads t) pool.state) :
    (∀ t, Holds perform guard t (apart Moves t (post t)) ((pool.run perform xs).threads t)
      (pool.run perform xs).state) ∧ ∃ es, Moves pool.state (pool.run perform xs).state es := by
  refine run_sound (compatible_apart hrefl htrans post) (fun s s' => ∃ es, Moves s s' es)
    (fun s => ⟨[], hrefl s⟩) ?_ ?_ hx h
  · rintro s₁ s₂ s₃ ⟨es, hes⟩ ⟨fs, hfs⟩
    exact ⟨fs ++ es, htrans _ _ _ _ _ hes hfs⟩
  · rintro t s s' ⟨es, hes, -⟩
    exact ⟨es, hes⟩

/-- Runs of programs that only issue admissible requests move along any preorder that
contains these. -/
theorem run_along {admissible : Op → Prop} (R : σ → σ → Prop) (hrefl : ∀ s, R s s)
    (htrans : ∀ s₁ s₂ s₃, R s₁ s₂ → R s₂ s₃ → R s₁ s₃)
    (hstep : ∀ t s op c, admissible op → R s (perform t s op c).1) {pool : Pool Res σ ι α}
    (h : ∀ t, (pool.threads t).Issues admissible) (xs : List (ι × Choice)) :
    R pool.state (pool.run perform xs).state := by
  have hguard : Pool.Guarded perform (fun _ _ _ _ => True) pool xs :=
    Pool.guarded_of_forall (fun _ _ _ _ => trivial) pool xs
  have hholds : ∀ t, Holds perform (fun _ _ _ _ => True) t (⟨R, R, fun _ _ => True⟩ : Contract σ α)
      (pool.threads t) pool.state := fun t =>
    Holds.of_issues (fun s op c hop _ => hstep t s op c hop) (fun _ _ => trivial) (h t) _
  exact (run_shared hrefl htrans hguard hholds).2

end Sound

end Contract

end SafetyDao
