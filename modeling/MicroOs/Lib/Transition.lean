import Mathlib

/-!
# Runs of a transition system

A system is a step relation `step s e t` ("from `s`, event `e` leads to `t`").
A run records every step it takes, so that a statement can speak about every
state reached and about every step at once. The rules below turn a fact about
one step into the fact about whole runs.
-/

namespace MicroOs.Lib
open List

variable {σ ε : Type}

/-- One recorded step: the state before it, its event, and the state after it. -/
structure StepOf (σ ε : Type) where
  pre : σ
  event : ε
  post : σ

/-- A run from `s` to `t`, with its steps in order. -/
inductive Run (step : σ → ε → σ → Prop) (s : σ) : List (StepOf σ ε) → σ → Prop
  | nil : Run step s [] s
  | snoc {trace : List (StepOf σ ε)} {t u : σ} {e : ε} :
      Run step s trace t → step t e u → Run step s (trace ++ [⟨t, e, u⟩]) u

/-- A state some run from an initial state ends in. -/
def Reachable (init : σ → Prop) (step : σ → ε → σ → Prop) (t : σ) : Prop :=
  ∃ s trace, init s ∧ Run step s trace t

variable {step : σ → ε → σ → Prop} {init : σ → Prop} {s t : σ} {trace : List (StepOf σ ε)}

lemma Reachable.start (h : init s) : Reachable init step s :=
  ⟨s, [], h, .nil⟩

lemma Reachable.next {e : ε} {u : σ} (h : Reachable init step t) (hstep : step t e u) :
    Reachable init step u := by
  obtain ⟨s, trace, hs, run⟩ := h
  exact ⟨s, _, hs, run.snoc hstep⟩

lemma Run.reachable (hs : init s) (run : Run step s trace t) : Reachable init step t :=
  ⟨s, trace, hs, run⟩

lemma Run.cons {e : ε} {u : σ} (first : step s e t) (run : Run step t trace u) :
    Run step s (⟨s, e, t⟩ :: trace) u := by
  induction run with
  | nil => exact Run.nil.snoc first
  | snoc run hstep ih => exact ih.snoc hstep

lemma Run.append {more : List (StepOf σ ε)} {u : σ} (run : Run step s trace t)
    (rest : Run step t more u) : Run step s (trace ++ more) u := by
  induction rest with
  | nil => rwa [append_nil]
  | snoc rest hstep ih =>
    rw [← append_assoc]
    exact ih.snoc hstep

lemma Run.step_of_mem (run : Run step s trace t) : ∀ st ∈ trace, step st.pre st.event st.post := by
  induction run with
  | nil => simp
  | snoc run hstep ih =>
    intro st hst
    rcases mem_append.mp hst with hst | hst
    · exact ih st hst
    · obtain rfl := mem_singleton.mp hst
      exact hstep

lemma Run.reachable_pre (hs : init s) (run : Run step s trace t) :
    ∀ st ∈ trace, Reachable init step st.pre := by
  induction run with
  | nil => simp
  | snoc run hstep ih =>
    intro st hst
    rcases mem_append.mp hst with hst | hst
    · exact ih st hst
    · obtain rfl := mem_singleton.mp hst
      exact run.reachable hs

lemma Run.before {before after : List (StepOf σ ε)} {st : StepOf σ ε}
    (run : Run step s (before ++ st :: after) t) : Run step s before st.pre := by
  generalize whole : before ++ st :: after = trace at run
  induction run generalizing after with
  | nil => simp at whole
  | @snoc trace u v e run hstep ih =>
    rcases eq_nil_or_concat' after with rfl | ⟨after, last, rfl⟩
    · obtain ⟨rfl, same⟩ := append_inj' whole rfl
      cases same
      exact run
    · rw [← cons_append, ← append_assoc] at whole
      obtain ⟨same, -⟩ := append_inj' whole rfl
      exact ih same

/-- The invariant rule for runs whose steps all meet a side condition `cond`: what the
initial state has and every such step preserves holds at the end of the run. -/
lemma Run.invariant_of {cond : σ → ε → σ → Prop} {inv : σ → Prop} (run : Run step s trace t)
    (base : inv s) (preserve : ∀ a e b, inv a → step a e b → cond a e b → inv b)
    (meets : ∀ st ∈ trace, cond st.pre st.event st.post) : inv t := by
  induction run with
  | nil => exact base
  | snoc run hstep ih =>
    have before := ih (fun st hst => meets st (mem_append_left _ hst))
    have last := meets _ (mem_append_right _ (mem_singleton_self _))
    exact preserve _ _ _ before hstep last

lemma Run.invariant (inv : σ → Prop) (run : Run step s trace t) (base : inv s)
    (preserve : ∀ a e b, inv a → step a e b → inv b) : inv t := by
  induction run with
  | nil => exact base
  | snoc run hstep ih => exact preserve _ _ _ ih hstep

lemma Run.invariant_of_pre {cond : σ → ε → σ → Prop} {inv : σ → Prop} (run : Run step s trace t)
    (base : inv s) (preserve : ∀ a e b, inv a → step a e b → cond a e b → inv b)
    (meets : ∀ st ∈ trace, cond st.pre st.event st.post) : ∀ st ∈ trace, inv st.pre := by
  induction run with
  | nil => simp
  | snoc run hstep ih =>
    have meets' := fun st hst => meets st (mem_append_left _ hst)
    intro st hst
    rcases mem_append.mp hst with hst | hst
    · exact ih meets' st hst
    · obtain rfl := mem_singleton.mp hst
      exact run.invariant_of base preserve meets'

/-- If a step keeps the invariant exactly under a condition, the invariant holds after every step of a
run exactly if all steps meet the condition. -/
lemma Run.forall_post_iff {cond : StepOf σ ε → Prop} {inv : σ → Prop} (run : Run step s trace t)
    (base : inv s) (exact : ∀ a e b, inv a → step a e b → (inv b ↔ cond ⟨a, e, b⟩)) :
    (∀ st ∈ trace, inv st.post) ↔ ∀ st ∈ trace, cond st := by
  induction run with
  | nil => simp
  | @snoc trace u v e run hstep ih =>
    have last : (∀ st ∈ trace, inv st.post) → inv u := by
      intro all
      cases run with
      | nil => exact base
      | snoc run hstep => exact all _ (mem_append_right _ (mem_singleton_self _))
    simp only [forall_mem_append, forall_mem_singleton]
    constructor
    · rintro ⟨all, after⟩
      exact ⟨ih.mp all, (exact u e v (last all) hstep).mp after⟩
    · rintro ⟨all, after⟩
      have before := ih.mpr all
      exact ⟨before, (exact u e v (last before) hstep).mpr after⟩

lemma Reachable.invariant (inv : σ → Prop) (h : Reachable init step t)
    (base : ∀ a, init a → inv a) (preserve : ∀ a e b, inv a → step a e b → inv b) : inv t := by
  obtain ⟨s, trace, hs, run⟩ := h
  exact run.invariant inv (base s hs) preserve

lemma Run.later {rel : σ → σ → Prop} (run : Run step s trace t) (refl : ∀ a, rel a a)
    (trans : ∀ a b c, rel a b → rel b c → rel a c) (meets : ∀ st ∈ trace, rel st.pre st.post) :
    rel s t ∧ ∀ st ∈ trace, rel st.post t := by
  induction run with
  | nil => exact ⟨refl s, by simp⟩
  | snoc run hstep ih =>
    obtain ⟨whole, parts⟩ := ih (fun st hst => meets st (mem_append_left _ hst))
    have last := meets _ (mem_append_right _ (mem_singleton_self _))
    refine ⟨trans _ _ _ whole last, ?_⟩
    intro st hst
    rcases mem_append.mp hst with hst | hst
    · exact trans _ _ _ (parts st hst) last
    · obtain rfl := mem_singleton.mp hst
      exact refl _

section Execution

variable (can : σ → ε → Prop) (next : σ → ε → σ)

/-- The events can happen one after another. -/
def Executes (s : σ) : List ε → Prop
  | [] => True
  | e :: events => can s e ∧ Executes (next s e) events

instance decidableExecutes [∀ s e, Decidable (can s e)] (s : σ) :
    (events : List ε) → Decidable (Executes can next s events)
  | [] => inferInstanceAs (Decidable True)
  | e :: events =>
      have := decidableExecutes (next s e) events
      inferInstanceAs (Decidable (_ ∧ _))

def stepsFrom (s : σ) : List ε → List (StepOf σ ε)
  | [] => []
  | e :: events => ⟨s, e, next s e⟩ :: stepsFrom (next s e) events

variable {can next}

lemma Executes.run {events : List ε} (h : Executes can next s events)
    (makes : ∀ a e, can a e → step a e (next a e)) :
    Run step s (stepsFrom next s events) (events.foldl next s) := by
  induction events generalizing s with
  | nil => exact .nil
  | cons e events ih => exact (ih h.2).cons (makes s e h.1)

end Execution

end MicroOs.Lib
