import Mathlib.Data.List.Chain
import Mathlib.Logic.Relation

namespace Awex.Runs

variable {σ : Type} {step : σ → σ → Prop}

/-- The states that a run from `start` passes through. -/
def Run (step : σ → σ → Prop) (start s : σ) : Prop := Relation.ReflTransGen step start s

def Under (step condition : σ → σ → Prop) (s s' : σ) : Prop := step s s' ∧ condition s s'

theorem Run.invariant {start s : σ} (h : Run step start s) (I : σ → Prop) (hstart : I start)
    (hstep : ∀ s s', I s → step s s' → I s') : I s := by
  induction h with
  | refl => exact hstart
  | tail _ hlast ih => exact hstep _ _ ih hlast

theorem Run.mono {step' : σ → σ → Prop} {start s : σ} (h : Run step start s)
    (hstep : ∀ s s', step s s' → step' s s') : Run step' start s :=
  Relation.ReflTransGen.mono hstep _ _ h

/-- Where an invariant is kept by the steps that meet a condition, and no other step leads to a good state, the good
runs are those whose steps all meet the condition. -/
theorem chain_iff {P I : σ → Prop} {Q : σ → σ → Prop} (hP : ∀ s, I s → P s)
    (hstep : ∀ s s', I s → step s s' → Q s s' → I s') (hcondition : ∀ s s', I s → step s s' → P s' → Q s s')
    {start : σ} (hstart : I start) {path : List σ} (hrun : (start :: path).IsChain step) :
    (∀ s ∈ start :: path, P s) ↔ (start :: path).IsChain Q := by
  induction path generalizing start with
  | nil =>
    refine iff_of_true ?_ (.singleton start)
    intro s hs
    rw [List.mem_singleton.mp hs]
    exact hP start hstart
  | cons next path ih =>
    obtain ⟨hnext, hrest⟩ := List.isChain_cons_cons.mp hrun
    rw [List.isChain_cons_cons]
    constructor
    · intro hall
      have hQ := hcondition start next hstart hnext (hall next (by simp))
      exact ⟨hQ, (ih (hstep start next hstart hnext hQ) hrest).mp fun s hs => hall s (List.mem_cons_of_mem _ hs)⟩
    · rintro ⟨hQ, hchain⟩ s hs
      rcases List.mem_cons.mp hs with rfl | hs
      · exact hP s hstart
      · exact (ih (hstep start next hstart hnext hQ) hrest).mpr hchain s hs

theorem Run.exists_chain {Q : σ → σ → Prop} {start s : σ} (h : Run (Under step Q) start s) :
    ∃ path, (start :: path).IsChain step ∧ (start :: path).IsChain Q ∧ s ∈ start :: path := by
  induction h using Relation.ReflTransGen.head_induction_on with
  | refl => exact ⟨[], .singleton s, .singleton s, List.mem_cons_self⟩
  | @head start next hfirst _ ih =>
    obtain ⟨path, hsteps, hconditions, hlast⟩ := ih
    exact ⟨next :: path, List.isChain_cons_cons.mpr ⟨hfirst.1, hsteps⟩,
      List.isChain_cons_cons.mpr ⟨hfirst.2, hconditions⟩, List.mem_cons_of_mem start hlast⟩

section Inputs

variable {ι : Type} (next : σ → ι → σ)

/-- The predicate holds in every state that the inputs lead through. -/
def Throughout (P : σ → Prop) : σ → List ι → Prop
  | s, [] => P s
  | s, input :: inputs => P s ∧ Throughout P (next s input) inputs

/-- Each input meets the condition in the state in which it comes. -/
def EachStep (C : σ → ι → Prop) : σ → List ι → Prop
  | _, [] => True
  | s, input :: inputs => C s input ∧ EachStep C (next s input) inputs

variable {next} {P : σ → Prop} {C : σ → ι → Prop}

theorem Throughout.start {s : σ} {inputs : List ι} (h : Throughout next P s inputs) : P s := by
  cases inputs with
  | nil => exact h
  | cons input inputs => exact h.1

theorem throughout_iff (hstep : ∀ s input, P s → (P (next s input) ↔ C s input)) {s : σ} (h : P s) (inputs : List ι) :
    Throughout next P s inputs ↔ EachStep next C s inputs := by
  induction inputs generalizing s with
  | nil => exact ⟨fun _ => trivial, fun _ => h⟩
  | cons input inputs ih =>
    constructor
    · rintro ⟨-, hrest⟩
      exact ⟨(hstep s input h).mp hrest.start, (ih hrest.start).mp hrest⟩
    · rintro ⟨hinput, hrest⟩
      exact ⟨h, (ih ((hstep s input h).mpr hinput)).mpr hrest⟩

theorem eachStep_of_forall (h : ∀ s input, C s input) (s : σ) (inputs : List ι) : EachStep next C s inputs := by
  induction inputs generalizing s with
  | nil => trivial
  | cons input inputs ih => exact ⟨h s input, ih _⟩

end Inputs

end Awex.Runs
