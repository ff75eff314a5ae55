import Awex.Library.EventGraph
import Awex.Library.Rounds
import Awex.StepProtocol

namespace Awex

open EventGraph Rounds

/-- A party leaves a phase of its update; leaving `idle` starts one. -/
inductive Milestone where
  | train (r : ℕ) (phase : TrainPhase)
  | engine (e : ℕ) (phase : EnginePhase)
  | worker (d : ℕ) (phase : WorkerPhase)
  deriving DecidableEq

namespace TrainPhase

def index : TrainPhase → ℕ
  | .idle => 0
  | .releasing => 1
  | .addingOptimizers => 2
  | .converting => 3
  | .serializing => 4
  | .awaitingUpdate => 5
  | .clearing => 6
  | .written => 7
  | .awaitingEngines => 8
  | .finishing => 9
  | .deletingEngines => 10
  | .deletingOptimizers => 11
  | .deletingWeights => 12

/-- The phases that only the first rank goes through. -/
def ofFirst : TrainPhase → Bool
  | .addingOptimizers | .deletingEngines | .deletingOptimizers | .deletingWeights => true
  | _ => false

def next (first : Bool) : TrainPhase → TrainPhase
  | .idle => .releasing
  | .releasing => if first then .addingOptimizers else .converting
  | .addingOptimizers => .converting
  | .converting => .serializing
  | .serializing => .awaitingUpdate
  | .awaitingUpdate => .clearing
  | .clearing => .written
  | .written => .awaitingEngines
  | .awaitingEngines => .finishing
  | .finishing => if first then .deletingEngines else .idle
  | .deletingEngines => .deletingOptimizers
  | .deletingOptimizers => .deletingWeights
  | .deletingWeights => .idle

/-- The phase before; before `idle` comes the last phase of the step before. -/
def previous (first : Bool) : TrainPhase → TrainPhase
  | .idle => if first then .deletingWeights else .finishing
  | .releasing => .idle
  | .addingOptimizers => .releasing
  | .converting => if first then .addingOptimizers else .releasing
  | .serializing => .converting
  | .awaitingUpdate => .serializing
  | .clearing => .awaitingUpdate
  | .written => .clearing
  | .awaitingEngines => .written
  | .finishing => .awaitingEngines
  | .deletingEngines => .finishing
  | .deletingOptimizers => .deletingEngines
  | .deletingWeights => .deletingOptimizers

def Reaches (first : Bool) (p : TrainPhase) : Prop := first = true ∨ p.ofFirst = false

instance (first : Bool) (p : TrainPhase) : Decidable (p.Reaches first) := inferInstanceAs (Decidable (_ ∨ _))

theorem index_inj {p q : TrainPhase} : p.index = q.index ↔ p = q := by
  cases p <;> cases q <;> decide

theorem index_eq_zero {p : TrainPhase} : p.index = 0 ↔ p = .idle := index_inj (q := .idle)

theorem index_next (first : Bool) (p : TrainPhase) : (p.next first).index = 0 ∨ p.index < (p.next first).index := by
  cases first <;> cases p <;> decide

theorem next_skips (first : Bool) (p q : TrainPhase) (hq : q.Reaches first) (hp : p ≠ .idle) :
    q.index ≤ p.index ∨ (p.next first).index ≠ 0 ∧ (p.next first).index ≤ q.index := by
  revert hq hp
  cases first <;> cases p <;> cases q <;> decide

theorem next_reaches (first : Bool) (p : TrainPhase) (hp : p.Reaches first) : (p.next first).Reaches first := by
  revert hp
  cases first <;> cases p <;> decide

theorem previous_reaches (first : Bool) (q : TrainPhase) (hq : q.Reaches first) : (q.previous first).Reaches first := by
  revert hq
  cases first <;> cases q <;> decide

theorem previous_index_lt (first : Bool) (q : TrainPhase) (hq : q ≠ .idle) : (q.previous first).index < q.index := by
  revert hq
  cases first <;> cases q <;> decide

theorem le_previous (first : Bool) (p q : TrainPhase) (hp : p.Reaches first) (hlt : q = .idle ∨ p.index < q.index) :
    p.index ≤ (q.previous first).index := by
  revert hp hlt
  cases first <;> cases q <;> cases p <;> decide

end TrainPhase

namespace EnginePhase

def index : EnginePhase → ℕ
  | .idle => 0
  | .waiting => 1
  | .updating => 2

def previous : EnginePhase → EnginePhase
  | .idle => .updating
  | .waiting => .idle
  | .updating => .waiting

theorem index_inj {p q : EnginePhase} : p.index = q.index ↔ p = q := by
  cases p <;> cases q <;> decide

theorem index_ne_zero {p : EnginePhase} (h : p ≠ .idle) : p.index ≠ 0 := fun h0 => h (index_inj.mp h0)

theorem eq_waiting {p : EnginePhase} (h : p.previous = .idle) : p = .waiting := by
  revert h
  cases p <;> decide

theorem previous_index_lt {p : EnginePhase} (h : p ≠ .idle) : p.previous.index < p.index := by
  revert h
  cases p <;> decide

theorem previous_index (p : EnginePhase) : p.index = 0 ∨ p.previous.index < p.index := by
  cases p <;> decide

theorem previous_skips {p : EnginePhase} (q : EnginePhase) (h : p.previous ≠ .idle) :
    q.index ≤ p.previous.index ∨ p.index ≠ 0 ∧ p.index ≤ q.index := by
  revert h
  cases p <;> cases q <;> decide

end EnginePhase

namespace WorkerPhase

def index : WorkerPhase → ℕ
  | .idle => 0
  | .collecting => 1
  | .transferring => 2
  | .synchronizing => 3
  | .closing => 4
  | .deleting => 5

def previous : WorkerPhase → WorkerPhase
  | .idle => .deleting
  | .collecting => .idle
  | .transferring => .collecting
  | .synchronizing => .transferring
  | .closing => .synchronizing
  | .deleting => .closing

theorem index_inj {p q : WorkerPhase} : p.index = q.index ↔ p = q := by
  cases p <;> cases q <;> decide

theorem index_ne_zero {p : WorkerPhase} (h : p ≠ .idle) : p.index ≠ 0 := fun h0 => h (index_inj.mp h0)

theorem eq_collecting {p : WorkerPhase} (h : p.previous = .idle) : p = .collecting := by
  revert h
  cases p <;> decide

theorem previous_index_lt {p : WorkerPhase} (h : p ≠ .idle) : p.previous.index < p.index := by
  revert h
  cases p <;> decide

theorem previous_index (p : WorkerPhase) : p.index = 0 ∨ p.previous.index < p.index := by
  cases p <;> decide

theorem previous_skips {p : WorkerPhase} (q : WorkerPhase) (h : p.previous ≠ .idle) :
    q.index ≤ p.previous.index ∨ p.index ≠ 0 ∧ p.index ≤ q.index := by
  revert h
  cases p <;> cases q <;> decide

end WorkerPhase

namespace StepState

def count (s : StepState) : Milestone → ℕ
  | .train r phase =>
    if phase.Reaches (r = 0) then left (s.train r).step (s.train r).phase.index phase.index else 0
  | .engine e phase => left (s.engine e).step (s.engine e).phase.index phase.index
  | .worker d phase => left (s.worker d).step (s.worker d).phase.index phase.index

variable {s : StepState} {server : MetaServer UpdateKey UpdateObject}

theorem count_serve (s : StepState) (server : MetaServer UpdateKey UpdateObject) : (s.serve server).count = s.count := by
  funext m
  cases m <;> rfl

theorem count_setTrain {r : ℕ} {rank : TrainRank} {p : TrainPhase} (hp : p.Reaches (r = 0))
    (h : ∀ q : TrainPhase, q.Reaches (r = 0) → left rank.step rank.phase.index q.index =
      left (s.train r).step (s.train r).phase.index q.index + if q.index = p.index then 1 else 0) :
    (s.setTrain r rank).count = fire s.count (.train r p) := by
  funext m
  by_cases hm : m = .train r p
  · subst hm
    have hleft := h p hp
    rw [if_pos rfl] at hleft
    rw [fire_self]
    simp only [count, if_pos hp, setTrain_train, ↓reduceIte, hleft]
  · rw [fire_of_ne hm]
    cases m with
    | engine e q => rfl
    | worker d q => rfl
    | train r' q =>
      simp only [count, setTrain_train]
      split_ifs with hq hr
      · subst hr
        have hleft := h q hq
        rw [if_neg (fun heq => hm (by rw [TrainPhase.index_inj.mp heq]))] at hleft
        exact hleft
      · rfl
      · rfl

theorem count_setEngine {e : ℕ} {engine : EngineState} {p : EnginePhase}
    (h : ∀ q : EnginePhase, left engine.step engine.phase.index q.index =
      left (s.engine e).step (s.engine e).phase.index q.index + if q.index = p.index then 1 else 0) :
    (s.setEngine e engine).count = fire s.count (.engine e p) := by
  funext m
  by_cases hm : m = .engine e p
  · subst hm
    have hleft := h p
    rw [if_pos rfl] at hleft
    rw [fire_self]
    simp only [count, setEngine_engine, ↓reduceIte, hleft]
  · rw [fire_of_ne hm]
    cases m with
    | train r q => rfl
    | worker d q => rfl
    | engine e' q =>
      simp only [count, setEngine_engine]
      split_ifs with he
      · subst he
        have hleft := h q
        rw [if_neg (fun heq => hm (by rw [EnginePhase.index_inj.mp heq]))] at hleft
        exact hleft
      · rfl

theorem count_setWorker {d : ℕ} {worker : WorkerState} {p : WorkerPhase}
    (h : ∀ q : WorkerPhase, left worker.step worker.phase.index q.index =
      left (s.worker d).step (s.worker d).phase.index q.index + if q.index = p.index then 1 else 0) :
    (s.setWorker d worker).count = fire s.count (.worker d p) := by
  have hworker : ∀ d', (s.setWorker d worker).worker d' = if d' = d then worker else s.worker d' := by
    intro d'
    simp [setWorker, Function.update_apply]
  funext m
  by_cases hm : m = .worker d p
  · subst hm
    have hleft := h p
    rw [if_pos rfl] at hleft
    rw [fire_self]
    simp only [count, hworker, ↓reduceIte, hleft]
  · rw [fire_of_ne hm]
    cases m with
    | train r q => rfl
    | engine e q => rfl
    | worker d' q =>
      simp only [count, hworker]
      split_ifs with hd
      · subst hd
        have hleft := h q
        rw [if_neg (fun heq => hm (by rw [WorkerPhase.index_inj.mp heq]))] at hleft
        exact hleft
      · rfl

end StepState

end Awex
